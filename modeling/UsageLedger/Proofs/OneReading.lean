import UsageLedger.Proofs.Families

/-!
Updates that read one source of a family: what becomes of its books and of the baseline that its
next gain is counted from.
-/

namespace UsageLedger

namespace ScriptedMeter

/-- What the meter shows of a source, and the level it counts its gain from. -/
def view (meter : ScriptedMeter) (source : Nat) : Option Measure × Option Measure :=
  (meter.levels.get? source, meter.baselines.last? source)

/-- Reading a source moves its baseline, and nothing else. -/
theorem readGain_frame (meter : ScriptedMeter) (source time : Nat) :
    (Meter.readGain meter source time).2.levels = meter.levels ∧
      (Meter.readGain meter source time).2.bulk = meter.bulk ∧
      ∀ other, (Meter.readGain meter source time).2.baselines.samples.get? other =
        if other = source then
          ((meter.levels.get? source).map fun level => (⟨level, time⟩ : Sample)).or
            (meter.baselines.samples.get? other)
        else meter.baselines.samples.get? other := by
  rw [readGain_eq]
  cases meter.levels.get? source with
  | none => exact ⟨rfl, rfl, fun other => (ite_self _).symm⟩
  | some level =>
    refine ⟨rfl, rfl, fun other => ?_⟩
    simp only [Baselines.record, Table.get?_insert]
    split <;> rfl

theorem AgreeOn.view {sources : List Nat} {first second : ScriptedMeter}
    (h : AgreeOn sources first second) {source : Nat} (mem : source ∈ sources) :
    first.view source = second.view source :=
  Prod.ext (h.levels source mem) (h.last? mem)

theorem view_readGain_self (meter : ScriptedMeter) (source time : Nat) :
    (Meter.readGain meter source time).2.view source =
      (meter.levels.get? source, (meter.levels.get? source).or (meter.baselines.last? source)) := by
  obtain ⟨levels, -, samples⟩ := meter.readGain_frame source time
  unfold view Baselines.last?
  rw [levels, samples, if_pos rfl]
  cases meter.levels.get? source <;> rfl

theorem view_readGain_of_ne {source entity : Nat} (meter : ScriptedMeter) (ne : source ≠ entity)
    (time : Nat) : (Meter.readGain meter source time).2.view entity = meter.view entity := by
  obtain ⟨levels, -, samples⟩ := meter.readGain_frame source time
  unfold view Baselines.last?
  rw [levels, samples, if_neg (Ne.symm ne)]

end ScriptedMeter

namespace Store

theorem usageAt_congr {store other : Store} {entity : Nat}
    (cells : ∀ row column, store.cell? entity row column = other.cell? entity row column)
    (i : Nat) :
    store.usageAt entity i = other.usageAt entity i := by
  unfold usageAt
  simp only [cells]

end Store

namespace Ledger

variable {ledger : Ledger} {meter : ScriptedMeter} {entity : Nat} {level : Measure}

theorem gather_unread (ledger : Ledger) (time : Nat) (shown : meter.levels.get? entity = none) :
    ledger.gather meter entity time =
      (.unavailable, (Meter.readGain meter entity time).2) := by
  rw [gather, ScriptedMeter.readGain_eq, shown]

theorem gather_rejected (time : Nat) (shown : meter.levels.get? entity = some level)
    (wrong : level.length ≠ ledger.store.width) :
    ledger.gather meter entity time =
      (.failed .computingDeltas (.width entity ledger.store.width level.length),
        (Meter.readGain meter entity time).2) := by
  have check := checkWidth_gain ledger.store meter.baselines entity level
  rw [if_neg wrong] at check
  rw [gather, ScriptedMeter.readGain_eq, shown]
  simp only [check]

theorem gatherChildren_unread (ledger : Ledger) (time : Nat) {children : List Nat}
    (unread : ∀ child ∈ children, meter.levels.get? child = none) :
    ledger.gatherChildren time children meter = (.ok [], meter) := by
  induction children with
  | nil => rfl
  | cons child rest ih =>
    obtain ⟨first, later⟩ := List.forall_mem_cons.mp unread
    rw [gatherChildren, ScriptedMeter.readGain_eq, first]
    exact ih later

theorem gather_accepted (time : Nat) (shown : meter.levels.get? entity = some level)
    (right : level.length = ledger.store.width) :
    ledger.gather meter entity time =
      match ledger.gatherChildren time (ledger.isolation.childrenOf entity)
          (Meter.readGain meter entity time).2 with
      | (.error fault, after) => (.failed .merging fault, after)
      | (.ok parts, after) =>
        (.complete (ledger.credit meter.baselines ⟨.tick, entity, level⟩ :: parts), after) := by
  have check := checkWidth_gain ledger.store meter.baselines entity level
  rw [if_pos right] at check
  let reading : Reading := ⟨.tick, entity, level⟩
  let after : ScriptedMeter :=
    { meter with baselines := meter.baselines.record entity level time }
  have read : Meter.readGain meter entity time =
      (some (meter.baselines.gain entity level), after) := by
    rw [ScriptedMeter.readGain_eq, shown]
  have last : (Gauge.baselines after).last? reading.source = some reading.level := by
    exact meter.baselines.last?_record_self entity level time
  have part := ledger.contribution_eq_credit meter.baselines last
  rw [gather, read]
  simp only [check]
  rw [part]
  generalize ledger.gatherChildren time (ledger.isolation.childrenOf entity) after = gathered
  obtain ⟨parts, final⟩ := gathered
  cases parts <;> rfl

theorem AgreeOn.usageAt {sources : List Nat} {first second : Ledger}
    (h : AgreeOn sources first second) (mem : entity ∈ sources) (i : Nat) :
    first.store.usageAt entity i = second.store.usageAt entity i :=
  Store.usageAt_congr (h.cells entity mem) i

/-- What a tick does to a known entity and to its meter is done in the entity's turn. -/
theorem tick_turn (consistent : ledger.Consistent) (known : entity ∈ ledger.standing)
    (meter : ScriptedMeter) (time : Nat) :
    ∃ reached : Round ScriptedMeter, reached.ledger.isolation = ledger.isolation ∧
      AgreeOn (ledger.isolation.family entity) ledger reached.ledger ∧
      ScriptedMeter.AgreeOn (ledger.isolation.family entity) meter reached.meter ∧
      Round.AgreeOn (ledger.isolation.family entity) entity (reached.tickEntity time entity)
        (ledger.tick meter time) := by
  have spares := Round.spares_tickEntity time (consistent.known entity known)
  let round : Round ScriptedMeter := { ledger, meter }
  have start : round.ledger.isolation = ledger.isolation := rfl
  obtain ⟨reached, scene, before, after⟩ := spares.foldl_turn start ledger.targets_nodup
    (fun other mem => not_isChild_of_mem_targets mem) (mem_targets consistent known)
  exact ⟨reached, scene, before.ledger, before.meter, after⟩

/-- A tick that gets no right reading of a known entity leaves its books alone, but a wrong reading
is its baseline from then on. -/
theorem tick_unaccepted (consistent : ledger.Consistent) (known : entity ∈ ledger.standing)
    (unaccepted : ∀ level, meter.levels.get? entity = some level →
      level.length ≠ ledger.store.width) (time : Nat) :
    AgreeOn (ledger.isolation.family entity) ledger (ledger.tick meter time).ledger ∧
      (ledger.tick meter time).meter.view entity =
        (meter.levels.get? entity,
          (meter.levels.get? entity).or (meter.baselines.last? entity)) := by
  obtain ⟨reached, -, books, meters, after⟩ := tick_turn consistent known meter time
  have head : entity ∈ ledger.isolation.family entity := List.mem_cons_self
  have levels := meters.levels entity head
  have turn : (reached.tickEntity time entity).ledger = reached.ledger ∧
      (reached.tickEntity time entity).meter = (Meter.readGain reached.meter entity time).2 := by
    unfold Round.tickEntity
    cases shown : reached.meter.levels.get? entity with
    | none =>
      rw [gather_unread _ time shown]
      exact ⟨rfl, rfl⟩
    | some level =>
      have wrong := unaccepted level (levels.trans shown)
      rw [books.width] at wrong
      rw [gather_rejected time shown wrong]
      exact ⟨rfl, rfl⟩
  constructor
  · have same := after.ledger
    rw [turn.1] at same
    exact books.trans same
  · rw [← after.meter.view head, turn.2, ScriptedMeter.view_readGain_self, levels,
      meters.last? head]

/-- A tick that reads a right level of an entity alone credits what lies above its baseline and its
accounted level. -/
theorem tick_alone (consistent : ledger.Consistent) (known : entity ∈ ledger.standing)
    {level : Measure} (shown : meter.levels.get? entity = some level)
    (right : level.length = ledger.store.width)
    (alone : ∀ child ∈ ledger.isolation.childrenOf entity, meter.levels.get? child = none)
    (time i : Nat) :
    (ledger.tick meter time).ledger.store.usageAt entity i =
      ledger.store.usageAt entity i + (level.amountAt i -
        max (meter.baselines.levelAt entity i) (ledger.accountedAt entity i)) := by
  obtain ⟨reached, scene, books, meters, after⟩ := tick_turn consistent known meter time
  have head : entity ∈ ledger.isolation.family entity := List.mem_cons_self
  let reading : Reading := ⟨.tick, entity, level⟩
  let part := reached.ledger.credit reached.meter.baselines reading
  have width : level.length = reached.ledger.store.width := right.trans books.width
  have read : reached.ledger.gather reached.meter entity time =
      (.complete [part], (Meter.readGain reached.meter entity time).2) := by
    have unread : ∀ child ∈ reached.ledger.isolation.childrenOf entity,
        (Meter.readGain reached.meter entity time).2.levels.get? child = none := by
      intro child mem
      rw [scene] at mem
      rw [(reached.meter.readGain_frame entity time).1,
        ← meters.levels child (List.mem_cons_of_mem entity mem)]
      exact alone child mem
    rw [gather_accepted time ((meters.levels entity head).symm.trans shown) width,
      gatherChildren_unread _ time unread]
  have lengths : ∀ other ∈ [part], other.gain.length = reached.ledger.store.width := by
    intro other mem
    rw [List.mem_singleton.mp mem, length_credit_gain]
    exact width
  obtain ⟨settled, done⟩ := commit_isOk entity lengths
  have turn : (reached.tickEntity time entity).ledger = settled := by
    unfold Round.tickEntity Round.commit
    simp only [read, done]
  have gain : gainAt [part] i = level.amountAt i -
      max (meter.baselines.levelAt entity i) (ledger.accountedAt entity i) := by
    have same : part = ledger.credit meter.baselines reading :=
      credit_congr (books.accounted entity head).symm (meters.last? head).symm
    rw [same]
    simp only [gainAt, List.map_cons, List.map_nil, List.sum_cons, List.sum_nil]
    rw [amountAt_credit_gain, Nat.add_zero]
  rw [← after.ledger.usageAt head, turn, (committed_of_commit done).usage, if_pos rfl, gain,
    books.usageAt head]

/-- A single level of a known family is credited to the entity that answers for it. -/
theorem creditedReadings_single (consistent : ledger.Consistent) (known : entity ∈ ledger.standing)
    {source : Nat} (family : source ∈ ledger.isolation.family entity)
    (right : level.length = ledger.store.width) :
    ledger.creditedReadings (Table.insert ∅ source level) = [⟨.copyAll, source, level⟩] := by
  let levels : Table Measure := Table.insert ∅ source level
  let reading : Reading := ⟨.copyAll, source, level⟩
  have only : ∀ other, other ∈ levels.readings → other = reading := by
    intro other mem
    have shown : reading ∈ levels.readings :=
      Table.mem_readings.mpr ⟨rfl, Table.get?_insert_self _ _ _⟩
    apply Table.eq_of_mem_readings mem shown
    have found := (Table.mem_readings.mp mem).2
    rw [Table.get?_insert] at found
    split at found
    next same => exact same
    next => contradiction
  have shared : reading ∈ ledger.sharedReadings levels entity := by
    apply mem_sharedReadings.mpr
    refine ⟨⟨Table.mem_readings.mpr ⟨rfl, Table.get?_insert_self _ _ _⟩, right⟩, ?_⟩
    exact recipient?_of_mem_family consistent known family
  have clean : entity ∉ ledger.spoiled levels := by
    intro spoiled
    obtain ⟨wrong, mem, -, width⟩ := mem_spoiled.mp spoiled
    rw [only wrong mem] at width
    exact width right
  have perm : (ledger.creditedReadings levels).Perm [reading] := by
    apply (List.perm_ext_iff_of_nodup (ledger.creditedReadings_nodup levels)
      (List.nodup_singleton reading)).mpr
    intro other
    rw [List.mem_singleton]
    constructor
    · exact fun mem => only other (read_of_mem_creditedReadings mem).1
    · rintro rfl
      exact mem_creditedReadings.mpr ⟨entity, shared, clean⟩
  exact List.perm_singleton.mp perm

/-- A copy that reads a single right level credits what lies above its baseline and its accounted
level, and accounts for the level. -/
theorem copyAll_single {μ : Type} [Meter μ] (consistent : ledger.Consistent)
    (known : entity ∈ ledger.standing) {source : Nat}
    (family : source ∈ ledger.isolation.family entity) (right : level.length = ledger.store.width)
    {meter after : μ} (shown : Meter.readAll meter = (some (Table.insert ∅ source level), after))
    (time i : Nat) :
    (ledger.copyAll meter time).ledger.store.usageAt entity i =
        ledger.store.usageAt entity i + (level.amountAt i -
          max (ledger.bulkBaselines.levelAt source i) (ledger.accountedAt source i)) ∧
      (ledger.copyAll meter time).ledger.accountedAt source i = level.amountAt i ∧
      (ledger.copyAll meter time).meter = after := by
  have books := ledger.credited_copyAll shown time
  rw [creditedReadings_single consistent known family right, List.map_singleton] at books
  have owner := Isolation.ownerOf_of_mem_family (consistent.known entity known) family
  refine ⟨?_, ?_, ledger.meter_copyAll shown time⟩
  · have gain := ledger.amountAt_credit_gain ledger.bulkBaselines ⟨.copyAll, source, level⟩ i
    rw [books.usage, ← gain]
    simp [shareOf, gainAt, owner]
  · have accounted := books.accounted
    have found : (account ledger.accounted
        [ledger.credit ledger.bulkBaselines ⟨.copyAll, source, level⟩]).get? source = some level :=
      Table.get?_insert_self _ _ _
    unfold accountedAt
    rw [accounted, List.map_singleton, found]
    rfl

end Ledger

end UsageLedger
