import UsageLedger.Proofs.Conservation

/-!
Counter resets. The path that sees a counter fall goes on from the level it fell to. The other path
still has the higher level as its baseline, and what the counter gains below that level until this
path reads it first is never credited.
-/

namespace UsageLedger

/-- The path not taken. -/
def Path.other : Path → Path
  | .tick => .copyAll
  | .copyAll => .tick

theorem Path.other_ne (path : Path) : path.other ≠ path := by cases path <;> decide

theorem Path.eq_other {path next : Path} (h : next ≠ path) : next = path.other := by
  cases path <;> cases next <;> first | rfl | contradiction

/-- The entity is neither isolated nor the parent of an isolated one. -/
def Isolation.Lone (isolation : Isolation) (entity : Nat) : Prop :=
  ¬ isolation.IsChild entity ∧ isolation.childrenOf entity = []

instance (isolation : Isolation) (entity : Nat) : Decidable (isolation.Lone entity) :=
  inferInstanceAs (Decidable (_ ∧ _))

theorem Isolation.Lone.ownerOf_eq_iff {isolation : Isolation} {entity : Nat}
    (lone : isolation.Lone entity) (source : Nat) :
    isolation.ownerOf source = entity ↔ source = entity := by
  have own := (isolation.parentOf_eq_none_iff entity).mpr lone.1
  constructor
  · intro owner
    unfold ownerOf at owner
    cases parent : isolation.parentOf source with
    | none => simpa [parent] using owner
    | some parent' =>
      have child : source ∈ isolation.childrenOf entity := by
        rw [isolation.mem_childrenOf, parent]
        simpa [parent] using owner
      rw [lone.2] at child
      contradiction
  · rintro rfl
    rw [ownerOf, own]
    rfl

/-- What the other path misses when it first reads a counter, if it counts from a stale level. -/
def missedAt (path : Path) (stale : Nat) : Nat → List (Path × Nat) → Nat
  | _, [] => 0
  | level, (next, value) :: shown =>
    if next = path then missedAt path stale value shown else min value stale - level

/-- The value shown last, or the level before. -/
def lastFrom (level : Nat) (shown : List (Path × Nat)) : Nat :=
  (shown.map Prod.snd).getLastD level

theorem lastFrom_cons (level : Nat) (first : Path × Nat) (shown : List (Path × Nat)) :
    lastFrom level (first :: shown) = lastFrom first.2 shown := by
  rw [lastFrom, List.map_cons, List.getLastD_cons, lastFrom]

theorem lastFrom_concat (level : Nat) (shown : List (Path × Nat)) (last : Path × Nat) :
    lastFrom level (shown ++ [last]) = last.2 := by
  rw [lastFrom, List.map_append, List.map_singleton, List.getLastD_concat]

theorem missedAt_own {path : Path} {stale level : Nat} {shown : List (Path × Nat)}
    (own : ∀ reading ∈ shown, reading.1 = path) : missedAt path stale level shown = 0 := by
  induction shown generalizing level with
  | nil => rfl
  | cons first shown ih =>
    obtain ⟨head, tail⟩ := List.forall_mem_cons.mp own
    rw [missedAt, if_pos head]
    exact ih tail

/-- The first reading on the other path misses what it has gained below the stale level. -/
theorem missedAt_concat_other {path next : Path} {stale level value : Nat}
    {shown : List (Path × Nat)} (own : ∀ reading ∈ shown, reading.1 = path) (ne : next ≠ path) :
    missedAt path stale level (shown ++ [(next, value)]) =
      min value stale - lastFrom level shown := by
  induction shown generalizing level with
  | nil =>
    rw [List.nil_append, missedAt, if_neg ne]
    rfl
  | cons first shown ih =>
    obtain ⟨head, tail⟩ := List.forall_mem_cons.mp own
    rw [List.cons_append, missedAt, if_pos head, ih tail, lastFrom_cons]

/-- Nothing more is missed on the path itself, nor after the first reading on the other one. -/
theorem missedAt_concat_own {path next : Path} {stale level value : Nat}
    {shown : List (Path × Nat)} (h : next = path ∨ ∃ reading ∈ shown, reading.1 ≠ path) :
    missedAt path stale level (shown ++ [(next, value)]) = missedAt path stale level shown := by
  induction shown generalizing level with
  | nil =>
    rcases h with own | ⟨reading, mem, -⟩
    · simp [missedAt, own]
    · simp at mem
  | cons first shown ih =>
    rw [List.cons_append, missedAt, missedAt]
    split
    next head =>
      apply ih
      rcases h with own | ⟨reading, mem, ne⟩
      · exact .inl own
      · rcases List.mem_cons.mp mem with rfl | mem
        · contradiction
        · exact .inr ⟨reading, mem, ne⟩
    next => rfl

/-- The values that an entity showed at one frequency, each with the path that read it. -/
def shownAt (readings : List Reading) (entity i : Nat) : List (Path × Nat) :=
  (readings.filter fun reading => reading.source = entity).map fun reading =>
    (reading.path, reading.level.amountAt i)

theorem shownAt_append (readings later : List Reading) (entity i : Nat) :
    shownAt (readings ++ later) entity i = shownAt readings entity i ++ shownAt later entity i := by
  rw [shownAt, List.filter_append, List.map_append]
  rfl

namespace Session

variable {μ : Type} [Meter μ]

section Settles

variable {path : Path} {taken settled : List Reading} {before after : Session μ} {entity : Nat}

/-- A settlement that does not read an entity leaves its usage and its levels alone. -/
structure Spares (before after : Session μ) (entity : Nat) : Prop where
  accounted : after.ledger.accounted.get? entity = before.ledger.accounted.get? entity
  baselines (path : Path) :
    (after.baselines path).last? entity = (before.baselines path).last? entity
  usage (i : Nat) : after.ledger.store.usageAt entity i = before.ledger.store.usageAt entity i

/-- A settlement that reads an entity credits what lies above the baseline and the accounted level,
and moves both up to the level it read. -/
structure Credits (path : Path) (level : Measure) (before after : Session μ) (entity : Nat) :
    Prop where
  accounted : after.ledger.accounted.get? entity = some level
  own : (after.baselines path).last? entity = some level
  other : (after.baselines path.other).last? entity = (before.baselines path.other).last? entity
  usage (i : Nat) : after.ledger.store.usageAt entity i =
    before.ledger.store.usageAt entity i + (level.amountAt i -
      max ((before.baselines path).levelAt entity i) (before.ledger.accountedAt entity i))

theorem Settles.mem_settled_of_lone (h : before.Settles path taken settled after)
    (lone : before.ledger.isolation.Lone entity) {reading : Reading} (mem : reading ∈ taken)
    (own : reading.source = entity) (width : reading.level.length = before.ledger.store.width) :
    reading ∈ settled := by
  by_contra rest
  rcases h.unsettled reading mem rest with ⟨wrong, mem', owner, bad⟩ | ⟨-, parent, child, -⟩
  · have same : wrong.source = reading.source := by
      rw [own, (lone.ownerOf_eq_iff entity).mpr rfl, lone.ownerOf_eq_iff] at owner
      rw [owner, own]
    have eq := List.inj_on_of_nodup_map h.distinct mem' mem same
    exact bad (eq ▸ width)
  · have none := (before.ledger.isolation.parentOf_eq_none_iff entity).mpr lone.1
    rw [own, none] at child
    contradiction

theorem Settles.usageAt_of_lone (h : before.Settles path taken settled after)
    (lone : before.ledger.isolation.Lone entity) (i : Nat) :
    after.ledger.store.usageAt entity i = before.ledger.store.usageAt entity i +
      gainAt ((settled.filter fun reading => reading.source = entity).map
        (before.ledger.credit (before.baselines path))) i := by
  have owned : settled.filter ((fun part : Nat × Contribution => decide (part.1 = entity)) ∘
      fun reading => (before.ledger.isolation.ownerOf reading.source,
        before.ledger.credit (before.baselines path) reading)) =
      settled.filter fun reading => reading.source = entity := by
    apply List.filter_congr
    intro reading _
    simp [lone.ownerOf_eq_iff]
  rw [h.credited.usage, Ledger.shareOf, List.filter_map, List.map_map, owned]
  rfl

/-- What a settlement does to a lone entity, of which it reads right levels only. -/
theorem Settles.lone_cases (h : before.Settles path taken settled after)
    (lone : before.ledger.isolation.Lone entity)
    (widths : ∀ reading ∈ taken, reading.source = entity →
      reading.level.length = before.ledger.store.width) :
    (taken.filter fun reading => reading.source = entity) = [] ∧ Spares before after entity ∨
    ∃ level, (taken.filter fun reading => reading.source = entity) = [⟨path, entity, level⟩] ∧
      Credits path level before after entity := by
  by_cases read : ∃ reading ∈ taken, reading.source = entity
  · obtain ⟨reading, mem, own⟩ := read
    have settled_mem := h.mem_settled_of_lone lone mem own (widths reading mem own)
    have reading_eq : reading = ⟨path, entity, reading.level⟩ := by
      rw [← own, ← h.via reading mem]
    refine .inr ⟨reading.level, ?_, ?_, ?_, ?_, ?_⟩
    · rw [← own, filter_source_of_mem h.distinct mem, own, ← reading_eq]
    · rw [← own]
      exact h.get?_accounted_of_mem settled_mem
    · rw [← own]
      exact h.last reading mem (widths reading mem own)
    · rw [h.other path.other path.other_ne]
    · intro i
      rw [h.usageAt_of_lone lone, ← own, filter_source_of_mem h.once settled_mem,
        ← before.ledger.amountAt_credit_gain]
      rfl
  · have absent : ∀ reading ∈ taken, reading.source ≠ entity :=
      fun reading mem own => read ⟨reading, mem, own⟩
    have unpaid : ∀ reading ∈ settled, reading.source ≠ entity :=
      fun reading mem => absent reading (h.among reading mem)
    refine .inl ⟨filter_source_of_absent absent, h.get?_accounted_of_not_mem unpaid, ?_, ?_⟩
    · intro next
      by_cases same : next = path
      · subst same
        exact h.kept entity absent
      · rw [h.other next same]
    · intro i
      rw [h.usageAt_of_lone lone, filter_source_of_absent unpaid]
      rfl

end Settles

/-- The readings of the entity have the right width and never fall, starting from a level. -/
structure Resumes (width level entity i : Nat) (later : List Reading) : Prop where
  widths : ∀ reading ∈ later, reading.source = entity → reading.level.length = width
  rising : (level :: (shownAt later entity i).map Prod.snd).Pairwise (· ≤ ·)

theorem Resumes.of_append {width level entity i : Nat} {later next : List Reading}
    (h : Resumes width level entity i (later ++ next)) : Resumes width level entity i later where
  widths reading mem := h.widths reading (List.mem_append_left _ mem)
  rising := by
    have rising := h.rising
    rw [shownAt_append, List.map_append, ← List.cons_append] at rising
    exact (List.pairwise_append.mp rising).1

/-- The level reached lies nowhere above a value shown later. -/
theorem Resumes.lastFrom_le {width level entity i : Nat} {later next : List Reading}
    (h : Resumes width level entity i (later ++ next)) {shown : Path × Nat}
    (mem : shown ∈ shownAt next entity i) :
    lastFrom level (shownAt later entity i) ≤ shown.2 := by
  have rising := h.rising
  rw [shownAt_append, List.map_append, ← List.cons_append] at rising
  exact (List.pairwise_append.mp rising).2.2 _ List.getLastD_mem_cons _
    (List.mem_map_of_mem mem)

/-- How a session stands to what an entity has shown since it was read at a level. -/
structure Tracks (start : Session μ) (path : Path) (entity i level stale : Nat)
    (session : Session μ) (shown : List (Path × Nat)) : Prop where
  accounted : session.ledger.accountedAt entity i = lastFrom level shown
  own : (session.baselines path).levelAt entity i ≤ lastFrom level shown
  behind : (∀ reading ∈ shown, reading.1 = path) →
    (session.baselines path.other).levelAt entity i = stale
  caughtUp : (∃ reading ∈ shown, reading.1 ≠ path) →
    (session.baselines path.other).levelAt entity i ≤ lastFrom level shown
  above : level ≤ lastFrom level shown
  usage : session.ledger.store.usageAt entity i + missedAt path stale level shown =
    start.ledger.store.usageAt entity i + (lastFrom level shown - level)

section Tracks

variable {start before after : Session μ} {path next : Path} {entity i level stale : Nat}
  {shown : List (Path × Nat)}

theorem Tracks.spares (h : Tracks start path entity i level stale before shown)
    (spares : Spares before after entity) :
    Tracks start path entity i level stale after shown where
  accounted := by
    rw [Ledger.accountedAt, spares.accounted]
    exact h.accounted
  own := by
    rw [Baselines.levelAt, spares.baselines]
    exact h.own
  behind own := by
    rw [Baselines.levelAt, spares.baselines]
    exact h.behind own
  caughtUp read := by
    rw [Baselines.levelAt, spares.baselines]
    exact h.caughtUp read
  above := h.above
  usage := by
    rw [spares.usage]
    exact h.usage

/-- A reading on the path itself is credited in full. -/
theorem Tracks.credits_own (h : Tracks start path entity i level stale before shown)
    {top : Measure} (credits : Credits path top before after entity)
    (rises : lastFrom level shown ≤ top.amountAt i) :
    Tracks start path entity i level stale after (shown ++ [(path, top.amountAt i)]) := by
  have last := lastFrom_concat level shown (path, top.amountAt i)
  have above := h.above
  refine ⟨?_, ?_, ?_, ?_, ?_, ?_⟩
  · rw [Ledger.accountedAt, credits.accounted, last]
    rfl
  · rw [Baselines.levelAt, credits.own, last]
    exact Nat.le_refl _
  · intro own
    rw [Baselines.levelAt, credits.other]
    exact h.behind fun reading mem => own reading (List.mem_append_left _ mem)
  · rintro ⟨reading, mem, ne⟩
    rcases List.mem_append.mp mem with mem | mem
    · rw [Baselines.levelAt, credits.other, last]
      exact Nat.le_trans (h.caughtUp ⟨reading, mem, ne⟩) rises
    · rw [List.mem_singleton.mp mem] at ne
      contradiction
  · rw [last]
    exact Nat.le_trans above rises
  · have usage := h.usage
    have own := h.own
    rw [missedAt_concat_own (.inl rfl), credits.usage, last, h.accounted]
    simp only
    omega

/-- The first reading on the other path loses what the stale level hides. -/
theorem Tracks.credits_other (h : Tracks start path entity i level stale before shown)
    {top : Measure} (credits : Credits path.other top before after entity)
    (rises : lastFrom level shown ≤ top.amountAt i) :
    Tracks start path entity i level stale after (shown ++ [(path.other, top.amountAt i)]) := by
  have last := lastFrom_concat level shown (path.other, top.amountAt i)
  have above := h.above
  have back : path.other.other = path := by cases path <;> rfl
  refine ⟨?_, ?_, ?_, ?_, ?_, ?_⟩
  · rw [Ledger.accountedAt, credits.accounted, last]
    rfl
  · have kept := credits.other
    rw [back] at kept
    rw [Baselines.levelAt, kept, last]
    exact Nat.le_trans h.own rises
  · intro own
    exact absurd (own _ (List.mem_append_right _ List.mem_cons_self)) path.other_ne
  · intro _
    rw [Baselines.levelAt, credits.own, last]
    exact Nat.le_refl _
  · rw [last]
    exact Nat.le_trans above rises
  · have usage := h.usage
    rw [credits.usage, last, h.accounted]
    -- Only the first reading on this path falls short; its baseline has caught up after that.
    by_cases own : ∀ reading ∈ shown, reading.1 = path
    · have none : missedAt path stale level shown = 0 := missedAt_own own
      rw [missedAt_concat_other own path.other_ne, h.behind own]
      simp only
      omega
    · obtain ⟨reading, mem, ne⟩ : ∃ reading ∈ shown, reading.1 ≠ path := by simpa using own
      have caughtUp := h.caughtUp ⟨reading, mem, ne⟩
      rw [missedAt_concat_own (.inr ⟨reading, mem, ne⟩)]
      simp only
      omega

theorem Tracks.settles {width : Nat} {later taken settled : List Reading}
    (h : Tracks start path entity i level stale before (shownAt later entity i))
    (settles : before.Settles next taken settled after)
    (lone : before.ledger.isolation.Lone entity) (ofWidth : before.ledger.store.width = width)
    (resumes : Resumes width level entity i (later ++ taken)) :
    Tracks start path entity i level stale after (shownAt (later ++ taken) entity i) := by
  have widths : ∀ reading ∈ taken, reading.source = entity →
      reading.level.length = before.ledger.store.width := by
    intro reading mem own
    rw [ofWidth]
    exact resumes.widths reading (List.mem_append_right _ mem) own
  rw [shownAt_append]
  rcases settles.lone_cases lone widths with ⟨none, spares⟩ | ⟨top, one, credits⟩
  · have nothing : shownAt taken entity i = [] := by rw [shownAt, none]; rfl
    rw [nothing, List.append_nil]
    exact h.spares spares
  · have shown : shownAt taken entity i = [(next, top.amountAt i)] := by rw [shownAt, one]; rfl
    have rises := resumes.lastFrom_le (shown ▸ List.mem_singleton_self _)
    rw [shown]
    by_cases own : next = path
    · subst own
      exact h.credits_own credits rises
    · have eq := Path.eq_other own
      subst eq
      exact h.credits_other credits rises

end Tracks

/-- The session has the width, and follows the entity as long as its readings resume. -/
def Follows (start : Session μ) (path : Path) (width entity i level stale : Nat)
    (session : Session μ) : Prop :=
  session.ledger.store.width = width ∧ ∃ later, session.readings = start.readings ++ later ∧
    (Resumes width level entity i later →
      Tracks start path entity i level stale session (shownAt later entity i))

/-- The entity is lone, and the reader keeps its baselines. -/
def Steady (entity : Nat) (session : Session μ) (call : Call μ) : Prop :=
  session.ledger.isolation.Lone entity ∧
    match call with
    | .meter meter => Gauge.baselines meter = Gauge.baselines session.meter
    | _ => True

instance (entity : Nat) (session : Session μ) : (call : Call μ) →
    Decidable (session.Steady entity call)
  | .notice _ => inferInstanceAs (Decidable (_ ∧ True))
  | .meter _ => inferInstanceAs (Decidable (_ ∧ _ = _))
  | .update _ _ => inferInstanceAs (Decidable (_ ∧ True))

/-- The update read the entity, the last time at this level. -/
def Reads (path : Path) (entity : Nat) (level : Measure) (before after : Session μ) : Prop :=
  ∃ taken, after.readings = before.readings ++ taken ∧
    (taken.filter fun reading => reading.source = entity).getLast? = some ⟨path, entity, level⟩ ∧
    ∀ reading ∈ taken, reading.source = entity →
      reading.level.length = before.ledger.store.width

variable {start session : Session μ} {path : Path} {width entity i level stale : Nat}

theorem Follows.congr {other : Session μ}
    (h : Follows start path width entity i level stale session)
    (books : other.ledger.SameBooks session.ledger) (readings : other.readings = session.readings)
    (baselines : Gauge.baselines other.meter = Gauge.baselines session.meter) :
    Follows start path width entity i level stale other := by
  obtain ⟨ofWidth, later, split, tracks⟩ := h
  refine ⟨by rw [books.store, ofWidth], later, readings.trans split, ?_⟩
  intro resumes
  have same := baselines_congr books baselines
  apply (tracks resumes).spares
  exact ⟨by rw [books.accounted], fun path => by rw [same], fun i => by rw [books.store]⟩

theorem Follows.settlements {next : Path} {after : Session μ}
    (h : Follows start path width entity i level stale session)
    (settlements : Settlements next session after)
    (lone : session.ledger.isolation.Lone entity) :
    Follows start path width entity i level stale after := by
  induction settlements with
  | start => exact h
  | @next before after taken settled earlier settles ih =>
    obtain ⟨ofWidth, later, split, tracks⟩ := ih
    have still : before.ledger.isolation.Lone entity := earlier.isolation_eq.symm ▸ lone
    refine ⟨settles.credited.width.trans ofWidth, later ++ taken, ?_, ?_⟩
    · rw [settles.readings, split, List.append_assoc]
    · intro resumes
      exact (tracks resumes.of_append).settles settles still ofWidth resumes

/-- A lone entity that was read is accounted for up to the level last read. -/
theorem Settlements.reads {after : Session μ} {top : Measure}
    (settlements : Settlements path session after) (lone : session.ledger.isolation.Lone entity)
    (reads : Reads path entity top session after) :
    after.ledger.accounted.get? entity = some top ∧
      (after.baselines path).last? entity = some top := by
  obtain ⟨taken, split, last, widths⟩ := reads
  induction settlements generalizing taken top with
  | start =>
    have none : taken = [] := by simpa using split
    simp [none] at last
  | @next before after new settled earlier settles ih =>
    obtain ⟨former, split'⟩ := earlier.readings_le
    have eq : taken = former ++ new := by
      rw [settles.readings, ← split', List.append_assoc] at split
      exact (List.append_cancel_left split).symm
    subst eq
    have still : before.ledger.isolation.Lone entity := earlier.isolation_eq.symm ▸ lone
    have right : ∀ reading ∈ new, reading.source = entity →
        reading.level.length = before.ledger.store.width := by
      intro reading mem
      rw [earlier.width_eq]
      exact widths reading (List.mem_append_right _ mem)
    rw [List.filter_append] at last
    rcases settles.lone_cases still right with ⟨none, spares⟩ | ⟨level, one, credits⟩
    · rw [none, List.append_nil] at last
      rw [spares.accounted, spares.baselines]
      exact ih former split'.symm last
        fun reading mem => widths reading (List.mem_append_left _ mem)
    · rw [one, List.getLast?_concat] at last
      cases last
      exact ⟨credits.accounted, credits.own⟩

variable [LawfulMeter μ]

theorem Follows.run {calls : List (Call μ)}
    (h : Follows start path width entity i level stale session)
    (steady : Admits (Steady entity) session calls) :
    Follows start path width entity i level stale (session.run calls) := by
  apply steady.induction h
  rintro session call ⟨lone, kept⟩ follows
  cases call with
  | notice notice => exact follows.congr (session.ledger.notice_sameBooks notice) rfl rfl
  | meter meter => exact follows.congr ⟨rfl, rfl, rfl⟩ rfl kept
  | update path time =>
    exact follows.settlements (session.update_settlements path time) lone

/-- After a lone entity was read at some level, on either path, its usage grows as its counter does,
less what the other path misses; so it grows in full if and only if that path misses nothing. -/
theorem usageAt_after_reset {calls : List (Call μ)} {later : List Reading} {reset : Measure}
    {time : Nat} (lone : session.ledger.isolation.Lone entity)
    (reads : Reads path entity reset session (session.update path time))
    (steady : Admits (Steady entity) (session.update path time) calls)
    (split : ((session.update path time).run calls).readings =
      (session.update path time).readings ++ later)
    (resumes : Resumes session.ledger.store.width (reset.amountAt i) entity i later) :
    let committed := session.update path time
    let final := committed.run calls
    let last := lastFrom (reset.amountAt i) (shownAt later entity i)
    let missed := missedAt path ((committed.baselines path.other).levelAt entity i)
      (reset.amountAt i) (shownAt later entity i)
    final.ledger.accountedAt entity i = last ∧
      final.ledger.store.usageAt entity i + missed =
        committed.ledger.store.usageAt entity i + (last - reset.amountAt i) ∧
      (final.ledger.store.usageAt entity i =
        committed.ledger.store.usageAt entity i + (last - reset.amountAt i) ↔ missed = 0) := by
  intro committed final last missed
  have settlements := session.update_settlements path time
  obtain ⟨accounted, own⟩ := settlements.reads lone reads
  have ofWidth : committed.ledger.store.width = session.ledger.store.width :=
    settlements.width_eq
  have tracks : Tracks committed path entity i (reset.amountAt i)
      ((committed.baselines path.other).levelAt entity i) committed [] := by
    refine ⟨?_, ?_, fun _ => rfl, by simp, Nat.le_refl _, ?_⟩
    · rw [Ledger.accountedAt, accounted]
      rfl
    · rw [Baselines.levelAt, own]
      exact Nat.le_refl _
    · rw [missedAt, lastFrom, List.map_nil, List.getLastD_nil, Nat.sub_self]
  have follows : Follows committed path session.ledger.store.width entity i (reset.amountAt i)
      ((committed.baselines path.other).levelAt entity i) committed :=
    ⟨ofWidth, [], (List.append_nil _).symm, fun _ => tracks⟩
  obtain ⟨-, later', split', tracked⟩ := follows.run steady
  have same : later' = later := List.append_cancel_left (split'.symm.trans split)
  subst same
  have result := tracked resumes
  have usage : final.ledger.store.usageAt entity i + missed =
      committed.ledger.store.usageAt entity i + (last - reset.amountAt i) := result.usage
  exact ⟨result.accounted, usage, by omega⟩

/-- A meter that shows one entity at the level on both paths. -/
def showing (level : Measure) (baselines : Baselines) : ScriptedMeter where
  levels := .ofList [(1, level)]
  bulk := some (.ofList [(1, level)])
  baselines

/-- The session after both paths have read the entity at a level. -/
def readTwice (level : Measure) : Session ScriptedMeter :=
  let width := level.length
  run { ledger := { config := { vectorLen := width }, store := { width } }, meter := {} }
    [.notice (.classify 1 .top), .meter (showing level {}), .update .tick 10,
      .update .copyAll 10]

/-- One frequency has fallen and the other has risen since both paths read the entity. -/
def fallen : Session ScriptedMeter :=
  let session := readTwice [50, 3]
  { session with meter := showing [4, 5] (Gauge.baselines session.meter) }

/-- A tick reads on, and then a copy does. -/
def readOn : List (Call ScriptedMeter) :=
  let former : Baselines := ⟨.ofList [(1, ⟨[50, 3], 10⟩)]⟩
  [.meter (showing [9, 6] former), .update .tick 30,
    .meter (showing [60, 8] (former.record 1 [9, 6] 30)), .update .copyAll 40]

/-- A copy sees the first frequency fallen. The tick after it misses what this frequency has gained,
but nothing of the other one. -/
theorem usageAt_after_reset_partial :
    ((fallen.update .copyAll 20).run readOn).ledger.store.usageAt 1 0 ≠
        (fallen.update .copyAll 20).ledger.store.usageAt 1 0 + (60 - 4) ∧
      ((fallen.update .copyAll 20).run readOn).ledger.store.usageAt 1 1 =
        (fallen.update .copyAll 20).ledger.store.usageAt 1 1 + (8 - 5) := by
  have lone : fallen.ledger.isolation.Lone 1 := by decide +kernel
  have reads : Reads .copyAll 1 [4, 5] fallen (fallen.update .copyAll 20) :=
    ⟨[⟨.copyAll, 1, [4, 5]⟩], by decide +kernel, by decide, by decide⟩
  have steady : Admits (Steady 1) (fallen.update .copyAll 20) readOn := by decide +kernel
  have split : ((fallen.update .copyAll 20).run readOn).readings =
      (fallen.update .copyAll 20).readings ++
        [⟨.tick, 1, [9, 6]⟩, ⟨.copyAll, 1, [60, 8]⟩] := by
    decide +kernel
  have falls := (usageAt_after_reset (i := 0) lone reads steady split
    ⟨by decide +kernel, by decide +kernel⟩).2.2
  have rises := (usageAt_after_reset (i := 1) lone reads steady split
    ⟨by decide +kernel, by decide +kernel⟩).2.2
  exact ⟨mt falls.mp (by decide +kernel), rises.mpr (by decide +kernel)⟩

/-- After a tick has read a counter that fell from 50 to 4, a copy that reads it at 9 credits
nothing. -/
theorem usageAt_not_resumed :
    let read := readTwice [50]
    let session := { read with meter := showing [4] (Gauge.baselines read.meter) }
    let committed := session.update .tick 20
    let calls : List (Call ScriptedMeter) :=
      [.meter (showing [9] (Gauge.baselines committed.meter)), .update .copyAll 30]
    let final := committed.run calls
    let later : List Reading := [⟨.copyAll, 1, [9]⟩]
    session.ledger.isolation.Lone 1 ∧ Reads .tick 1 [4] session committed ∧
      Admits (Steady 1) committed calls ∧ final.readings = committed.readings ++ later ∧
      Resumes 1 4 1 0 later ∧ final.ledger.accounted.get? 1 = some [9] ∧
      final.ledger.store.usageAt 1 0 ≠ committed.ledger.store.usageAt 1 0 + (9 - 4) := by
  intro read session committed calls final later
  have reads : Reads .tick 1 [4] session committed :=
    ⟨[⟨.tick, 1, [4]⟩], by decide +kernel, by decide, by decide⟩
  have resumes : Resumes 1 4 1 0 later := ⟨by decide, by decide⟩
  exact ⟨by decide +kernel, reads, by decide +kernel, by decide +kernel, resumes,
    by decide +kernel, by decide +kernel⟩

end Session

end UsageLedger
