import Mathlib.Data.List.Induction
import UsageLedger.Proofs.Totals

namespace UsageLedger

/-- A delta to be recorded in a row of an entity, with the screen on or off. -/
structure Posting where
  entity : Nat
  slot : Slot
  screenOff : Bool
  delta : Measure
deriving DecidableEq, Repr

namespace Measure

/-- What the deltas come to at each of the frequencies. -/
def sums (width : Nat) (deltas : List Measure) : Measure :=
  (List.range width).map fun i => (deltas.map fun delta => delta.amountAt i).sum

/-- The cell that deltas make. Without a delta that is not zero there is none. -/
def cellOf? (width : Nat) (deltas : List Measure) : Option Measure :=
  if ∀ delta ∈ deltas, delta.IsZero then none else some (sums width deltas)

@[simp] theorem length_sums (width : Nat) (deltas : List Measure) :
    (sums width deltas).length = width := by
  simp [sums]

theorem amountAt_sums {width : Nat} {deltas : List Measure}
    (widths : ∀ delta ∈ deltas, delta.length = width) (i : Nat) :
    (sums width deltas).amountAt i = (deltas.map fun delta => delta.amountAt i).sum := by
  by_cases bound : i < width
  · rw [amountAt_eq_getElem (by rwa [length_sums])]
    simp [sums]
  · rw [amountAt_eq_zero (by rw [length_sums]; omega), eq_comm]
    apply List.sum_eq_zero_iff_forall_eq_nat.mpr
    intro amount mem
    obtain ⟨delta, listed, rfl⟩ := List.mem_map.mp mem
    exact amountAt_eq_zero (by rw [widths delta listed]; omega)

theorem isZero_sums {width : Nat} {deltas : List Measure}
    (zeros : ∀ delta ∈ deltas, delta.IsZero) : (sums width deltas).IsZero := by
  intro amount mem
  obtain ⟨i, -, rfl⟩ := List.mem_map.mp mem
  apply List.sum_eq_zero_iff_forall_eq_nat.mpr
  intro amount mem
  obtain ⟨delta, listed, rfl⟩ := List.mem_map.mp mem
  exact (zeros delta listed).amountAt i

theorem sums_concat {width : Nat} {deltas : List Measure} {delta : Measure}
    (widths : ∀ delta ∈ deltas, delta.length = width) (right : delta.length = width) :
    sums width (deltas ++ [delta]) = (sums width deltas).add delta := by
  have all : ∀ other ∈ deltas ++ [delta], other.length = width :=
    List.forall_mem_append.mpr ⟨widths, List.forall_mem_singleton.mpr right⟩
  apply ext_amountAt
  · rw [length_add, length_sums, length_sums, right, Nat.max_self]
  · intro i
    rw [amountAt_add, amountAt_sums all, amountAt_sums widths]
    simp

theorem add_of_isZero {sum delta : Measure} (zero : delta.IsZero)
    (width : delta.length = sum.length) : sum.add delta = sum := by
  apply ext_amountAt
  · rw [length_add, width, Nat.max_self]
  · intro i
    rw [amountAt_add, zero.amountAt, Nat.add_zero]

/-- One more delta is added to the cell, which it opens if need be; zeros change nothing. -/
theorem cellOf?_concat {width : Nat} {deltas : List Measure} {delta : Measure}
    (widths : ∀ delta ∈ deltas, delta.length = width) (right : delta.length = width) :
    cellOf? width (deltas ++ [delta]) =
      if delta.IsZero then cellOf? width deltas
      else join (cellOf? width deltas) (some delta) := by
  have zeros : (∀ other ∈ deltas ++ [delta], other.IsZero) ↔
      (∀ other ∈ deltas, other.IsZero) ∧ delta.IsZero := by
    rw [List.forall_mem_append, List.forall_mem_singleton]
  have sum := sums_concat widths right
  unfold cellOf?
  by_cases zero : delta.IsZero
  · rw [add_of_isZero zero (by rw [right, length_sums])] at sum
    simp only [zeros, zero, and_true, if_true, sum]
  · rw [if_neg fun all => zero (zeros.mp all).2, if_neg zero, sum]
    split
    next before =>
      rw [Measure.add_comm, add_of_isZero (isZero_sums before) (by rw [right, length_sums])]
      rfl
    next => rfl

end Measure

namespace Posting

/-- A delta of the store's width is accepted. -/
def Accepted (width : Nat) (posting : Posting) : Prop := posting.delta.length = width

instance (width : Nat) (posting : Posting) : Decidable (posting.Accepted width) :=
  inferInstanceAs (Decidable (_ = _))

/-- The posting goes to the cell: to the all-time one of its row, and to the screen-off one too if
it was used with the screen off. -/
def GoesTo (entity : Nat) (slot : Slot) (column : Column) (posting : Posting) : Prop :=
  entity = posting.entity ∧ slot = posting.slot ∧
    (column = .allTime ∨ posting.screenOff = true)

instance (entity : Nat) (slot : Slot) (column : Column) (posting : Posting) :
    Decidable (posting.GoesTo entity slot column) :=
  inferInstanceAs (Decidable (_ ∧ _))

/-- The accepted deltas for a cell. -/
def deltas (width entity : Nat) (slot : Slot) (column : Column) (postings : List Posting) :
    List Measure :=
  (postings.filter fun posting =>
    posting.GoesTo entity slot column ∧ posting.Accepted width).map delta

end Posting

namespace Store

/-- The store after a posting, and the answer to it, which tells whether anything changed. A refused
posting leaves the store as it is. -/
def post (store : Store) (posting : Posting) : Store × Except Fault Bool :=
  match store.record posting.entity posting.slot posting.screenOff posting.delta with
  | .error fault => (store, .error fault)
  | .ok (after, changed) => (after, .ok changed)

def postAll (store : Store) (postings : List Posting) : Store :=
  postings.foldl (fun store posting => (store.post posting).1) store

theorem postAll_concat (store : Store) (postings : List Posting) (last : Posting) :
    store.postAll (postings ++ [last]) = ((store.postAll postings).post last).1 := by
  rw [postAll, List.foldl_append]
  rfl

theorem post_refused {store : Store} {posting : Posting}
    (wrong : ¬ posting.Accepted store.width) :
    store.post posting =
      (store, .error (.width posting.entity store.width posting.delta.length)) := by
  have refused : store.checkWidth posting.entity posting.delta =
      .error (.width posting.entity store.width posting.delta.length) :=
    checkWidth_eq_error_iff.mpr ⟨wrong, rfl⟩
  unfold post record
  rw [refused]

theorem post_accepted {store : Store} {posting : Posting} (right : posting.Accepted store.width) :
    ∃ after, store.record posting.entity posting.slot posting.screenOff posting.delta =
        .ok (after, decide ¬ posting.delta.IsZero) ∧
      store.post posting = (after, .ok (decide ¬ posting.delta.IsZero)) := by
  have accepted : store.checkWidth posting.entity posting.delta = .ok () :=
    checkWidth_eq_ok_iff.mpr right
  unfold post record
  rw [accepted]
  by_cases zero : posting.delta.IsZero
  · simp [zero]
  · simp [zero]

theorem width_post (store : Store) (posting : Posting) :
    (store.post posting).1.width = store.width := by
  by_cases right : posting.Accepted store.width
  · obtain ⟨after, recorded, posted⟩ := post_accepted right
    rw [posted]
    exact (record_cases recorded).1
  · rw [post_refused right]

theorem cell?_post (store : Store) (posting : Posting) (entity : Nat) (slot : Slot)
    (column : Column) :
    (store.post posting).1.cell? entity slot column =
      if (posting.GoesTo entity slot column ∧ posting.Accepted store.width) ∧
          ¬ posting.delta.IsZero then
        Measure.join (store.cell? entity slot column) (some posting.delta)
      else store.cell? entity slot column := by
  by_cases right : posting.Accepted store.width
  · obtain ⟨after, recorded, posted⟩ := post_accepted right
    rw [posted, cell?_record recorded]
    simp only [Posting.GoesTo, right, and_true, and_assoc]
  · rw [post_refused right, if_neg fun h => right h.1.2]

theorem mem_entities_post (store : Store) (posting : Posting) (entity : Nat) :
    entity ∈ (store.post posting).1.entities ↔ entity ∈ store.entities ∨
      posting.entity = entity ∧ posting.Accepted store.width ∧ ¬ posting.delta.IsZero := by
  by_cases right : posting.Accepted store.width
  · obtain ⟨after, recorded, posted⟩ := post_accepted right
    rw [posted]
    obtain ⟨-, -, ⟨zero, same⟩ | ⟨nonzero, credited⟩⟩ := record_cases recorded
    · simp [entities, same, zero]
    · rw [entities, entities, credited, Table.mem_keys, Table.mem_keys, Table.mem_insert]
      simp only [right, nonzero, not_false_eq_true, and_true]
      rw [or_comm, eq_comm]
  · rw [post_refused right]
    simp [right]

theorem width_postAll (width : Nat) (postings : List Posting) :
    (postAll { width } postings).width = width := by
  induction postings using List.reverseRecOn with
  | nil => rfl
  | append_singleton postings last ih => rw [postAll_concat, width_post, ih]

theorem length_of_mem_deltas {width entity : Nat} {slot : Slot} {column : Column}
    {postings : List Posting} :
    ∀ delta ∈ Posting.deltas width entity slot column postings, delta.length = width := by
  intro delta mem
  obtain ⟨posting, listed, rfl⟩ := List.mem_map.mp mem
  exact (of_decide_eq_true (List.mem_filter.mp listed).2).2

theorem cell?_postAll (width : Nat) (postings : List Posting) (entity : Nat) (slot : Slot)
    (column : Column) :
    (postAll { width } postings).cell? entity slot column =
      Measure.cellOf? width (Posting.deltas width entity slot column postings) := by
  -- From the last posting back, since each one meets the store that those before it left.
  induction postings using List.reverseRecOn with
  | nil => rfl
  | append_singleton postings last ih =>
    rw [postAll_concat, cell?_post, width_postAll, ih]
    by_cases taken : last.GoesTo entity slot column ∧ last.Accepted width
    · have more : Posting.deltas width entity slot column (postings ++ [last]) =
          Posting.deltas width entity slot column postings ++ [last.delta] := by
        simp [Posting.deltas, taken]
      rw [more, Measure.cellOf?_concat length_of_mem_deltas taken.2]
      by_cases zero : last.delta.IsZero <;> simp [taken, zero]
    · have same : Posting.deltas width entity slot column (postings ++ [last]) =
          Posting.deltas width entity slot column postings := by
        simp only [Posting.deltas, List.filter_append]
        rw [List.filter_cons_of_neg (by simpa using taken)]
        simp
      rw [same, if_neg fun h => taken h.1]

theorem mem_entities_postAll (width : Nat) (postings : List Posting) (entity : Nat) :
    entity ∈ (postAll { width } postings).entities ↔ ∃ posting ∈ postings,
      posting.entity = entity ∧ posting.Accepted width ∧ ¬ posting.delta.IsZero := by
  induction postings using List.reverseRecOn with
  | nil => simp [postAll, entities, Table.keys, EmptyCollection.emptyCollection]
  | append_singleton postings last ih =>
    rw [postAll_concat, mem_entities_post, width_postAll, ih]
    constructor
    · rintro (⟨posting, mem, credited⟩ | credited)
      · exact ⟨posting, List.mem_append_left _ mem, credited⟩
      · exact ⟨last, List.mem_append_right _ List.mem_cons_self, credited⟩
    · rintro ⟨posting, mem, credited⟩
      rcases List.mem_append.mp mem with mem | mem
      · exact .inl ⟨posting, mem, credited⟩
      · exact .inr (List.mem_singleton.mp mem ▸ credited)

/-- What is in a store of the given width, and what it answers to a posting, is told by the postings
so far. -/
structure Keeps (width : Nat) (postings : List Posting) (store : Store) : Prop where
  cells : ∀ entity slot column, store.cell? entity slot column =
    Measure.cellOf? width (Posting.deltas width entity slot column postings)
  ascending : store.entities.Pairwise (· < ·)
  entities : ∀ entity, entity ∈ store.entities ↔ ∃ posting ∈ postings,
    posting.entity = entity ∧ posting.Accepted width ∧ ¬ posting.delta.IsZero
  rows : ∀ entity account, store.accounts.get? entity = some account →
    (account.rows.map Slot.row).Pairwise (· < ·) ∧
      ∀ slot, slot ∈ account.rows ↔ ∃ column, store.cell? entity slot column ≠ none
  refused : ∀ posting, ¬ posting.Accepted width → store.post posting =
    (store, .error (.width posting.entity width posting.delta.length))
  answered : ∀ posting, posting.Accepted width →
    (store.post posting).2 = .ok (decide ¬ posting.delta.IsZero)

/-- After any postings a store holds the sum of what it accepted for each cell, lists those entities
that were credited with something, and accepts exactly the deltas of its width. -/
theorem postAll_keeps (width : Nat) (postings : List Posting) :
    Keeps width postings (postAll { width } postings) := by
  have own := width_postAll width postings
  refine ⟨cell?_postAll width postings, Table.keys_ascending _,
    mem_entities_postAll width postings, ?_, ?_, ?_⟩
  · intro entity account found
    refine ⟨account.rows_ascending, fun slot => ?_⟩
    rw [Account.mem_rows]
    unfold cell?
    rw [found]
    rfl
  · intro posting wrong
    rw [post_refused (own.symm ▸ wrong), own]
  · intro posting right
    have accepted : posting.Accepted (postAll { width } postings).width := own.symm ▸ right
    obtain ⟨after, -, posted⟩ := post_accepted accepted
    rw [posted]

end Store

end UsageLedger
