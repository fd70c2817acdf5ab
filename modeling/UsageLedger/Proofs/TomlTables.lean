import UsageLedger.Toml.Table

/-!
What is found in a table after a key has been given a value, and what statements add to the tables
that they go into.
-/

namespace UsageLedger.Toml

section

variable {members : Members} {key : String}

theorem not_mem_of_nodup {α : Type} {before after : List α} {x : α}
    (distinct : (before ++ x :: after).Nodup) : x ∉ before :=
  fun mem => (List.nodup_append.mp distinct).2.2 x mem x List.mem_cons_self rfl

theorem find?_cons (k : String) (x : Toml) (members : Members) (key : String) :
    find? ((k, x) :: members) key = if k = key then some x else find? members key := by
  by_cases same : k = key <;> simp [find?, same]

theorem find?_eq_none (new : key ∉ members.map Prod.fst) : find? members key = none := by
  rw [find?, Option.map_eq_none_iff, List.find?_eq_none]
  intro entry mem found
  exact new (List.mem_map.mpr ⟨entry, mem, of_decide_eq_true found⟩)

theorem put_eq_append (new : key ∉ members.map Prod.fst) (value : Toml) :
    put members key value = members ++ [(key, value)] := by
  induction members with
  | nil => rfl
  | cons entry members ih =>
    obtain ⟨k, x⟩ := entry
    obtain ⟨other, new⟩ := not_or.mp (mt List.mem_cons.mpr new)
    rw [put, if_neg fun same => other same.symm, ih new, List.cons_append]

theorem find?_put (members : Members) (key other : String) (value : Toml) :
    find? (put members key value) other =
      if key = other then some value else find? members other := by
  induction members with
  | nil => exact find?_cons key value [] other
  | cons entry members ih =>
    obtain ⟨k, x⟩ := entry
    rw [put]
    split
    next taken =>
      subst taken
      rw [find?_cons, find?_cons]
      split <;> rfl
    next free =>
      rw [find?_cons, ih, find?_cons]
      by_cases here : k = other
      · subst here
        simp [Ne.symm free]
      · simp [here]

theorem mem_put {value : Toml} {entry : String × Toml}
    (mem : entry ∈ put members key value) : entry.1 = key ∨ entry ∈ members := by
  induction members with
  | nil => exact .inl (by simpa [put] using congrArg Prod.fst (List.mem_singleton.mp mem))
  | cons first members ih =>
    obtain ⟨k, x⟩ := first
    rw [put] at mem
    split at mem
    next taken =>
      rcases List.mem_cons.mp mem with rfl | mem
      · exact .inl taken
      · exact .inr (List.mem_cons_of_mem _ mem)
    next =>
      rcases List.mem_cons.mp mem with rfl | mem
      · exact .inr List.mem_cons_self
      · exact (ih mem).imp_right (List.mem_cons_of_mem _)

end

section

variable {members : Members} {key part : String}

theorem assign_new (new : find? members key = none) (value : Toml) :
    assign [] key value members = some (put members key value) := by
  simp [assign, update, new]

/-- A dotted key makes the table that it goes into, unless earlier ones have made it. -/
theorem assign_dotted {inner : Option Members}
    (made : find? members part = inner.map (.table true true))
    (new : find? (inner.getD []) key = none) (value : Toml) :
    assign [part] key value members =
      some (put members part (.table true true (put (inner.getD []) key value))) := by
  cases inner with
  | none =>
    have empty : find? [] key = none := rfl
    simp [assign, update, made, empty, put]
  | some inner =>
    rw [Option.getD_some] at new
    simp [assign, update, made, new]

theorem openTable_new (new : find? members key = none) :
    openTable [] key members = some (put members key (.table false false [])) := by
  simp [openTable, update, new]

theorem update_header {inner : Members}
    (opened : find? members part = some (.table false false inner))
    (new : find? inner key = none) (value : Toml) :
    update false (fun _ inner => assign [] key value inner) [part] false members =
      some (put members part (.table false false (put inner key value))) := by
  simp [update, opened, assign_new new]

end

end UsageLedger.Toml
