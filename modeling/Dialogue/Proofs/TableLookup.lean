import Dialogue.World.Table

/-! Lookups in tables after an entry was put in or taken out. Every entry is found under its name,
because no two entries have the same one. -/

namespace Dialogue.Table

variable {α : Type} {table : Table α} {name other : String} {entry : α}

@[simp] theorem find?_empty : ({} : Table α).find? name = none := rfl

theorem lookup_cons_eq {head : String × α} {rest : List (String × α)} :
    (head :: rest).lookup other = if other = head.1 then some head.2 else rest.lookup other := by
  rw [List.lookup_cons]
  by_cases same : other = head.1
  · simp [same]
  · have test : (other == head.1) = false := beq_eq_false_iff_ne.mpr same
    simp [same, test]

private theorem lookup_place {entries : List (String × α)} :
    (place name entry entries).lookup other = if other = name then some entry else entries.lookup other := by
  induction entries with
  | nil => rw [place, lookup_cons_eq]
  | cons head rest ih =>
    unfold place
    split
    next => rw [lookup_cons_eq]
    next =>
      split
      next replaced =>
        subst replaced
        rw [lookup_cons_eq, lookup_cons_eq]
        split <;> rfl
      next different =>
        rw [lookup_cons_eq, lookup_cons_eq, ih]
        by_cases here : other = head.1
        · have apart : other ≠ name := fun same => different (same.symm.trans here)
          rw [if_pos here, if_neg apart, if_pos here]
        · rw [if_neg here, if_neg here]

theorem find?_insert :
    (table.insert name entry).find? other = if other = name then some entry else table.find? other :=
  lookup_place

private theorem lookup_filter {entries : List (String × α)} :
    (entries.filter (·.1 != name)).lookup other = if other = name then none else entries.lookup other := by
  induction entries with
  | nil => simp
  | cons head rest ih =>
    rw [List.filter_cons, lookup_cons_eq]
    by_cases gone : head.1 = name
    · rw [if_neg (by simp [gone]), ih]
      by_cases same : other = name
      · rw [if_pos same, if_pos same]
      · rw [if_neg same, if_neg same, if_neg (gone ▸ same)]
    · rw [if_pos (by simp [gone]), lookup_cons_eq, ih]
      by_cases here : other = head.1
      · rw [if_pos here, if_neg (here ▸ gone), if_pos here]
      · rw [if_neg here, if_neg here]

theorem find?_erase : (table.erase name).find? other = if other = name then none else table.find? other :=
  lookup_filter

theorem find?_eq_some_iff : table.find? name = some entry ↔ (name, entry) ∈ table.entries := by
  obtain ⟨entries, ordered⟩ := table
  change entries.lookup name = some entry ↔ (name, entry) ∈ entries
  induction entries with
  | nil => simp
  | cons head rest ih =>
    obtain ⟨above, below⟩ := List.pairwise_cons.mp ordered
    rw [lookup_cons_eq, List.mem_cons]
    by_cases here : name = head.1
    · have absent : (name, entry) ∉ rest := fun member => String.lt_irrefl _ (here ▸ above _ member)
      rw [if_pos here, or_iff_left absent, here, Prod.mk.injEq]
      simp [eq_comm]
    · have different : (name, entry) ≠ head := fun same => here (congrArg Prod.fst same)
      rw [if_neg here, or_iff_right different, ih below]

theorem mem_values : entry ∈ table.values ↔ ∃ name, table.find? name = some entry := by
  simp only [values, List.mem_map, find?_eq_some_iff]
  constructor
  · rintro ⟨⟨name, _⟩, member, rfl⟩
    exact ⟨name, member⟩
  · rintro ⟨name, member⟩
    exact ⟨_, member, rfl⟩

end Dialogue.Table
