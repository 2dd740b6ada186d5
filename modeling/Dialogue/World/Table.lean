/-!
Tables from names to entries, kept in the ascending order of the names, so that no name has two
entries and every walk over a table meets the names in order.
-/

namespace Dialogue

structure Table (α : Type) where
  entries : List (String × α)
  ordered : entries.Pairwise (fun first second => first.1 < second.1)

namespace Table

variable {α : Type}

instance : EmptyCollection (Table α) := ⟨⟨[], .nil⟩⟩

def find? (table : Table α) (name : String) : Option α := table.entries.lookup name

def contains (table : Table α) (name : String) : Bool := (table.find? name).isSome

def names (table : Table α) : List String := table.entries.map (·.1)

/-- The entries without their names. -/
def values (table : Table α) : List α := table.entries.map (·.2)

def size (table : Table α) : Nat := table.entries.length

/-- Puts an entry in its place and drops an older one of the same name. -/
def place (name : String) (entry : α) : List (String × α) → List (String × α)
  | [] => [(name, entry)]
  | (other, kept) :: rest =>
    if name < other then (name, entry) :: (other, kept) :: rest
    else if name = other then (name, entry) :: rest
    else (other, kept) :: place name entry rest

theorem mem_place {name : String} {entry : α} {pair : String × α} {entries : List (String × α)}
    (member : pair ∈ place name entry entries) : pair = (name, entry) ∨ pair ∈ entries := by
  induction entries with
  | nil => simpa [place] using member
  | cons head rest ih =>
    simp only [place] at member
    split at member
    · simpa using member
    · split at member
      · rcases List.mem_cons.mp member with same | later
        · exact .inl same
        · exact .inr (List.mem_cons_of_mem _ later)
      · rcases List.mem_cons.mp member with same | later
        · exact .inr (by simp [same])
        · exact (ih later).imp id (List.mem_cons_of_mem _)

theorem pairwise_place {name : String} {entry : α} {entries : List (String × α)}
    (ordered : entries.Pairwise (fun first second => first.1 < second.1)) :
    (place name entry entries).Pairwise (fun first second => first.1 < second.1) := by
  induction entries with
  | nil => simp [place]
  | cons head rest ih =>
    have ⟨above, below⟩ := List.pairwise_cons.mp ordered
    simp only [place]
    split
    next lower =>
      refine List.pairwise_cons.mpr ⟨fun pair member => ?_, ordered⟩
      rcases List.mem_cons.mp member with same | later
      · exact same ▸ lower
      · exact String.lt_trans lower (above pair later)
    next notLower =>
      split
      next same => exact List.pairwise_cons.mpr ⟨fun pair member => same ▸ above pair member, below⟩
      next different =>
        refine List.pairwise_cons.mpr ⟨fun pair member => ?_, ih below⟩
        rcases mem_place member with same | later
        · have total := String.le_antisymm (a := name) (b := head.1)
          exact same ▸ Decidable.byContradiction fun notAbove =>
            different (total (String.not_lt.mp notAbove) (String.not_lt.mp notLower))
        · exact above pair later

def insert (table : Table α) (name : String) (entry : α) : Table α :=
  ⟨place name entry table.entries, pairwise_place table.ordered⟩

def erase (table : Table α) (name : String) : Table α :=
  ⟨table.entries.filter (·.1 != name), table.ordered.filter _⟩

end Table

end Dialogue
