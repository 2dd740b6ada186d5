import Dialogue.Proofs.WorldShapes
import Mathlib.Data.List.Nodup
import Mathlib.Data.Finset.Card
import Mathlib.Logic.Relation

/-! Lineages as chains of owners that end. An object that has one is never met again further up, so a
walk with fuel for every cell of the heap reaches the end. -/

namespace Dialogue.World

variable {world : World}

/-- The object and its owners up to one that has none. -/
inductive Lineage (world : World) : Ref → List Ref → Prop where
  | top {ref : Ref} (unowned : world.owner? ref = none) : Lineage world ref [ref]
  | owned {ref owner : Ref} {above : List Ref} (found : world.owner? ref = some owner)
      (rest : Lineage world owner above) : Lineage world ref (ref :: above)

namespace Lineage

variable {ref other : Ref} {line second : List Ref}

theorem unique (first : world.Lineage ref line) (again : world.Lineage ref second) : line = second := by
  induction first generalizing second with
  | top unowned =>
    cases again with
    | top => rfl
    | owned found => rw [unowned] at found; cases found
  | owned found rest ih =>
    cases again with
    | top unowned => rw [found] at unowned; cases unowned
    | owned other above =>
      rw [found] at other
      cases other
      rw [ih above]

/-- Whoever stands in a lineage has the rest of it as a lineage. -/
private theorem suffix_of_mem (walk : world.Lineage ref line) (member : other ∈ line) :
    ∃ rest, world.Lineage other rest ∧ rest <:+ line := by
  induction walk with
  | top unowned =>
    obtain rfl := List.mem_singleton.mp member
    exact ⟨_, .top unowned, List.suffix_rfl⟩
  | @owned start owner above found rest ih =>
    rcases List.mem_cons.mp member with rfl | later
    · exact ⟨_, .owned found rest, List.suffix_rfl⟩
    · obtain ⟨left, walk, suffix⟩ := ih later
      exact ⟨left, walk, suffix.trans (List.suffix_cons ..)⟩

theorem nodup (walk : world.Lineage ref line) : line.Nodup := by
  induction walk with
  | top => exact List.nodup_singleton _
  | @owned start owner above found rest ih =>
    refine List.nodup_cons.mpr ⟨fun member => ?_, ih⟩
    -- The same object higher up would have a shorter lineage than it has here.
    obtain ⟨left, walk, suffix⟩ := rest.suffix_of_mem member
    have shorter := suffix.length_le
    rw [walk.unique (.owned found rest), List.length_cons] at shorter
    omega

/-- Whoever is further up has a shorter lineage. -/
private theorem of_above {upper : Ref} (walk : world.Lineage ref line)
    (above : Relation.TransGen (fun lower upper => world.owner? lower = some upper) ref upper) :
    ∃ rest, world.Lineage upper rest ∧ rest.length < line.length := by
  have one {lower upper : Ref} {line : List Ref} (walk : world.Lineage lower line)
      (owned : world.owner? lower = some upper) : ∃ rest, world.Lineage upper rest ∧ rest.length < line.length := by
    cases walk with
    | top unowned => rw [owned] at unowned; cases unowned
    | owned found rest =>
      rw [owned] at found
      cases found
      exact ⟨_, rest, Nat.lt_succ_self _⟩
  induction above with
  | single owned => exact one walk owned
  | tail _ owned ih =>
    obtain ⟨middle, up, less⟩ := ih
    obtain ⟨rest, top, least⟩ := one up owned
    exact ⟨rest, top, least.trans less⟩

theorem not_circular (walk : world.Lineage ref line) :
    ¬ Relation.TransGen (fun lower upper => world.owner? lower = some upper) ref ref := by
  intro circle
  obtain ⟨rest, again, less⟩ := walk.of_above circle
  exact less.ne (congrArg _ (again.unique walk))

theorem isLive_of_mem (walk : world.Lineage ref line) (live : world.isLive ref = true)
    (owners : ∀ object owner, world.owner? object = some owner → world.isLive owner = true)
    (member : other ∈ line) : world.isLive other = true := by
  induction walk with
  | top => rwa [List.mem_singleton.mp member]
  | owned found rest ih =>
    rcases List.mem_cons.mp member with rfl | later
    · exact live
    · exact ih (owners _ _ found) later

private theorem length_le_of_lt {size : Nat} (walk : world.Lineage ref line) (inside : ∀ other ∈ line, other < size) :
    line.length ≤ size := by
  have distinct := List.toFinset_card_of_nodup walk.nodup
  have subset : line.toFinset ⊆ Finset.range size := fun other member =>
    Finset.mem_range.mpr (inside other (List.mem_toFinset.mp member))
  simpa [distinct] using Finset.card_le_card subset

/-- No lineage is longer than the heap and one object that has gone. -/
theorem length_le (walk : world.Lineage ref line)
    (owners : ∀ object owner, world.owner? object = some owner → world.isLive owner = true) :
    line.length ≤ world.heap.size + 1 := by
  cases walk with
  | top => exact Nat.le_add_left ..
  | owned found rest =>
    refine Nat.succ_le_succ (rest.length_le_of_lt fun other member => lt_size_of_isLive ?_)
    exact rest.isLive_of_mem (owners _ _ found) owners member

theorem parent?_eq (owners : ∀ object owner, world.owner? object = some owner → world.isLive owner = true)
    (ref : Ref) : world.parent? ref = world.owner? ref := by
  have owned := owners ref
  unfold parent? owner? at *
  cases found : world.object? ref with
  | none => rfl
  | some object =>
    cases parent : object.parent with
    | none => simp [parent, bind, Option.bind]
    | some owner => simp [parent, bind, Option.bind, owned owner (by simp [found, parent])]

/-- A walk with enough fuel is the lineage. -/
theorem within (walk : world.Lineage ref line)
    (owners : ∀ object owner, world.owner? object = some owner → world.isLive owner = true)
    {fuel : Nat} (enough : line.length ≤ fuel) : lineageWithin fuel world ref = line := by
  induction walk generalizing fuel with
  | top unowned =>
    cases fuel with
    | zero => cases enough
    | succ fuel => rw [lineageWithin, parent?_eq owners, unowned]
  | owned found rest ih =>
    cases fuel with
    | zero => cases enough
    | succ fuel =>
      rw [lineageWithin, parent?_eq owners, found]
      exact congrArg _ (ih (Nat.le_of_succ_le_succ enough))

theorem eq_lineage (walk : world.Lineage ref line)
    (owners : ∀ object owner, world.owner? object = some owner → world.isLive owner = true) :
    world.lineage ref = line :=
  walk.within owners (walk.length_le owners)

/-! Lineages after a change. -/

variable {after : World}

/-- Where owners only go, every lineage is cut somewhere. -/
theorem of_owner?_sub (walk : world.Lineage ref line)
    (sub : ∀ object, after.owner? object = none ∨ after.owner? object = world.owner? object) :
    ∃ left, after.Lineage ref left := by
  induction walk with
  | top unowned =>
    have none : after.owner? _ = none := (sub _).elim id (·.trans unowned)
    exact ⟨_, .top none⟩
  | owned found rest ih =>
    rcases sub _ with none | same
    · exact ⟨_, .top none⟩
    · obtain ⟨left, shorter⟩ := ih
      exact ⟨_, .owned (same.trans found) shorter⟩

/-- A lineage without a changed object stays. -/
theorem of_owner?_eq (walk : world.Lineage ref line)
    (same : ∀ object ∈ line, after.owner? object = world.owner? object) : after.Lineage ref line := by
  induction walk with
  | top unowned => exact .top ((same _ List.mem_cons_self).trans unowned)
  | owned found rest ih =>
    exact .owned ((same _ List.mem_cons_self).trans found) (ih fun object member =>
      same object (List.mem_cons_of_mem _ member))

/-- An object that gets an owner brings no one into a circle if it is not above that owner. -/
theorem of_entered {object scope : Ref} {above : List Ref} (walk : world.Lineage ref line)
    (scopeWalk : world.Lineage scope above) (apart : object ∉ above)
    (owned : after.owner? object = some scope)
    (same : ∀ other, other ≠ object → after.owner? other = world.owner? other) :
    ∃ longer, after.Lineage ref longer := by
  have kept : after.Lineage scope above :=
    scopeWalk.of_owner?_eq fun other member => same other fun here => apart (here ▸ member)
  induction walk with
  | @top start unowned =>
    by_cases here : start = object
    · exact ⟨_, .owned (here ▸ owned) kept⟩
    · exact ⟨_, .top ((same _ here).trans unowned)⟩
  | @owned start owner rest found walk ih =>
    by_cases here : start = object
    · exact ⟨_, .owned (here ▸ owned) kept⟩
    · obtain ⟨longer, entered⟩ := ih
      exact ⟨_, .owned ((same _ here).trans found) entered⟩

end Lineage

end Dialogue.World
