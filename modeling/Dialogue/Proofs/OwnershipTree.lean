import Dialogue.Proofs.SessionSafety

/-! The tree of owners in every world that a session reaches: members and owners are two views of one
relation, and following the owners of an object ends. -/

namespace Dialogue.World

variable {world : World}

namespace Forest

variable (forest : world.Forest) {object : Ref}

include forest

theorem find?_members_iff {owner : Ref} {name : String} :
    (world.members owner).find? name = some object ↔
      world.parent? object = some owner ∧ world.nameOf object = name := by
  rw [forest.parent?_eq]
  constructor
  · intro found
    exact (forest.members found).symm
  · rintro ⟨owned, rfl⟩
    exact forest.owners owned

theorem not_above_itself : ¬Relation.TransGen (fun lower upper => world.parent? lower = some upper) object object := by
  intro circle
  refine (forest.lineage object).not_circular
    (Relation.TransGen.mono (fun lower upper owned => ?_) object object circle)
  rwa [← forest.parent?_eq]

/-- A lineage goes on as long as there is an owner. -/
theorem lineage_eq (object : Ref) :
    world.lineage object = object :: (world.parent? object).elim [] world.lineage := by
  rw [forest.parent?_eq]
  have walk := forest.lineage object
  cases owned : world.owner? object with
  | none => exact walk.unique (.top owned)
  | some owner => exact walk.unique (.owned owned (forest.lineage owner))

theorem parent?_root (object : Ref) : world.parent? (world.root object) = none := by
  have last {line : List Ref} (walk : world.Lineage object line) :
      ∃ top, line.getLast? = some top ∧ world.owner? top = none := by
    induction walk with
    | top unowned => exact ⟨_, rfl, unowned⟩
    | owned found rest ih =>
      obtain ⟨top, ends, unowned⟩ := ih
      exact ⟨top, by rw [List.getLast?_cons, ends]; rfl, unowned⟩
  obtain ⟨top, ends, unowned⟩ := last (forest.lineage object)
  rw [root, ends, forest.parent?_eq]
  exact unowned

end Forest

/-- In every world that a session reaches, an object is a member exactly of its owner and exactly under
its name, no object is above itself, and lineages are complete. -/
theorem owners_form_a_tree (reached : Reachable world) :
    (∀ scope name object, (world.members scope).find? name = some object →
      world.nameOf object = name ∧ world.parent? object = some scope) ∧
    (∀ object scope, world.parent? object = some scope → ∀ owner name,
      (world.members owner).find? name = some object ↔ owner = scope ∧ name = world.nameOf object) ∧
    (∀ object, ¬Relation.TransGen (fun lower upper => world.parent? lower = some upper) object object) ∧
    (∀ object, world.lineage object = object :: (world.parent? object).elim [] world.lineage ∧
      (world.lineage object).Nodup ∧ world.parent? (world.root object) = none) := by
  have forest := reached.sound.forest
  refine ⟨?_, ?_, fun object => forest.not_above_itself, ?_⟩
  · intro scope name object found
    exact (forest.find?_members_iff.mp found).symm
  · intro object scope owned owner name
    rw [forest.find?_members_iff, owned, Option.some.injEq]
    exact and_congr eq_comm eq_comm
  · intro object
    exact ⟨forest.lineage_eq object, (forest.lineage object).nodup, forest.parent?_root object⟩

/-- A scope is registered in another one and renamed by writing its built-in name. -/
def renamedInside : World :=
  (World.runAll {} [
    { action := .create (.scope "outer"), name := some "o" },
    { action := .create (.scope "inner"), name := some "i" },
    { action := .scope (.register (.handle "i")), target := some "o" },
    { action := .scope (.member "name"), target := some "i", name := some "n" },
    { action := .value (.assign (.text "core")), target := some "n" }]).2

theorem owners_form_a_tree_after_renaming :
    Reachable renamedInside ∧ (renamedInside.members 0).find? "core" = some 1 ∧
      (renamedInside.nameOf 1 = "core" ∧ renamedInside.parent? 1 = some 0) ∧
      renamedInside.fullName 1 = "outer:core" := by
  have reached : Reachable renamedInside := .runAll (.start {}) _
  have found : (renamedInside.members 0).find? "core" = some 1 := by decide +kernel
  exact ⟨reached, found, (owners_form_a_tree reached).1 0 "core" 1 found, by decide +kernel⟩

end Dialogue.World
