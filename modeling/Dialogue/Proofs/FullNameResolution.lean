import Dialogue.Proofs.IdentifierText
import Dialogue.Proofs.ResolutionAgreement

/-! Full names as identifiers. Below a root with the empty name a full name is absolute, and the search for it
goes down along the owners of the object. Every name on the way has a member already, so no import is searched
and no built-in member is made. -/

namespace Dialogue.World

variable {world : World} {object owner scope : Ref}

/-- The names from below the root down to the object. -/
def namesBelowRoot (world : World) (object : Ref) : List String :=
  (world.lineage object).dropLast.reverse.map world.nameOf

/-- Below the root no name on the way to the object is empty or would be taken apart. -/
def Addressable (world : World) (object : Ref) : Prop :=
  ∀ member ∈ world.lineage object, member ≠ world.root object →
    world.nameOf member ≠ "" ∧ Identifier.separator ∉ (world.nameOf member).toList

instance (world : World) (object : Ref) : Decidable (world.Addressable object) :=
  inferInstanceAs (Decidable (∀ _ ∈ _, _))

namespace Forest

variable (forest : world.Forest)

include forest

theorem lineage_of_parent? (owned : world.parent? object = some owner) :
    world.lineage object = object :: world.lineage owner := by
  rw [forest.lineage_eq, owned, Option.elim_some]

theorem lineage_ne_nil (object : Ref) : world.lineage object ≠ [] := by
  rw [forest.lineage_eq]
  exact List.cons_ne_nil _ _

private theorem dropLast_lineage (object : Ref) :
    (world.lineage object).dropLast ++ [world.root object] = world.lineage object := by
  have last := List.getLast?_eq_some_getLast (forest.lineage_ne_nil object)
  rw [root, last, Option.getD_some]
  exact List.dropLast_append_getLast _

theorem root_of_parent? (owned : world.parent? object = some owner) : world.root object = world.root owner := by
  have last := List.getLast?_eq_some_getLast (forest.lineage_ne_nil owner)
  rw [root, root, forest.lineage_of_parent? owned, List.getLast?_cons, last]
  rfl

theorem namesBelowRoot_of_parent? (owned : world.parent? object = some owner) :
    world.namesBelowRoot object = world.namesBelowRoot owner ++ [world.nameOf object] := by
  rw [namesBelowRoot, forest.lineage_of_parent? owned, List.dropLast_cons_of_ne_nil (forest.lineage_ne_nil owner)]
  simp [namesBelowRoot]

theorem fullName_eq (object : Ref) :
    world.fullName object = Identifier.join (world.nameOf (world.root object) :: world.namesBelowRoot object) := by
  rw [fullName, ← forest.dropLast_lineage object]
  simp [namesBelowRoot]

private theorem ne_root_of_mem {member : Ref} (below : member ∈ (world.lineage object).dropLast) :
    member ≠ world.root object := by
  have distinct := (forest.lineage object).nodup
  rw [← forest.dropLast_lineage object] at distinct
  exact (List.nodup_append.mp distinct).2.2 member below _ List.mem_cons_self

/-- A member's name needs no built-in member any more. -/
private theorem materialize_of_member {name : String} (found : (world.members scope).find? name = some object) :
    world.materialize scope name = world :=
  materialize_of_settled fun _ named => forest.claims named found

private theorem isScope_root (owned : world.parent? object = some owner) :
    (world.kindOf (world.root object)).isScope = true := by
  have ⟨above, highest⟩ := forest.isRoot_root object
  rcases Relation.ReflTransGen.cases_tail above with same | ⟨member, -, last⟩
  · rw [← same] at owned
    rw [highest] at owned
    cases owned
  · rw [forest.parent?_eq] at last
    exact forest.isScope_of_owner? last

private theorem addressable_owner (owned : world.parent? object = some owner) (addressable : world.Addressable object) :
    world.Addressable owner := by
  intro member above apart
  refine addressable member ?_ ?_
  · rw [forest.lineage_of_parent? owned]
    exact List.mem_cons_of_mem _ above
  · rwa [forest.root_of_parent? owned]

private theorem nameOf_ne_empty (owned : world.parent? object = some owner) (addressable : world.Addressable object) :
    world.nameOf object ≠ "" := by
  refine (addressable object ?_ ?_).1
  · rw [forest.lineage_of_parent? owned]
    exact List.mem_cons_self
  · intro here
    rw [here, forest.parent?_root] at owned
    cases owned

/-- A search that goes on from a scope is where a search from the root for the names down to it arrives. -/
private theorem search_from_root {path : Path} {next : String} {rest : List String} {answer : Option Ref}
    {after : World}
    (isScope : (world.kindOf scope).isScope = true) (addressable : world.Addressable scope)
    (search : PlainSearch path world (.scope scope) (next :: rest) answer after) :
    PlainSearch path world (.scope (world.root scope)) (world.namesBelowRoot scope ++ next :: rest) answer after := by
  have walk := forest.lineage scope
  generalize world.lineage scope = line at walk
  -- Each owner on the way up is searched for one name more.
  induction walk generalizing next rest with
  | @top ref unowned =>
    rw [← forest.parent?_eq] at unowned
    have line := forest.lineage_eq ref
    rw [unowned, Option.elim_none] at line
    simpa [namesBelowRoot, root, line] using search
  | @owned ref owner above found walk ih =>
    have shown := forest.owners found
    have still := forest.materialize_of_member shown
    rw [← forest.parent?_eq] at found
    rw [forest.root_of_parent? found, forest.namesBelowRoot_of_parent? found, List.append_assoc]
    apply ih (isScope_of_members shown) (forest.addressable_owner found addressable)
    exact .descended (forest.nameOf_ne_empty found addressable) (by rwa [still]) (by rwa [still]) (by rwa [still])

/-- The search for the names of a registered object ends at it, and nothing is made on the way. -/
private theorem search_namesBelowRoot (owned : world.parent? object = some owner)
    (addressable : world.Addressable object) :
    PlainSearch [] world (.scope (world.root object)) (world.namesBelowRoot object) (some object) world := by
  have shown := forest.owners (forest.parent?_eq object ▸ owned)
  have still := forest.materialize_of_member shown
  have last : PlainSearch [] world (.scope owner) [world.nameOf object] (some object)
      (world.materialize owner (world.nameOf object)) :=
    .answered (forest.nameOf_ne_empty owned addressable) (by rwa [still])
  rw [still] at last
  rw [forest.root_of_parent? owned, forest.namesBelowRoot_of_parent? owned]
  exact forest.search_from_root (isScope_of_members shown) (forest.addressable_owner owned addressable) last

/-- Under a root with the empty name a full name is an absolute identifier. -/
private theorem parse_fullName (owned : world.parent? object = some owner) (top : world.nameOf (world.root object) = "")
    (addressable : world.Addressable object) :
    Identifier.parse (world.fullName object) = ⟨"" :: world.namesBelowRoot object⟩ := by
  rw [forest.fullName_eq, top]
  apply Identifier.parse_join
  · rw [forest.namesBelowRoot_of_parent? owned]
    simp
  · refine List.forall_mem_cons.mpr ⟨by simp, fun name member => ?_⟩
    obtain ⟨below, inside, rfl⟩ := List.mem_map.mp member
    rw [List.mem_reverse] at inside
    exact (addressable below (List.mem_of_mem_dropLast inside) (forest.ne_root_of_mem inside)).2

end Forest

/-- An object that is registered below a root with the empty name is what its full name resolves to from every
scope of its tree, and nothing changes on the way. -/
theorem resolve_fullName (reached : Reachable world) (registered : world.isRegistered object = true)
    (top : world.nameOf (world.root object) = "") (addressable : world.Addressable object)
    (same : world.root scope = world.root object) :
    Act.resolve scope (.parse (world.fullName object)) world = .ok object world := by
  have sound := reached.sound
  have forest := sound.forest
  obtain ⟨owner, owned⟩ := Option.isSome_iff_exists.mp registered
  obtain ⟨found, ended, plain⟩ := sound.agrees_search (world.root object) (world.namesBelowRoot object)
  obtain ⟨answer, after⟩ := plain.unique (forest.search_namesBelowRoot owned addressable)
  have absolute : Identifier.isAbsolute ⟨"" :: world.namesBelowRoot object⟩ = true := by
    rw [forest.namesBelowRoot_of_parent? owned]
    cases world.namesBelowRoot owner <;> rfl
  have resolved : world.resolve scope ⟨"" :: world.namesBelowRoot object⟩ = some found := by
    rw [World.resolve, if_pos absolute, same, if_pos (forest.isScope_root owned), Identifier.relative, if_pos absolute]
    exact ended
  rw [forest.parse_fullName owned top addressable]
  simp [Act.resolve, Act.tryResolve, resolved, answer, after, bind, EStateM.bind, pure, EStateM.pure]

/-- A scope within a scope below a root with the empty name. The scope in between has made a built-in member, and
the innermost one imports a scope with a member of the name that the full name begins with. -/
def nested : World :=
  (World.runAll {} [
    { action := .create (.scope ""), name := some "r" },
    { action := .create (.scope "outer"), name := some "o" },
    { action := .create (.scope "inner"), name := some "i" },
    { action := .create (.scope "library"), name := some "l" },
    { action := .create (.scope "outer"), name := some "d" },
    { action := .scope (.register (.handle "o")), target := some "r" },
    { action := .scope (.register (.handle "i")), target := some "o" },
    { action := .scope (.register (.handle "d")), target := some "l" },
    { action := .scope (.importScope (.handle "l")), target := some "i" },
    { action := .scope (.member "doc"), target := some "o", name := some "m" }]).2

theorem resolve_fullName_nested :
    Reachable nested ∧ nested.fullName 2 = ":outer:inner" ∧
      Act.resolve 2 (.parse (nested.fullName 2)) nested = .ok 2 nested := by
  have reached : Reachable nested := .runAll (.start {}) _
  have registered : nested.isRegistered 2 = true := by decide +kernel
  have top : nested.nameOf (nested.root 2) = "" := by decide +kernel
  have addressable : nested.Addressable 2 := by decide +kernel
  exact ⟨reached, by decide +kernel, resolve_fullName reached registered top addressable rfl⟩

end Dialogue.World
