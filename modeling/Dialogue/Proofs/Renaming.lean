import Dialogue.Proofs.ConstantMarks

/-! Renaming is done as a whole or not at all. Once the new name is known to be free in the owner, neither taking the
object out nor entering it anew can fail, because members and owners agree; and no mark of the owner is looked at. -/

namespace Dialogue

namespace World

open Act

variable {world : World} {scope object ref : Ref} {name : String} {constant : Bool}

/-- An object has another name, its owner has it under that name, and nothing else has happened. -/
structure Renamed (world : World) (object : Ref) (name : String) (after : World) : Prop where
  itself : after.object? object = (world.object? object).map ({ · with name })
  named : after.nameOf object = name
  parents : ∀ ref, after.parent? ref = world.parent? ref
  entered : ∀ scope, world.parent? object = some scope → ∀ key, (after.members scope).find? key =
    if key = name then some object else if key = world.nameOf object then none else (world.members scope).find? key
  /-- The owner differs in nothing but its members. -/
  owner : ∀ scope, world.parent? object = some scope →
    after.object? scope = (world.object? scope).map (·.withMembers (after.members scope) (world.claimed scope))
  others : ∀ ref, ref ≠ object → world.parent? object ≠ some ref → after.object? ref = world.object? ref
  size : after.heap.size = world.heap.size
  rest : after = { world with heap := after.heap }

/-- The world in between, where the object has its new name and no owner. -/
def aside (world : World) (scope object : Ref) (name : String) : World :=
  ((world.changeMembers scope (·.erase (world.nameOf object))).setParent object none).setName object name

private theorem aside_setConstant : (world.setConstant ref constant).aside scope object name =
    (world.aside scope object name).setConstant ref constant := by
  rw [aside, nameOf_setConstant, changeMembers, changeScope_setConstant, setParent_setConstant, setName_setConstant]
  rfl

section Aside

variable (sound : world.Sound) (owned : world.parent? object = some scope)

include sound owned

theorem find?_of_parent? : (world.members scope).find? (world.nameOf object) = some object :=
  sound.forest.find?_members_iff.mpr ⟨owned, rfl⟩

theorem isScope_of_parent? : (world.kindOf scope).isScope = true := isScope_of_members (find?_of_parent? sound owned)

theorem isLive_of_parent? : world.isLive object = true := sound.isLive_of_member (find?_of_parent? sound owned)

private theorem ne_of_parent? : object ≠ scope := by
  rintro rfl
  exact sound.forest.not_above_itself (.single owned)

private theorem aside_eq : world.aside scope object name = (world.detach object).setName object name := by
  rw [aside, detach, owned]
  exact congrArg (World.setName · object name) (if_pos (find?_of_parent? sound owned)).symm

theorem edits_aside :
    Edits (fun ref shape => { shape with name := if object = ref then name else shape.name })
      (world.detach object) (world.aside scope object name) :=
  aside_eq sound owned ▸ edits_setName

theorem object?_aside :
    (world.aside scope object name).object? ref =
      if object = ref then (world.object? ref).map ({ · with name, parent := none })
      else if scope = ref then (world.object? ref).map
        (·.withMembers ((world.members ref).erase (world.nameOf object)) (world.claimed ref))
      else world.object? ref := by
  rw [aside_eq sound owned, setName, object?_change, object?_detach sound]
  simp only [owned, Option.some.injEq]
  by_cases here : object = ref
  · rw [if_pos here, if_pos here, if_pos here, Option.map_map]
    rfl
  · rw [if_neg here, if_neg here, if_neg here]

private theorem members_aside :
    (world.aside scope object name).members ref =
      if scope = ref then (world.members ref).erase (world.nameOf object) else world.members ref := by
  rw [(edits_aside sound owned).members ref fun _ => rfl, members_detach sound]
  simp only [owned, Option.some.injEq]

theorem follows_aside : Follows .gentle world (world.aside scope object name) := by
  have leaves : Follows .gentle world _ := follows_leave (find?_of_parent? sound owned)
  have edits : Edits _ world ((world.changeMembers scope (·.erase (world.nameOf object))).setParent object none) :=
    edits_leave (isScope_of_parent? sound owned)
  have unowned := edits.owner?_eq object (if object = object then none else ·) (fun _ => rfl) (by simp)
  rw [if_pos rfl] at unowned
  exact leaves.trans (.of_change (.rename unowned) rfl)

private theorem owner?_aside :
    (world.aside scope object name).owner? ref = if object = ref then none else world.owner? ref := by
  rw [(edits_aside sound owned).owner? ref fun _ => rfl, owner?_detach sound]

private theorem parent?_aside :
    (world.aside scope object name).parent? ref = if object = ref then none else world.parent? ref := by
  rw [((follows_aside sound owned).sound sound).forest.parent?_eq, owner?_aside sound owned, sound.forest.parent?_eq]

theorem nameOf_aside : (world.aside scope object name).nameOf object = name := by
  have live := isLive_of_parent? sound owned
  rw [nameOf, object?_aside sound owned, if_pos rfl]
  obtain ⟨data, found⟩ := Option.isSome_iff_exists.mp live
  rw [found]
  rfl

private theorem apart_aside : object ∉ (world.aside scope object name).lineage scope := by
  have forest := sound.forest
  have apart : object ∉ world.lineage scope := fun above =>
    forest.not_above_itself (.head' owned (forest.mem_lineage_iff.mp above))
  have walk : (world.aside scope object name).Lineage scope (world.lineage scope) :=
    (forest.lineage scope).of_owner?_eq fun other above => by
      have different : object ≠ other := fun same => apart (same ▸ above)
      rw [owner?_aside sound owned, if_neg different]
  rwa [walk.eq_lineage ((follows_aside sound owned).sound sound).forest.isLive_of_owner?]

private theorem kindOf_aside : (world.aside scope object name).kindOf ref = world.kindOf ref := by
  rw [(edits_aside sound owned).kindOf ref fun _ _ => rfl, kindOf_detach sound]

private theorem claimed_aside : (world.aside scope object name).claimed ref = world.claimed ref := by
  rw [(edits_aside sound owned).claimed ref fun _ => rfl, claimed_detach sound]

/-- The new name stays free. -/
private theorem free_aside (free : ¬ world.Taken scope name) :
    ¬ (world.aside scope object name).Taken scope ((world.aside scope object name).nameOf object) := by
  rw [nameOf_aside sound owned]
  rintro (present | unsettled)
  · rw [members_aside sound owned, if_pos rfl, Table.find?_erase, find?_of_free free, ite_self] at present
    cases present
  · refine unsettled fun builtin found => ?_
    rw [kindOf_aside sound owned] at found
    rw [claimed_aside sound owned]
    exact settled_of_free free builtin found

private theorem moved_aside (free : ¬ world.Taken scope name) :
    (world.aside scope object name).Moved scope object ((world.aside scope object name).move scope object) := by
  have follows : Follows .gentle world (world.aside scope object name) := follows_aside sound owned
  exact moved_move (follows.sound sound) (follows.isScope (isScope_of_parent? sound owned))
    (follows.isLive (isLive_of_parent? sound owned)) (free_aside sound owned free) (apart_aside sound owned)

/-- Leaving under the old name and entering under the new one comes to a change of the name. -/
private theorem renamed_move (free : ¬ world.Taken scope name) :
    world.Renamed object name ((world.aside scope object name).move scope object) := by
  have moved := moved_aside sound owned free
  have self := ne_of_parent? sound owned
  obtain ⟨data, found⟩ := Option.isSome_iff_exists.mp (isLive_of_parent? sound owned)
  have recorded : data.parent = some scope := by
    have owns := sound.forest.parent?_eq object ▸ owned
    simpa [owner?, found] using owns
  have itself : ((world.aside scope object name).move scope object).object? object =
      (world.object? object).map ({ · with name }) := by
    rw [moved.itself, object?_aside sound owned, if_pos rfl, found]
    exact congrArg some (congrArg (Object.mk name data.body data.constant) recorded.symm)
  constructor
  case itself => exact itself
  case named =>
    rw [nameOf, itself, found]
    rfl
  case parents =>
    intro ref
    by_cases here : ref = object
    · rw [here, moved.owned, owned]
    · rw [moved.parents ref here, parent?_aside sound owned, if_neg (Ne.symm here)]
  case entered =>
    intro other owns key
    obtain rfl := Option.some.inj (owned.symm.trans owns)
    have alone := moved.alone scope key
    rw [nameOf_aside sound owned] at alone
    split
    next same => exact alone.mpr ⟨rfl, same⟩
    next different =>
      rw [moved.entered key (nameOf_aside sound owned ▸ different), members_aside sound owned, if_pos rfl,
        Table.find?_erase]
  case owner =>
    intro other owns
    obtain rfl := Option.some.inj (owned.symm.trans owns)
    rw [moved.scopes scope self.symm, claimed_aside sound owned, object?_aside sound owned, if_neg self, if_pos rfl,
      Option.map_map]
    exact congrArg (Option.map · _) (funext fun _ => Object.withMembers_withMembers)
  case others =>
    intro ref other unrelated
    have elsewhere : scope ≠ ref := fun same => unrelated (same ▸ owned)
    have orphan : (world.aside scope object name).parent? object ≠ some ref := by
      rw [parent?_aside sound owned, if_pos rfl]
      exact (Option.some_ne_none ref).symm
    rw [moved.others ref other elsewhere.symm orphan, object?_aside sound owned, if_neg other.symm, if_neg elsewhere]
  case size =>
    rw [moved.size, aside, setName, heap_size_change, setParent, heap_size_change, changeMembers, changeScope,
      heap_size_change]
  case rest => exact moved.rest

end Aside

private theorem renamed_self (forest : world.Forest) : world.Renamed object (world.nameOf object) world where
  itself := by
    rw [nameOf]
    cases world.object? object <;> rfl
  named := rfl
  parents _ := rfl
  entered scope owned key := by
    split
    next same => exact same ▸ forest.find?_members_iff.mpr ⟨owned, rfl⟩
    next => rfl
  owner _ _ := map_withMembers_self.symm
  others _ _ _ := rfl
  size := rfl
  rest := rfl

private theorem renamed_setName (forest : world.Forest) (live : world.isLive object = true)
    (unowned : world.parent? object = none) : world.Renamed object name (world.setName object name) where
  itself := by rw [setName, object?_change, if_pos rfl]
  named := by
    obtain ⟨data, found⟩ := Option.isSome_iff_exists.mp live
    rw [nameOf, setName, object?_change, if_pos rfl, found]
    rfl
  parents ref := by
    have edits : Edits _ world (world.setName object name) := edits_setName
    have renamed : (world.setName object name).Forest := forest.rename (forest.parent?_eq object ▸ unowned)
    rw [renamed.parent?_eq, edits.owner? ref fun _ => rfl, forest.parent?_eq]
  entered scope owned := by
    rw [unowned] at owned
    cases owned
  owner scope owned := by
    rw [unowned] at owned
    cases owned
  others ref other _ := by rw [setName, object?_change, if_neg other.symm]
  size := heap_size_change
  rest := rfl

end World

namespace Act

open World

variable {world : World} {scope object : Ref} {name : String}

/-! What renaming comes to. -/

theorem rename_of_constant (constant : world.isConstant object = true) :
    rename object name world = .error (.ofCause (.constantModified (world.fullName object))) world :=
  (refuses_requireChangeable constant).bind

theorem rename_of_same (changeable : world.isConstant object = false) (same : world.nameOf object = name) :
    rename object name world = .ok () world := by
  rw [rename, bind_of_ok (requireChangeable_of_changeable changeable), see_bind, if_pos same]
  rfl

section Different

variable (changeable : world.isConstant object = false) (different : world.nameOf object ≠ name)

include changeable different

private theorem rename_of_unowned (unowned : world.parent? object = none) :
    rename object name world = .ok () (world.setName object name) := by
  rw [rename, bind_of_ok (requireChangeable_of_changeable changeable), see_bind, if_neg different, see_bind, unowned]
  rfl

theorem rename_of_taken (owned : world.parent? object = some scope) (taken : world.Taken scope name) :
    rename object name world =
      .error (.ofCause (.alreadyExists name ((world.materialize scope name).fullName scope)))
        (world.materialize scope name) := by
  rw [rename, bind_of_ok (requireChangeable_of_changeable changeable), see_bind, if_neg different, see_bind, owned]
  dsimp only
  rw [bind_of_ok (hasMember_of_taken taken)]
  rfl

end Different

private theorem unregister_of_parent? (sound : world.Sound) (owned : world.parent? object = some scope) :
    unregister scope (world.nameOf object) world =
      .ok object ((world.changeMembers scope (·.erase (world.nameOf object))).setParent object none) := by
  rw [unregister, see_bind, find?_of_parent? sound owned]
  rfl

private theorem adopt_aside (sound : world.Sound) (owned : world.parent? object = some scope)
    (free : ¬ world.Taken scope name) :
    adopt scope object (world.aside scope object name) = .ok () ((world.aside scope object name).move scope object) :=
  adopt_of_free (free_aside sound owned free) (apart_aside sound owned)

theorem rename_of_free (sound : world.Sound) (changeable : world.isConstant object = false)
    (different : world.nameOf object ≠ name) (owned : world.parent? object = some scope)
    (free : ¬ world.Taken scope name) :
    rename object name world = .ok () ((world.aside scope object name).move scope object) := by
  rw [rename, bind_of_ok (requireChangeable_of_changeable changeable), see_bind, if_neg different, see_bind, owned]
  dsimp only
  rw [bind_of_ok (hasMember_of_free free)]
  change (unregister scope (world.nameOf object) >>= fun taken =>
    update (·.setName taken name) >>= fun _ => adopt scope taken) world = _
  rw [bind_of_ok (unregister_of_parent? sound owned), update_bind]
  exact adopt_aside sound owned free

/-- How a renaming may end. -/
inductive RenameOutcome (world : World) (object : Ref) (name : String) : EStateM.Result Stop World Unit → Prop where
  | constant (constant : world.isConstant object = true) :
      RenameOutcome world object name (.error (.ofCause (.constantModified (world.fullName object))) world)
  | taken {scope : Ref} {after : World} (changeable : world.isConstant object = false)
      (owned : world.parent? object = some scope) (different : world.nameOf object ≠ name)
      (taken : world.Taken scope name) (looked : world.LookedUp scope name after)
      (kept : after.nameOf object = world.nameOf object)
      (stays : after.parent? object = world.parent? object)
      (registered : (after.members scope).find? (world.nameOf object) = some object) :
      RenameOutcome world object name (.error (.ofCause (.alreadyExists name (world.fullName scope))) after)
  | renamed {after : World} (changeable : world.isConstant object = false)
      (free : ∀ scope, world.parent? object = some scope → world.nameOf object ≠ name → ¬ world.Taken scope name)
      (renamed : world.Renamed object name after) : RenameOutcome world object name (.ok () after)

private theorem rename_outcome_of_taken (sound : world.Sound) (changeable : world.isConstant object = false)
    (different : world.nameOf object ≠ name) (owned : world.parent? object = some scope)
    (taken : world.Taken scope name) : RenameOutcome world object name (rename object name world) := by
  have live := isLive_of_parent? sound owned
  have kept : (world.materialize scope name).nameOf object = world.nameOf object := nameOf_materialize live
  have stays : (world.materialize scope name).parent? object = world.parent? object :=
    parent?_materialize sound (lt_size_of_isLive live)
  have registered := (forest_materialize sound).find?_members_iff.mpr ⟨stays.trans owned, kept⟩
  rw [rename_of_taken changeable different owned taken,
    fullName_materialize sound (isLive_of_isScope (isScope_of_parent? sound owned))]
  exact .taken changeable owned different taken (lookedUp_materialize sound.forest) kept stays registered

private theorem rename_outcome (sound : world.Sound) (live : world.isLive object = true) :
    RenameOutcome world object name (rename object name world) := by
  cases changeable : world.isConstant object with
  | true =>
    rw [rename_of_constant changeable]
    exact .constant changeable
  | false =>
    by_cases same : world.nameOf object = name
    · rw [rename_of_same changeable same]
      exact .renamed changeable (fun _ _ different => absurd same different) (same ▸ renamed_self sound.forest)
    · cases owned : world.parent? object with
      | none =>
        rw [rename_of_unowned changeable same owned]
        refine .renamed changeable (fun scope owns => ?_) (renamed_setName sound.forest live owned)
        rw [owned] at owns
        cases owns
      | some scope =>
        by_cases taken : world.Taken scope name
        · exact rename_outcome_of_taken sound changeable same owned taken
        · rw [rename_of_free sound changeable same owned taken]
          refine .renamed changeable (fun other owns _ => ?_) (renamed_move sound owned taken)
          rwa [← Option.some.inj (owned.symm.trans owns)]

/-- The same result, with an object marked in the world that it leaves. -/
def withMark (object : Ref) (constant : Bool) : EStateM.Result Stop World Unit → EStateM.Result Stop World Unit
  | .ok _ after => .ok () (after.setConstant object constant)
  | .error stop after => .error stop (after.setConstant object constant)

/-- Marking the owner and renaming a member do not get in each other's way. -/
private theorem rename_setConstant (sound : world.Sound) (owned : world.parent? object = some scope) (constant : Bool) :
    rename object name (world.setConstant scope constant) = withMark scope constant (rename object name world) := by
  have self := ne_of_parent? sound owned
  have old := lt_size_of_isLive (isLive_of_isScope (isScope_of_parent? sound owned))
  have soundMarked : (world.setConstant scope constant).Sound := (follows_setConstant sound).sound sound
  have ownedMarked : (world.setConstant scope constant).parent? object = some scope := parent?_setConstant.trans owned
  have mark : (world.setConstant scope constant).isConstant object = world.isConstant object :=
    isConstant_setConstant self
  have kept : (world.setConstant scope constant).nameOf object = world.nameOf object := nameOf_setConstant
  cases changeable : world.isConstant object with
  | true =>
    rw [rename_of_constant changeable, rename_of_constant (mark.trans changeable), fullName_setConstant]
    rfl
  | false =>
    have changeableMarked := mark.trans changeable
    by_cases same : world.nameOf object = name
    · rw [rename_of_same changeable same, rename_of_same changeableMarked (kept.trans same)]
      rfl
    · have differentMarked : (world.setConstant scope constant).nameOf object ≠ name := kept ▸ same
      by_cases taken : world.Taken scope name
      · rw [rename_of_taken changeable same owned taken,
          rename_of_taken changeableMarked differentMarked ownedMarked (taken_setConstant.mpr taken),
          materialize_setConstant old, fullName_setConstant]
        rfl
      · rw [rename_of_free sound changeable same owned taken,
          rename_of_free soundMarked changeableMarked differentMarked ownedMarked (mt taken_setConstant.mp taken),
          aside_setConstant, move_setConstant]
        rfl

end Act

namespace World

open Act

variable {world : World} {object : Ref}

/-- A renaming that comes about: the object may change, and the new name is free. -/
structure RenameAccepted (world : World) (object : Ref) (name : String) (after : World) : Prop where
  renamed : world.Renamed object name after
  changeable : world.isConstant object = false
  free : ∀ scope, world.parent? object = some scope → world.nameOf object ≠ name → ¬ world.Taken scope name

/-- A renaming that is refused leaves the object where it was, for one of two causes. -/
structure RenameRefused (world : World) (object : Ref) (name : String) (stop : Stop) (after : World) : Prop where
  named : after.nameOf object = world.nameOf object
  parent : after.parent? object = world.parent? object
  registered : ∀ scope, world.parent? object = some scope →
    (after.members scope).find? (world.nameOf object) = some object
  cause : stop = .ofCause (.constantModified (world.fullName object)) ∧ world.isConstant object = true ∧ after = world ∨
    ∃ scope, world.parent? object = some scope ∧ world.nameOf object ≠ name ∧ world.Taken scope name ∧
      stop = .ofCause (.alreadyExists name (world.fullName scope)) ∧ world.isConstant object = false ∧
      world.LookedUp scope name after

/-- A member can leave its scope and join it again under another name, which is all that renaming it does. -/
def Rejoins (world : World) (scope object : Ref) (name : String) : Prop :=
  ∃ left after, unregister scope (world.nameOf object) world = .ok object left ∧
    adopt scope object (left.setName object name) = .ok () after ∧
    (world.isConstant object = false → world.nameOf object ≠ name → rename object name world = .ok () after)

/-- Renaming succeeds, and then the object has the new name and is found under it where it was found before, or it
fails, because the object is constant or the name is taken in the owner, and then the object has its old name and place.
Either way nothing else changes, but for the built-in member of a name that is taken by it. What comes after the check
for the name cannot fail, and it does not matter whether the owner is constant. -/
theorem rename_is_atomic (ongoing : world.Ongoing) (live : world.isLive object = true) (name : String) :
    (∀ after, rename object name world = .ok () after → world.RenameAccepted object name after) ∧
    (∀ stop after, rename object name world = .error stop after → world.RenameRefused object name stop after) ∧
    (∀ scope, world.parent? object = some scope → ¬ world.Taken scope name → world.Rejoins scope object name) ∧
    ∀ scope constant, world.parent? object = some scope →
      rename object name (world.setConstant scope constant) = withMark scope constant (rename object name world) := by
  have sound := ongoing.sound
  refine ⟨?_, ?_, ?_, fun scope constant owned => rename_setConstant sound owned constant⟩
  · intro after ran
    have outcome : RenameOutcome world object name _ := rename_outcome sound live
    rw [ran] at outcome
    cases outcome with
    | renamed changeable free renamed => exact ⟨renamed, changeable, free⟩
  · intro stop after ran
    have outcome : RenameOutcome world object name _ := rename_outcome sound live
    rw [ran] at outcome
    cases outcome with
    | constant constant =>
      have registered (scope : Ref) (owned : world.parent? object = some scope) :=
        sound.forest.find?_members_iff.mpr ⟨owned, rfl⟩
      exact ⟨rfl, rfl, registered, .inl ⟨rfl, constant, rfl⟩⟩
    | @taken scope _ changeable owned different taken looked kept stays registered =>
      refine ⟨kept, stays, fun other owns => ?_, .inr ⟨scope, owned, different, taken, rfl, changeable, looked⟩⟩
      rwa [← Option.some.inj (owned.symm.trans owns)]
  · intro scope owned free
    refine ⟨_, _, unregister_of_parent? sound owned, adopt_aside sound owned free, fun changeable different => ?_⟩
    exact rename_of_free sound changeable different owned free

/-- A list is renamed in a constant scope, whose documentation has not been made. -/
def listInConstant : World :=
  (runAll {} [
    { action := .create (.scope "here"), name := some "h" },
    { action := .create (.list "items"), name := some "l" },
    { action := .scope (.register (.handle "l")), target := some "h" },
    { action := .object (.setConstant true), target := some "h" }]).2

theorem rename_in_constant_scope : listInConstant.Ongoing ∧ listInConstant.isConstant 0 = true ∧
    (∃ after, rename 1 "things" listInConstant = .ok () after ∧ listInConstant.Renamed 1 "things" after) ∧
    ∃ after, rename 1 "doc" listInConstant = .error (.ofCause (.alreadyExists "doc" "here")) after ∧
      after.nameOf 1 = "items" ∧ listInConstant.LookedUp 0 "doc" after := by
  have ongoing : listInConstant.Ongoing := (Reachable.runAll (.start {}) _).ongoing
  have live : listInConstant.isLive 1 = true := by decide +kernel
  have owned : listInConstant.parent? 1 = some 0 := by decide +kernel
  obtain ⟨renames, -⟩ := rename_is_atomic ongoing live "things"
  obtain ⟨-, refuses, -⟩ := rename_is_atomic ongoing live "doc"
  refine ⟨ongoing, by decide +kernel, ?_, ?_⟩
  · have succeeds : (match rename 1 "things" listInConstant with | .ok .. => true | .error .. => false) = true := by
      decide +kernel
    split at succeeds
    next after ran => exact ⟨after, ran, (renames after ran).renamed⟩
    next => cases succeeds
  · have fails : (match rename 1 "doc" listInConstant with | .ok .. => false | .error .. => true) = true := by
      decide +kernel
    split at fails
    next => cases fails
    next stop after ran =>
      obtain ⟨kept, -, -, ⟨-, constant, -⟩ | ⟨scope, owns, -, -, rfl, -, looked⟩⟩ := refuses stop after ran
      · have changeable : listInConstant.isConstant 1 = false := by decide +kernel
        rw [changeable] at constant
        cases constant
      · obtain rfl := Option.some.inj (owned.symm.trans owns)
        have before : listInConstant.nameOf 1 = "items" := by decide +kernel
        have here : listInConstant.fullName 0 = "here" := by decide +kernel
        exact ⟨after, here ▸ ran, kept.trans before, looked⟩

end World

end Dialogue
