import Dialogue.Proofs.ConstantLists
import Dialogue.Proofs.LookupFootprint
import Dialogue.Proofs.OwnershipTree

/-! Registration moves an object or changes nothing. Whichever of its checks refuses, the object keeps its owner; if
none does, one entry goes from the members of the former owner to those of the new one. -/

namespace Dialogue

namespace World

open Act

variable {world : World} {scope object ref upper : Ref}

/-- An object has entered a scope and left the scope that owned it, and nothing else has happened. -/
structure Moved (world : World) (scope object : Ref) (after : World) : Prop where
  itself : after.object? object = (world.object? object).map ({ · with parent := some scope })
  owned : after.parent? object = some scope
  /-- It is a member of no other scope, and of this one under its name. -/
  alone : ∀ owner key, (after.members owner).find? key = some object ↔ owner = scope ∧ key = world.nameOf object
  entered : ∀ key, key ≠ world.nameOf object → (after.members scope).find? key = (world.members scope).find? key
  left : ∀ owner, world.parent? object = some owner → ∀ key,
    (after.members owner).find? key = if key = world.nameOf object then none else (world.members owner).find? key
  parents : ∀ ref, ref ≠ object → after.parent? ref = world.parent? ref
  /-- The two scopes differ in nothing but their members. -/
  scopes : ∀ ref, ref ≠ object →
    after.object? ref = (world.object? ref).map (·.withMembers (after.members ref) (world.claimed ref))
  others : ∀ ref, ref ≠ object → ref ≠ scope → world.parent? object ≠ some ref → after.object? ref = world.object? ref
  below : ∀ ref, Relation.TransGen (fun lower upper => world.parent? lower = some upper) ref object →
    after.object? ref = world.object? ref
  size : after.heap.size = world.heap.size
  rest : after = { world with heap := after.heap }

/-- Whether some object would be above itself if a scope owned the object. -/
def WouldCircle (world : World) (scope object : Ref) : Prop :=
  ∃ ref, Relation.TransGen (fun lower upper => (world.setParent object (some scope)).parent? lower = some upper) ref ref

/-! Circles. -/

theorem Forest.mem_lineage_iff (forest : world.Forest) :
    upper ∈ world.lineage ref ↔
      Relation.ReflTransGen (fun lower upper => world.parent? lower = some upper) ref upper := by
  constructor
  · have walk := forest.lineage ref
    generalize world.lineage ref = line at walk
    intro member
    induction walk with
    | top => rw [List.mem_singleton.mp member]
    | owned found rest ih =>
      rcases List.mem_cons.mp member with rfl | later
      · exact .refl
      · exact .head (forest.parent?_eq _ ▸ found) (ih later)
  · intro above
    induction above using Relation.ReflTransGen.head_induction_on with
    | refl =>
      rw [forest.lineage_eq]
      exact List.mem_cons_self
    | head owned _ ih =>
      rw [forest.lineage_eq, owned]
      exact List.mem_cons_of_mem _ ih

theorem owner?_setParent (live : world.isLive object = true) :
    (world.setParent object (some scope)).owner? ref = if object = ref then some scope else world.owner? ref := by
  rw [owner?_eq, owner?_eq, shape?_setParent]
  split
  next here =>
    obtain ⟨shape, found⟩ := Option.isSome_iff_exists.mp (isLive_eq ▸ live)
    rw [← here, found]
    rfl
  next => rfl

private theorem parent?_setParent (forest : world.Forest) (isScope : (world.kindOf scope).isScope = true)
    (live : world.isLive object = true) :
    (world.setParent object (some scope)).parent? ref = if object = ref then some scope else world.parent? ref := by
  rw [Lineage.parent?_eq, owner?_setParent live, forest.parent?_eq]
  intro member owner owned
  rw [setParent, isLive_change]
  rw [owner?_setParent live] at owned
  split at owned
  next => exact Option.some.inj owned ▸ isLive_of_isScope isScope
  next => exact forest.isLive_of_owner? _ _ owned

/-- A circle closes just if the object is the scope or above it. -/
private theorem wouldCircle_iff (forest : world.Forest) (isScope : (world.kindOf scope).isScope = true)
    (live : world.isLive object = true) : world.WouldCircle scope object ↔ object ∈ world.lineage scope := by
  have parents (ref : Ref) : (world.setParent object (some scope)).parent? ref = _ :=
    parent?_setParent forest isScope live
  constructor
  · rintro ⟨ref, circle⟩
    by_contra apart
    obtain ⟨line, walk⟩ : ∃ line, (world.setParent object (some scope)).Lineage ref line :=
      (forest.lineage ref).of_entered (forest.lineage scope) apart (by rw [owner?_setParent live, if_pos rfl])
        fun other different => by rw [owner?_setParent live, if_neg different.symm]
    refine walk.not_circular (Relation.TransGen.mono (fun lower upper owned => ?_) ref ref circle)
    rwa [parents, forest.parent?_eq, ← owner?_setParent live] at owned
  · intro above
    -- Up to the object, the way is the same as before.
    have kept {start : Ref}
        (up : Relation.ReflTransGen (fun lower upper => world.parent? lower = some upper) start object) :
        Relation.ReflTransGen (fun lower upper => (world.setParent object (some scope)).parent? lower = some upper)
          start object := by
      induction up using Relation.ReflTransGen.head_induction_on with
      | refl => exact .refl
      | @head lower upper owned _ ih =>
        by_cases here : object = lower
        · exact here ▸ .refl
        · exact .head (by rw [parents, if_neg here, owned]) ih
    exact ⟨object, .head' (by rw [parents, if_pos rfl]) (kept (forest.mem_lineage_iff.mp above))⟩

/-! An object that leaves its owner. -/

theorem object?_detach (sound : world.Sound) :
    (world.detach object).object? ref =
      if object = ref then (world.object? ref).map ({ · with parent := none })
      else if world.parent? object = some ref then (world.object? ref).map
        (·.withMembers ((world.members ref).erase (world.nameOf object)) (world.claimed ref))
      else world.object? ref := by
  rw [sound.forest.parent?_eq]
  rcases detach_cases sound object with ⟨unowned, same⟩ | ⟨owner, owned, -, moved⟩
  · rw [same, unowned, if_neg (Option.some_ne_none ref).symm]
    split
    next here =>
      -- It records no owner that could go.
      subst here
      cases found : world.object? object with
      | none => rfl
      | some data =>
        obtain ⟨name, body, constant, parent⟩ := data
        obtain rfl : parent = none := by simpa [owner?, found] using unowned
        rfl
    next => rfl
  · have apart : object ≠ owner := fun same =>
      (sound.forest.lineage object).not_circular (.single (same ▸ owned : world.owner? object = some object))
    rw [moved, setParent, object?_change, object?_changeMembers, owned]
    by_cases here : object = ref
    · rw [if_pos here, if_pos here, if_neg (here ▸ apart.symm)]
    · rw [if_neg here, if_neg here]
      by_cases there : owner = ref
      · rw [if_pos there, if_pos (congrArg some there), there]
      · rw [if_neg there, if_neg (there ∘ Option.some.inj)]

theorem members_detach (sound : world.Sound) :
    (world.detach object).members ref =
      if world.parent? object = some ref then (world.members ref).erase (world.nameOf object)
      else world.members ref := by
  rw [sound.forest.parent?_eq]
  rcases detach_cases sound object with ⟨unowned, same⟩ | ⟨owner, owned, found, moved⟩
  · rw [same, unowned, if_neg (Option.some_ne_none ref).symm]
  · have edits : Edits _ world (world.detach object) := moved ▸ edits_leave (isScope_of_members found)
    simp only [owned, Option.some.injEq]
    exact edits.members_eq ref (fun members => if owner = ref then members.erase (world.nameOf object) else members)
      (fun _ => rfl) (by split <;> rfl)

theorem claimed_detach (sound : world.Sound) : (world.detach object).claimed ref = world.claimed ref := by
  rcases detach_cases sound object with ⟨-, same⟩ | ⟨owner, -, found, moved⟩
  · rw [same]
  · have edits : Edits _ world (world.detach object) := moved ▸ edits_leave (isScope_of_members found)
    exact edits.claimed ref fun _ => rfl

theorem owner?_detach (sound : world.Sound) :
    (world.detach object).owner? ref = if object = ref then none else world.owner? ref := by
  rw [owner?, object?_detach sound]
  split
  next => cases world.object? ref <;> rfl
  next =>
    split
    next =>
      rw [owner?]
      cases world.object? ref with
      | none => rfl
      | some data =>
        obtain ⟨name, body, constant, parent⟩ := data
        cases body <;> rfl
    next => rfl

/-! An object that moves into a scope that has no member of its name and is not below it. -/

/-- The world in which an object has left its owner and entered a scope. -/
def move (world : World) (scope object : Ref) : World := (world.detach object).insertMember scope object

section Move

variable (sound : world.Sound) (isScope : (world.kindOf scope).isScope = true) (live : world.isLive object = true)
  (free : ¬ world.Taken scope (world.nameOf object)) (apart : object ∉ world.lineage scope)

include sound

theorem parent?_ne_of_free (free : ¬ world.Taken scope (world.nameOf object)) : world.parent? object ≠ some scope := by
  intro owned
  have member := sound.forest.find?_members_iff.mpr ⟨owned, rfl⟩
  rw [find?_of_free free] at member
  cases member

private theorem ne_of_apart (apart : object ∉ world.lineage scope) : object ≠ scope :=
  fun same => apart (sound.forest.mem_lineage_iff.mpr (same ▸ .refl))

include isScope

theorem isScope_detach : ((world.detach object).kindOf scope).isScope = true := by rwa [kindOf_detach sound]

private theorem nameOf_move : (world.move scope object).nameOf ref = world.nameOf ref := by
  have edits : Edits _ (world.detach object) (world.move scope object) :=
    edits_insertMember (isScope_detach sound isScope)
  rw [edits.nameOf ref fun _ _ => rfl, nameOf_detach sound]

include free

theorem members_move :
    (world.move scope object).members ref =
      if scope = ref then (world.members ref).insert (world.nameOf object) object
      else if world.parent? object = some ref then (world.members ref).erase (world.nameOf object)
      else world.members ref := by
  rw [move, members_insertMember object (isScope_detach sound isScope), nameOf_detach sound, members_detach sound]
  by_cases here : scope = ref
  · rw [if_pos here, if_pos here, if_neg (here ▸ parent?_ne_of_free sound free)]
  · rw [if_neg here, if_neg here]

include live apart

private theorem forest_move : (world.move scope object).Forest :=
  have follows := follows_move sound isScope live (find?_of_free free) (settled_of_free free) apart
  (follows.sound sound).forest

private theorem parent?_move :
    (world.move scope object).parent? ref = if object = ref then some scope else world.parent? ref := by
  have stillLive : (world.detach object).isLive object = true := by
    rw [isLive, object?_detach sound, if_pos rfl, Option.isSome_map]
    exact live
  rw [(forest_move sound isScope live free apart).parent?_eq, move,
    owner?_insertMember (isScope_detach sound isScope) stillLive, owner?_detach sound, sound.forest.parent?_eq]
  split <;> rfl

omit live

private theorem object?_move :
    (world.move scope object).object? ref =
      if object = ref then (world.object? ref).map ({ · with parent := some scope })
      else (world.object? ref).map (·.withMembers ((world.move scope object).members ref) (world.claimed ref)) := by
  have former := parent?_ne_of_free sound free
  rw [members_move sound isScope free, move, object?_insertMember (ne_of_apart sound apart), nameOf_detach sound,
    members_detach sound, claimed_detach sound, object?_detach sound]
  by_cases self : object = ref
  · rw [if_pos self, if_pos self, if_pos self, Option.map_map]
    rfl
  · rw [if_neg self, if_neg self, if_neg self]
    by_cases here : scope = ref
    · subst here
      rw [if_pos rfl, if_pos rfl, if_neg former, if_neg former]
    · rw [if_neg here, if_neg here]
      split
      · rfl
      · rw [map_withMembers_self]

private theorem object?_move_of_ne (other : ref ≠ object) (elsewhere : ref ≠ scope)
    (unrelated : world.parent? object ≠ some ref) : (world.move scope object).object? ref = world.object? ref := by
  rw [object?_move sound isScope free apart, if_neg other.symm, members_move sound isScope free, if_neg elsewhere.symm,
    if_neg unrelated, map_withMembers_self]

include live

theorem moved_move : world.Moved scope object (world.move scope object) := by
  have forest := sound.forest
  have after := forest_move sound isScope live free apart
  have members (ref : Ref) : (world.move scope object).members ref = _ := members_move sound isScope free
  have parents (ref : Ref) : (world.move scope object).parent? ref = _ := parent?_move sound isScope live free apart
  have objects (ref : Ref) : (world.move scope object).object? ref = _ := object?_move sound isScope free apart
  constructor
  case itself => rw [objects, if_pos rfl]
  case owned => rw [parents, if_pos rfl]
  case alone =>
    intro owner key
    rw [after.find?_members_iff, parents, if_pos rfl, nameOf_move sound isScope, Option.some.injEq]
    exact and_congr eq_comm eq_comm
  case entered =>
    intro key different
    rw [members, if_pos rfl, Table.find?_insert, if_neg different]
  case left =>
    intro owner owned key
    have apart : scope ≠ owner := fun same => parent?_ne_of_free sound free (same ▸ owned)
    rw [members, if_neg apart, if_pos owned, Table.find?_erase]
  case parents => exact fun ref other => by rw [parents, if_neg other.symm]
  case scopes => exact fun ref other => by rw [objects, if_neg other.symm]
  case others => exact fun ref => object?_move_of_ne sound isScope free apart
  case below =>
    -- What is below the object is neither the scope, which would close a circle, nor the former owner.
    intro ref above
    refine object?_move_of_ne sound isScope free apart ?_ ?_ fun owned => forest.not_above_itself (above.tail owned)
    · rintro rfl
      exact forest.not_above_itself above
    · rintro rfl
      exact apart (forest.mem_lineage_iff.mpr above.to_reflTransGen)
  case size =>
    rw [move, heap_size_insertMember]
    rcases detach_cases sound object with ⟨-, same⟩ | ⟨owner, -, -, moved⟩
    · rw [same]
    · rw [moved, setParent, heap_size_change, changeMembers, changeScope, heap_size_change]
  case rest =>
    rcases detach_cases sound object with ⟨-, same⟩ | ⟨owner, -, -, moved⟩
    · rw [move, same]
      rfl
    · rw [move, moved]
      rfl

end Move

end World

namespace Act

open World

variable {world : World} {scope object : Ref}

/-! What the checks come to. -/

private theorem adopt_of_taken (taken : world.Taken scope (world.nameOf object)) :
    adopt scope object world =
      .error (.ofCause (.alreadyExists (world.nameOf object)
        ((world.materialize scope (world.nameOf object)).fullName scope)))
        (world.materialize scope (world.nameOf object)) := by
  rw [adopt, see_bind, bind_of_ok (hasMember_of_taken taken)]
  rfl

private theorem adopt_of_above (free : ¬ world.Taken scope (world.nameOf object))
    (above : object ∈ world.lineage scope) :
    adopt scope object world = .error (.ofCause (.ownershipCycle (world.fullName object))) world := by
  rw [adopt, see_bind, bind_of_ok (hasMember_of_free free)]
  change (if (world.lineage scope).contains object = true then _ else _ : Act Unit) world = _
  rw [if_pos (List.contains_iff_mem.mpr above)]
  rfl

theorem adopt_of_free (free : ¬ world.Taken scope (world.nameOf object)) (apart : object ∉ world.lineage scope) :
    adopt scope object world = .ok () (world.move scope object) := by
  rw [adopt, see_bind, bind_of_ok (hasMember_of_free free)]
  change (if (world.lineage scope).contains object = true then _ else _ : Act Unit) world = _
  rw [if_neg (mt List.contains_iff_mem.mp apart)]
  rfl

/-- How a registration may end: with the first of its checks that fails, or with a move. -/
inductive RegisterOutcome (world : World) (scope object : Ref) : EStateM.Result Stop World Unit → Prop where
  | constant (constant : world.isConstant scope = true) :
      RegisterOutcome world scope object (.error (.ofCause (.constantModified (world.fullName scope))) world)
  | taken {after : World} (changeable : world.isConstant scope = false)
      (taken : world.Taken scope (world.nameOf object)) (looked : world.LookedUp scope (world.nameOf object) after)
      (kept : after.parent? object = world.parent? object) :
      RegisterOutcome world scope object
        (.error (.ofCause (.alreadyExists (world.nameOf object) (world.fullName scope))) after)
  | above (changeable : world.isConstant scope = false) (free : ¬ world.Taken scope (world.nameOf object))
      (above : object ∈ world.lineage scope) :
      RegisterOutcome world scope object (.error (.ofCause (.ownershipCycle (world.fullName object))) world)
  | moved {after : World} (changeable : world.isConstant scope = false)
      (free : ¬ world.Taken scope (world.nameOf object)) (apart : object ∉ world.lineage scope)
      (moved : world.Moved scope object after) : RegisterOutcome world scope object (.ok () after)

private theorem register_outcome (sound : world.Sound) (isScope : (world.kindOf scope).isScope = true)
    (live : world.isLive object = true) : RegisterOutcome world scope object (register scope object world) := by
  cases constant : world.isConstant scope with
  | true =>
    rw [register, (refuses_requireChangeable constant).bind]
    exact .constant constant
  | false =>
    rw [register, bind_of_ok (requireChangeable_of_changeable constant)]
    by_cases taken : world.Taken scope (world.nameOf object)
    · rw [adopt_of_taken taken, fullName_materialize sound (isLive_of_isScope isScope)]
      exact .taken constant taken (lookedUp_materialize sound.forest)
        (parent?_materialize sound (lt_size_of_isLive live))
    · by_cases above : object ∈ world.lineage scope
      · rw [adopt_of_above taken above]
        exact .above constant taken above
      · rw [adopt_of_free taken above]
        exact .moved constant taken above (moved_move sound isScope live taken above)

end Act

namespace World

open Act

variable {world : World} {scope object : Ref}

/-- A registration that succeeds moves the object, and does nothing else. One that fails says why: the scope is
constant, it has a member of the name or would make one, or it is the object or below it. Then the object keeps its
owner, and at most the built-in member of that name has been made. Circles are found out exactly where they would close
under a free name. -/
theorem register_moves_or_refuses (ongoing : world.Ongoing) (isScope : (world.kindOf scope).isScope = true)
    (live : world.isLive object = true) :
    (∀ after, register scope object world = .ok () after →
      world.Moved scope object after ∧ world.isConstant scope = false ∧ ¬ world.Taken scope (world.nameOf object) ∧
        ¬ Relation.ReflTransGen (fun lower upper => world.parent? lower = some upper) scope object) ∧
    (∀ stop after, register scope object world = .error stop after →
      after.parent? object = world.parent? object ∧ world.LookedUp scope (world.nameOf object) after ∧
      (stop = .ofCause (.constantModified (world.fullName scope)) ∧ world.isConstant scope = true ∧ after = world ∨
        stop = .ofCause (.alreadyExists (world.nameOf object) (world.fullName scope)) ∧
          world.isConstant scope = false ∧ world.Taken scope (world.nameOf object) ∨
        stop = .ofCause (.ownershipCycle (world.fullName object)) ∧ world.isConstant scope = false ∧
          Relation.ReflTransGen (fun lower upper => world.parent? lower = some upper) scope object ∧ after = world)) ∧
    (world.isConstant scope = false →
      ((∃ after, register scope object world = .error (.ofCause (.ownershipCycle (world.fullName object))) after) ↔
        world.WouldCircle scope object ∧ ¬ world.Taken scope (world.nameOf object))) := by
  have sound := ongoing.sound
  have outcome := register_outcome sound isScope live
  rw [wouldCircle_iff sound.forest isScope live, sound.forest.mem_lineage_iff]
  generalize register scope object world = result at outcome
  cases outcome with
  | constant constant =>
    refine ⟨?_, ?_, fun changeable => absurd (changeable.symm.trans constant) Bool.false_ne_true⟩
    · rintro _ ⟨⟩
    · rintro _ _ ⟨⟩
      exact ⟨rfl, .inl rfl, .inl ⟨rfl, constant, rfl⟩⟩
  | taken changeable taken looked kept =>
    refine ⟨?_, ?_, fun _ => ⟨?_, fun ⟨_, free⟩ => absurd taken free⟩⟩
    · rintro _ ⟨⟩
    · rintro _ _ ⟨⟩
      exact ⟨kept, looked, .inr (.inl ⟨rfl, changeable, taken⟩)⟩
    · rintro ⟨_, ⟨⟩⟩
  | above changeable free above =>
    have up := sound.forest.mem_lineage_iff.mp above
    refine ⟨?_, ?_, fun _ => ⟨fun _ => ⟨up, free⟩, fun _ => ⟨_, rfl⟩⟩⟩
    · rintro _ ⟨⟩
    · rintro _ _ ⟨⟩
      exact ⟨rfl, .inl rfl, .inr (.inr ⟨rfl, changeable, up, rfl⟩)⟩
  | moved changeable free apart moved =>
    have notUp := mt sound.forest.mem_lineage_iff.mpr apart
    refine ⟨?_, ?_, fun _ => ⟨?_, fun ⟨up, _⟩ => absurd up notUp⟩⟩
    · rintro _ ⟨⟩
      exact ⟨moved, changeable, free, notUp⟩
    · rintro _ _ ⟨⟩
    · rintro ⟨_, ⟨⟩⟩

/-- A list in one of two scopes. -/
def listInside : World :=
  (runAll {} [
    { action := .create (.scope "here"), name := some "h" },
    { action := .create (.scope "there"), name := some "t" },
    { action := .create (.list "items"), name := some "l" },
    { action := .scope (.register (.handle "l")), target := some "h" }]).2

theorem register_moves_list : listInside.Ongoing ∧ listInside.parent? 2 = some 0 ∧
    (∃ after, register 1 2 listInside = .ok () after ∧ listInside.Moved 1 2 after) ∧
    ∃ after, register 0 0 listInside = .error (.ofCause (.ownershipCycle "here")) after ∧
      after.parent? 0 = listInside.parent? 0 := by
  have ongoing : listInside.Ongoing := (Reachable.runAll (.start {}) _).ongoing
  have here : (listInside.kindOf 0).isScope = true := by decide +kernel
  have there : (listInside.kindOf 1).isScope = true := by decide +kernel
  have changeable : listInside.isConstant 0 = false := by decide +kernel
  obtain ⟨moves, -⟩ := register_moves_or_refuses ongoing there (by decide +kernel : listInside.isLive 2 = true)
  obtain ⟨-, keeps, circles⟩ := register_moves_or_refuses ongoing here (isLive_of_isScope here)
  refine ⟨ongoing, by decide +kernel, ?_, ?_⟩
  · have succeeds : (match register 1 2 listInside with | .ok .. => true | .error .. => false) = true := by
      decide +kernel
    split at succeeds
    next after ran => exact ⟨after, ran, (moves after ran).1⟩
    next => cases succeeds
  · have circle : listInside.WouldCircle 0 0 :=
      (wouldCircle_iff ongoing.sound.forest here (isLive_of_isScope here)).mpr (by decide +kernel)
    have free : ¬ listInside.Taken 0 (listInside.nameOf 0) := free_of_unnamed (by decide +kernel) (by decide +kernel)
    obtain ⟨after, ran⟩ := (circles changeable).mpr ⟨circle, free⟩
    have named : listInside.fullName 0 = "here" := by decide +kernel
    exact ⟨after, named ▸ ran, (keeps _ after ran).1⟩

end World

end Dialogue
