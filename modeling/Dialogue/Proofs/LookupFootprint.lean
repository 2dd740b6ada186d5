import Dialogue.Proofs.BuiltinsOnce

/-! What looking up a name leaves alone. At most the scope gets the built-in member of that name, which is a new object;
no other object is touched, and owners and full names stay. -/

namespace Dialogue

/-- The object with other members, and other built-in ones made; an object without members stays as it is. -/
def Object.withMembers (object : Object) (members : Table Ref) (claimed : List Builtin) : Object :=
  match object.body with
  | .scope data => { object with body := .scope { data with members, claimed } }
  | _ => object

theorem Object.withMembers_withMembers {object : Object} {members others : Table Ref} {claimed others' : List Builtin} :
    (object.withMembers members claimed).withMembers others others' = object.withMembers others others' := by
  obtain ⟨name, body, constant, parent⟩ := object
  cases body <;> rfl

namespace World

open Act

variable {world after : World} {scope object ref : Ref} {name : String} {builtin : Builtin}

/-- Whether a scope has a member of a name or would make one. -/
def Taken (world : World) (scope : Ref) (name : String) : Prop :=
  ((world.members scope).find? name).isSome = true ∨ ¬ world.Settled scope name

/-- A scope has made a built-in member, and nothing else has happened. -/
structure MadeMember (world : World) (scope : Ref) (builtin : Builtin) (after : World) : Prop where
  made : after.object? world.heap.size = some { builtin.object scope with parent := some scope }
  entered : after.object? scope = (world.object? scope).map fun object =>
    object.withMembers ((world.members scope).insert builtin.memberName world.heap.size)
      (builtin :: world.claimed scope)
  others : ∀ ref, ref ≠ scope → ref ≠ world.heap.size → after.object? ref = world.object? ref
  size : after.heap.size = world.heap.size + 1
  rest : after = { world with heap := after.heap }

/-- What looking up a name in a scope may do: nothing, or make the built-in member that the scope has of that name. -/
def LookedUp (world : World) (scope : Ref) (name : String) (after : World) : Prop :=
  after = world ∨ ∃ builtin, Builtin.ofName? name (world.kindOf scope) = some builtin ∧ builtin ∉ world.claimed scope ∧
    (world.members scope).find? name = none ∧ world.MadeMember scope builtin after

/-! Single objects after a change of members. -/

theorem map_withMembers_self :
    (world.object? ref).map (·.withMembers (world.members ref) (world.claimed ref)) = world.object? ref := by
  cases found : world.object? ref with
  | none => rfl
  | some object =>
    obtain ⟨name, body, constant, parent⟩ := object
    rw [members_eq, claimed_eq, shape?, found]
    cases body <;> rfl

private theorem object?_changeScope {rule : ScopeData → ScopeData} {members : Table Ref} {claimed : List Builtin}
    (same : ∀ data, world.scope? scope = some data → rule data = { data with members, claimed }) :
    (world.changeScope scope rule).object? ref =
      if scope = ref then (world.object? ref).map (·.withMembers members claimed) else world.object? ref := by
  rw [changeScope, object?_change]
  split
  next here =>
    subst here
    cases found : world.object? scope with
    | none => rfl
    | some object =>
      obtain ⟨name, body, constant, parent⟩ := object
      cases body with
      | scope data => simp [Object.withMembers, same data (by simp [scope?, body?, found])]
      | _ => rfl
  next => rfl

theorem object?_changeMembers {rule : Table Ref → Table Ref} :
    (world.changeMembers scope rule).object? ref =
      if scope = ref then (world.object? ref).map (·.withMembers (rule (world.members scope)) (world.claimed scope))
      else world.object? ref := by
  refine object?_changeScope fun data found => ?_
  simp [World.members, World.claimed, found]

private theorem object?_claim :
    (world.claim scope builtin).object? ref =
      if scope = ref then (world.object? ref).map (·.withMembers (world.members scope) (builtin :: world.claimed scope))
      else world.object? ref := by
  refine object?_changeScope fun data found => ?_
  simp [World.members, World.claimed, found]

/-- An object that enters a scope other than itself. -/
theorem object?_insertMember (apart : object ≠ scope) :
    (world.insertMember scope object).object? ref =
      if object = ref then (world.object? ref).map ({ · with parent := some scope })
      else if scope = ref then (world.object? ref).map
        (·.withMembers ((world.members scope).insert (world.nameOf object) object) (world.claimed scope))
      else world.object? ref := by
  have parented : Edits _ world (world.setParent object (some scope)) := edits_setParent
  rw [insertMember, object?_changeMembers, parented.members scope fun _ => rfl, parented.claimed scope fun _ => rfl,
    setParent, object?_change]
  by_cases here : object = ref
  · rw [if_pos here, if_pos here, if_neg (here ▸ apart.symm)]
  · rw [if_neg here, if_neg here]

theorem madeMember_made (named : Builtin.ofName? name (world.kindOf scope) = some builtin) :
    world.MadeMember scope builtin (world.made scope builtin) := by
  have old := lt_size_of_isLive (isLive_of_isScope (Builtin.isScope_of_ofName? named))
  have apart : world.heap.size ≠ scope := old.ne'
  have claimedSize : (world.claim scope builtin).heap.size = world.heap.size := heap_size_change
  have announced (ref : Ref) : (world.announced scope builtin).object? ref =
      if ref = world.heap.size then some (builtin.object scope) else (world.claim scope builtin).object? ref := by
    rw [World.announced, object?_add, claimedSize]
  refine ⟨?_, ?_, fun ref other fresh => ?_, heap_size_made, rfl⟩
  · rw [made, ← World.announced, object?_insertMember apart, if_pos rfl, announced, if_pos rfl, Option.map_some]
  · rw [made, ← World.announced, object?_insertMember apart, if_neg apart, if_pos rfl, announced, if_neg apart.symm,
      object?_claim, if_pos rfl, Option.map_map, members_announced named, claimed_announced named, if_pos rfl,
      nameOf_announced named, ← (Builtin.ofName?_eq_some named).1]
    exact congrArg (Option.map · _) (funext fun _ => Object.withMembers_withMembers)
  · rw [made, ← World.announced, object?_insertMember apart, if_neg (Ne.symm fresh), if_neg (Ne.symm other), announced,
      if_neg fresh, object?_claim, if_neg (Ne.symm other)]

theorem lookedUp_materialize (forest : world.Forest) : world.LookedUp scope name (world.materialize scope name) := by
  rcases materialize_cases world scope name with ⟨-, same⟩ | ⟨builtin, named, unclaimed, made⟩
  · exact .inl same
  · exact .inr ⟨builtin, named, unclaimed, free_of_unclaimed named forest unclaimed, made ▸ madeMember_made named⟩

/-! Owners and names of what was there before. -/

private theorem owner?_materialize (old : ref < world.heap.size) :
    (world.materialize scope name).owner? ref = world.owner? ref := by
  rcases materialize_cases world scope name with ⟨-, same⟩ | ⟨builtin, named, -, made⟩
  · rw [same]
  · have live : (world.announced scope builtin).isLive world.heap.size = true := by
      rw [isLive_announced named, beq_self_eq_true, Bool.true_or]
    rw [made, World.made, ← announced, owner?_insertMember (isScope_announced named) live, if_neg old.ne',
      owner?_announced named]

theorem forest_materialize (sound : world.Sound) : (world.materialize scope name).Forest :=
  ((evolves_materialize sound).sound sound).forest

theorem parent?_materialize (sound : world.Sound) (old : ref < world.heap.size) :
    (world.materialize scope name).parent? ref = world.parent? ref := by
  rw [(forest_materialize sound).parent?_eq, sound.forest.parent?_eq, owner?_materialize old]

theorem fullName_materialize (sound : world.Sound) (live : world.isLive ref = true) :
    (world.materialize scope name).fullName ref = world.fullName ref := by
  have lives {other : Ref} (above : other ∈ world.lineage ref) : world.isLive other = true :=
    sound.forest.isLive_of_mem_lineage live above
  have walk : (world.materialize scope name).Lineage ref (world.lineage ref) :=
    (sound.forest.lineage ref).of_owner?_eq fun other above => owner?_materialize (lt_size_of_isLive (lives above))
  rw [fullName, walk.eq_lineage (forest_materialize sound).isLive_of_owner?, fullName]
  refine congrArg Identifier.join (List.map_congr_left fun other above => ?_)
  exact nameOf_materialize (lives (List.mem_reverse.mp above))

/-! Names that are taken. -/

theorem settled_of_free (free : ¬ world.Taken scope name) : world.Settled scope name :=
  not_not.mp (not_or.mp free).2

theorem find?_of_free (free : ¬ world.Taken scope name) : (world.members scope).find? name = none := by
  simpa using (not_or.mp free).1

/-- A name that no built-in member has. -/
theorem free_of_unnamed (absent : (world.members scope).find? name = none)
    (unnamed : Builtin.ofName? name (world.kindOf scope) = none) : ¬ world.Taken scope name := by
  rintro (present | unsettled)
  · rw [absent] at present
    cases present
  · refine unsettled fun builtin named => ?_
    rw [unnamed] at named
    cases named

private theorem hasMember_eq : hasMember scope name world =
    .ok (((world.materialize scope name).members scope).find? name).isSome (world.materialize scope name) :=
  rfl

theorem hasMember_of_free (free : ¬ world.Taken scope name) : hasMember scope name world = .ok false world := by
  rw [hasMember_eq, materialize_of_settled (settled_of_free free), find?_of_free free]
  rfl

theorem hasMember_of_taken (taken : world.Taken scope name) :
    hasMember scope name world = .ok true (world.materialize scope name) := by
  rw [hasMember_eq]
  refine congrArg (EStateM.Result.ok · _) ?_
  rcases materialize_cases world scope name with ⟨settled, same⟩ | ⟨builtin, named, -, made⟩
  · rw [same]
    exact taken.resolve_right (not_not_intro settled)
  · rw [made, find?_made named, if_pos ⟨rfl, rfl⟩]
    rfl

end World

end Dialogue
