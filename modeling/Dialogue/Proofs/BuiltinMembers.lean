import Dialogue.Proofs.WorldChanges

/-! What looking up a name does to a world. Either nothing, because no built-in member of that name is
left to be made, or it makes one: a new object that is no scope, entered under a name that was free. -/

namespace Dialogue

namespace Builtin

variable {builtin : Builtin} {name : String} {kind : Kind}

theorem ofName?_eq_some (found : ofName? name kind = some builtin) :
    builtin.memberName = name ∧ builtin.appliesTo kind = true := by
  simpa using List.find?_some found

theorem isScope_of_appliesTo (applies : builtin.appliesTo kind = true) : kind.isScope = true := by
  cases builtin <;> cases kind <;> first | rfl | cases applies

theorem isScope_of_ofName? (found : ofName? name kind = some builtin) : kind.isScope = true :=
  isScope_of_appliesTo (ofName?_eq_some found).2

variable (builtin) (owner : Ref)

theorem scope?_object : (builtin.object owner).scope? = none := by
  cases builtin <;> rfl

theorem isScope_kind_object : (builtin.object owner).kind.isScope = false := by
  rw [Object.isScope_kind, scope?_object]
  rfl

private theorem holds_object : (builtin.object owner).holds = [] := by
  cases builtin <;> rfl

theorem slots_object : (builtin.object owner).slots = [] := by
  cases builtin <;> rfl

private theorem grounded_object {ref size : Nat} : (builtin.object owner).content.Grounded ref size := by
  cases builtin with
  | input | next => exact Body.grounded_list fun _ none => nomatch none
  | doc => exact Body.grounded_var (by rintro _ ⟨⟩; trivial) fun _ none => nomatch none
  | _ => exact Body.grounded_var (fun _ none => nomatch none) fun _ none => nomatch none

end Builtin

namespace World

variable {world : World} {scope : Ref} {name : String} {builtin : Builtin}

/-- The world in which a scope has made a built-in member. -/
def made (world : World) (scope : Ref) (builtin : Builtin) : World :=
  ((world.claim scope builtin).add (builtin.object scope)).insertMember scope world.heap.size

/-- Whether nothing is left to be made under a name. -/
def Settled (world : World) (scope : Ref) (name : String) : Prop :=
  ∀ builtin, Builtin.ofName? name (world.kindOf scope) = some builtin → builtin ∈ world.claimed scope

theorem materialize_cases (world : World) (scope : Ref) (name : String) :
    world.Settled scope name ∧ world.materialize scope name = world ∨
      ∃ builtin, Builtin.ofName? name (world.kindOf scope) = some builtin ∧ builtin ∉ world.claimed scope ∧
        world.materialize scope name = world.made scope builtin := by
  unfold materialize Settled claimed
  cases named : Builtin.ofName? name (world.kindOf scope) with
  | none =>
    left
    refine ⟨(by intro builtin impossible; cases impossible), ?_⟩
    cases world.scope? scope <;> rfl
  | some builtin =>
    have isScope := Builtin.isScope_of_ofName? named
    rw [isScope_kindOf, Option.isSome_iff_exists] at isScope
    obtain ⟨data, found⟩ := isScope
    simp only [found, Option.elim_some, List.contains_eq_mem, decide_eq_true_eq, Option.some.injEq]
    by_cases claimed : builtin ∈ data.claimed
    · exact .inl ⟨fun other same => same ▸ claimed, if_pos claimed⟩
    · exact .inr ⟨builtin, rfl, claimed, if_neg claimed⟩

section Made

variable (sound : world.Sound) (named : Builtin.ofName? name (world.kindOf scope) = some builtin)
  (unclaimed : builtin ∉ world.claimed scope)

/-- The world in between, where the member exists and has no owner yet. -/
def announced (world : World) (scope : Ref) (builtin : Builtin) : World :=
  (world.claim scope builtin).add (builtin.object scope)

theorem shape?_announced (isScope : (world.kindOf scope).isScope = true) {ref : Ref} :
    (world.announced scope builtin).shape? ref =
      if ref = world.heap.size then some (builtin.object scope).shape
      else (world.shape? ref).map fun shape => { shape with
        claimed := if scope = ref then builtin :: shape.claimed else shape.claimed } := by
  have size : (world.claim scope builtin).heap.size = world.heap.size := heap_size_change
  rw [announced, shape?_add, size]
  split
  next => rfl
  next => rw [edits_claim isScope]

include named

theorem free_of_unclaimed (forest : world.Forest) (unclaimed : builtin ∉ world.claimed scope) :
    (world.members scope).find? name = none := by
  cases found : (world.members scope).find? name with
  | none => rfl
  | some object => exact absurd (forest.claims named found) unclaimed

theorem nameOf_announced : (world.announced scope builtin).nameOf world.heap.size = name := by
  rw [nameOf_eq, shape?_announced (Builtin.isScope_of_ofName? named), if_pos rfl]
  exact (Builtin.ofName?_eq_some named).1

/-- Views of the world in between, as far as they are about what was there before. -/
theorem kindOf_announced {ref : Ref} (old : ref < world.heap.size) :
    (world.announced scope builtin).kindOf ref = world.kindOf ref := by
  rw [kindOf_eq, kindOf_eq, shape?_announced (Builtin.isScope_of_ofName? named), if_neg (Nat.ne_of_lt old)]
  cases world.shape? ref <;> rfl

theorem owner?_announced (ref : Ref) : (world.announced scope builtin).owner? ref = world.owner? ref :=
  (owner?_add rfl).trans ((edits_claim (Builtin.isScope_of_ofName? named)).owner? ref fun _ => rfl)

theorem members_announced (ref : Ref) : (world.announced scope builtin).members ref = world.members ref :=
  (members_add (by simp [Object.shape, Builtin.scope?_object])).trans
    ((edits_claim (Builtin.isScope_of_ofName? named)).members ref fun _ => rfl)

private theorem imports_announced (ref : Ref) : (world.announced scope builtin).imports ref = world.imports ref :=
  (imports_add (by simp [Object.shape, Builtin.scope?_object])).trans
    ((edits_claim (Builtin.isScope_of_ofName? named)).imports ref fun _ => rfl)

theorem claimed_announced (ref : Ref) :
    (world.announced scope builtin).claimed ref =
      if scope = ref then builtin :: world.claimed ref else world.claimed ref := by
  have isScope := Builtin.isScope_of_ofName? named
  have old := lt_size_of_isLive (isLive_of_isScope isScope)
  rw [claimed_eq, claimed_eq, shape?_announced isScope]
  split
  next fresh =>
    rw [if_neg (fresh ▸ Nat.ne_of_lt old), fresh, shape?_of_size_le (Nat.le_refl _)]
    simp [Object.shape, Builtin.scope?_object]
  next =>
    split
    next here =>
      obtain ⟨shape, found⟩ := Option.isSome_iff_exists.mp (isLive_eq ▸ isLive_of_isScope isScope)
      rw [← here, found]
      simp
    next => cases world.shape? ref <;> rfl

theorem isLive_announced (ref : Ref) :
    (world.announced scope builtin).isLive ref = (ref == world.heap.size || world.isLive ref) := by
  rw [isLive_eq, isLive_eq, shape?_announced (Builtin.isScope_of_ofName? named)]
  split
  next fresh => simp [fresh]
  next other => simp [other]

theorem isScope_announced : ((world.announced scope builtin).kindOf scope).isScope = true := by
  have isScope := Builtin.isScope_of_ofName? named
  rwa [kindOf_announced named (lt_size_of_isLive (isLive_of_isScope isScope))]

/-! Views of the world in which the member has been made. -/

theorem find?_made (ref : Ref) (other : String) :
    ((world.made scope builtin).members ref).find? other =
      if scope = ref ∧ other = name then some world.heap.size else (world.members ref).find? other := by
  rw [made, ← announced, find?_insertMember (isScope_announced named), nameOf_announced named, members_announced named]

theorem imports_made (ref : Ref) : (world.made scope builtin).imports ref = world.imports ref := by
  rw [← imports_announced named]
  exact (edits_insertMember (isScope_announced named)).imports ref fun _ => rfl

theorem claimed_made (ref : Ref) :
    (world.made scope builtin).claimed ref =
      if scope = ref then builtin :: world.claimed ref else world.claimed ref := by
  rw [← claimed_announced named]
  exact (edits_insertMember (isScope_announced named)).claimed ref fun _ => rfl

theorem kindOf_made {ref : Ref} (old : ref < world.heap.size) :
    (world.made scope builtin).kindOf ref = world.kindOf ref := by
  rw [← kindOf_announced named old]
  exact (edits_insertMember (isScope_announced named)).kindOf ref fun _ _ => rfl

private theorem nameOf_made {ref : Ref} (old : ref < world.heap.size) :
    (world.made scope builtin).nameOf ref = world.nameOf ref := by
  refine ((edits_insertMember (isScope_announced named)).nameOf ref fun _ _ => rfl).trans ?_
  rw [nameOf_eq, nameOf_eq, shape?_announced (Builtin.isScope_of_ofName? named), if_neg (Nat.ne_of_lt old)]
  cases world.shape? ref <;> rfl

theorem isScope_kindOf_made :
    ((world.made scope builtin).kindOf world.heap.size).isScope = false := by
  rw [← builtin.isScope_kind_object scope]
  refine congrArg Kind.isScope (((edits_insertMember (isScope_announced named)).kindOf _ fun _ _ => rfl).trans ?_)
  rw [kindOf_eq, shape?_announced (Builtin.isScope_of_ofName? named), if_pos rfl]
  rfl

theorem isLive_made (ref : Ref) :
    (world.made scope builtin).isLive ref = (ref == world.heap.size || world.isLive ref) := by
  rw [← isLive_announced named]
  exact (edits_insertMember (isScope_announced named)).isLive ref

include sound unclaimed

/-- Making a built-in member is a run of changes. -/
private theorem evolves_made : World.Evolves .gentle world (world.made scope builtin) := by
  have isScope := Builtin.isScope_of_ofName? named
  have scopeOld := lt_size_of_isLive (isLive_of_isScope isScope)
  have claims : Change .gentle world (world.claim scope builtin) := .claim isScope
  have announces : Change .gentle (world.claim scope builtin) (world.announced scope builtin) := by
    refine .make rfl (fun data member => ?_) (fun ref member => ?_) (builtin.grounded_object scope)
      (.inl (builtin.slots_object scope))
    · rw [Builtin.scope?_object] at member
      cases member
    · rw [Builtin.holds_object] at member
      cases member
  have soundBetween := announces.sound (claims.sound sound)
  have enters : Change .gentle (world.announced scope builtin) (world.made scope builtin) := by
    refine .enter ?_ ?_ ?_ ?_ ?_ ?_
    · exact isScope_announced named
    · rw [isLive_announced named, beq_self_eq_true, Bool.true_or]
    · rw [owner?_announced named, owner?_eq, shape?_of_size_le (Nat.le_refl _)]
      rfl
    · rw [nameOf_announced named, members_announced named]
      exact free_of_unclaimed named sound.forest unclaimed
    · intro other found
      rw [nameOf_announced named, kindOf_announced named scopeOld, named] at found
      rw [claimed_announced named, if_pos rfl]
      exact Option.some.inj found ▸ List.mem_cons_self
    · have walk := (sound.forest.lineage scope).of_owner?_eq fun ref _ => owner?_announced named ref
      rw [walk.eq_lineage soundBetween.forest.isLive_of_owner?]
      intro member
      have lives := sound.forest.isLive_of_mem_lineage (isLive_of_isScope isScope) member
      exact absurd (lt_size_of_isLive lives) (Nat.lt_irrefl _)
  exact ((Relation.ReflTransGen.single claims).tail announces).tail enters

end Made

theorem heap_size_made : (world.made scope builtin).heap.size = world.heap.size + 1 := by
  rw [made, heap_size_insertMember, add, Heap.size_add, claim, changeScope, heap_size_change]

theorem evolves_materialize (sound : world.Sound) : World.Evolves .gentle world (world.materialize scope name) := by
  rcases materialize_cases world scope name with ⟨-, same⟩ | ⟨builtin, named, unclaimed, made⟩
  · rw [same]
    exact .refl
  · rw [made]
    exact evolves_made sound named unclaimed

theorem settled_materialize : (world.materialize scope name).Settled scope name := by
  rcases materialize_cases world scope name with ⟨settled, same⟩ | ⟨builtin, named, unclaimed, made⟩
  · rwa [same]
  · intro other found
    have old := lt_size_of_isLive (isLive_of_isScope (Builtin.isScope_of_ofName? named))
    rw [made, kindOf_made named old, named] at found
    rw [made, claimed_made named, if_pos rfl, Option.some.inj found]
    exact List.mem_cons_self

theorem nameOf_materialize {ref : Ref} (live : world.isLive ref = true) :
    (world.materialize scope name).nameOf ref = world.nameOf ref := by
  rcases materialize_cases world scope name with ⟨-, same⟩ | ⟨builtin, named, -, made⟩
  · rw [same]
  · rw [made, nameOf_made named (lt_size_of_isLive live)]

theorem inUse_materialize : (world.materialize scope name).inUse = world.inUse := by
  rcases materialize_cases world scope name with ⟨-, same⟩ | ⟨builtin, -, -, made⟩
  · rw [same]
  · rw [made]
    rfl

end World

end Dialogue
