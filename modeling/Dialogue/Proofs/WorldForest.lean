import Dialogue.Proofs.OwnerLineage

/-! The tree of owners. Members and owners agree, every lineage ends, and a scope has claimed every
built-in member that it has. Each way to change shapes keeps this. -/

namespace Dialogue.World

variable {world after : World}

structure Forest (world : World) : Prop where
  members : ∀ {scope name object}, (world.members scope).find? name = some object →
    world.nameOf object = name ∧ world.owner? object = some scope
  owners : ∀ {object scope}, world.owner? object = some scope →
    (world.members scope).find? (world.nameOf object) = some object
  lineages : ∀ ref, ∃ line, world.Lineage ref line
  imports : ∀ {scope imported}, imported ∈ world.imports scope → imported < world.heap.size
  claims : ∀ {scope name builtin object}, Builtin.ofName? name (world.kindOf scope) = some builtin →
    (world.members scope).find? name = some object → builtin ∈ world.claimed scope

namespace Forest

theorem isScope_of_owner? (forest : world.Forest) {object owner : Ref}
    (owned : world.owner? object = some owner) : (world.kindOf owner).isScope = true :=
  isScope_of_members (forest.owners owned)

theorem isLive_of_owner? (forest : world.Forest) (object owner : Ref)
    (owned : world.owner? object = some owner) : world.isLive owner = true :=
  isLive_of_isScope (forest.isScope_of_owner? owned)

theorem parent?_eq (forest : world.Forest) (ref : Ref) : world.parent? ref = world.owner? ref :=
  Lineage.parent?_eq forest.isLive_of_owner? ref

theorem lineage (forest : world.Forest) (ref : Ref) : world.Lineage ref (world.lineage ref) := by
  obtain ⟨line, walk⟩ := forest.lineages ref
  rwa [walk.eq_lineage forest.isLive_of_owner?]

theorem isLive_of_mem_lineage (forest : world.Forest) {ref other : Ref} (live : world.isLive ref = true)
    (member : other ∈ world.lineage ref) : world.isLive other = true :=
  (forest.lineage ref).isLive_of_mem live forest.isLive_of_owner? member

theorem isLive_root (forest : world.Forest) {ref : Ref} (live : world.isLive ref = true) :
    world.isLive (world.root ref) = true := by
  unfold root
  cases last : (world.lineage ref).getLast? with
  | none => exact live
  | some top => exact forest.isLive_of_mem_lineage live (List.mem_of_getLast? last)

end Forest

/-- One world is the other with the shape of every object edited. -/
def Edits (edit : Ref → Shape → Shape) (world after : World) : Prop :=
  ∀ ref, after.shape? ref = (world.shape? ref).map (edit ref)

namespace Edits

variable {edit : Ref → Shape → Shape} (edits : Edits edit world after) (ref : Ref)

include edits

theorem isLive : after.isLive ref = world.isLive ref := by
  rw [isLive_eq, isLive_eq, edits, Option.isSome_map]

theorem nameOf (same : ∀ ref shape, (edit ref shape).name = shape.name) :
    after.nameOf ref = world.nameOf ref := by
  rw [nameOf_eq, nameOf_eq, edits]
  cases world.shape? ref <;> simp [same]

theorem kindOf (same : ∀ ref shape, (edit ref shape).kind = shape.kind) :
    after.kindOf ref = world.kindOf ref := by
  rw [kindOf_eq, kindOf_eq, edits]
  cases world.shape? ref <;> simp [same]

theorem owner?_eq (rule : Option Ref → Option Ref) (same : ∀ shape, (edit ref shape).owner = rule shape.owner)
    (none : rule none = none) : after.owner? ref = rule (world.owner? ref) := by
  rw [World.owner?_eq, World.owner?_eq, edits]
  cases world.shape? ref <;> simp [same, none]

theorem members_eq (rule : Table Ref → Table Ref) (same : ∀ shape, (edit ref shape).members = rule shape.members)
    (none : rule {} = {}) : after.members ref = rule (world.members ref) := by
  rw [World.members_eq, World.members_eq, edits]
  cases world.shape? ref <;> simp [same, none]

theorem imports_eq (rule : List Ref → List Ref) (same : ∀ shape, (edit ref shape).imports = rule shape.imports)
    (none : rule [] = []) : after.imports ref = rule (world.imports ref) := by
  rw [World.imports_eq, World.imports_eq, edits]
  cases world.shape? ref <;> simp [same, none]

theorem claimed_eq (rule : List Builtin → List Builtin)
    (same : ∀ shape, (edit ref shape).claimed = rule shape.claimed) (none : rule [] = []) :
    after.claimed ref = rule (world.claimed ref) := by
  rw [World.claimed_eq, World.claimed_eq, edits]
  cases world.shape? ref <;> simp [same, none]

theorem owner? (same : ∀ shape, (edit ref shape).owner = shape.owner) : after.owner? ref = world.owner? ref :=
  edits.owner?_eq ref id same rfl

theorem members (same : ∀ shape, (edit ref shape).members = shape.members) :
    after.members ref = world.members ref :=
  edits.members_eq ref id same rfl

theorem imports (same : ∀ shape, (edit ref shape).imports = shape.imports) :
    after.imports ref = world.imports ref :=
  edits.imports_eq ref id same rfl

theorem claimed (same : ∀ shape, (edit ref shape).claimed = shape.claimed) :
    after.claimed ref = world.claimed ref :=
  edits.claimed_eq ref id same rfl

end Edits

variable {scope object : Ref}

theorem edits_setParent {owner : Option Ref} :
    Edits (fun ref shape => { shape with owner := if object = ref then owner else shape.owner })
      world (world.setParent object owner) := by
  intro ref
  rw [shape?_setParent]
  by_cases here : object = ref <;> cases world.shape? ref <;> simp [here]

theorem edits_insertMember (isScope : (world.kindOf scope).isScope = true) :
    Edits (fun ref shape => { shape with
      owner := if object = ref then some scope else shape.owner
      members := if scope = ref then shape.members.insert (world.nameOf object) object else shape.members })
      world (world.insertMember scope object) := by
  intro ref
  have parented : Edits _ world (world.setParent object (some scope)) := edits_setParent
  have stillScope := parented.kindOf scope fun _ _ => rfl
  rw [insertMember, shape?_changeMembers (by rwa [stillScope]), parented]
  by_cases here : scope = ref <;> cases world.shape? ref <;> simp [here]

@[simp] theorem heap_size_insertMember : (world.insertMember scope object).heap.size = world.heap.size := by
  rw [insertMember, changeMembers, changeScope, heap_size_change, setParent, heap_size_change]

theorem members_insertMember (object : Ref) (isScope : (world.kindOf scope).isScope = true) (ref : Ref) :
    (world.insertMember scope object).members ref =
      if scope = ref then (world.members ref).insert (world.nameOf object) object else world.members ref := by
  have edits : Edits _ world (world.insertMember scope object) := edits_insertMember isScope
  split
  next here =>
    obtain ⟨shape, found⟩ := Option.isSome_iff_exists.mp (isLive_eq ▸ isLive_of_isScope isScope)
    rw [← here, members_eq, members_eq, edits, found]
    simp
  next elsewhere => exact edits.members ref fun _ => if_neg elsewhere

theorem find?_insertMember (isScope : (world.kindOf scope).isScope = true) (ref : Ref) (name : String) :
    ((world.insertMember scope object).members ref).find? name =
      if scope = ref ∧ name = world.nameOf object then some object else (world.members ref).find? name := by
  rw [members_insertMember object isScope]
  by_cases here : scope = ref
  · rw [if_pos here, Table.find?_insert]
    simp [here]
  · simp [here]

theorem owner?_insertMember (isScope : (world.kindOf scope).isScope = true) (live : world.isLive object = true)
    (ref : Ref) :
    (world.insertMember scope object).owner? ref = if object = ref then some scope else world.owner? ref := by
  have edits : Edits _ world (world.insertMember scope object) := edits_insertMember isScope
  split
  next here =>
    obtain ⟨shape, found⟩ := Option.isSome_iff_exists.mp (isLive_eq ▸ live)
    rw [← here, owner?_eq, edits, found]
    simp
  next elsewhere => exact edits.owner? ref fun _ => if_neg elsewhere

theorem edits_setName {name : String} :
    Edits (fun ref shape => { shape with name := if object = ref then name else shape.name })
      world (world.setName object name) := by
  intro ref
  rw [shape?_setName]
  by_cases here : object = ref <;> cases world.shape? ref <;> simp [here]

theorem edits_leave {name : String} (isScope : (world.kindOf scope).isScope = true) :
    Edits (fun ref shape => { shape with
      owner := if object = ref then none else shape.owner
      members := if scope = ref then shape.members.erase name else shape.members })
      world ((world.changeMembers scope (·.erase name)).setParent object none) := by
  intro ref
  rw [edits_setParent, shape?_changeMembers isScope]
  by_cases here : scope = ref <;> cases world.shape? ref <;> simp [here]

theorem find?_leave {name : String} (isScope : (world.kindOf scope).isScope = true) (ref : Ref) (other : String) :
    (((world.changeMembers scope (·.erase name)).setParent object none).members ref).find? other =
      if scope = ref ∧ other = name then none else (world.members ref).find? other := by
  have edits : Edits _ world ((world.changeMembers scope (·.erase name)).setParent object none) := edits_leave isScope
  rw [edits.members_eq ref (fun members => if scope = ref then members.erase name else members) (fun _ => rfl)
    (by split <;> rfl)]
  by_cases here : scope = ref
  · rw [if_pos here, Table.find?_erase]
    simp [here]
  · simp [here]

theorem edits_claim {builtin : Builtin} (isScope : (world.kindOf scope).isScope = true) :
    Edits (fun ref shape => { shape with
      claimed := if scope = ref then builtin :: shape.claimed else shape.claimed })
      world (world.claim scope builtin) := by
  intro ref
  rw [claim, shape?_changeScope (fun shape => { shape with claimed := builtin :: shape.claimed }) isScope]
  · by_cases here : scope = ref <;> cases world.shape? ref <;> simp [here]
  · intro object data body
    simp [Object.shape, Object.scope?, Object.kind, body]

theorem edits_setImports {rule : List Ref → List Ref} (isScope : (world.kindOf scope).isScope = true) :
    Edits (fun ref shape => { shape with imports := if scope = ref then rule shape.imports else shape.imports })
      world (world.changeScope scope fun data => { data with imports := rule data.imports }) := by
  intro ref
  rw [shape?_changeScope (fun shape => { shape with imports := rule shape.imports }) isScope]
  · by_cases here : scope = ref <;> cases world.shape? ref <;> simp [here]
  · intro object data body
    simp [Object.shape, Object.scope?, Object.kind, body]

theorem clearMembers_eq : world.clearMembers scope =
    (world.changeScope scope fun data => { data with members := {}, claimed := [] }).orphan
      (world.members scope).values :=
  rfl

theorem edits_clearMembers (isScope : (world.kindOf scope).isScope = true) :
    Edits (fun ref shape => { shape with
      owner := if ref ∈ (world.members scope).values then none else shape.owner
      members := if scope = ref then {} else shape.members
      claimed := if scope = ref then [] else shape.claimed })
      world (world.clearMembers scope) := by
  intro ref
  rw [clearMembers_eq, shape?_orphan,
    shape?_changeScope (fun shape => { shape with members := {}, claimed := [] }) isScope]
  · generalize (world.members scope).values = orphans
    by_cases here : scope = ref <;> by_cases orphan : ref ∈ orphans <;>
      cases world.shape? ref <;> simp [here, orphan]
  · intro object data body
    simp [Object.shape, Object.scope?, Object.kind, body]

theorem owner?_bury {ref other : Ref} : (world.bury ref).owner? other =
    if other = ref ∨ other ∈ (world.members ref).values then none else world.owner? other := by
  rw [owner?_eq, owner?_eq, shape?_bury]
  by_cases same : other = ref
  · simp [same]
  · by_cases orphan : other ∈ (world.members ref).values <;> cases world.shape? other <;> simp [same, orphan]

namespace Forest

theorem mem_members_iff (forest : world.Forest) :
    object ∈ (world.members scope).values ↔ world.owner? object = some scope := by
  rw [Table.mem_values]
  constructor
  · rintro ⟨name, found⟩
    exact (forest.members found).2
  · exact fun owned => ⟨_, forest.owners owned⟩

/-- Members and owners may only go, and what stays is as it was. -/
theorem of_kept (forest : world.Forest)
    (members : ∀ {scope name object}, (after.members scope).find? name = some object →
      (world.members scope).find? name = some object ∧ after.nameOf object = world.nameOf object ∧
        after.owner? object = world.owner? object ∧ after.kindOf scope = world.kindOf scope ∧
        ∀ builtin ∈ world.claimed scope, builtin ∈ after.claimed scope)
    (owners : ∀ {object scope}, after.owner? object = some scope →
      world.owner? object = some scope ∧ after.nameOf object = world.nameOf object ∧
        ((world.members scope).find? (world.nameOf object) = some object →
          (after.members scope).find? (world.nameOf object) = some object))
    (imports : ∀ {scope imported}, imported ∈ after.imports scope → imported < after.heap.size) :
    after.Forest := by
  constructor
  · intro scope name object found
    obtain ⟨before, named, owned, -, -⟩ := members found
    rw [named, owned]
    exact forest.members before
  · intro object scope owned
    obtain ⟨before, named, kept⟩ := owners owned
    rw [named]
    exact kept (forest.owners before)
  · intro ref
    obtain ⟨line, walk⟩ := forest.lineages ref
    refine walk.of_owner?_sub fun object => ?_
    cases owned : after.owner? object with
    | none => exact .inl rfl
    | some scope => exact .inr (owners owned).1.symm
  · exact imports
  · intro scope name builtin object named found
    obtain ⟨before, -, -, kind, claimed⟩ := members found
    rw [kind] at named
    exact claimed builtin (forest.claims named before)

/-- Members, owners and kinds may stay, and the names of objects that have an owner. -/
theorem of_edits (forest : world.Forest) {edit : Ref → Shape → Shape} (edits : Edits edit world after)
    (members : ∀ ref shape, (edit ref shape).members = shape.members)
    (owners : ∀ ref shape, (edit ref shape).owner = shape.owner) (kinds : ∀ ref shape, (edit ref shape).kind = shape.kind)
    (names : ∀ {ref scope}, world.owner? ref = some scope → after.nameOf ref = world.nameOf ref)
    (claims : ∀ scope, world.claimed scope ⊆ after.claimed scope)
    (imports : ∀ {scope imported}, imported ∈ after.imports scope → imported < after.heap.size) : after.Forest := by
  refine forest.of_kept ?_ ?_ imports
  · intro scope name object found
    rw [edits.members scope (members scope)] at found
    exact ⟨found, names (forest.members found).2, edits.owner? object (owners object), edits.kindOf scope kinds,
      fun _ known => claims scope known⟩
  · intro object scope owned
    rw [edits.owner? object (owners object)] at owned
    rw [edits.members scope (members scope)]
    exact ⟨owned, names owned, id⟩

/-- Worlds whose objects have the same shapes. -/
theorem of_shapes (forest : world.Forest) (same : ∀ ref, after.shape? ref = world.shape? ref)
    (size : after.heap.size = world.heap.size) : after.Forest := by
  have edits : Edits (fun _ => id) world after := fun ref => by rw [same, Option.map_id, id]
  refine forest.of_edits edits (fun _ _ => rfl) (fun _ _ => rfl) (fun _ _ => rfl) (fun _ => edits.nameOf _ fun _ _ => rfl)
    (fun scope => ?_) fun {scope imported} member => ?_
  · rw [edits.claimed scope fun _ => rfl]
    exact List.Subset.refl _
  · rw [edits.imports scope fun _ => rfl] at member
    rw [size]
    exact forest.imports member

/-- An object without an owner enters a scope that has no member of its name and is not below it. -/
theorem enter (forest : world.Forest) (isScope : (world.kindOf scope).isScope = true)
    (live : world.isLive object = true) (unowned : world.owner? object = none)
    (free : (world.members scope).find? (world.nameOf object) = none)
    (settled : ∀ {builtin}, Builtin.ofName? (world.nameOf object) (world.kindOf scope) = some builtin →
      builtin ∈ world.claimed scope)
    (apart : object ∉ world.lineage scope) : (world.insertMember scope object).Forest := by
  have edits : Edits _ world (world.insertMember scope object) := edits_insertMember isScope
  have members ref name : ((world.insertMember scope object).members ref).find? name = _ := find?_insertMember isScope ref name
  have owners := owner?_insertMember isScope live
  have names ref := edits.nameOf ref fun _ _ => rfl
  constructor
  · intro other name member found
    rw [members] at found
    rw [names, owners]
    split at found
    next same =>
      obtain ⟨here, called⟩ := same
      cases found
      rw [if_pos rfl, here, called]
      exact ⟨rfl, rfl⟩
    next =>
      obtain ⟨named, owned⟩ := forest.members found
      have different : object ≠ member := fun same => by rw [← same, unowned] at owned; cases owned
      rw [if_neg different]
      exact ⟨named, owned⟩
  · intro member other owned
    rw [owners] at owned
    rw [members, names]
    split at owned
    next here =>
      cases owned
      rw [here, if_pos ⟨rfl, rfl⟩]
    next =>
      have found := forest.owners owned
      rw [if_neg]
      · exact found
      · rintro ⟨here, same⟩
        rw [same, ← here, free] at found
        cases found
  · intro ref
    have walk := forest.lineage ref
    apply walk.of_entered (forest.lineage scope) apart (by rw [owners, if_pos rfl])
    intro other different
    rw [owners, if_neg different.symm]
  · intro other imported member
    rw [edits.imports other fun _ => rfl] at member
    rw [heap_size_insertMember]
    exact forest.imports member
  · intro other name builtin member named found
    rw [edits.kindOf other fun _ _ => rfl] at named
    rw [members] at found
    rw [edits.claimed other fun _ => rfl]
    split at found
    next same =>
      obtain ⟨here, called⟩ := same
      exact here ▸ settled (here ▸ called ▸ named)
    next => exact forest.claims named found

theorem leave (forest : world.Forest) {name : String}
    (found : (world.members scope).find? name = some object) :
    ((world.changeMembers scope (·.erase name)).setParent object none).Forest := by
  have edits : Edits _ world ((world.changeMembers scope (·.erase name)).setParent object none) :=
    edits_leave (isScope_of_members found)
  obtain ⟨named, owned⟩ := forest.members found
  have members ref other :
      (((world.changeMembers scope (·.erase name)).setParent object none).members ref).find? other = _ :=
    find?_leave (isScope_of_members found) ref other
  have owner? ref := edits.owner?_eq ref (if object = ref then none else ·) (fun _ => rfl) (by split <;> rfl)
  refine forest.of_kept ?_ ?_ ?_
  · intro other key member present
    rw [members] at present
    split at present
    next => cases present
    next kept =>
      have different : object ≠ member := by
        rintro rfl
        have known := forest.members present
        exact kept ⟨Option.some.inj (owned.symm.trans known.2), known.1.symm.trans named⟩
      refine ⟨present, edits.nameOf member fun _ _ => rfl, ?_, edits.kindOf other fun _ _ => rfl, ?_⟩
      · rw [owner?, if_neg different]
      · rw [edits.claimed other fun _ => rfl]
        exact fun _ => id
  · intro member other ownedAfter
    rw [owner?] at ownedAfter
    split at ownedAfter
    next => cases ownedAfter
    next different =>
      refine ⟨ownedAfter, edits.nameOf member fun _ _ => rfl, fun before => ?_⟩
      rw [members, if_neg]
      · exact before
      · rintro ⟨here, same⟩
        rw [← here, same, found] at before
        exact different (Option.some.inj before)
  · intro other imported member
    rw [edits.imports other fun _ => rfl] at member
    rw [setParent, heap_size_change, changeMembers, changeScope, heap_size_change]
    exact forest.imports member

theorem rename (forest : world.Forest) {name : String} (unowned : world.owner? object = none) :
    (world.setName object name).Forest := by
  have edits : Edits _ world (world.setName object name) := edits_setName
  refine forest.of_edits edits (fun _ _ => rfl) (fun _ _ => rfl) (fun _ _ => rfl) (fun {ref scope} owned => ?_)
    (fun scope => ?_) fun {scope imported} member => ?_
  · have different : object ≠ ref := by
      rintro rfl
      rw [unowned] at owned
      cases owned
    rw [nameOf_eq, nameOf_eq, edits]
    cases world.shape? ref <;> simp [different]
  · rw [edits.claimed scope fun _ => rfl]
    exact List.Subset.refl _
  · rw [edits.imports scope fun _ => rfl] at member
    rw [setName, heap_size_change]
    exact forest.imports member

theorem claim (forest : world.Forest) (isScope : (world.kindOf scope).isScope = true) {builtin : Builtin} :
    (world.claim scope builtin).Forest := by
  have edits : Edits _ world (world.claim scope builtin) := edits_claim isScope
  refine forest.of_edits edits (fun _ _ => rfl) (fun _ _ => rfl) (fun _ _ => rfl) (fun _ => edits.nameOf _ fun _ _ => rfl)
    (fun other known before => ?_) fun {other imported} member => ?_
  · rw [claimed_eq] at before ⊢
    rw [edits]
    cases shape : world.shape? other with
    | none => rwa [shape] at before
    | some shape' =>
      rw [shape] at before
      dsimp only [Option.map_some, Option.elim_some] at before ⊢
      split
      · exact List.mem_cons_of_mem _ before
      · exact before
  · rw [edits.imports other fun _ => rfl] at member
    rw [World.claim, changeScope, heap_size_change]
    exact forest.imports member

theorem setImports (forest : world.Forest) (isScope : (world.kindOf scope).isScope = true)
    {rule : List Ref → List Ref} (inside : ∀ imported ∈ rule (world.imports scope), imported < world.heap.size) :
    (world.changeScope scope fun data => { data with imports := rule data.imports }).Forest := by
  have edits : Edits _ world (world.changeScope scope fun data => { data with imports := rule data.imports }) :=
    edits_setImports isScope
  refine forest.of_edits edits (fun _ _ => rfl) (fun _ _ => rfl) (fun _ _ => rfl) (fun _ => edits.nameOf _ fun _ _ => rfl)
    (fun other => ?_) fun {other imported} member => ?_
  · rw [edits.claimed other fun _ => rfl]
    exact List.Subset.refl _
  · rw [changeScope, heap_size_change]
    by_cases here : scope = other
    · obtain ⟨shape, found⟩ := Option.isSome_iff_exists.mp (isLive_eq ▸ isLive_of_isScope isScope)
      apply inside
      rw [imports_eq, ← here, edits, found] at member
      rw [imports_eq, found]
      simpa using member
    · rw [edits.imports other fun _ => if_neg here] at member
      exact forest.imports member

/-- A scope loses all its members and claims. -/
theorem clear (forest : world.Forest) (isScope : (world.kindOf scope).isScope = true) :
    (world.clearMembers scope).Forest := by
  have edits := edits_clearMembers isScope
  have members ref := edits.members_eq ref (if scope = ref then {} else ·) (fun _ => rfl) (by split <;> rfl)
  have owner? ref := edits.owner?_eq ref (if ref ∈ (world.members scope).values then none else ·)
    (fun _ => rfl) (by split <;> rfl)
  refine forest.of_kept ?_ ?_ ?_
  · intro other key member present
    rw [members] at present
    split at present
    next => cases present
    next elsewhere =>
      have owned := (forest.members present).2
      have kept : member ∉ (world.members scope).values := by
        rw [forest.mem_members_iff, owned]
        exact fun same => elsewhere (Option.some.inj same).symm
      refine ⟨present, edits.nameOf member fun _ _ => rfl, ?_, edits.kindOf other fun _ _ => rfl, ?_⟩
      · rw [owner?, if_neg kept]
      · rw [edits.claimed other fun _ => if_neg elsewhere]
        exact fun _ => id
  · intro member other owned
    rw [owner?] at owned
    split at owned
    next => cases owned
    next kept =>
      refine ⟨owned, edits.nameOf member fun _ _ => rfl, fun before => ?_⟩
      have elsewhere : scope ≠ other := fun here => kept (forest.mem_members_iff.mpr (here ▸ owned))
      rwa [members, if_neg elsewhere]
  · intro other imported member
    rw [edits.imports other fun _ => rfl] at member
    rw [clearMembers_eq, heap_size_orphan, changeScope, heap_size_change]
    exact forest.imports member

/-- A new object has no owner and no members. -/
theorem make (forest : world.Forest) {made : Object} (unowned : made.parent = none)
    (bare : ∀ data ∈ made.scope?, data.members = {} ∧ data.imports = []) : (world.add made).Forest := by
  have unheld : made.shape.members = {} := by
    unfold Object.shape
    cases data : made.scope? with
    | none => rfl
    | some data' => exact (bare data' data).1
  have unlinked : made.shape.imports = [] := by
    unfold Object.shape
    cases data : made.scope? with
    | none => rfl
    | some data' => exact (bare data' data).2
  have old {ref} (live : world.isLive ref = true) : (world.add made).shape? ref = world.shape? ref :=
    shape?_add_of_lt (lt_size_of_isLive live)
  refine forest.of_kept ?_ ?_ ?_
  · intro scope key member present
    rw [members_add unheld] at present
    have scopeLives := isLive_of_isScope (isScope_of_members present)
    have memberLives := World.isLive_of_owner? (forest.members present).2
    refine ⟨present, ?_, owner?_add unowned, ?_, ?_⟩
    · rw [nameOf_eq, nameOf_eq, old memberLives]
    · rw [kindOf_eq, kindOf_eq, old scopeLives]
    · rw [claimed_eq, claimed_eq, old scopeLives]
      exact fun _ => id
  · intro member scope owned
    rw [owner?_add unowned] at owned
    refine ⟨owned, ?_, ?_⟩
    · rw [nameOf_eq, nameOf_eq, old (World.isLive_of_owner? owned)]
    · rw [members_add unheld]
      exact id
  · intro scope imported member
    rw [imports_add unlinked] at member
    exact Nat.lt_of_lt_of_le (forest.imports member) (Heap.size_add .. ▸ Nat.le_succ _)

/-- A scope or another object goes, and its members lose their owner. -/
theorem bury (forest : world.Forest) {ref : Ref} (unowned : world.owner? ref = none) :
    (world.bury ref).Forest := by
  refine forest.of_kept ?_ ?_ ?_
  · intro scope key member present
    rw [members_bury] at present
    split at present
    next => cases present
    next stays =>
      have owned := (forest.members present).2
      have memberStays : member ≠ ref := by
        rintro rfl
        rw [unowned] at owned
        cases owned
      refine ⟨present, by rw [nameOf_bury, if_neg memberStays], ?_, by rw [kindOf_bury, if_neg stays], ?_⟩
      · rw [owner?_bury, if_neg]
        rw [forest.mem_members_iff, owned, Option.some.injEq]
        exact not_or.mpr ⟨memberStays, stays⟩
      · rw [claimed_bury, if_neg stays]
        exact fun _ => id
  · intro member scope owned
    rw [owner?_bury] at owned
    split at owned
    next => cases owned
    next kept =>
      obtain ⟨memberStays, elsewhere⟩ := not_or.mp kept
      refine ⟨owned, by rw [nameOf_bury, if_neg memberStays], fun found => ?_⟩
      have stays : scope ≠ ref := fun same => elsewhere (forest.mem_members_iff.mpr (same ▸ owned))
      rwa [members_bury, if_neg stays]
  · intro scope imported member
    rw [imports_bury] at member
    rw [heap_size_bury]
    split at member
    next => cases member
    next => exact forest.imports member

end Forest

end Dialogue.World
