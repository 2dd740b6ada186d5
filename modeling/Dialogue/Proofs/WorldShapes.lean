import Dialogue.Proofs.TableLookup
import Dialogue.Scopes.Membership

/-! The shape of an object is what the tree of owners depends on: its name and kind, the owner that it
records, its members and imports, and the built-in members it has claimed. Every change of a world is
described by the shapes it leaves and by what the objects then keep alive. -/

namespace Dialogue

structure Shape where
  name : String
  kind : Kind
  owner : Option Ref
  members : Table Ref
  imports : List Ref
  claimed : List Builtin

namespace Object

def scope? (object : Object) : Option ScopeData :=
  match object.body with
  | .scope data => some data
  | _ => none

def shape (object : Object) : Shape where
  name := object.name
  kind := object.kind
  owner := object.parent
  members := object.scope?.elim {} (·.members)
  imports := object.scope?.elim [] (·.imports)
  claimed := object.scope?.elim [] (·.claimed)

theorem isScope_kind {object : Object} : object.kind.isScope = object.scope?.isSome := by
  unfold kind scope?
  cases object.body with
  | scope data =>
    obtain ⟨role, members, imports, claimed⟩ := data
    cases role <;> rfl
  | _ => rfl

end Object

namespace World

variable {world : World} {ref other : Ref}

def shape? (world : World) (ref : Ref) : Option Shape := (world.object? ref).map Object.shape

/-- The owner that an object records, whether or not it lives. -/
def owner? (world : World) (ref : Ref) : Option Ref := (world.object? ref).bind (·.parent)

/-- The built-in members that a scope has made. -/
def claimed (world : World) (ref : Ref) : List Builtin := (world.scope? ref).elim [] (·.claimed)

/-- The objects that an object keeps alive. -/
def holdsOf (world : World) (ref : Ref) : List Ref := (world.object? ref).elim [] Object.holds

theorem scope?_eq : world.scope? ref = (world.object? ref).bind Object.scope? := by
  unfold scope? body?
  cases world.object? ref with
  | none => rfl
  | some object => cases body : object.body <;> simp [Object.scope?, body]

theorem isLive_eq : world.isLive ref = (world.shape? ref).isSome := by
  rw [isLive, shape?, Option.isSome_map]

theorem nameOf_eq : world.nameOf ref = (world.shape? ref).elim "" (·.name) := by
  rw [nameOf, shape?]
  cases world.object? ref <;> rfl

theorem kindOf_eq : world.kindOf ref = (world.shape? ref).elim .plain (·.kind) := by
  rw [kindOf, shape?]
  cases world.object? ref <;> rfl

theorem owner?_eq : world.owner? ref = (world.shape? ref).bind (·.owner) := by
  rw [owner?, shape?]
  cases world.object? ref <;> rfl

theorem members_eq : world.members ref = (world.shape? ref).elim {} (·.members) := by
  rw [members, shape?, scope?_eq]
  cases world.object? ref <;> rfl

theorem imports_eq : world.imports ref = (world.shape? ref).elim [] (·.imports) := by
  rw [imports, shape?, scope?_eq]
  cases world.object? ref <;> rfl

theorem claimed_eq : world.claimed ref = (world.shape? ref).elim [] (·.claimed) := by
  rw [claimed, shape?, scope?_eq]
  cases world.object? ref <;> rfl

theorem isScope_kindOf : (world.kindOf ref).isScope = (world.scope? ref).isSome := by
  rw [kindOf, scope?_eq]
  cases world.object? ref with
  | none => rfl
  | some object => exact object.isScope_kind

theorem isLive_of_isScope (isScope : (world.kindOf ref).isScope = true) : world.isLive ref = true := by
  rw [kindOf] at isScope
  rw [isLive]
  cases found : world.object? ref with
  | none => simp [found, Kind.isScope] at isScope
  | some object => rfl

theorem isLive_of_owner? {owner : Ref} (owned : world.owner? ref = some owner) : world.isLive ref = true := by
  obtain ⟨object, found, -⟩ := Option.bind_eq_some_iff.mp owned
  simp [isLive, found]

theorem isScope_of_members {name : String} {object : Ref} (found : (world.members ref).find? name = some object) :
    (world.kindOf ref).isScope = true := by
  rw [isScope_kindOf]
  rw [members] at found
  cases data : world.scope? ref with
  | none => simp [data] at found
  | some _ => rfl

theorem lt_size_of_isLive (live : world.isLive ref = true) : ref < world.heap.size := by
  apply Nat.lt_of_not_le
  intro beyond
  rw [isLive, object?, Heap.get?_of_size_le beyond] at live
  cases live

/-- What a scope keeps alive are its members. -/
private theorem holdsOf_of_isScope (isScope : (world.kindOf ref).isScope = true) :
    world.holdsOf ref = (world.members ref).values := by
  rw [isScope_kindOf, scope?_eq] at isScope
  rw [holdsOf, members, scope?_eq]
  cases found : world.object? ref with
  | none => simp [found] at isScope
  | some object =>
    rw [found, Option.bind_some] at isScope
    rw [Option.bind_some, Option.elim_some]
    unfold Object.scope? at isScope ⊢
    unfold Object.holds
    cases body : object.body with
    | scope data => rfl
    | _ => simp [body] at isScope

theorem mem_holdsOf_of_member {name : String} {object : Ref}
    (found : (world.members ref).find? name = some object) : object ∈ world.holdsOf ref := by
  rw [holdsOf_of_isScope (isScope_of_members found)]
  exact Table.mem_values.mpr ⟨name, found⟩

theorem holds_iff : world.heap.holds ref = true ↔ ∃ holder, ref ∈ world.holdsOf holder := by
  simp only [Heap.holds, Array.any_eq_true, holdsOf, object?, Heap.get?]
  constructor
  · rintro ⟨index, bound, held⟩
    refine ⟨index, ?_⟩
    cases cell : world.heap.cells[index] with
    | none => simp [cell] at held
    | some object => simpa [Array.getElem?_eq_getElem bound, cell] using held
  · rintro ⟨holder, held⟩
    by_cases bound : holder < world.heap.cells.size
    · refine ⟨holder, bound, ?_⟩
      cases cell : world.heap.cells[holder] with
      | none => simp [Array.getElem?_eq_getElem bound, cell] at held
      | some object => simpa [Array.getElem?_eq_getElem bound, cell] using held
    · simp [Array.getElem?_eq_none (Nat.not_lt.mp bound)] at held

/-- No one has a member, an import or an owner in a cell that is not in use. -/
theorem shape?_of_size_le (beyond : world.heap.size ≤ ref) : world.shape? ref = none := by
  rw [shape?, object?, Heap.get?_of_size_le beyond]
  rfl

/-! Changes of one object. -/

theorem object?_change {rule : Object → Object} :
    (world.change ref rule).object? other =
      if ref = other then (world.object? other).map rule else world.object? other :=
  Heap.get?_modify ..

theorem isLive_change {rule : Object → Object} : (world.change ref rule).isLive other = world.isLive other := by
  rw [isLive, isLive, object?_change]
  split <;> simp

theorem shape?_change {rule : Object → Object} (reshape : Shape → Shape)
    (same : ∀ object, (rule object).shape = reshape object.shape) :
    (world.change ref rule).shape? other =
      if ref = other then (world.shape? other).map reshape else world.shape? other := by
  rw [shape?, shape?, object?_change]
  split
  · cases world.object? other <;> simp [same]
  · rfl

theorem holdsOf_change {rule : Object → Object} (same : ∀ object, (rule object).holds = object.holds) :
    (world.change ref rule).holdsOf other = world.holdsOf other := by
  rw [holdsOf, holdsOf, object?_change]
  split
  · cases world.object? other <;> simp [same]
  · rfl

theorem shape?_setParent {owner : Option Ref} :
    (world.setParent ref owner).shape? other =
      if ref = other then (world.shape? other).map ({ · with owner }) else world.shape? other :=
  shape?_change _ fun _ => rfl

theorem shape?_setName {name : String} :
    (world.setName ref name).shape? other =
      if ref = other then (world.shape? other).map ({ · with name }) else world.shape? other :=
  shape?_change _ fun _ => rfl

theorem holdsOf_setParent {owner : Option Ref} :
    (world.setParent ref owner).holdsOf other = world.holdsOf other :=
  holdsOf_change fun _ => rfl

theorem holdsOf_setName {name : String} : (world.setName ref name).holdsOf other = world.holdsOf other :=
  holdsOf_change fun _ => rfl

theorem object?_of_isScope (isScope : (world.kindOf ref).isScope = true) :
    ∃ object data, world.object? ref = some object ∧ object.body = .scope data := by
  rw [isScope_kindOf, scope?_eq, Option.isSome_iff_exists] at isScope
  obtain ⟨data, found⟩ := isScope
  obtain ⟨object, present, body⟩ := Option.bind_eq_some_iff.mp found
  unfold Object.scope? at body
  split at body
  next same => exact ⟨object, _, present, same⟩
  next => cases body

theorem shape?_changeScope {rule : ScopeData → ScopeData} (reshape : Shape → Shape)
    (isScope : (world.kindOf ref).isScope = true)
    (same : ∀ (object : Object) data, object.body = .scope data →
      { object with body := .scope (rule data) }.shape = reshape object.shape) :
    (world.changeScope ref rule).shape? other =
      if ref = other then (world.shape? other).map reshape else world.shape? other := by
  rw [shape?, shape?, changeScope, object?_change]
  split
  next here =>
    obtain ⟨object, data, found, body⟩ := object?_of_isScope isScope
    rw [← here, found]
    simp [body, same object data body]
  next => rfl

theorem shape?_changeMembers {rule : Table Ref → Table Ref} (isScope : (world.kindOf ref).isScope = true) :
    (world.changeMembers ref rule).shape? other =
      if ref = other then (world.shape? other).map fun shape => { shape with members := rule shape.members }
      else world.shape? other := by
  refine shape?_changeScope _ isScope fun object data body => ?_
  simp [Object.shape, Object.scope?, Object.kind, body]

theorem holdsOf_changeScope (rule : ScopeData → ScopeData) (same : ∀ data, (rule data).members = data.members) :
    (world.changeScope ref rule).holdsOf other = world.holdsOf other := by
  apply holdsOf_change
  intro object
  split
  next body => simp [Object.holds, body, same]
  next => rfl

theorem holdsOf_changeScope_members {rule : ScopeData → ScopeData} (held : Table Ref → Table Ref)
    (isScope : (world.kindOf ref).isScope = true) (same : ∀ data, (rule data).members = held data.members) :
    (world.changeScope ref rule).holdsOf other =
      if ref = other then (held (world.members other)).values else world.holdsOf other := by
  rw [holdsOf, holdsOf, changeScope, object?_change]
  split
  next here =>
    obtain ⟨object, data, found, body⟩ := object?_of_isScope isScope
    rw [← here, found, members_eq, shape?, found]
    simp [body, Object.holds, same, Object.shape, Object.scope?]
  next => rfl

theorem object?_add {object : Object} :
    (world.add object).object? other = if other = world.heap.size then some object else world.object? other :=
  Heap.get?_add ..

theorem shape?_add {object : Object} :
    (world.add object).shape? other =
      if other = world.heap.size then some object.shape else world.shape? other := by
  rw [shape?, shape?, object?_add]
  split <;> rfl

theorem shape?_add_of_lt {object : Object} (old : other < world.heap.size) :
    (world.add object).shape? other = world.shape? other := by
  rw [shape?_add, if_neg (Nat.ne_of_lt old)]

/-- What a new object does not have is seen as it was before. -/
private theorem elim_shape?_add {β : Type} {object : Object} (default : β) (view : Shape → β)
    (bare : view object.shape = default) :
    ((world.add object).shape? other).elim default view = (world.shape? other).elim default view := by
  rw [shape?_add]
  split
  next here =>
    rw [here, shape?_of_size_le (Nat.le_refl _)]
    exact bare
  next => rfl

theorem members_add {object : Object} (bare : object.shape.members = {}) :
    (world.add object).members other = world.members other := by
  rw [members_eq, members_eq]
  exact elim_shape?_add {} (·.members) bare

theorem imports_add {object : Object} (bare : object.shape.imports = []) :
    (world.add object).imports other = world.imports other := by
  rw [imports_eq, imports_eq]
  exact elim_shape?_add [] (·.imports) bare

theorem owner?_add {object : Object} (unowned : object.parent = none) :
    (world.add object).owner? other = world.owner? other := by
  rw [owner?_eq, owner?_eq, shape?_add]
  split
  next here =>
    rw [here, shape?_of_size_le (Nat.le_refl _)]
    exact unowned
  next => rfl

theorem holdsOf_add {object : Object} :
    (world.add object).holdsOf other = if other = world.heap.size then object.holds else world.holdsOf other := by
  rw [holdsOf, holdsOf, object?_add]
  split <;> rfl

/-- Objects that have lost their owner. -/
def orphan (world : World) (orphans : List Ref) : World :=
  orphans.foldl (fun world member => world.setParent member none) world

theorem object?_orphan {orphans : List Ref} :
    (world.orphan orphans).object? other =
      if other ∈ orphans then (world.object? other).map ({ · with parent := none }) else world.object? other := by
  induction orphans generalizing world with
  | nil => simp [orphan]
  | cons first rest ih =>
    change ((world.setParent first none).orphan rest).object? other = _
    rw [ih, setParent, object?_change]
    by_cases here : first = other
    · by_cases later : other ∈ rest <;> cases world.object? other <;> simp [here, later]
    · have elsewhere : ¬other = first := fun same => here same.symm
      simp [here, elsewhere]

theorem shape?_orphan {orphans : List Ref} :
    (world.orphan orphans).shape? other =
      if other ∈ orphans then (world.shape? other).map ({ · with owner := none }) else world.shape? other := by
  rw [shape?, shape?, object?_orphan]
  split
  · cases world.object? other <;> rfl
  · rfl

theorem holdsOf_orphan {orphans : List Ref} : (world.orphan orphans).holdsOf other = world.holdsOf other := by
  rw [holdsOf, holdsOf, object?_orphan]
  split
  · cases world.object? other <;> rfl
  · rfl

@[simp] theorem heap_size_change {rule : Object → Object} :
    (world.change ref rule).heap.size = world.heap.size :=
  Heap.size_modify ..

@[simp] theorem heap_size_orphan {orphans : List Ref} : (world.orphan orphans).heap.size = world.heap.size := by
  induction orphans generalizing world with
  | nil => rfl
  | cons first rest ih => exact ih.trans heap_size_change

@[simp] theorem inUse_orphan {orphans : List Ref} : (world.orphan orphans).inUse = world.inUse := by
  induction orphans generalizing world with
  | nil => rfl
  | cons first rest ih => exact ih

@[simp] theorem handles_orphan {orphans : List Ref} : (world.orphan orphans).handles = world.handles := by
  induction orphans generalizing world with
  | nil => rfl
  | cons first rest ih => exact ih

theorem object?_bury :
    (world.bury ref).object? other =
      if other = ref then none
      else if other ∈ (world.members ref).values then (world.object? other).map ({ · with parent := none })
      else world.object? other := by
  change (orphan _ (world.members ref).values).object? other = _
  rw [object?_orphan]
  simp only [object?, Heap.get?_erase, eq_comm]
  split <;> split <;> rfl

theorem shape?_bury :
    (world.bury ref).shape? other =
      if other = ref then none
      else if other ∈ (world.members ref).values then (world.shape? other).map ({ · with owner := none })
      else world.shape? other := by
  rw [shape?, shape?, object?_bury]
  split
  · rfl
  · split
    · cases world.object? other <;> rfl
    · rfl

/-- What is seen of a shape besides its owner stays when another object goes. -/
theorem elim_shape?_bury {β : Type} (default : β) (view : Shape → β)
    (same : ∀ shape : Shape, view { shape with owner := none } = view shape) :
    ((world.bury ref).shape? other).elim default view =
      if other = ref then default else (world.shape? other).elim default view := by
  rw [shape?_bury]
  split
  · rfl
  · split
    · cases world.shape? other with
      | none => rfl
      | some shape => exact same shape
    · rfl

theorem nameOf_bury : (world.bury ref).nameOf other = if other = ref then "" else world.nameOf other := by
  rw [nameOf_eq, nameOf_eq]
  exact elim_shape?_bury "" (·.name) fun _ => rfl

theorem kindOf_bury : (world.bury ref).kindOf other = if other = ref then .plain else world.kindOf other := by
  rw [kindOf_eq, kindOf_eq]
  exact elim_shape?_bury .plain (·.kind) fun _ => rfl

theorem members_bury : (world.bury ref).members other = if other = ref then {} else world.members other := by
  rw [members_eq, members_eq]
  exact elim_shape?_bury {} (·.members) fun _ => rfl

theorem imports_bury : (world.bury ref).imports other = if other = ref then [] else world.imports other := by
  rw [imports_eq, imports_eq]
  exact elim_shape?_bury [] (·.imports) fun _ => rfl

theorem claimed_bury : (world.bury ref).claimed other = if other = ref then [] else world.claimed other := by
  rw [claimed_eq, claimed_eq]
  exact elim_shape?_bury [] (·.claimed) fun _ => rfl

theorem holdsOf_bury : (world.bury ref).holdsOf other = if other = ref then [] else world.holdsOf other := by
  rw [holdsOf, holdsOf, object?_bury]
  split
  · rfl
  · split
    · cases world.object? other <;> rfl
    · rfl

@[simp] theorem heap_size_bury : (world.bury ref).heap.size = world.heap.size :=
  heap_size_orphan.trans (Heap.size_erase ..)

@[simp] theorem inUse_bury : (world.bury ref).inUse = world.inUse := inUse_orphan

@[simp] theorem handles_bury : (world.bury ref).handles = world.handles := handles_orphan

end World

end Dialogue
