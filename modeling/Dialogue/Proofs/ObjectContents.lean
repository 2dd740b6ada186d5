import Dialogue.Proofs.NumberDigits
import Dialogue.Proofs.WorldForest
import Dialogue.Variables.Reading

/-! What objects contain besides members: values and elements. They stay when an object gets another name,
owner or members. Values are rounded, what is read along with a value is older than its reader, and no
element refers to an object that never existed. -/

namespace Dialogue

/-- The object that a slot holds or refers to. -/
def Slot.target : Slot → Ref
  | .held element => element
  | .link target _ => target

namespace Storage

/-- The value that a variable keeps. -/
def value? : Storage → Option Scalar
  | .stored value => some value
  | .bound (.cell value _) => some value
  | .derived _ (.kept _ _ value) => some value
  | _ => none

/-- The older object whose elements or precision a variable shows. -/
def source? : Storage → Option Ref
  | .bound (.length list _) => some list
  | .bound (.precision target _) => some target
  | .derived (.text list) _ => some list
  | _ => none

theorem older_of_alone {storage : Storage} {ref : Ref} (alone : storage.source? = none) :
    ∀ source ∈ storage.source?, source < ref := by
  rw [alone]
  exact fun _ none => nomatch none

theorem source?_evaluated {storage : Storage} {value : Scalar} {config : Config} :
    (storage.evaluated value config).source? = storage.source? := by
  rcases storage with value | binding | ⟨formula, memo⟩
  · rfl
  · rfl
  · cases formula <;> rfl

/-- The value kept is the one that was worked out, if any. -/
theorem value?_evaluated {storage : Storage} {value kept : Scalar} {config : Config}
    (keeps : kept ∈ (storage.evaluated value config).value?) : kept ∈ storage.value? ∨ kept = value := by
  rcases storage with stored | binding | ⟨formula, memo⟩
  · exact .inl keeps
  · exact .inl keeps
  · right
    cases formula <;> cases memo <;> first | exact (Option.some.inj keeps).symm | cases keeps

end Storage

namespace Memo

theorem value?_of_recalled? {memo : Memo} {formula : Formula} {value : Scalar} {config : Config}
    (recalled : memo.recalled? config = some value) : value ∈ (Storage.derived formula memo).value? := by
  cases memo with
  | kept precision rounding kept =>
    simp only [recalled?, Option.ite_none_right_eq_some] at recalled
    exact recalled.2
  | _ => cases recalled

end Memo

namespace Body

def storage? : Body → Option Storage
  | .var storage => some storage
  | _ => none

def list? : Body → Option ListData
  | .list data => some data
  | _ => none

structure Grounded (body : Body) (ref size : Nat) : Prop where
  exact : ∀ storage ∈ body.storage?, ∀ value ∈ storage.value?, value.Exact
  older : ∀ storage ∈ body.storage?, ∀ source ∈ storage.source?, source < ref
  known : ∀ data ∈ body.list?, ∀ slot ∈ data.slots, slot.target < size

variable {ref size more : Nat} {body : Body}

theorem Grounded.mono (grounded : body.Grounded ref size) (grown : size ≤ more) : body.Grounded ref more :=
  ⟨grounded.exact, grounded.older, fun data found slot inside => (grounded.known data found slot inside).trans_le grown⟩

theorem grounded_plain : plain.Grounded ref size :=
  ⟨fun _ none => (nomatch none), fun _ none => (nomatch none), fun _ none => (nomatch none)⟩

theorem grounded_var {storage : Storage} (exact : ∀ value ∈ storage.value?, value.Exact)
    (older : ∀ source ∈ storage.source?, source < ref) : (var storage).Grounded ref size := by
  refine ⟨?_, ?_, fun _ none => nomatch none⟩
  · rintro _ ⟨⟩
    exact exact
  · rintro _ ⟨⟩
    exact older

theorem grounded_list {data : ListData} (known : ∀ slot ∈ data.slots, slot.target < size) :
    (list data).Grounded ref size := by
  refine ⟨fun _ none => (nomatch none), fun _ none => (nomatch none), ?_⟩
  rintro _ ⟨⟩
  exact known

end Body

namespace Object

/-- Scopes contain nothing but members. -/
def content (object : Object) : Body :=
  match object.body with
  | .scope _ => .plain
  | body => body

end Object

namespace World

variable {world : World} {ref other : Ref}

def content? (world : World) (ref : Ref) : Option Body := (world.object? ref).map Object.content

theorem storage?_eq : world.storage? ref = (world.content? ref).bind Body.storage? := by
  unfold storage? body? content?
  cases world.object? ref with
  | none => rfl
  | some object => cases body : object.body <;> simp [Object.content, body, Body.storage?]

theorem list?_eq : world.list? ref = (world.content? ref).bind Body.list? := by
  unfold list? body? content?
  cases world.object? ref with
  | none => rfl
  | some object => cases body : object.body <;> simp [Object.content, body, Body.list?]

theorem content?_eq_some_var {storage : Storage} :
    world.content? ref = some (.var storage) ↔ world.storage? ref = some storage := by
  rw [storage?_eq]
  cases world.content? ref with
  | none => simp
  | some body => cases body <;> simp [Body.storage?]

theorem storage?_eq_some {storage : Storage} :
    world.storage? ref = some storage ↔ world.body? ref = some (.var storage) := by
  unfold storage?
  split <;> simp_all

theorem kindOf_of_storage? {storage : Storage} (found : world.storage? ref = some storage) :
    world.kindOf ref = .var := by
  obtain ⟨object, there, body⟩ := Option.map_eq_some_iff.mp (storage?_eq_some.mp found)
  rw [kindOf, there, Option.elim_some, Object.kind, body]

theorem content?_eq_some_list {data : ListData} :
    world.content? ref = some (.list data) ↔ world.list? ref = some data := by
  rw [list?_eq]
  cases world.content? ref with
  | none => simp
  | some body => cases body <;> simp [Body.list?]

theorem content?_of_size_le (beyond : world.heap.size ≤ ref) : world.content? ref = none := by
  rw [content?, object?, Heap.get?_of_size_le beyond]
  rfl

theorem isLive_of_content? {body : Body} (found : world.content? ref = some body) : world.isLive ref = true := by
  obtain ⟨object, present, -⟩ := Option.map_eq_some_iff.mp found
  rw [isLive, present]
  rfl

theorem content?_change_eq {rule : Object → Object} (edit : Body → Body)
    (same : ∀ object, (rule object).content = edit object.content) :
    (world.change ref rule).content? other =
      if ref = other then (world.content? other).map edit else world.content? other := by
  rw [content?, content?, object?_change]
  split
  · cases world.object? other <;> simp [same]
  · rfl

theorem content?_change {rule : Object → Object} (same : ∀ object, (rule object).content = object.content) :
    (world.change ref rule).content? other = world.content? other := by
  rw [content?_change_eq id same]
  simp

theorem content?_setParent {owner : Option Ref} : (world.setParent ref owner).content? other = world.content? other :=
  content?_change fun _ => rfl

theorem content?_setName {name : String} : (world.setName ref name).content? other = world.content? other :=
  content?_change fun _ => rfl

theorem content?_changeScope {rule : ScopeData → ScopeData} :
    (world.changeScope ref rule).content? other = world.content? other := by
  apply content?_change
  intro object
  split
  next body => simp [Object.content, body]
  next => rfl

theorem content?_setStorage {storage : Storage} :
    (world.setStorage ref storage).content? other =
      if ref = other then (world.content? other).map (fun | .var _ => .var storage | body => body)
      else world.content? other := by
  apply content?_change_eq
  rintro ⟨name, body, constant, parent⟩
  cases body <;> rfl

theorem content?_changeList {rule : ListData → ListData} :
    (world.changeList ref rule).content? other =
      if ref = other then (world.content? other).map (fun | .list data => .list (rule data) | body => body)
      else world.content? other := by
  apply content?_change_eq
  rintro ⟨name, body, constant, parent⟩
  cases body <;> rfl

theorem storage?_setStorage {storage : Storage} : (world.setStorage ref storage).storage? other =
    if ref = other then (world.storage? other).map fun _ => storage else world.storage? other := by
  rw [storage?_eq, storage?_eq, content?_setStorage]
  split
  next => rcases world.content? other with _ | _ | _ | _ | _ <;> rfl
  next => rfl

theorem storage?_setStorage_self {storage former : Storage} (found : world.storage? ref = some former) :
    (world.setStorage ref storage).storage? ref = some storage := by
  rw [storage?_setStorage, if_pos rfl, found]
  rfl

theorem content?_insertMember {object : Ref} :
    (world.insertMember ref object).content? other = world.content? other :=
  content?_changeScope.trans content?_setParent

private theorem content?_orphan {orphans : List Ref} :
    (world.orphan orphans).content? other = world.content? other := by
  rw [content?, content?, object?_orphan]
  split
  · cases world.object? other <;> rfl
  · rfl

theorem content?_clearMembers : (world.clearMembers ref).content? other = world.content? other := by
  rw [clearMembers_eq, content?_orphan, content?_changeScope]

theorem content?_add {object : Object} :
    (world.add object).content? other = if other = world.heap.size then some object.content else world.content? other := by
  rw [content?, content?, object?_add]
  split <;> rfl

theorem content?_bury : (world.bury ref).content? other = if other = ref then none else world.content? other := by
  rw [content?, content?, object?_bury]
  split
  · rfl
  · split
    · cases world.object? other <;> rfl
    · rfl

/-- Whether what a slot holds lives; what it refers to may have gone. -/
structure Knows (world : World) (slot : Slot) : Prop where
  held : ∀ element ∈ slot.held?, world.isLive element = true
  target : slot.target < world.heap.size

theorem knows_held (live : world.isLive ref = true) : world.Knows (.held ref) :=
  ⟨fun _ same => Option.some.inj same ▸ live, lt_size_of_isLive live⟩

theorem knows_link {name : String} (old : ref < world.heap.size) : world.Knows (.link ref name) :=
  ⟨fun _ none => (nomatch none), old⟩

/-- Whether all values are rounded and whatever contents refer to is old enough. -/
def Grounded (world : World) : Prop :=
  ∀ {ref body}, world.content? ref = some body → body.Grounded ref world.heap.size

end World

end Dialogue
