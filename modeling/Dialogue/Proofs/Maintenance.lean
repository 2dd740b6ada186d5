import Dialogue.Proofs.ActGuarantees
import Dialogue.Proofs.BuiltinMembers
import Dialogue.Proofs.ReadingTermination

/-! What acts maintain. A world is tidy if its lists hold objects that nobody owns, apart from exempt ones. Most
changes give no object that was there an owner; some give one to a single object. None brings an object back or makes
a list of one that was none, none leaves a list busy, and none lets a scope forget which built-in members it has made,
unless the scope is cleared. -/

namespace Dialogue

/-- What is left of an object that keeps its name, its owner and its members: it gets no elements, does not get busy,
and forgets no claims unless it may. -/
structure Object.Remains (forgets : Prop) (former later : Object) : Prop where
  name : later.name = former.name
  parent : later.parent = former.parent
  members : later.shape.members = former.shape.members
  list : later.kind = .list → former.kind = .list
  slots : later.slots ⊆ former.slots
  idle : later.isBusy = true → former.isBusy = true
  claims : ¬ forgets → former.shape.claimed ⊆ later.shape.claimed

namespace Object

variable {forgets : Prop} {object : Object}

theorem Remains.refl : object.Remains forgets object :=
  ⟨rfl, rfl, rfl, id, List.Subset.refl _, id, fun _ => List.Subset.refl _⟩

private theorem remains_constant {constant : Bool} : object.Remains forgets { object with constant } :=
  ⟨rfl, rfl, rfl, id, List.Subset.refl _, id, fun _ => List.Subset.refl _⟩

private theorem kind_scope_ne {name : String} {data : ScopeData} {constant : Bool} {parent : Option Ref} :
    kind { name, body := .scope data, constant, parent } ≠ .list := by
  obtain ⟨role, members, imports, claimed⟩ := data
  cases role <;> exact Kind.noConfusion

private theorem remains_scope {rule : ScopeData → ScopeData} (members : ∀ data, (rule data).members = data.members)
    (claims : ∀ data, data.claimed ⊆ (rule data).claimed) :
    object.Remains forgets (match object.body with
      | .scope data => { object with body := .scope (rule data) }
      | _ => object) := by
  obtain ⟨name, body, constant, parent⟩ := object
  cases body with
  | scope data =>
    exact ⟨rfl, rfl, members data, fun isList => absurd isList kind_scope_ne, List.Subset.refl _, id, fun _ => claims data⟩
  | _ => exact .refl

private theorem remains_storage {storage : Storage} :
    object.Remains forgets (match object.body with
      | .var _ => { object with body := .var storage }
      | _ => object) := by
  obtain ⟨name, body, constant, parent⟩ := object
  cases body with
  | var => exact ⟨rfl, rfl, rfl, id, List.Subset.refl _, id, fun _ => List.Subset.refl _⟩
  | _ => exact .refl

private theorem remains_list {rule : ListData → ListData} (slots : ∀ data, (rule data).slots ⊆ data.slots)
    (idle : ∀ data, (rule data).busy = true → data.busy = true) :
    object.Remains forgets (match object.body with
      | .list data => { object with body := .list (rule data) }
      | _ => object) := by
  obtain ⟨name, body, constant, parent⟩ := object
  cases body with
  | list data => exact ⟨rfl, rfl, rfl, id, slots data, idle data, fun _ => List.Subset.refl _⟩
  | _ => exact .refl

end Object

namespace World

variable {exempt cleared : Ref → Prop} {world after last : World} {ref object list scope : Ref} {name : String}

/-! Objects that nobody owns. -/

/-- Whether an object that exists has no owner, or none that lives, unless it is exempt. -/
structure Loose (exempt : Ref → Prop) (world : World) (ref : Ref) : Prop where
  old : ref < world.heap.size
  unowned : ∀ owner, world.owner? ref = some owner →
    exempt ref ∨ owner < world.heap.size ∧ world.isLive owner = false

/-- Whether a slot holds nothing that is not loose. -/
def Holdable (exempt : Ref → Prop) (world : World) (slot : Slot) : Prop :=
  ∀ element ∈ slot.held?, world.Loose exempt element

/-- Whether members are owned by their scopes, and called by the names that they have there. -/
def Enrolled (world : World) : Prop :=
  ∀ {scope name object}, (world.members scope).find? name = some object →
    world.nameOf object = name ∧ world.owner? object = some scope

structure Tidy (exempt : Ref → Prop) (world : World) : Prop where
  enrolled : world.Enrolled
  owners : ∀ {ref owner}, world.owner? ref = some owner → owner < world.heap.size
  held : ∀ {list slot}, slot ∈ world.slots list → world.Holdable exempt slot

theorem isRegistered_iff :
    world.isRegistered ref = true ↔ ∃ owner, world.owner? ref = some owner ∧ world.isLive owner = true := by
  unfold isRegistered parent? owner?
  cases world.object? ref with
  | none => simp
  | some object => cases parent : object.parent <;> simp [parent, Option.isSome_iff_exists]

theorem Loose.exempt_of_isRegistered (loose : world.Loose exempt ref) (registered : world.isRegistered ref = true) :
    exempt ref := by
  obtain ⟨owner, owned, live⟩ := isRegistered_iff.mp registered
  refine (loose.unowned owner owned).resolve_right fun ⟨_, dead⟩ => ?_
  rw [live] at dead
  cases dead

theorem Loose.of_exempt (given : exempt ref) (old : ref < world.heap.size) : world.Loose exempt ref :=
  ⟨old, fun _ _ => .inl given⟩

theorem Loose.of_unowned (unowned : world.owner? ref = none) (old : ref < world.heap.size) :
    world.Loose exempt ref :=
  ⟨old, fun _ owned => by rw [unowned] at owned; cases owned⟩

theorem Tidy.loose (tidy : world.Tidy exempt) (old : ref < world.heap.size) (free : world.isRegistered ref = false) :
    world.Loose exempt ref := by
  refine ⟨old, fun owner owned => .inr ⟨tidy.owners owned, ?_⟩⟩
  by_contra live
  rw [isRegistered_iff.mpr ⟨owner, owned, Bool.not_eq_false _ ▸ live⟩] at free
  cases free

theorem holdable_held (loose : world.Loose exempt ref) : world.Holdable exempt (.held ref) := by
  rintro _ ⟨⟩
  exact loose

theorem holdable_link : world.Holdable exempt (.link ref name) := fun _ none => nomatch none

theorem isLive_of_member (found : (world.members scope).find? name = some object) : world.isLive scope = true :=
  isLive_of_isScope (isScope_of_members found)

/-- Members are registered. -/
theorem Enrolled.isRegistered (enrolled : world.Enrolled) (found : (world.members scope).find? name = some object) :
    world.isRegistered object = true :=
  isRegistered_iff.mpr ⟨scope, (enrolled found).2, isLive_of_member found⟩

theorem Sound.enrolled (sound : world.Sound) : world.Enrolled := sound.forest.members

theorem Sound.owner?_lt (sound : world.Sound) {owner : Ref} (owned : world.owner? ref = some owner) :
    owner < world.heap.size :=
  lt_size_of_isLive (sound.forest.isLive_of_owner? ref owner owned)

/-- A sound world is tidy if whatever a list holds is exempt where it has an owner. -/
theorem Sound.tidy (sound : world.Sound)
    (held : ∀ list element, .held element ∈ world.slots list → world.isRegistered element = true → exempt element) :
    world.Tidy exempt := by
  refine ⟨sound.enrolled, sound.owner?_lt, fun {list slot} inside element holds => ?_⟩
  rcases slot with _ | _ <;> cases holds
  refine ⟨(sound.knows inside).target, fun owner owned => .inl (held list element inside ?_)⟩
  exact isRegistered_iff.mpr ⟨owner, owned, sound.forest.isLive_of_owner? element owner owned⟩

/-! Changes. -/

/-- What lasts: objects that have gone stay away, what was there and is no list does not become one, and scopes that may
not be cleared remember what they have claimed. -/
structure Lasting (cleared : Ref → Prop) (world after : World) : Prop where
  size : world.heap.size ≤ after.heap.size
  alive : ∀ {ref}, ref < world.heap.size → after.isLive ref = true → world.isLive ref = true
  lists : ∀ {ref}, ref < world.heap.size → after.kindOf ref = .list → world.kindOf ref = .list
  claims : ∀ {scope}, ¬ cleared scope → after.isLive scope = true → world.claimed scope ⊆ after.claimed scope
  enrolled : world.Enrolled → after.Enrolled

/-- What becomes of a world where no object that was there gets an owner, but for one, and no list gets elements. -/
structure Entered (object : Ref) (cleared : Ref → Prop) (world after : World) : Prop extends
    Lasting cleared world after where
  idle : ∀ {list}, after.isBusy list = true → world.isBusy list = true
  slots : ∀ {list slot}, slot ∈ after.slots list → slot ∈ world.slots list
  owners : ∀ {ref owner}, after.owner? ref = some owner →
    world.owner? ref = some owner ∨ (ref = object ∨ world.heap.size ≤ ref) ∧ owner < after.heap.size

/-- What becomes of a world in which no loose object gets an owner, and lists only get loose objects. -/
structure Maintained (exempt cleared : Ref → Prop) (world after : World) : Prop extends
    Lasting cleared world after where
  idle : ∀ {list}, after.isBusy list = true → world.isBusy list = true
  tidy : world.Tidy exempt → after.Tidy exempt
  loose : ∀ {ref}, world.Loose exempt ref → after.Loose exempt ref

theorem Lasting.refl : Lasting cleared world world :=
  ⟨Nat.le_refl _, fun _ live => live, fun _ isList => isList, fun _ _ => List.Subset.refl _, fun enrolled => enrolled⟩

private theorem claimed_eq_nil_of_size_le (beyond : world.heap.size ≤ scope) : world.claimed scope = [] := by
  rw [claimed_eq, shape?_of_size_le beyond]
  rfl

theorem Lasting.trans (first : Lasting cleared world after) (second : Lasting cleared after last) :
    Lasting cleared world last where
  size := first.size.trans second.size
  alive old live := first.alive old (second.alive (old.trans_le first.size) live)
  lists old isList := first.lists old (second.lists (old.trans_le first.size) isList)
  claims {scope} kept live := by
    rcases Nat.lt_or_ge scope world.heap.size with old | new
    · have between := second.alive (old.trans_le first.size) live
      exact List.Subset.trans (first.claims kept between) (second.claims kept live)
    · rw [claimed_eq_nil_of_size_le new]
      exact List.nil_subset _
  enrolled enrolled := second.enrolled (first.enrolled enrolled)

namespace Entered

theorem refl : Entered object cleared world world := ⟨.refl, fun busy => busy, fun inside => inside, .inl⟩

theorem trans (first : Entered object cleared world after) (second : Entered object cleared after last) :
    Entered object cleared world last where
  toLasting := first.toLasting.trans second.toLasting
  idle busy := first.idle (second.idle busy)
  slots inside := first.slots (second.slots inside)
  owners owned := by
    rcases second.owners owned with before | ⟨entered, bound⟩
    · exact (first.owners before).imp_right fun ⟨entered, bound⟩ => ⟨entered, bound.trans_le second.size⟩
    · exact .inr ⟨entered.imp_right first.size.trans, bound⟩

/-- A new object may take the place of the one that gets an owner. -/
theorem of_new (entered : Entered ref cleared world after) (new : world.heap.size ≤ ref) :
    Entered object cleared world after :=
  { entered with
    owners := fun owned => (entered.owners owned).imp_right fun ⟨got, bound⟩ =>
      ⟨.inr (got.elim (fun same => same ▸ new) fun later => later), bound⟩ }

end Entered

/-- An object stays loose if it is exempt or gets no owner. -/
theorem Lasting.loose (lasting : Lasting cleared world after) (loose : world.Loose exempt ref)
    (owners : ∀ {owner}, after.owner? ref = some owner → world.owner? ref = some owner ∨ exempt ref) :
    after.Loose exempt ref := by
  refine ⟨loose.old.trans_le lasting.size, fun owner owned => ?_⟩
  rcases owners owned with before | given
  · refine (loose.unowned owner before).imp_right fun ⟨old, dead⟩ => ⟨old.trans_le lasting.size, ?_⟩
    by_contra live
    rw [lasting.alive old (Bool.not_eq_false _ ▸ live)] at dead
    cases dead
  · exact .inl given

namespace Entered

variable (entered : Entered object cleared world after)

include entered

theorem loose (given : ref = object → exempt ref) (loose : world.Loose exempt ref) : after.Loose exempt ref := by
  refine entered.toLasting.loose loose fun owned => (entered.owners owned).imp_right fun ⟨got, _⟩ => ?_
  exact got.elim given fun new => absurd loose.old (Nat.not_lt.mpr new)

/-- The object that gets an owner had one, or is exempt. -/
theorem maintained (given : world.Loose exempt object → exempt object) : Maintained exempt cleared world after where
  toLasting := entered.toLasting
  idle := entered.idle
  loose loose := entered.loose (fun same => same ▸ given (same ▸ loose)) loose
  tidy tidy := by
    refine ⟨entered.enrolled tidy.enrolled, fun owned => ?_, fun {list slot} inside element holds => ?_⟩
    · exact (entered.owners owned).elim (fun before => (tidy.owners before).trans_le entered.size) And.right
    · have loose := tidy.held (entered.slots inside) element holds
      exact entered.loose (fun same => same ▸ given (same ▸ loose)) loose

end Entered

theorem Entered.maintained_new (entered : Entered world.heap.size cleared world after) :
    Maintained exempt cleared world after :=
  entered.maintained fun loose => absurd loose.old (Nat.lt_irrefl _)

namespace Maintained

theorem refl : Maintained exempt cleared world world :=
  ⟨.refl, fun busy => busy, fun tidy => tidy, fun loose => loose⟩

theorem trans (first : Maintained exempt cleared world after) (second : Maintained exempt cleared after last) :
    Maintained exempt cleared world last where
  toLasting := first.toLasting.trans second.toLasting
  idle busy := first.idle (second.idle busy)
  tidy tidy := second.tidy (first.tidy tidy)
  loose loose := second.loose (first.loose loose)

theorem holdable {slot : Slot} (maintained : Maintained exempt cleared world after)
    (holdable : world.Holdable exempt slot) :
    after.Holdable exempt slot :=
  fun element holds => maintained.loose (holdable element holds)

/-- Lists get loose objects, and no old object gets an owner. -/
theorem of_filled (lasting : Lasting cleared world after)
    (idle : ∀ {list}, after.isBusy list = true → world.isBusy list = true)
    (owners : ∀ {ref owner}, after.owner? ref = some owner → world.owner? ref = some owner)
    (slots : ∀ list, ∀ slot ∈ after.slots list, slot ∈ world.slots list ∨ world.Holdable exempt slot) :
    Maintained exempt cleared world after where
  toLasting := lasting
  idle := idle
  tidy tidy := by
    refine ⟨lasting.enrolled tidy.enrolled, fun owned => (tidy.owners (owners owned)).trans_le lasting.size, ?_⟩
    intro list slot inside element holds
    have holdable := (slots list slot inside).elim tidy.held id
    exact lasting.loose (holdable element holds) fun owned => .inl (owners owned)
  loose loose := lasting.loose loose fun owned => .inl (owners owned)

end Maintained

/-! Changes of objects that keep their names, owners and members. -/

/-- Views that what remains of an object leaves alone. -/
theorem view_of_remains {α : Type} (view : Option Object → α)
    (remains : Option.Rel (Object.Remains (cleared ref)) (world.object? ref) (after.object? ref))
    (blind : ∀ {former later : Object}, former.Remains (cleared ref) later → view (some later) = view (some former)) :
    view (after.object? ref) = view (world.object? ref) := by
  generalize world.object? ref = former, after.object? ref = later at remains
  cases remains with
  | none => rfl
  | some same => exact blind same

private theorem entered_of_remains (size : after.heap.size = world.heap.size)
    (remains : ∀ ref, Option.Rel (Object.Remains (cleared ref)) (world.object? ref) (after.object? ref)) :
    Entered object cleared world after where
  size := size.ge
  alive {ref} _ live := by
    have same : after.isLive ref = world.isLive ref := view_of_remains Option.isSome (remains ref) fun _ => rfl
    exact same ▸ live
  lists {ref} _ isList := by
    unfold kindOf at isList ⊢
    have same := remains ref
    generalize world.object? ref = former, after.object? ref = later at same isList
    cases same with
    | none => exact isList
    | some same => exact same.list isList
  claims {scope} kept _ := by
    rw [claimed_eq, claimed_eq, shape?, shape?]
    have same := remains scope
    generalize world.object? scope = former, after.object? scope = later at same
    cases same with
    | none => exact List.Subset.refl _
    | some same => exact same.claims kept
  enrolled enrolled {scope name member} found := by
    have members : after.members scope = world.members scope := by
      rw [members_eq, members_eq, shape?, shape?]
      exact view_of_remains (fun object => (object.map Object.shape).elim {} (·.members)) (remains scope) (·.members)
    have names : after.nameOf member = world.nameOf member :=
      view_of_remains (fun object => object.elim "" (·.name)) (remains member) (·.name)
    have owners : after.owner? member = world.owner? member :=
      view_of_remains (fun object => object.bind (·.parent)) (remains member) (·.parent)
    rw [names, owners]
    exact enrolled (members ▸ found)
  idle {list} busy := by
    rw [isBusy_eq_bind] at busy ⊢
    have same := remains list
    generalize world.object? list = former, after.object? list = later at same busy
    cases same with
    | none => exact busy
    | some same => exact same.idle busy
  slots {list slot} inside := by
    rw [slots_eq] at inside ⊢
    have same := remains list
    generalize world.object? list = former, after.object? list = later at same inside
    cases same with
    | none => exact inside
    | some same => exact same.slots inside
  owners {ref owner} owned := by
    have owners : after.owner? ref = world.owner? ref :=
      view_of_remains (fun object => object.bind (·.parent)) (remains ref) (·.parent)
    exact .inl (owners ▸ owned)

theorem entered_of_heap (same : after.heap = world.heap) : Entered object cleared world after := by
  refine entered_of_remains (by rw [same]) fun ref => ?_
  rw [object?, object?, same]
  cases world.heap.get? ref with
  | none => exact .none
  | some object => exact .some .refl

theorem entered_use {refs : List Ref} : Entered object cleared world { world with inUse := refs ++ world.inUse } :=
  entered_of_heap rfl

theorem entered_change {rule : Object → Object}
    (remains : ∀ object, Object.Remains (cleared ref) object (rule object)) :
    Entered object cleared world (world.change ref rule) := by
  refine entered_of_remains heap_size_change fun other => ?_
  rw [object?_change]
  split
  next here =>
    subst here
    cases world.object? ref with
    | none => exact .none
    | some object => exact .some (remains object)
  next =>
    cases world.object? other with
    | none => exact .none
    | some object => exact .some .refl

theorem entered_setConstant {constant : Bool} : Entered object cleared world (world.setConstant ref constant) :=
  entered_change fun _ => Object.remains_constant

theorem entered_setStorage {storage : Storage} : Entered object cleared world (world.setStorage ref storage) :=
  entered_change fun _ => Object.remains_storage

theorem entered_evaluate {value : Scalar} {config : Config} :
    Entered object cleared world (world.evaluate ref value config) := by
  unfold evaluate
  split
  next => exact entered_setStorage
  next => exact .refl

theorem entered_setIdle : Entered object cleared world (world.setBusy ref false) :=
  entered_change fun _ => Object.remains_list (fun _ => List.Subset.refl _) fun _ never => nomatch never

/-- A list loses elements. -/
theorem entered_changeSlots {rule : List Slot → List Slot} (fewer : ∀ slots, rule slots ⊆ slots) :
    Entered object cleared world (world.changeSlots list rule) :=
  entered_change fun _ => Object.remains_list (fun _ => fewer _) fun _ => id

theorem entered_changeScope {rule : ScopeData → ScopeData} (members : ∀ data, (rule data).members = data.members)
    (claims : ∀ data, data.claimed ⊆ (rule data).claimed) : Entered object cleared world (world.changeScope ref rule) :=
  entered_change fun _ => Object.remains_scope members claims

theorem entered_changeBlock {rule : BlockData → BlockData} :
    Entered object cleared world (world.changeBlock ref rule) := by
  apply entered_changeScope <;> intro data <;> cases data.role <;> simp

theorem entered_setImports {rule : ScopeData → List Ref} :
    Entered object cleared world (world.changeScope ref fun data => { data with imports := rule data }) :=
  entered_changeScope (fun _ => rfl) fun _ => List.Subset.refl _

theorem entered_claim {builtin : Builtin} : Entered object cleared world (world.claim scope builtin) :=
  entered_changeScope (fun _ => rfl) fun _ => List.subset_cons_self ..

end World

end Dialogue
