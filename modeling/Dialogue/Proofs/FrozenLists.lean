import Dialogue.Proofs.ActGuarantees
import Dialogue.Proofs.BuiltinMembers

/-! Lists that are constant. A frozen list keeps its elements for as long as it is constant, apart from those at
positions that are open. Whatever gives a list elements or takes them asks first whether the list is constant, so only
a replacement of single slots can reach a frozen one. -/

namespace Dialogue

/-- What an object shows of being frozen. -/
structure Freeze where
  constant : Bool
  slots : List Slot

def Object.freeze (object : Object) : Freeze := ⟨object.constant, object.slots⟩

namespace World

variable {frozen ref scope list : Ref} {opened : Nat → Prop} {world after last : World}

def freeze? (world : World) (ref : Ref) : Option Freeze := (world.object? ref).map Object.freeze

theorem isConstant_eq_freeze? : world.isConstant ref = (world.freeze? ref).any (·.constant) := by
  rw [isConstant, freeze?]
  cases world.object? ref <;> rfl

private theorem slots_eq_freeze? : world.slots ref = (world.freeze? ref).elim [] (·.slots) := by
  rw [slots_eq, freeze?]
  cases world.object? ref <;> rfl

/-- What becomes of a list by acts that cannot reach its slots while it is constant, except for those that are open. -/
structure Frozen (frozen : Ref) (opened : Nat → Prop) (world after : World) : Prop where
  old : frozen < after.heap.size
  before : after.isConstant frozen = true → world.isConstant frozen = true
  length : after.isConstant frozen = true → after.length frozen = world.length frozen
  slots : after.isConstant frozen = true → ∀ position, ¬ opened position →
    (after.slots frozen)[position]? = (world.slots frozen)[position]?

namespace Frozen

theorem refl (old : frozen < world.heap.size) : Frozen frozen opened world world :=
  ⟨old, fun constant => constant, fun _ => rfl, fun _ _ _ => rfl⟩

theorem trans (first : Frozen frozen opened world after) (second : Frozen frozen opened after last) :
    Frozen frozen opened world last where
  old := second.old
  before constant := first.before (second.before constant)
  length constant := (second.length constant).trans (first.length (second.before constant))
  slots constant position shut :=
    (second.slots constant position shut).trans (first.slots (second.before constant) position shut)

/-- A list that goes is not constant any more. -/
private theorem of_freeze? (old : frozen < after.heap.size)
    (same : after.freeze? frozen = world.freeze? frozen ∨ after.freeze? frozen = none) :
    Frozen frozen opened world after := by
  rcases same with same | gone
  · have slots : after.slots frozen = world.slots frozen := by rw [slots_eq_freeze?, slots_eq_freeze?, same]
    refine ⟨old, fun constant => ?_, fun _ => congrArg List.length slots, fun _ _ _ => by rw [slots]⟩
    rwa [isConstant_eq_freeze?, same, ← isConstant_eq_freeze?] at constant
  · have changeable : after.isConstant frozen = false := by rw [isConstant_eq_freeze?, gone]; rfl
    refine ⟨old, ?_, ?_, ?_⟩ <;> intro constant <;> rw [changeable] at constant <;> cases constant

end Frozen

/-! Changes that leave frozen lists alone. -/

private theorem freeze?_of_heap (same : after.heap = world.heap) : after.freeze? ref = world.freeze? ref := by
  rw [freeze?, freeze?, object?, object?, same]

theorem freeze?_change {rule : Object → Object} (same : ∀ object, (rule object).freeze = object.freeze) :
    (world.change list rule).freeze? ref = world.freeze? ref := by
  rw [freeze?, freeze?, object?_change]
  split
  · cases world.object? ref <;> simp [same]
  · rfl

private theorem freeze?_changeScope {rule : ScopeData → ScopeData} :
    (world.changeScope scope rule).freeze? ref = world.freeze? ref := by
  refine freeze?_change fun object => ?_
  split
  next body => simp [Object.freeze, Object.slots, body]
  next => rfl

private theorem freeze?_setParent {owner : Option Ref} : (world.setParent list owner).freeze? ref = world.freeze? ref :=
  freeze?_change fun _ => rfl

theorem freeze?_setName {name : String} : (world.setName list name).freeze? ref = world.freeze? ref :=
  freeze?_change fun _ => rfl

theorem freeze?_setStorage {storage : Storage} : (world.setStorage list storage).freeze? ref = world.freeze? ref := by
  refine freeze?_change fun object => ?_
  split
  next body => simp [Object.freeze, Object.slots, body]
  next => rfl

private theorem freeze?_setBusy {busy : Bool} : (world.setBusy list busy).freeze? ref = world.freeze? ref := by
  refine freeze?_change fun object => ?_
  split
  next body => simp [Object.freeze, Object.slots, body]
  next => rfl

private theorem freeze?_add {object : Object} (old : ref < world.heap.size) :
    (world.add object).freeze? ref = world.freeze? ref := by
  rw [freeze?, freeze?, object?_add, if_neg old.ne]

private theorem freeze?_orphan {orphans : List Ref} : (world.orphan orphans).freeze? ref = world.freeze? ref := by
  rw [freeze?, freeze?, object?_orphan]
  split
  · cases world.object? ref <;> rfl
  · rfl

private theorem freeze?_clearMembers : (world.clearMembers scope).freeze? ref = world.freeze? ref := by
  rw [clearMembers_eq, freeze?_orphan, freeze?_changeScope]

private theorem freeze?_bury :
    (world.bury list).freeze? ref = world.freeze? ref ∨ (world.bury list).freeze? ref = none := by
  rw [freeze?, freeze?, object?_bury]
  split
  · exact .inr rfl
  · split
    · left
      cases world.object? ref <;> rfl
    · exact .inl rfl

/-- Whether a list may get elements and lose them: it is another one, or it is not constant. -/
def Free (frozen list : Ref) (world : World) : Prop :=
  list = frozen → frozen < world.heap.size ∧ world.isConstant frozen = false

theorem Free.later (free : Free frozen list world)
    (became : frozen < world.heap.size → Frozen frozen opened world after) : Free frozen list after := by
  intro same
  obtain ⟨old, changeable⟩ := free same
  refine ⟨(became old).old, ?_⟩
  by_contra constant
  rw [(became old).before (Bool.not_eq_false _ ▸ constant)] at changeable
  cases changeable

private theorem freeze?_changeSlots {rule : List Slot → List Slot} (apart : list ≠ frozen) :
    (world.changeSlots list rule).freeze? frozen = world.freeze? frozen := by
  rw [freeze?, freeze?, changeSlots, changeList, object?_change, if_neg apart]

private theorem isConstant_changeSlots {rule : List Slot → List Slot} :
    (world.changeSlots list rule).isConstant ref = world.isConstant ref := by
  rw [isConstant, isConstant, changeSlots, changeList, object?_change]
  split
  · cases world.object? ref with
    | none => rfl
    | some object => cases body : object.body <;> simp [body]
  · rfl

end World

namespace Act

open World

variable {α β : Type} {frozen ref object scope list source block : Ref} {opened : Nat → Prop} {world after : World}
  {config : Config} {name : String} {slot : Slot} {slots : List Slot}

def freezing (frozen : Ref) (opened : Nat → Prop) : Guarantee where
  keeps world after := frozen < world.heap.size → Frozen frozen opened world after
  allows _ _ := True
  refl _ := .refl
  trans first second old := (first old).trans (second (first old).old)
  earlier _ _ := trivial
  anomalies := trivial

/-- Acts that leave a frozen list alone, wherever they begin. -/
def Freezes (frozen : Ref) (opened : Nat → Prop) (act : Act α) : Prop :=
  ∀ world, Meets (freezing frozen opened) act world fun _ _ => True

theorem keeps_of_freeze? (size : world.heap.size ≤ after.heap.size)
    (same : frozen < world.heap.size → after.freeze? frozen = world.freeze? frozen ∨ after.freeze? frozen = none) :
    (freezing frozen opened).keeps world after :=
  fun old => .of_freeze? (old.trans_le size) (same old)

theorem keeps_of_heap (same : after.heap = world.heap) : (freezing frozen opened).keeps world after :=
  keeps_of_freeze? (by rw [same]) fun _ => .inl (freeze?_of_heap same)

theorem keeps_add {made : Object} : (freezing frozen opened).keeps world (world.add made) :=
  keeps_of_freeze? (by simp [World.add]) fun old => .inl (freeze?_add old)

theorem keeps_releaseAll (refs : List Ref) : (freezing frozen opened).keeps world (world.releaseAll refs) := by
  refine releaseAll_induction _ (fun _ => True) (fun former _ _ => ?_) (fun _ _ _ => trivial)
    ((freezing frozen opened).refl world) fun _ _ => trivial
  exact (freezing frozen opened).trans former (keeps_of_freeze? heap_size_bury.ge fun _ => freeze?_bury)

theorem keeps_settle {kept : List Ref} : (freezing frozen opened).keeps world (world.settle kept) := by
  have used : (freezing frozen opened).keeps world { world with inUse := kept } := keeps_of_heap rfl
  exact (freezing frozen opened).trans used (keeps_releaseAll _)

theorem keeps_change {rule : Object → Object} (same : (world.change ref rule).freeze? frozen = world.freeze? frozen) :
    (freezing frozen opened).keeps world (world.change ref rule) :=
  keeps_of_freeze? heap_size_change.ge fun _ => .inl same

theorem keeps_changeScope {rule : ScopeData → ScopeData} :
    (freezing frozen opened).keeps world (world.changeScope scope rule) :=
  keeps_change freeze?_changeScope

theorem keeps_insertMember : (freezing frozen opened).keeps world (world.insertMember scope object) :=
  (freezing frozen opened).trans (keeps_change freeze?_setParent) keeps_changeScope

theorem keeps_leave {rule : Table Ref → Table Ref} :
    (freezing frozen opened).keeps world ((world.changeMembers scope rule).setParent object none) :=
  (freezing frozen opened).trans keeps_changeScope (keeps_change freeze?_setParent)

theorem keeps_detach : (freezing frozen opened).keeps world (world.detach object) := by
  unfold detach
  split
  next => exact (freezing frozen opened).refl world
  next =>
    split
    next => exact keeps_leave
    next => exact (freezing frozen opened).refl world

theorem keeps_materialize : (freezing frozen opened).keeps world (world.materialize scope name) := by
  rcases materialize_cases world scope name with ⟨-, same⟩ | ⟨builtin, -, -, made⟩
  · rw [same]
    exact (freezing frozen opened).refl world
  · rw [made]
    exact (freezing frozen opened).trans ((freezing frozen opened).trans keeps_changeScope keeps_add) keeps_insertMember

theorem keeps_evaluate {value : Scalar} : (freezing frozen opened).keeps world (world.evaluate ref value config) := by
  unfold evaluate
  split
  next => exact keeps_change freeze?_setStorage
  next => exact (freezing frozen opened).refl world

theorem keeps_clearMembers : (freezing frozen opened).keeps world (world.clearMembers scope) := by
  refine keeps_of_freeze? ?_ fun _ => .inl freeze?_clearMembers
  rw [clearMembers_eq, heap_size_orphan, changeScope, heap_size_change]

theorem keeps_changeSlots {rule : List Slot → List Slot} (free : Free frozen list world) :
    (freezing frozen opened).keeps world (world.changeSlots list rule) := by
  have size : (world.changeSlots list rule).heap.size = world.heap.size := heap_size_change
  by_cases here : list = frozen
  · have changeable : (world.changeSlots list rule).isConstant frozen = false :=
      isConstant_changeSlots.trans (free here).2
    refine fun old => ⟨size ▸ old, ?_, ?_, ?_⟩ <;> intro constant <;> rw [changeable] at constant <;> cases constant
  · exact keeps_of_freeze? size.ge fun _ => .inl (freeze?_changeSlots here)

/-- A single slot is replaced. -/
theorem keeps_setSlot {position : Nat} (inside : list = frozen → opened position) :
    (freezing frozen opened).keeps world (world.changeSlots list (·.set position slot)) := by
  have size : (world.changeSlots list (·.set position slot)).heap.size = world.heap.size := heap_size_change
  by_cases here : list = frozen
  · refine fun old => ⟨size ▸ old, fun constant => ?_, fun _ => ?_, fun _ other shut => ?_⟩
    · rwa [isConstant_changeSlots] at constant
    · rw [World.length, World.length, slots_changeSlots]
      split
      next same => rw [List.length_set, same.1]
      next => rfl
    · rw [slots_changeSlots]
      split
      next same =>
        have apart : position ≠ other := fun equal => shut (equal ▸ inside here)
        rw [List.getElem?_set_ne apart, same.1]
      next => rfl
  · exact keeps_of_freeze? size.ge fun _ => .inl (freeze?_changeSlots here)

/-! Rules. -/

/-- A list that is yet to be made is not frozen. -/
theorem Meets.freezing_of_old {act : Act α}
    (meets : frozen < world.heap.size → Meets (freezing frozen opened) act world fun _ _ => True) :
    Meets (freezing frozen opened) act world fun _ _ => True := by
  by_cases old : frozen < world.heap.size
  · exact meets old
  · unfold Meets
    split <;> exact ⟨fun present => absurd present old, trivial⟩

namespace Freezes

variable {act : Act α} {next : α → Act β}

theorem of_meets {post : World → α → World → Prop}
    (meets : ∀ world, Meets (freezing frozen opened) act world (post world)) : Freezes frozen opened act :=
  fun world => (meets world).forget

theorem pure {value : α} : Freezes frozen opened (pure value : Act α) := fun _ => .pure trivial

theorem bind (first : Freezes frozen opened act) (rest : ∀ value, Freezes frozen opened (next value)) :
    Freezes frozen opened (act >>= next) :=
  fun world => (first world).bind fun value after _ _ => rest value after

theorem map {rule : α → β} (freezes : Freezes frozen opened act) : Freezes frozen opened (rule <$> act) :=
  fun world => .map (freezes world)

theorem see {view : World → α} : Freezes frozen opened (see view) := fun _ => .see trivial

theorem look {view : World → α} (rest : ∀ value, Freezes frozen opened (next value)) :
    Freezes frozen opened (Act.see view >>= next) :=
  fun world => rest (view world) world

theorem throw {stop : Stop} : Freezes frozen opened (throw stop : Act α) := fun _ => .throw trivial

theorem raise {cause : Cause} : Freezes frozen opened (raise cause : Act α) := throw

theorem raise_bind {cause : Cause} : Freezes frozen opened (Act.raise cause >>= next) := fun _ => .raise_bind

theorem lift {value : Except Cause α} : Freezes frozen opened (lift value) := fun _ => .lift fun _ _ => trivial

theorem compute {value : Except (Failure Cause) α} : Freezes frozen opened (compute value) :=
  fun _ => .compute (fun _ => trivial) fun _ _ => trivial

theorem liftStop {value : Except Stop α} : Freezes frozen opened (liftStop value) := by
  cases value with
  | ok found => exact pure
  | error stop => exact throw

theorem update {rule : World → World} (keeps : ∀ world, (freezing frozen opened).keeps world (rule world)) :
    Freezes frozen opened (update rule) :=
  fun world => .update (keeps world) trivial

theorem attempt (freezes : Freezes frozen opened act) : Freezes frozen opened (attempt act) :=
  of_meets fun world => (freezes world).attempt

theorem forM {items : List β} {act : β → Act PUnit} (each : ∀ item, Freezes frozen opened (act item)) :
    Freezes frozen opened (items.forM act) :=
  fun _ => .forM fun item _ after _ => each item after

theorem mapM {items : List β} {act : β → Act α} (each : ∀ item, Freezes frozen opened (act item)) :
    Freezes frozen opened (items.mapM act) :=
  of_meets fun _ => .mapM (fun _ => True) fun item _ after _ => each item after

theorem foldlM {items : List β} {act : α → β → Act α} {start : α}
    (each : ∀ value item, Freezes frozen opened (act value item)) : Freezes frozen opened (items.foldlM act start) :=
  fun _ => .foldlM trivial fun item _ value after _ _ => each value item after

/-- Once a list has been found to be changeable, it is free. -/
theorem changeable {next : Unit → Act β}
    (rest : ∀ world, Free frozen list world → Meets (freezing frozen opened) (next ()) world fun _ _ => True) :
    Freezes frozen opened (Act.requireChangeable list >>= next) := by
  intro world
  apply Meets.requireChangeable.bind
  rintro _ after - ⟨rfl, changeable⟩
  exact .freezing_of_old fun old => rest after fun same => ⟨old, same ▸ changeable⟩

end Freezes

theorem Meets.freezing_whileBusy {world : World} {act : Act α}
    (meets : Meets (freezing frozen opened) act (world.setBusy list true) fun _ _ => True) :
    Meets (freezing frozen opened) (Act.whileBusy list act) world fun _ _ => True := by
  have busies {world : World} {busy : Bool} : (freezing frozen opened).keeps world (world.setBusy list busy) :=
    keeps_change freeze?_setBusy
  refine meets.whileBusy (fun kept => ?_) (fun _ => trivial) fun _ _ _ => trivial
  exact (freezing frozen opened).trans ((freezing frozen opened).trans busies kept) busies

theorem Freezes.whileBusy {act : Act α} (freezes : Freezes frozen opened act) :
    Freezes frozen opened (Act.whileBusy list act) :=
  fun _ => (freezes _).freezing_whileBusy

theorem Meets.freezing_holding {world : World} {act : Act α} {refs : List Ref}
    (meets : Meets (freezing frozen opened) act { world with inUse := refs ++ world.inUse } fun _ _ => True) :
    Meets (freezing frozen opened) (Act.holding refs act) world fun _ _ => True := by
  have used : (freezing frozen opened).keeps world { world with inUse := refs ++ world.inUse } := keeps_of_heap rfl
  refine meets.holding (fun kept => ?_) (fun _ => trivial) fun _ _ _ => trivial
  exact (freezing frozen opened).trans ((freezing frozen opened).trans used kept) keeps_settle

theorem Freezes.holding {act : Act α} {refs : List Ref} (freezes : Freezes frozen opened act) :
    Freezes frozen opened (Act.holding refs act) :=
  fun _ => (freezes _).freezing_holding

end Act

end Dialogue
