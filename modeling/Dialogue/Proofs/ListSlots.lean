import Dialogue.Proofs.ObjectContents

/-! The slots of lists in worlds that change. Whatever is done to names, owners, members, imports and
values, no list gets other elements; an object that has gone has none. -/

namespace Dialogue

def Object.slots (object : Object) : List Slot :=
  match object.body with
  | .list data => data.slots
  | _ => []

namespace Heap

private theorem modify_eq_self {heap : Heap} {ref : Ref} {change : Object → Object}
    (same : ∀ object, heap.get? ref = some object → change object = object) : heap.modify ref change = heap := by
  obtain ⟨cells⟩ := heap
  refine congrArg Heap.mk (Array.ext (by simp) fun index _ inside => ?_)
  rw [Array.getElem_modify]
  split
  next here =>
    subst here
    cases cell : cells[ref] with
    | none => rfl
    | some object => simp [same object (by simp [get?, Array.getElem?_eq_getElem inside, cell])]
  next => rfl

end Heap

namespace World

variable {world : World} {ref list : Ref}

theorem slots_eq : world.slots list = (world.object? list).elim [] Object.slots := by
  unfold slots list? body?
  cases world.object? list with
  | none => rfl
  | some object => cases body : object.body <;> simp [Object.slots, body]

theorem slots_eq_nil_of_not_isLive (dead : world.isLive list = false) : world.slots list = [] := by
  rw [isLive, Option.isSome_eq_false_iff, Option.isNone_iff_eq_none] at dead
  rw [slots_eq, dead]
  rfl

theorem isLive_of_mem_slots {slot : Slot} (inside : slot ∈ world.slots list) : world.isLive list = true := by
  by_contra dead
  rw [slots_eq_nil_of_not_isLive (Bool.not_eq_true _ ▸ dead)] at inside
  cases inside

theorem slots_eq_nil_of_size_le (beyond : world.heap.size ≤ list) : world.slots list = [] := by
  rw [slots_eq, object?, Heap.get?_of_size_le beyond]
  rfl

theorem slots_of_content? {after : World} (same : after.content? list = world.content? list) :
    after.slots list = world.slots list := by
  rw [slots, slots, list?_eq, list?_eq, same]

theorem slots_change {rule : Object → Object} (same : ∀ object, (rule object).content = object.content) :
    (world.change ref rule).slots list = world.slots list :=
  slots_of_content? (content?_change same)

theorem slots_setStorage {storage : Storage} : (world.setStorage ref storage).slots list = world.slots list := by
  rw [slots_eq, slots_eq, setStorage, object?_change]
  split
  next =>
    cases world.object? list with
    | none => rfl
    | some object => cases body : object.body <;> simp [Object.slots, body]
  next => rfl

theorem slots_changeList {rule : ListData → ListData} (same : ∀ data, (rule data).slots = data.slots) :
    (world.changeList ref rule).slots list = world.slots list := by
  rw [slots_eq, slots_eq, changeList, object?_change]
  split
  next =>
    cases world.object? list with
    | none => rfl
    | some object => cases body : object.body <;> simp [Object.slots, body, same]
  next => rfl

theorem slots_add {object : Object} :
    (world.add object).slots list = if list = world.heap.size then object.slots else world.slots list := by
  rw [slots_eq, slots_eq, object?_add]
  split <;> rfl

theorem slots_bury : (world.bury ref).slots list = if list = ref then [] else world.slots list := by
  rw [slots, slots, list?_eq, list?_eq, content?_bury]
  split <;> rfl

/-- An object of another kind is left as it is. -/
theorem slots_changeSlots {rule : List Slot → List Slot} {other : Ref} :
    (world.changeSlots ref rule).slots other =
      if ref = other ∧ world.kindOf ref = .list then rule (world.slots ref) else world.slots other := by
  by_cases here : ref = other
  · subst here
    rw [slots_eq, slots_eq, kindOf, changeSlots, changeList, object?_change, if_pos rfl]
    cases world.object? ref with
    | none => simp
    | some object =>
      obtain ⟨name, body, constant, parent⟩ := object
      cases body with
      | scope data =>
        obtain ⟨role, members, imports, claimed⟩ := data
        cases role <;> simp [Object.slots, Object.kind]
      | _ => simp [Object.slots, Object.kind]
  · rw [if_neg fun both => here both.1, slots_eq, slots_eq, changeSlots, changeList, object?_change, if_neg here]

theorem change_eq_self {rule : Object → Object}
    (same : ∀ object, world.object? ref = some object → rule object = object) : world.change ref rule = world :=
  congrArg ({ world with heap := · }) (Heap.modify_eq_self same)

theorem changeSlots_eq_self {rule : List Slot → List Slot} (same : rule (world.slots list) = world.slots list) :
    world.changeSlots list rule = world := by
  apply change_eq_self
  rintro ⟨name, body, constant, parent⟩ present
  cases body with
  | list data =>
    rw [slots_eq, present] at same
    change rule data.slots = data.slots at same
    simp only [same]
  | _ => rfl

theorem changeSlots_append_nil : world.changeSlots list (· ++ []) = world := changeSlots_eq_self (List.append_nil _)

theorem kindOf_changeSlots {rule : List Slot → List Slot} {other : Ref} :
    (world.changeSlots ref rule).kindOf other = world.kindOf other := by
  rw [kindOf, kindOf, changeSlots, changeList, object?_change]
  split
  next =>
    cases world.object? other with
    | none => rfl
    | some object => cases body : object.body <;> simp [Object.kind, body]
  next => rfl

theorem isLive_of_isList (isList : world.kindOf list = .list) : world.isLive list = true := by
  rw [kindOf] at isList
  rw [isLive]
  cases found : world.object? list with
  | none => simp [found] at isList
  | some object => rfl

theorem kindOf_eq_list_of_mem_slots {slot : Slot} (inside : slot ∈ world.slots list) : world.kindOf list = .list := by
  rw [slots_eq] at inside
  rw [kindOf]
  cases found : world.object? list with
  | none => simp [found] at inside
  | some object =>
    rw [found, Option.elim_some, Object.slots] at inside
    cases body : object.body with
    | list data => simp [Object.kind, body]
    | _ => simp [body] at inside

theorem slots_of_list? {data : ListData} (found : world.list? ref = some data) : world.slots ref = data.slots := by
  rw [slots, found]
  rfl

theorem mem_holdsOf_of_slot {slot : Slot} {other : Ref} (inside : slot ∈ world.slots ref)
    (holds : other ∈ slot.held?) : other ∈ world.holdsOf ref := by
  unfold slots list? body? at inside
  rw [holdsOf]
  cases found : world.object? ref with
  | none => simp [found] at inside
  | some object =>
    cases body : object.body with
    | list data =>
      simp only [found, body, Option.map_some, Option.elim_some] at inside
      simp only [Option.elim_some, Object.holds, body]
      exact List.mem_filterMap.mpr ⟨slot, inside, holds⟩
    | _ => simp [found, body] at inside

end World

end Dialogue
