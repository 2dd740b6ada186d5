import Dialogue.Proofs.ActGuarantees
import Mathlib.Data.Finset.Card

/-! Readings end. A reading marks a list busy before it goes deeper, so there are fewer and fewer lists that it
can go into, and from one list to the next it only goes to what is older. Apart from the values that it works
out, a reading leaves the world as it was. -/

namespace Dialogue

namespace Storage

/-- What readings leave as it is: they keep what they have worked out, and count how often they did. -/
def essence : Storage → Storage
  | .derived (.calls _) _ => .derived (.calls 0) .never
  | .derived formula _ => .derived formula .never
  | storage => storage

private theorem essence_evaluated {storage : Storage} {value : Scalar} {config : Config} :
    (storage.evaluated value config).essence = storage.essence := by
  rcases storage with value | binding | ⟨formula, memo⟩
  · rfl
  · rfl
  · cases formula <;> rfl

private theorem source?_essence {storage : Storage} : storage.essence.source? = storage.source? := by
  rcases storage with value | binding | ⟨formula, memo⟩
  · rfl
  · rfl
  · cases formula <;> rfl

/-- Nothing of it is worked out. -/
theorem eq_of_essence {storage former : Storage} (plain : ∀ formula memo, storage ≠ .derived formula memo)
    (same : former.essence = storage.essence) : former = storage := by
  rcases storage with value | binding | ⟨formula, memo⟩
  · rcases former with _ | _ | ⟨formula, _⟩
    · exact same
    · cases same
    · cases formula <;> cases same
  · rcases former with _ | _ | ⟨formula, _⟩
    · cases same
    · exact same
    · cases formula <;> cases same
  · exact absurd rfl (plain formula memo)

private theorem essence_essence {storage : Storage} : storage.essence.essence = storage.essence := by
  rcases storage with value | binding | ⟨formula, memo⟩
  · rfl
  · rfl
  · cases formula <;> rfl

end Storage

namespace Object

def essence (object : Object) : Object :=
  match object.body with
  | .var storage => { object with body := .var storage.essence }
  | _ => object

def list? (object : Object) : Option ListData := object.content.list?

def storage? (object : Object) : Option Storage := object.content.storage?

def isBusy (object : Object) : Bool := object.list?.any (·.busy)

def setBusy (busy : Bool) (object : Object) : Object :=
  match object.body with
  | .list data => { object with body := .list { data with busy } }
  | _ => object

variable {object : Object} {busy : Bool}

private theorem essence_setBusy : (object.setBusy busy).essence = object.essence.setBusy busy := by
  unfold setBusy essence
  cases body : object.body <;> simp [body]

private theorem kind_setBusy : (object.setBusy busy).kind = object.kind := by
  obtain ⟨name, body, constant, parent⟩ := object
  cases body <;> rfl

private theorem holds_setBusy : (object.setBusy busy).holds = object.holds := by
  obtain ⟨name, body, constant, parent⟩ := object
  cases body <;> rfl

/-- A list that was not busy is the same once it is not busy any more. -/
private theorem setBusy_setBusy (free : ∀ data ∈ object.list?, data.busy = false) :
    (object.setBusy true).setBusy false = object := by
  obtain ⟨name, body, constant, parent⟩ := object
  cases body with
  | list data =>
    obtain ⟨slots, busy⟩ := data
    obtain rfl : busy = false := free _ rfl
    rfl
  | _ => rfl

theorem list?_essence : object.essence.list? = object.list? := by
  unfold list? content essence
  cases body : object.body <;> simp [body, Body.list?]

theorem storage?_essence : object.essence.storage?.map Storage.essence = object.storage?.map Storage.essence := by
  unfold storage? content essence
  cases body : object.body <;> simp [body, Body.storage?, Storage.essence_essence]

end Object

namespace World

variable {world after last : World} {ref list other : Ref}

theorem list?_eq_bind : world.list? ref = (world.object? ref).bind Object.list? := by
  rw [list?_eq, content?, Option.bind_map]
  rfl

theorem storage?_eq_bind : world.storage? ref = (world.object? ref).bind Object.storage? := by
  rw [storage?_eq, content?, Option.bind_map]
  rfl

theorem list?_of_isList (isList : world.kindOf list = .list) : ∃ data, world.list? list = some data := by
  rw [kindOf] at isList
  rw [list?_eq_bind]
  cases present : world.object? list with
  | none => simp [present] at isList
  | some object =>
    obtain ⟨name, body, constant, parent⟩ := object
    cases body with
    | list data => exact ⟨data, rfl⟩
    | scope data =>
      rw [present] at isList
      obtain ⟨role, members, imports, claimed⟩ := data
      cases role <;> cases isList
    | _ => simp [present, Object.kind] at isList

theorem object?_setBusy {busy : Bool} : (world.setBusy list busy).object? ref =
    if list = ref then (world.object? ref).map (Object.setBusy busy) else world.object? ref :=
  object?_change

private theorem list?_setBusy {busy : Bool} : (world.setBusy list busy).list? other =
    if list = other then (world.list? other).map ({ · with busy }) else world.list? other := by
  rw [list?_eq, list?_eq, setBusy, content?_changeList]
  split
  next => rcases world.content? other with _ | _ | _ | _ | _ <;> rfl
  next => rfl

theorem isBusy_eq_bind : world.isBusy ref = (world.object? ref).any Object.isBusy := by
  rw [isBusy, list?_eq_bind]
  cases world.object? ref <;> rfl

theorem isBusy_add {object : Object} (idle : object.isBusy = false) :
    (world.add object).isBusy ref = world.isBusy ref := by
  rw [isBusy_eq_bind, isBusy_eq_bind, object?_add]
  split
  next here =>
    rw [here, object?, Heap.get?_of_size_le (Nat.le_refl _), Option.any_some, idle]
    rfl
  next => rfl

theorem isBusy_changeSlots {rule : List Slot → List Slot} :
    (world.changeSlots list rule).isBusy ref = world.isBusy ref := by
  rw [isBusy, isBusy, list?_eq, list?_eq, changeSlots, content?_changeList]
  split
  next => rcases world.content? ref with _ | _ | _ | _ | _ <;> rfl
  next => rfl

theorem isBusy_setBusy {busy : Bool} : (world.setBusy list busy).isBusy other =
    if list = other then (world.list? other).any fun _ => busy else world.isBusy other := by
  rw [isBusy, list?_setBusy]
  split
  next => cases world.list? other <;> rfl
  next => rfl

theorem slots_setBusy {busy : Bool} : (world.setBusy list busy).slots other = world.slots other :=
  slots_changeList fun _ => rfl

theorem kindOf_setBusy {busy : Bool} : (world.setBusy list busy).kindOf ref = world.kindOf ref := by
  rw [kindOf, object?_setBusy, kindOf]
  split
  · cases world.object? ref with
    | none => rfl
    | some object => exact Object.kind_setBusy
  · rfl

theorem holdsOf_setBusy {busy : Bool} : (world.setBusy list busy).holdsOf ref = world.holdsOf ref := by
  rw [holdsOf, object?_setBusy, holdsOf]
  split
  · cases world.object? ref with
    | none => rfl
    | some object => exact Object.holds_setBusy
  · rfl

/-- Nothing has changed but what readings work out. -/
structure Undisturbed (world after : World) : Prop where
  rest : after = { world with heap := after.heap }
  size : after.heap.size = world.heap.size
  same : ∀ ref, (after.object? ref).map Object.essence = (world.object? ref).map Object.essence

namespace Undisturbed

theorem refl : world.Undisturbed world := ⟨rfl, rfl, fun _ => rfl⟩

theorem trans (first : world.Undisturbed after) (second : after.Undisturbed last) : world.Undisturbed last :=
  ⟨second.rest.trans (by rw [first.rest]), second.size.trans first.size,
    fun ref => (second.same ref).trans (first.same ref)⟩

/-- What does not show the values that were worked out looks the same. -/
theorem view {α : Type} (undisturbed : world.Undisturbed after) (view : Option Object → α)
    (blind : ∀ object : Object, view (some object.essence) = view (some object)) :
    view (after.object? ref) = view (world.object? ref) := by
  have same := undisturbed.same ref
  cases later : after.object? ref with
  | none =>
    rw [later] at same
    rw [Option.map_eq_none_iff.mp same.symm]
  | some object =>
    rw [later] at same
    obtain ⟨former, found, alike⟩ := Option.map_eq_some_iff.mp same.symm
    rw [found, ← blind object, ← blind former, alike]

theorem list? (undisturbed : world.Undisturbed after) : after.list? ref = world.list? ref := by
  rw [list?_eq_bind, list?_eq_bind]
  exact undisturbed.view (·.bind Object.list?) fun _ => Object.list?_essence

theorem slots (undisturbed : world.Undisturbed after) : after.slots ref = world.slots ref := by
  rw [World.slots, World.slots, undisturbed.list?]

theorem isBusy (undisturbed : world.Undisturbed after) : after.isBusy ref = world.isBusy ref := by
  rw [World.isBusy, World.isBusy, undisturbed.list?]

theorem storage? (undisturbed : world.Undisturbed after) :
    (after.storage? ref).map Storage.essence = (world.storage? ref).map Storage.essence := by
  rw [storage?_eq_bind, storage?_eq_bind, Option.map_bind, Option.map_bind]
  exact undisturbed.view (·.bind (Option.map Storage.essence ∘ Object.storage?)) fun _ => Object.storage?_essence

/-- What a variable shows another one or a list by is not worked out. -/
theorem source? (undisturbed : world.Undisturbed after) :
    (after.storage? ref).bind Storage.source? = (world.storage? ref).bind Storage.source? := by
  have storages : (after.storage? ref).map Storage.essence = (world.storage? ref).map Storage.essence :=
    undisturbed.storage?
  have same := congrArg (Option.bind · Storage.source?) storages
  simpa only [Option.bind_map, Function.comp_def, Storage.source?_essence] using same

/-- A list that was not busy is as it was once it is not busy any more. -/
theorem whileBusy (free : world.isBusy list = false) (undisturbed : (world.setBusy list true).Undisturbed after) :
    world.Undisturbed (after.setBusy list false) := by
  refine ⟨?_, heap_size_change.trans (undisturbed.size.trans heap_size_change), fun ref => ?_⟩
  · rw [undisturbed.rest]
    rfl
  · have same := undisturbed.same ref
    rw [object?_setBusy] at same ⊢
    split at same
    next here =>
      subst here
      have later := congrArg (Option.map (Object.setBusy false)) same
      simp only [Option.map_map, Function.comp_def, ← Object.essence_setBusy] at later
      rw [if_pos rfl, Option.map_map, Function.comp_def, later]
      cases found : world.object? list with
      | none => rfl
      | some object =>
        have notBusy : ∀ data ∈ object.list?, data.busy = false := by
          intro data listed
          rwa [World.isBusy, list?_eq_bind, found, Option.bind_some, listed] at free
        rw [Option.map_some, Option.map_some, Object.setBusy_setBusy notBusy]
    next other => rwa [if_neg other]

theorem evaluate {value : Scalar} {config : Config} : world.Undisturbed (world.evaluate ref value config) := by
  unfold World.evaluate
  split
  next storage found =>
    refine ⟨rfl, heap_size_change, fun other => ?_⟩
    rw [setStorage, object?_change]
    split
    next here =>
      subst here
      obtain ⟨object, present, body⟩ := Option.map_eq_some_iff.mp (storage?_eq_some.mp found)
      simp [present, body, Object.essence, Storage.essence_evaluated]
    next => rfl
  next => exact .refl

end Undisturbed

/-- Whether variables show only what is older. -/
def Ordered (world : World) : Prop := ∀ ref, ∀ source ∈ (world.storage? ref).bind Storage.source?, source < ref

theorem Sound.ordered (sound : world.Sound) : world.Ordered := by
  intro ref source shows
  obtain ⟨storage, found, same⟩ := Option.bind_eq_some_iff.mp shows
  exact (sound.grounded (content?_eq_some_var.mpr found)).older storage rfl source same

theorem Undisturbed.ordered (undisturbed : world.Undisturbed after) (ordered : world.Ordered) : after.Ordered := by
  intro ref source shows
  exact ordered ref source (undisturbed.source? ▸ shows)

theorem storage?_changeList {rule : ListData → ListData} :
    (world.changeList list rule).storage? ref = world.storage? ref := by
  rw [storage?_eq, storage?_eq, content?_changeList]
  split
  next => rcases world.content? ref with _ | _ | _ | _ | _ <;> rfl
  next => rfl

theorem Ordered.setBusy {busy : Bool} (ordered : world.Ordered) : (world.setBusy list busy).Ordered := by
  intro ref source shows
  rw [World.setBusy, storage?_changeList] at shows
  exact ordered ref source shows

/-- The lists that a reading can still go into, among other objects. -/
def idle (world : World) : Finset Ref := (Finset.range world.heap.size).filter (world.isBusy · = false)

theorem card_idle_le : world.idle.card ≤ world.heap.size :=
  (Finset.card_filter_le ..).trans (Finset.card_range _).le

theorem Undisturbed.idle (undisturbed : world.Undisturbed after) : after.idle = world.idle := by
  unfold World.idle
  rw [undisturbed.size]
  simp only [undisturbed.isBusy]

/-- A list that gets busy is one less to go into. -/
private theorem card_idle_setBusy (isList : world.kindOf list = .list) (free : world.isBusy list = false) :
    (world.setBusy list true).idle.card < world.idle.card := by
  obtain ⟨data, listed⟩ := list?_of_isList isList
  have smaller : (world.setBusy list true).idle ⊆ world.idle := by
    intro ref inside
    obtain ⟨old, notBusy⟩ := Finset.mem_filter.mp inside
    refine Finset.mem_filter.mpr ⟨by rwa [setBusy, changeList, heap_size_change] at old, ?_⟩
    rw [isBusy_setBusy] at notBusy
    split at notBusy
    next here => exact here ▸ free
    next => exact notBusy
  refine Finset.card_lt_card ((Finset.ssubset_iff_of_subset smaller).mpr ⟨list, ?_, fun inside => ?_⟩)
  · exact Finset.mem_filter.mpr ⟨Finset.mem_range.mpr (lt_size_of_isLive (isLive_of_isList isList)), free⟩
  · have notBusy := (Finset.mem_filter.mp inside).2
    rw [isBusy_setBusy, if_pos rfl, listed] at notBusy
    cases notBusy

/-- Where an element of a list is read or copied, while the list is busy. -/
theorem Undisturbed.entered {inner : World} {slot : Slot} (undisturbed : (world.setBusy list true).Undisturbed inner)
    (ordered : world.Ordered) (free : world.isBusy list = false) (inside : slot ∈ (world.setBusy list true).slots list) :
    inner.Ordered ∧ inner.heap.size = world.heap.size ∧ inner.idle.card < world.idle.card := by
  rw [slots_setBusy] at inside
  refine ⟨undisturbed.ordered ordered.setBusy, undisturbed.size.trans heap_size_change, ?_⟩
  rw [undisturbed.idle]
  exact card_idle_setBusy (kindOf_eq_list_of_mem_slots inside) free

end World

namespace Act

open World

variable {α : Type} {world : World} {ref list : Ref} {config : Config} {read : Ref → Act Scalar}

/-- Leaves everything as it is but what readings work out, and stops for nothing but anomalies and overflows. -/
def quiet : Guarantee where
  keeps := Undisturbed
  allows _ stop := (∃ anomaly, stop = .anomaly anomaly) ∨ stop = .fault .overflow
  refl _ := .refl
  trans := .trans
  earlier _ allowed := allowed
  anomalies := .inl exists_anomaly

theorem Meets.quiet_compute {value : Except (Failure Cause) α} :
    Meets quiet (Act.compute value) world fun _ _ => True :=
  .compute (fun _ => .inr rfl) fun _ _ => trivial

theorem Meets.quiet_whileBusy {act : Act α} {result : α → Prop} (free : world.isBusy list = false)
    (meets : Meets quiet act (world.setBusy list true) fun value _ => result value) :
    Meets quiet (Act.whileBusy list act) world fun value _ => result value :=
  meets.whileBusy (fun kept => kept.whileBusy free) (fun allowed => allowed) fun _ _ done => done

/-- A list can be flattened where its elements can be read while it is busy. -/
private theorem meets_flattenWith (ordered : world.Ordered)
    (reads : ∀ ref inner, inner.Ordered → inner.heap.size = world.heap.size → inner.idle.card < world.idle.card →
      Meets quiet (read ref) inner fun _ _ => True) :
    Meets quiet (flattenWith read config list) world fun _ _ => True := by
  refine .look ?_
  split
  next => exact .pure trivial
  next free =>
    have free := Bool.not_eq_true _ ▸ free
    refine .quiet_whileBusy free (.look (.foldlM trivial fun slot inside text inner went _ => ?_))
    apply Meets.element.bind
    rintro found _ - ⟨rfl, rfl⟩
    obtain ⟨still, size, fewer⟩ := Undisturbed.entered went ordered free inside
    apply (reads _ _ still size fewer).bind
    intro value after _ _
    exact Meets.quiet_compute.bind fun _ _ _ _ => .pure trivial

theorem meets_readBinding {guarantee : Guarantee} {binding : Binding}
    (reads : ∀ target, (Storage.bound binding).source? = some target →
      Meets guarantee (read target) world fun _ _ => True) :
    Meets guarantee (readBinding read config binding) world fun _ _ => True := by
  cases binding with
  | cell => exact .pure trivial
  | length => exact Meets.demand.bind fun _ _ _ _ => .look (.pure trivial)
  | precision target name =>
    apply Meets.demand.bind
    rintro found after - ⟨rfl, rfl, -⟩
    exact (reads found rfl).bind fun _ _ _ _ => .pure trivial
  | ownerName => exact Meets.demand.bind fun _ _ _ _ => .look (.pure trivial)
  | beenSaid => exact Meets.demand.bind fun _ _ _ _ => .look (.pure trivial)
  | setting which => cases which <;> exact .look (.pure trivial)

theorem meets_readFormula {guarantee : Guarantee} {formula : Formula}
    (flattens : ∀ list, Meets guarantee (flattenWith read config list) world fun _ _ => True) :
    Meets guarantee (readFormula read config formula) world fun _ _ => True := by
  cases formula with
  | fullName => exact Meets.demand.bind fun _ _ _ _ => .look (.pure trivial)
  | text list => exact (flattens list).bind fun _ _ _ _ => .pure trivial
  | calls => exact .pure trivial
  | pi => exact .pure trivial

/-- The fuel lasts while there are lists to go into or older variables to read. -/
private theorem meets_valueWithin (fuel : Nat) (ordered : world.Ordered)
    (enough : world.idle.card * (world.heap.size + 1) + min ref world.heap.size < fuel) :
    Meets quiet (valueWithin fuel config ref) world fun _ _ => True := by
  induction fuel generalizing world ref with
  | zero => exact absurd enough (Nat.not_lt_zero _)
  | succ fuel ih =>
    have flattens (list : Ref) : Meets quiet (flattenWith (valueWithin fuel config) config list) world fun _ _ => True := by
      refine meets_flattenWith ordered fun found inner ordered size fewer => ih ordered ?_
      have smaller := Nat.mul_le_mul_right (world.heap.size + 1) fewer
      have := Nat.min_le_right found inner.heap.size
      rw [size] at this ⊢
      rw [Nat.succ_mul] at smaller
      omega
    refine .look ?_
    split
    next => exact .pure trivial
    next binding found =>
      refine meets_readBinding fun target source => ih ordered ?_
      have older := ordered ref target (by rw [storage?_eq_some.mpr found]; exact source)
      have old := lt_size_of_isLive (isLive_of_content? (content?_eq_some_var.mpr (storage?_eq_some.mpr found)))
      have smaller : (min target world.heap.size : Nat) < (min ref world.heap.size : Nat) :=
        (Nat.min_le_left ..).trans_lt (lt_min older (older.trans old))
      omega
    next =>
      split
      next => exact .pure trivial
      next =>
        apply (meets_readFormula flattens).bind
        intro value after _ _
        exact .update_bind Undisturbed.evaluate (.pure trivial)
    next => exact (flattens ref).bind fun _ _ _ _ => .pure trivial
    next => exact .look (.pure trivial)

/-- Every reading ends. -/
theorem meets_value (ordered : world.Ordered) : Meets quiet (value config ref) world fun _ _ => True := by
  refine .look (meets_valueWithin _ ordered ?_)
  have fewer := Nat.mul_le_mul_right (world.heap.size + 1) world.card_idle_le
  have small := Nat.min_le_right ref world.heap.size
  unfold readingFuel
  rw [Nat.succ_mul]
  omega

theorem meets_flatten (ordered : world.Ordered) : Meets quiet (flatten config list) world fun _ _ => True :=
  meets_flattenWith ordered fun _ _ ordered _ _ => meets_value ordered

theorem meets_textOf (ordered : world.Ordered) : Meets quiet (textOf config ref) world fun _ _ => True :=
  (meets_value ordered).bind fun _ _ _ _ => .quiet_compute

end Act

end Dialogue
