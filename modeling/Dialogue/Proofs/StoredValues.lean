import Dialogue.Proofs.Confinement
import Dialogue.Proofs.ReadingAgreement

/-! Variables that are given values. A value that is stored takes the place of another one: what holds objects, and what
other objects show that do not depend on the variable, stays as it was. -/

namespace Dialogue

namespace Object

def setStorage (storage : Storage) (object : Object) : Object :=
  match object.body with
  | .var _ => { object with body := .var storage }
  | _ => object

variable {object : Object} {storage : Storage}

private theorem essence_setStorage :
    (object.setStorage storage).essence = object.essence.setStorage storage.essence := by
  obtain ⟨name, body, constant, parent⟩ := object
  cases body <;> rfl

private theorem shape_setStorage : (object.setStorage storage).shape = object.shape := by
  obtain ⟨name, body, constant, parent⟩ := object
  cases body <;> rfl

private theorem outside_setStorage : (object.setStorage storage).outside = object.outside := by
  obtain ⟨name, body, constant, parent⟩ := object
  cases body <;> rfl

end Object

namespace Body

def setStorage (storage : Storage) : Body → Body
  | .var _ => .var storage
  | body => body

private theorem seen_setStorage {config : Config} {storage : Storage} {body : Body} :
    (body.setStorage storage).seen config = (body.seen config).setStorage (storage.seen config) := by
  cases body <;> rfl

end Body

namespace World

variable {world after : World} {ref other list target : Ref} {config : Config} {region : Ref → Prop} {value : Scalar}

/-- Whether running code, a handle or another object holds an object. -/
theorem isHeld_iff : world.isHeld ref = true ↔
    ref ∈ world.inUse ∨ ref ∈ world.handles.values ∨ ∃ holder, ref ∈ world.holdsOf holder := by
  rw [isHeld, Bool.or_eq_true, Bool.or_eq_true, holds_iff, List.contains_iff_mem, List.contains_iff_mem, or_assoc]

/-- Releasing what is held changes nothing. -/
private theorem releaseAll_of_held {refs : List Ref} (held : ∀ ref ∈ refs, world.isHeld ref = true) :
    world.releaseAll refs = world := by
  induction refs with
  | nil => rfl
  | cons first rest ih =>
    obtain ⟨here, later⟩ := List.forall_mem_cons.mp held
    have same : world.release first = world := by
      rw [release]
      cases world.heap.size with
      | zero => rfl
      | succ fuel =>
        rw [releaseWithin]
        split
        · rfl
        · rw [if_pos here]
    rw [releaseAll, List.foldl_cons, same]
    exact ih later

theorem Undisturbed.shape? (undisturbed : world.Undisturbed after) : after.shape? ref = world.shape? ref := by
  refine undisturbed.view (Option.map Object.shape) fun object => congrArg some ?_
  unfold Object.essence
  split
  next body => simp [Object.shape, Object.kind, Object.scope?, body]
  next => rfl

theorem object?_setStorage {storage : Storage} : (world.setStorage ref storage).object? other =
    if ref = other then (world.object? other).map (Object.setStorage storage) else world.object? other :=
  object?_change

theorem shape?_setStorage {storage : Storage} : (world.setStorage ref storage).shape? other = world.shape? other := by
  rw [World.shape?, object?_setStorage, World.shape?]
  split
  · rw [Option.map_map]
    exact congrArg (Option.map · _) (funext fun _ => Object.shape_setStorage)
  · rfl

theorem body?_setStorage {storage : Storage} : (world.setStorage ref storage).body? other =
    if ref = other then (world.body? other).map (Body.setStorage storage) else world.body? other := by
  rw [body?, object?_setStorage, body?]
  split
  · cases world.object? other with
    | none => rfl
    | some object =>
      obtain ⟨name, body, constant, parent⟩ := object
      cases body <;> rfl
  · rfl

private theorem outside?_setStorage {storage : Storage} :
    (world.setStorage ref storage).outside? other = world.outside? other := by
  rw [outside?, object?_setStorage, outside?]
  split
  · rw [Option.map_map]
    exact congrArg (Option.map · _) (funext fun _ => Object.outside_setStorage)
  · rfl

theorem Undisturbed.setStorage {storage : Storage} (undisturbed : world.Undisturbed after) :
    (world.setStorage ref storage).Undisturbed (after.setStorage ref storage) := by
  refine ⟨?_, heap_size_change.trans (undisturbed.size.trans heap_size_change.symm), fun other => ?_⟩
  · rw [undisturbed.rest]
    rfl
  · have same := undisturbed.same other
    rw [object?_setStorage, object?_setStorage]
    split
    · have later := congrArg (Option.map (Object.setStorage storage.essence)) same
      rw [Option.map_map, Option.map_map] at later ⊢
      simpa only [Function.comp_def, Object.essence_setStorage] using later
    · exact same

theorem Undisturbed.withInUse {inUse : List Ref} (undisturbed : world.Undisturbed after) :
    Undisturbed { world with inUse } { after with inUse } :=
  ⟨by rw [undisturbed.rest], undisturbed.size, undisturbed.same⟩

namespace Twins

variable (twins : Twins config region world after)

include twins

theorem setStorage {storage : Storage} :
    Twins config region (world.setStorage ref storage) (after.setStorage ref storage) := by
  refine ⟨twins.undisturbed.setStorage, fun other inside => ?_⟩
  have same := twins.bodies other inside
  rw [body?_setStorage, body?_setStorage]
  split
  · have later := congrArg (Option.map (Body.setStorage (storage.seen config))) same
    rw [Option.map_map, Option.map_map] at later ⊢
    simpa only [Function.comp_def, Body.seen_setStorage] using later
  · exact same

theorem withInUse {inUse : List Ref} : Twins config region { world with inUse } { after with inUse } :=
  ⟨twins.undisturbed.withInUse, twins.bodies⟩

end Twins

theorem isHeld_mono (inUse : world.inUse ⊆ after.inUse) (handles : after.handles = world.handles)
    (holds : ∀ holder, after.holdsOf holder = world.holdsOf holder) (held : world.isHeld ref = true) :
    after.isHeld ref = true := by
  rw [isHeld_iff] at held ⊢
  rcases held with used | named | ⟨holder, member⟩
  · exact .inl (inUse used)
  · exact .inr (.inl (handles ▸ named))
  · exact .inr (.inr ⟨holder, holds holder ▸ member⟩)

/-- A stored value holds nothing. -/
theorem holdsOf_setStorage {former : Scalar} (found : world.storage? target = some (.stored former)) :
    (world.setStorage target (.stored value)).holdsOf ref = world.holdsOf ref := by
  rw [holdsOf, object?_setStorage, holdsOf]
  split
  next here =>
    obtain ⟨object, present, body⟩ := Option.map_eq_some_iff.mp (storage?_eq_some.mp found)
    rw [← here, present]
    simp [Object.setStorage, Object.holds, body]
  next => rfl

theorem settle_of_held {kept : List Ref} (held : ∀ ref ∈ world.inUse, isHeld { world with inUse := kept } ref = true) :
    world.settle kept = { world with inUse := kept } :=
  releaseAll_of_held held

theorem Ordered.setStorage {value : Scalar} (ordered : world.Ordered) :
    (world.setStorage target (.stored value)).Ordered := by
  intro ref source shows
  rw [storage?_setStorage] at shows
  split at shows
  · cases found : world.storage? ref <;> simp [found, Storage.source?] at shows
  · exact ordered ref source shows

theorem Legible.setStorage {value : Scalar} (legible : Legible config region world) :
    Legible config region (world.setStorage target (.stored value)) where
  slots inside member := legible.slots inside (slots_setStorage ▸ member)
  shown {ref storage source} inside found shows := by
    rw [storage?_setStorage] at found
    split at found
    · obtain ⟨-, -, rfl⟩ := Option.map_eq_some_iff.mp found
      cases shows
    · exact legible.shown inside found shows
  pure {ref storage} inside found := by
    rw [storage?_setStorage] at found
    split at found
    · obtain ⟨-, -, rfl⟩ := Option.map_eq_some_iff.mp found
      trivial
    · exact legible.pure inside found

theorem mirrors_setStorage {storage : Storage} (apart : ¬ region target) :
    Mirrors config region world (world.setStorage target storage) :=
  mirrors_of_bodies rfl heap_size_change (fun _ => outside?_setStorage) (fun _ => congrArg _ slots_setStorage)
    fun ref inside => by rw [body?_setStorage, if_neg fun here : target = ref => apart (here ▸ inside)]

/-- The world once the variables of a list have been given values, one after the other. -/
def storeAll (world : World) : List Slot → List Scalar → World
  | current :: rest, value :: values => (world.setStorage current.target (.stored value)).storeAll rest values
  | _, _ => world

theorem storeAll_withInUse {inUse : List Ref} {currents : List Slot} {values : List Scalar} :
    World.storeAll { world with inUse } currents values = { world.storeAll currents values with inUse } := by
  induction currents generalizing world values with
  | nil => rfl
  | cons current rest ih =>
    cases values with
    | nil => rfl
    | cons value values =>
      have later : World.storeAll { world.setStorage current.target (.stored value) with inUse } rest values = _ := ih
      exact later

/-- What does not change when variables get other values. -/
theorem storeAll_keeps {β : Type} (view : World → β) {currents : List Slot} {values : List Scalar}
    (same : ∀ world target value, view (World.setStorage world target (.stored value)) = view world) :
    view (world.storeAll currents values) = view world := by
  induction currents generalizing world values with
  | nil => rfl
  | cons current rest ih =>
    cases values with
    | nil => rfl
    | cons value values => exact ih.trans (same world current.target value)

private theorem storage?_storeAll_of_ne {currents : List Slot} {values : List Scalar}
    (apart : ∀ slot ∈ currents, slot.target ≠ ref) :
    (world.storeAll currents values).storage? ref = world.storage? ref := by
  induction currents generalizing world values with
  | nil => rfl
  | cons current rest ih =>
    cases values with
    | nil => rfl
    | cons value values =>
      obtain ⟨here, later⟩ := List.forall_mem_cons.mp apart
      exact (ih later).trans (by rw [storage?_setStorage, if_neg here])

/-- Different variables end up with the values that were stored in them. -/
theorem storage?_storeAll {currents : List Slot} {values : List Scalar} (length : currents.length = values.length)
    (distinct : (currents.map Slot.target).Nodup)
    (stored : ∀ slot ∈ currents, ∃ former, world.storage? slot.target = some (.stored former)) :
    List.Forall₂ (fun slot value => (world.storeAll currents values).storage? slot.target = some (.stored value))
      currents values := by
  induction currents generalizing world values with
  | nil =>
    obtain rfl := List.length_eq_zero_iff.mp length.symm
    exact .nil
  | cons current rest ih =>
    cases values with
    | nil => cases length
    | cons value values =>
      obtain ⟨fresh, distinct⟩ := List.nodup_cons.mp distinct
      obtain ⟨⟨former, found⟩, later⟩ := List.forall_mem_cons.mp stored
      have apart : ∀ slot ∈ rest, slot.target ≠ current.target := fun slot inside same =>
        fresh (List.mem_map.mpr ⟨slot, inside, same⟩)
      refine .cons ?_ (ih (Nat.succ.inj length) distinct fun slot inside => ?_)
      · exact (storage?_storeAll_of_ne apart).trans (storage?_setStorage_self found)
      · rw [storage?_setStorage, if_neg (apart slot inside).symm]
        exact later slot inside

theorem slots_storeAll {currents : List Slot} {values : List Scalar} :
    (world.storeAll currents values).slots list = world.slots list :=
  storeAll_keeps (·.slots list) fun _ _ _ => slots_setStorage

end World

namespace Act

open World

variable {world last : World} {target source : Ref} {config : Config} {value : Scalar}

theorem assign_eq (stored : ∃ former, world.storage? target = some (.stored former))
    (changeable : world.isConstant target = false) :
    assign target value config world = .ok () (world.setStorage target (.stored value)) := by
  obtain ⟨former, found⟩ := stored
  obtain ⟨⟨⟩, _, ran, rfl⟩ := gives_requireChangeable changeable
  unfold assign
  rw [bind_of_ok ran, see_bind, found]
  rfl

theorem assignFrom_ok_iff (ordered : world.Ordered) (stored : ∃ former, world.storage? target = some (.stored former))
    (changeable : world.isConstant target = false) : assignFrom target source config world = .ok () last ↔
      ∃ value after, Act.value config source world = .ok value after ∧ last = after.setStorage target (.stored value) := by
  unfold assignFrom
  rw [bind_ok_iff]
  refine exists_congr fun value => exists_congr fun after => and_congr_right fun ran => ?_
  have reads : Meets quiet (Act.value config source) world fun _ _ => True := meets_value ordered
  have still := (reads.of_ok ran).1
  obtain ⟨former, found⟩ := stored
  have kept := (Undisturbed.storage?_eq_some still (by rintro _ _ ⟨⟩)).mpr found
  have free : after.isConstant target = false := by
    rwa [isConstant_eq, Undisturbed.marks? still, ← isConstant_eq]
  rw [assign_eq ⟨former, kept⟩ free]
  exact ⟨fun same => (EStateM.Result.ok.inj same).2.symm, fun same => same ▸ rfl⟩

end Act

end Dialogue
