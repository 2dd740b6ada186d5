import Dialogue.Lists.Copying
import Dialogue.Proofs.ReadingAgreement
import Mathlib.Logic.Relation

/-! Plans of copies. Where no list contains itself and nothing changes by being read, the plan of a copy says what the
object is: a value for each variable, the plans of its elements for each list, and for anything else the slot that
shares it. -/

namespace Dialogue

namespace World

variable {world beside after : World} {ref other list : Ref} {config : Config} {region : Ref → Prop} {slot : Slot}

/-- Whether an object is read or copied together with another one: as its element, or because it is shown by it. -/
def Consults (world : World) (ref other : Ref) : Prop :=
  (∃ slot ∈ world.slots ref, slot.target = other) ∨ (world.storage? ref).bind Storage.shown? = some other

/-- Whether an object is reached from another one by elements, aliases and views. -/
def DependsOn (world : World) : Ref → Ref → Prop := Relation.ReflTransGen world.Consults

/-- Where copies can be exact: no list is reached from itself, readings leave everything as it is, and no list is being
read or copied already. -/
structure Copyable (config : Config) (world : World) (ref : Ref) : Prop where
  acyclic : ∀ list, world.DependsOn ref list → world.kindOf list = .list →
    ¬ Relation.TransGen world.Consults list list
  pure : ∀ other storage, world.DependsOn ref other → world.storage? other = some storage → storage.Pure config
  idle : ∀ list, world.DependsOn ref list → world.isBusy list = false

/-- Whether copies share an object instead of copying it. -/
def Shared (world : World) (ref : Ref) : Prop := world.kindOf ref ≠ .var ∧ world.kindOf ref ≠ .list

/-- The slot that shares an object: an alias if a scope owns the object. -/
def sharing (world : World) (ref : Ref) : Slot :=
  if world.isRegistered ref then .link ref (world.fullName ref) else .held ref

theorem consults_of_mem (member : slot ∈ world.slots ref) : world.Consults ref slot.target := .inl ⟨slot, member, rfl⟩

namespace Copyable

variable (copyable : world.Copyable config ref)

include copyable

theorem legible : Legible config (world.DependsOn ref) world where
  slots inside member := inside.tail (consults_of_mem member)
  shown inside found shows := inside.tail (.inr (by rw [found, Option.bind_some, shows]))
  pure inside found := copyable.pure _ _ inside found

theorem later (reached : world.DependsOn ref other) : world.Copyable config other :=
  ⟨fun list inside => copyable.acyclic list (reached.trans inside),
    fun found storage inside => copyable.pure found storage (reached.trans inside),
    fun list inside => copyable.idle list (reached.trans inside)⟩

theorem element (member : slot ∈ world.slots ref) : world.Copyable config slot.target :=
  copyable.later (.single (consults_of_mem member))

/-- No list is reached from its elements. -/
theorem apart (member : slot ∈ world.slots ref) : ¬ world.DependsOn slot.target ref := fun back =>
  copyable.acyclic ref .refl (kindOf_eq_list_of_mem_slots member) (.head' (consults_of_mem member) back)

end Copyable

/-- Another world in which whatever an object depends on looks the same. -/
structure Nearby (config : Config) (world : World) (ref : Ref) (beside : World) : Prop where
  forth : Mirrors config (world.DependsOn ref) world beside
  back : Mirrors config (world.DependsOn ref) beside world
  ordered : beside.Ordered

namespace Nearby

variable (near : Nearby config world ref beside)

include near

/-- Readings lead to worlds that are still nearby. -/
theorem later (twins : Twins config region beside after) (within : ∀ other, world.DependsOn ref other → region other) :
    Nearby config world ref after where
  forth := near.forth.trans (twins.forth.mono within)
  back := (twins.back.mono within).trans near.back
  ordered := twins.undisturbed.ordered near.ordered

/-- The elements of a list, while it is busy. -/
theorem enter (copyable : world.Copyable config ref) (member : slot ∈ world.slots ref) :
    Nearby config world slot.target (beside.setBusy ref true) := by
  have within (other : Ref) (reached : world.DependsOn slot.target other) : world.DependsOn ref other :=
    .head (consults_of_mem member) reached
  obtain ⟨enters, leaves⟩ : Mirrors config (world.DependsOn slot.target) beside (beside.setBusy ref true) ∧ _ :=
    mirrors_setBusy (copyable.apart member)
  exact ⟨(near.forth.mono within).trans enters, leaves.trans (near.back.mono within), near.ordered.setBusy⟩

end Nearby

end World

namespace Copy

mutual
/-- Whether the plan of a copy says what there is in a slot. -/
def Describes (config : Config) (world : World) : Copy → Slot → Prop
  | .value scalar, slot => world.kindOf slot.target = .var ∧ world.HasValue config slot.target scalar
  | .list items, slot =>
    world.kindOf slot.target = .list ∧ DescribesAll config world items (world.slots slot.target)
  | .keep kept, slot =>
    world.Shared slot.target ∧ kept = if world.isLive slot.target then world.sharing slot.target else slot

def DescribesAll (config : Config) (world : World) : List Copy → List Slot → Prop
  | [], slots => slots = []
  | copy :: copies, slots =>
    ∃ slot rest, slots = slot :: rest ∧ copy.Describes config world slot ∧ DescribesAll config world copies rest
end

variable {config : Config} {world : World} {copy : Copy} {slot : Slot} {ref : Ref}

/-- A plan speaks of an object, however a slot refers to it. -/
theorem Describes.of_target (describes : copy.Describes config world (.held slot.target))
    (live : world.isLive slot.target = true) : copy.Describes config world slot := by
  cases copy with
  | value => exact describes
  | list => exact describes
  | keep kept =>
    obtain ⟨shared, rfl⟩ := describes
    refine ⟨shared, ?_⟩
    rw [if_pos live, if_pos (show world.isLive (Slot.held slot.target).target = true from live)]
    rfl

end Copy

namespace World

variable {world beside : World} {ref : Ref} {config : Config} {region : Ref → Prop}

theorem kindOf_eq_body? :
    world.kindOf ref = (world.body? ref).elim .plain fun body => Object.kind { name := "", body } := by
  rw [kindOf, body?]
  cases world.object? ref <;> rfl

theorem Mirrors.kindOf (mirrors : Mirrors config region world beside) (inside : region ref) :
    beside.kindOf ref = world.kindOf ref := by
  have seen (world : World) : world.kindOf ref = ((world.body? ref).map (Body.seen config)).elim .plain fun body =>
      Object.kind { name := "", body } := by
    rw [kindOf_eq_body?]
    cases world.body? ref with
    | none => rfl
    | some body => cases body <;> rfl
  rw [seen, mirrors.bodies ref inside, ← seen]

theorem kindOf_of_gone (gone : world.isLive ref = false) : world.kindOf ref = .plain := by
  have absent : world.object? ref = none := by simpa [isLive] using gone
  rw [kindOf, absent]
  rfl

theorem isLive_of_kindOf (other : world.kindOf ref ≠ .plain) : world.isLive ref = true := by
  by_contra gone
  exact other (kindOf_of_gone (Bool.not_eq_true _ ▸ gone))

theorem isLive_of_storage? {storage : Storage} (found : world.storage? ref = some storage) : world.isLive ref = true :=
  isLive_of_kindOf (by rw [kindOf_of_storage? found]; decide)

theorem sharing_of_gone (gone : world.isLive ref = false) : world.sharing ref = .held ref := by
  have absent : world.object? ref = none := by simpa [isLive] using gone
  rw [sharing, isRegistered, parent?, absent]
  rfl

namespace Nearby

variable (near : Nearby config world ref beside)

include near

/-- What lives is the same in worlds that look alike. -/
theorem isLive (other : Ref) : beside.isLive other = world.isLive other := by
  by_cases live : world.isLive other = true
  · rw [live, near.forth.stays live]
  · have gone : ¬ beside.isLive other = true := fun there => live (near.back.stays there)
    rw [Bool.not_eq_true] at live gone
    rw [live, gone]

theorem sharing : beside.sharing ref = world.sharing ref := by
  by_cases live : world.isLive ref = true
  · obtain ⟨outside, name⟩ := near.forth.outside ref live
    have parent : beside.parent? ref = world.parent? ref := by
      rw [parent?_eq_outside?, outside, funext near.isLive, parent?_eq_outside?]
    rw [World.sharing, isRegistered, parent, name]
    rfl
  · have gone := Bool.not_eq_true _ ▸ live
    rw [sharing_of_gone gone, sharing_of_gone ((near.isLive ref).trans gone)]

end Nearby

end World

namespace Act

open World

variable {world beside : World} {ref list : Ref} {config : Config} {region : Ref → Prop} {slot : Slot} {slots : List Slot}
  {plan : Ref → Act Copy}

theorem reference_eq : reference ref world = .ok (world.sharing ref) world := by
  unfold reference
  rw [see_bind, World.sharing]
  split <;> rfl

/-- What a plan comes to where an object looks as it does in a world: a description, and nothing changes. -/
def PlansAlike (config : Config) (region : Ref → Prop) (world : World) (plan : Ref → Act Copy) (ref : Ref) : Prop :=
  ∀ beside, Nearby config world ref beside → Legible config region beside →
    Meets anything (plan ref) beside fun copy after =>
      copy.Describes config world (.held ref) ∧ Twins config region beside after

theorem PlansAlike.planSlot (plans : PlansAlike config region world plan slot.target)
    (near : Nearby config world slot.target beside) (legible : Legible config region beside) :
    Meets anything (planSlot plan slot) beside fun copy after =>
      copy.Describes config world slot ∧ Twins config region beside after := by
  rcases slot with element | ⟨target, name⟩
  · exact plans beside near legible
  · refine .look ?_
    split
    next live =>
      refine (plans beside near legible).weaken fun copy after _ ⟨describes, twins⟩ => ⟨?_, twins⟩
      exact describes.of_target ((near.isLive target).symm.trans live)
    next gone =>
      have gone : world.isLive target = false := (near.isLive target).symm.trans (Bool.not_eq_true _ ▸ gone)
      have plain : world.kindOf target = .plain := kindOf_of_gone gone
      refine .pure ⟨⟨⟨?_, ?_⟩, ?_⟩, .refl⟩
      · rw [Slot.target, plain]; exact nofun
      · rw [Slot.target, plain]; exact nofun
      · rw [Slot.target, if_neg (by rw [gone]; exact Bool.false_ne_true)]

private theorem describes_mapM (near : ∀ slot ∈ slots, Nearby config world slot.target beside)
    (legible : Legible config region beside)
    (within : ∀ slot ∈ slots, ∀ other, world.DependsOn slot.target other → region other)
    (plans : ∀ slot ∈ slots, PlansAlike config region world plan slot.target) :
    Meets anything (slots.mapM (planSlot plan)) beside fun copies after =>
      Copy.DescribesAll config world copies slots ∧ Twins config region beside after := by
  induction slots generalizing beside with
  | nil =>
    rw [List.mapM_nil]
    exact .pure ⟨rfl, .refl⟩
  | cons slot rest ih =>
    obtain ⟨here, others⟩ := List.forall_mem_cons.mp near
    obtain ⟨first, later⟩ := List.forall_mem_cons.mp plans
    obtain ⟨inside, among⟩ := List.forall_mem_cons.mp within
    rw [List.mapM_cons]
    apply (first.planSlot here legible).bind
    rintro copy middle - ⟨describes, began⟩
    have still : ∀ slot ∈ rest, Nearby config world slot.target middle := fun slot member =>
      (others slot member).later began (among slot member)
    refine (ih still (began.forth.legible legible) among later).bind fun copies last _ ⟨all, went⟩ => ?_
    exact .pure ⟨⟨slot, rest, rfl, describes, all⟩, began.trans went⟩

/-- A list is gone into while it is busy, which none of its elements can see. -/
theorem describes_planSlots (copyable : world.Copyable config list) (near : Nearby config world list beside)
    (legible : Legible config region beside) (within : ∀ other, world.DependsOn list other → region other)
    (plans : ∀ slot ∈ world.slots list, PlansAlike config region world plan slot.target) :
    Meets anything (planSlots plan list) beside fun copies after =>
      Copy.DescribesAll config world copies (world.slots list) ∧ Twins config region beside after := by
  have slots : beside.slots list = world.slots list := near.forth.slots .refl
  have free : beside.isBusy list = false := (near.forth.isBusy .refl).trans (copyable.idle list .refl)
  refine .look (.look ?_)
  rw [slots, if_neg (by rw [free]; exact Bool.false_ne_true)]
  have inside (slot : Slot) (member : slot ∈ world.slots list) (other : Ref) (reached : world.DependsOn slot.target other) :
      region other := within other (.head (consults_of_mem member) reached)
  have planned : Meets anything ((world.slots list).mapM (Act.planSlot plan)) (beside.setBusy list true) _ :=
    describes_mapM (fun slot member => near.enter copyable member) legible.setBusy inside plans
  exact planned.whileBusy (fun _ => trivial) (fun _ => trivial) fun copies after ⟨all, twins⟩ =>
    ⟨all, twins.whileBusy free⟩

private theorem plansAlike_planWithin (fuel : Nat) (ordered : world.Ordered) (copyable : world.Copyable config ref)
    (within : ∀ other, world.DependsOn ref other → region other) :
    PlansAlike config region world (planWithin fuel config) ref := by
  induction fuel generalizing ref with
  | zero => exact fun _ _ _ => .throw trivial
  | succ fuel ih =>
    intro beside near legible
    have kind : beside.kindOf ref = world.kindOf ref := near.forth.kindOf .refl
    have free : beside.isBusy ref = false := (near.forth.isBusy .refl).trans (copyable.idle ref .refl)
    refine .look ?_
    rw [kind]
    split
    next isVar =>
      have reads : Meets anything (value config ref) beside fun scalar after =>
          world.HasValue config ref scalar ∧ Twins config region beside after := by
        unfold Meets
        split
        next scalar after ran =>
          have has := (Twins.read .refl near.ordered legible (within ref .refl) ran).2
          have readable := near.forth.legible copyable.legible
          exact ⟨trivial, HasValue.mirrors ⟨after, ran⟩ .refl readable near.back ordered, has⟩
        next => exact ⟨trivial, trivial⟩
      exact reads.bind fun scalar after _ ⟨has, twins⟩ => .pure ⟨⟨isVar, has⟩, twins⟩
    next isList =>
      refine .look ?_
      rw [free, if_neg Bool.false_ne_true]
      have planned : Meets anything (planSlots (planWithin fuel config) ref) beside _ :=
        describes_planSlots copyable near legible within fun slot member =>
          ih (copyable.element member) fun other reached => within other (.head (consults_of_mem member) reached)
      exact planned.bind fun copies after _ ⟨all, twins⟩ => .pure ⟨⟨isList, all⟩, twins⟩
    next notVar notList =>
      unfold Meets
      rw [bind_of_ok reference_eq, near.sharing]
      refine ⟨trivial, ⟨⟨notVar, notList⟩, ?_⟩, .refl⟩
      rw [Slot.target]
      split
      next => rfl
      next gone => exact sharing_of_gone (Bool.not_eq_true _ ▸ gone)

theorem plansAlike_plan (ordered : world.Ordered) (copyable : world.Copyable config ref)
    (within : ∀ other, world.DependsOn ref other → region other) : PlansAlike config region world (Act.plan config) ref :=
  fun beside near legible => .look (plansAlike_planWithin _ ordered copyable within beside near legible)

end Act

end Dialogue
