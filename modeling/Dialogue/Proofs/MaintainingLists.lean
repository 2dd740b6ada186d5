import Dialogue.Proofs.AssignmentSteps
import Dialogue.Proofs.MaintainingActs
import Dialogue.Variables.View

/-! Lists and variables where a guarantee says which slots fit into which lists. A slot that is made holds something
new, or something that is no list and that nobody owned when the slot was made; whatever else is only referred to. So
what is made fits, and so do copies. -/

namespace Dialogue

mutual
/-- Whether the slots that a copy shares are of some sort. -/
def Copy.Shares (sort : Slot → Prop) : Copy → Prop
  | .value _ => True
  | .list items => Copy.AllShare sort items
  | .keep slot => sort slot

def Copy.AllShare (sort : Slot → Prop) : List Copy → Prop
  | [] => True
  | copy :: rest => Copy.Shares sort copy ∧ Copy.AllShare sort rest
end

namespace Copy

variable {sort other : Slot → Prop} {copies : List Copy}

private theorem allShare_iff : AllShare sort copies ↔ ∀ copy ∈ copies, copy.Shares sort := by
  induction copies with
  | nil => simp [AllShare]
  | cons copy rest ih => rw [AllShare, ih, List.forall_mem_cons]

mutual
theorem Shares.mono (implies : ∀ slot, sort slot → other slot) : ∀ copy : Copy, copy.Shares sort → copy.Shares other
  | .value _, _ => trivial
  | .list items, shares => AllShare.mono implies items shares
  | .keep slot, shares => implies slot shares

theorem AllShare.mono (implies : ∀ slot, sort slot → other slot) :
    ∀ copies : List Copy, AllShare sort copies → AllShare other copies
  | [], _ => trivial
  | copy :: rest, ⟨first, others⟩ => ⟨Shares.mono implies copy first, AllShare.mono implies rest others⟩
end

end Copy

/-- Whether whatever some slots hold exists or has existed. -/
def World.AllKnown (world : World) (slots : List Slot) : Prop := ∀ element, .held element ∈ slots → element < world.heap.size

namespace Act

open World

variable {α : Type} {cleared : Ref → Prop} {ready : World → Prop} {fits : World → Ref → Slot → Prop}
  {guarantee : Guarantee} {world : World} {ref object source list : Ref} {config : Config} {slot : Slot} {slots : List Slot}

/-! Slots. -/

theorem meets_elementAt {position : Nat} : Meets guarantee (elementAt list position) world fun _ _ => True := by
  refine .look ?_
  split
  next => exact Meets.element.forget
  next => exact .raise

theorem meets_elements : Meets guarantee (elements list) world fun _ _ => True :=
  .look (Meets.forget (.mapM (fun _ => True) fun _ _ _ _ => Meets.element.forget))

theorem lenient_pop [lenient : Lenient guarantee cleared] : Meets guarantee (pop list) world fun _ _ => True := by
  apply Meets.requireChangeable.bind
  rintro _ after - ⟨rfl, -⟩
  refine .look ?_
  split
  next => exact .raise
  next => exact .update_bind (lenient.keeps (entered_changeSlots List.dropLast_subset)) Meets.element.forget

section Filling

variable [filling : Filling guarantee cleared ready fits]

include filling

/-- What is no list is held if nobody owns it, and referred to otherwise. -/
private theorem fits_reference (isReady : ready world) (old : ref < world.heap.size)
    (notList : world.kindOf ref ≠ .list) :
    Meets guarantee (reference ref) world fun slot after => after = world ∧ fits world list slot := by
  refine .look ?_
  split
  next => exact .look (.pure ⟨rfl, filling.link⟩)
  next free => exact .pure ⟨rfl, filling.unowned isReady old notList (Bool.not_eq_true _ ▸ free)⟩

private theorem filling_zeros (count : Nat) (here : list < world.heap.size) :
    Meets guarantee (zeros config count) world fun slots after => ∀ slot ∈ slots, fits after list slot := by
  induction count generalizing world with
  | zero => exact .pure fun _ none => nomatch none
  | succ count ih =>
    apply lenient_addValue.bind
    rintro made after kept ⟨rfl, rfl⟩
    apply (ih (here.trans_le (filling.grows kept))).bind
    intro slots last kept fitting
    exact .pure (List.forall_mem_cons.mpr ⟨filling.refits kept (filling.new here rfl), fitting⟩)

theorem filling_extend (fitting : ∀ slot ∈ slots, fits world list slot) :
    Meets guarantee (extend list slots) world fun _ _ => True :=
  .update (filling.fills fun slot inside => (List.mem_append.mp inside).imp_right (fitting slot)) trivial

theorem filling_resize {size : Int} (here : list < world.heap.size) :
    Meets guarantee (resize list size config) world fun _ _ => True := by
  apply Meets.resize
  · intro _ _ _
    exact (filling_zeros _ here).bind fun slots _ _ fitting => filling_extend fitting
  · intro _ _ _ _
    have cut := @entered_changeSlots cleared world world.heap.size list (·.take size.toNat) fun _ => List.take_subset ..
    exact .look (.update_bind (filling.keeps cut) lenient_releaseAll)

theorem filling_position {index : Int} (here : list < world.heap.size) :
    Meets guarantee (position list index config) world fun _ _ => True :=
  .position (fun _ _ _ => trivial) fun _ _ => filling_resize here

theorem filling_get {index : Int} (here : list < world.heap.size) :
    Meets guarantee (get list index config) world fun _ _ => True :=
  (filling_position here).bind fun _ _ _ _ => meets_elementAt

theorem filling_pushAlias : Meets guarantee (pushAlias list object) world fun _ _ => True := by
  apply Meets.requireChangeable.bind
  rintro _ after - ⟨rfl, -⟩
  apply Meets.requireRoom.bind
  rintro _ after - rfl
  exact .look (filling_extend (List.forall_mem_singleton.mpr filling.link))

theorem filling_appendThemselves {other : Ref} (fitting : ∀ slot ∈ world.slots other, fits world list slot) :
    Meets guarantee (appendThemselves list other) world fun _ _ => True := by
  apply Meets.requireChangeable.bind
  rintro _ after - ⟨rfl, -⟩
  refine .look ?_
  apply Meets.requireRoom.bind
  rintro _ after - rfl
  exact filling_extend fitting

theorem filling_remove {index : Int} (here : list < world.heap.size) :
    Meets guarantee (remove list index config) world fun _ _ => True := by
  apply Meets.requireChangeable.bind
  rintro _ after - ⟨rfl, -⟩
  apply (filling_position here).bind
  intro position after _ _
  refine .look ?_
  split
  next => exact .throw filling.allows
  next =>
    have cut := @entered_changeSlots cleared after after.heap.size list (·.eraseIdx position) fun _ => List.eraseIdx_subset ..
    exact .update_bind (filling.keeps cut) Meets.element.forget

theorem filling_insert {index : Int} (here : list < world.heap.size) :
    Meets guarantee (insert list index config) world fun _ _ => True := by
  have placed {world : World} (position : Nat) (here : list < world.heap.size) : Meets guarantee (do
      let element ← addValue "" (.number (.zero config.precision))
      update (·.changeSlots list (·.insertIdx position (.held element)))
      return element) world fun _ _ => True := by
    apply lenient_addValue.bind
    rintro made after - ⟨rfl, rfl⟩
    refine .update_bind (filling.fills fun slot inside => ?_) (.pure trivial)
    rcases List.eq_or_mem_of_mem_insertIdx inside with rfl | before
    · exact .inr (filling.new here rfl)
    · exact .inl before
  apply Meets.requireChangeable.bind
  rintro _ after - ⟨rfl, -⟩
  apply Meets.requireRoom.bind
  rintro _ after - rfl
  refine .look ?_
  dsimp only
  split
  next => exact placed _ here
  next => exact (filling_position here).bind fun position _ kept _ => placed position (here.trans_le (filling.grows kept))

theorem filling_replaceSlot {position : Nat} (fitting : fits world list slot) :
    Meets guarantee (replaceSlot list position slot) world fun _ _ => True := by
  refine .look ?_
  split
  next => exact .throw filling.allows
  next =>
    refine .update_bind (filling.fills fun other inside => ?_) lenient_releaseAll
    rcases List.mem_or_eq_of_mem_set inside with before | rfl
    · exact .inl before
    · exact .inr fitting

end Filling

/-! Copies. -/

/-- Planning the copy of an object that exists shares nothing that does not fit into a list that exists. -/
def PlansFitting (guarantee : Guarantee) (ready : World → Prop) (fits : World → Ref → Slot → Prop)
    (plan : Ref → Act Copy) : Prop :=
  ∀ list ref world, ready world → list < world.heap.size → ref < world.heap.size →
    Meets guarantee (plan ref) world fun copy after => copy.Shares (fits after list)

variable [filling : Filling guarantee cleared ready fits] {plan : Ref → Act Copy}

include filling

theorem PlansFitting.planSlot (plans : PlansFitting guarantee ready fits plan) (isReady : ready world)
    (here : list < world.heap.size) (known : ∀ element, slot = .held element → element < world.heap.size) :
    Meets guarantee (planSlot plan slot) world fun copy after => copy.Shares (fits after list) := by
  rcases slot with element | ⟨target, name⟩
  · exact plans list element world isReady here (known element rfl)
  · refine .look ?_
    split
    next live => exact plans list target world isReady here (lt_size_of_isLive live)
    next => exact .pure filling.link

theorem PlansFitting.mapM_planSlot (plans : PlansFitting guarantee ready fits plan) (isReady : ready world)
    (here : list < world.heap.size) (known : world.AllKnown slots) :
    Meets guarantee (slots.mapM (Act.planSlot plan)) world fun copies after => Copy.AllShare (fits after list) copies := by
  have all : Meets guarantee (slots.mapM (Act.planSlot plan)) world fun copies after =>
      ∀ copy ∈ copies, copy.Shares (fits after list) := by
    refine .mapM_stable (fun copy after => Copy.Shares (fits after list) copy) ?_ ?_
    · intro slot inside after kept
      have size := filling.grows kept
      refine plans.planSlot (filling.readies kept isReady) (here.trans_le size) ?_
      rintro element rfl
      exact (known element inside).trans_le size
    · intro copy _ _ kept shares
      exact Copy.Shares.mono (fun _ => filling.refits kept) copy shares
  exact all.weaken fun _ _ _ all => Copy.allShare_iff.mpr all

/-- A list that is busy shares its slots with its copy. -/
theorem PlansFitting.planSlots (plans : PlansFitting guarantee ready fits plan) (isReady : ready world)
    (here : list < world.heap.size)
    (shares : world.isBusy source = true → ∀ slot ∈ world.slots source, fits world list slot) :
    Meets guarantee (planSlots plan source) world fun copies after => Copy.AllShare (fits after list) copies := by
  refine .look (.look ?_)
  split
  next busy =>
    refine .pure (Copy.allShare_iff.mpr fun copy member => ?_)
    obtain ⟨slot, inside, rfl⟩ := List.mem_map.mp member
    exact shares busy slot inside
  next =>
    refine (plans.mapM_planSlot (filling.readyBusy isReady) ?_ fun element inside => ?_).lenient_whileBusy ?_
    · rwa [heap_size_setBusy]
    · rw [heap_size_setBusy]
      exact filling.known isReady inside
    · exact fun copies _ _ kept shares => Copy.AllShare.mono (fun _ => filling.refits kept) copies shares

theorem PlansFitting.planWith (plans : PlansFitting guarantee ready fits plan) :
    PlansFitting guarantee ready fits (planWith plan config) := by
  intro list ref world isReady here old
  refine .look ?_
  split
  next => exact lenient_value.bind fun _ _ _ _ => .pure trivial
  next =>
    refine .look ?_
    split
    next => exact .look (.pure filling.link)
    next free => exact (plans.planSlots isReady here fun busy => absurd busy free).bind fun _ _ _ shares => .pure shares
  next notVar notList =>
    apply (fits_reference isReady old notList).bind
    rintro slot after - ⟨rfl, fitting⟩
    exact .pure fitting

private theorem plansFitting_planWithin (fuel : Nat) : PlansFitting guarantee ready fits (planWithin fuel config) := by
  induction fuel with
  | zero => exact fun _ _ _ _ _ _ => .throw filling.allows
  | succ fuel ih => exact ih.planWith

theorem plansFitting_plan : PlansFitting guarantee ready fits (Act.plan config) :=
  fun list ref world isReady here old => .look (plansFitting_planWithin _ list ref world isReady here old)

private theorem filling_addList (fitting : ∀ slot ∈ slots, fits world list slot) :
    Meets guarantee (add { name := "", body := .list { slots } }) world fun made after =>
      made = world.heap.size ∧ after = world.add { name := "", body := .list { slots } } :=
  ⟨filling.adds rfl rfl rfl fun slot inside => ⟨list, fitting slot inside⟩, rfl, rfl⟩

mutual
private theorem filling_make {world : World} (here : list < world.heap.size) :
    ∀ copy : Copy, copy.Shares (fits world list) →
    Meets guarantee (make copy) world fun slot after => fits after list slot
  | .value _, _ => by
    apply lenient_addValue.bind
    rintro made after - ⟨rfl, rfl⟩
    exact .pure (filling.new here rfl)
  | .list items, shares => by
    apply (filling_makeAll here items shares).bind
    intro slots after kept fitting
    apply (filling_addList fitting).bind
    rintro made last - ⟨rfl, rfl⟩
    exact .pure (filling.new (here.trans_le (filling.grows kept)) rfl)
  | .keep _, shares => .pure shares

theorem filling_makeAll {world : World} (here : list < world.heap.size) : ∀ copies : List Copy,
    Copy.AllShare (fits world list) copies →
    Meets guarantee (makeAll copies) world fun slots after => ∀ slot ∈ slots, fits after list slot
  | [], _ => .pure fun _ none => nomatch none
  | copy :: rest, ⟨first, others⟩ => by
    apply (filling_make here copy first).bind
    intro slot after kept made
    have later := Copy.AllShare.mono (fun _ => filling.refits kept) rest others
    apply (filling_makeAll (here.trans_le (filling.grows kept)) rest later).bind
    intro slots last went fitting
    exact .pure (List.forall_mem_cons.mpr ⟨filling.refits went made, fitting⟩)
end

theorem filling_copy (isReady : ready world) (here : list < world.heap.size) (old : ref < world.heap.size) :
    Meets guarantee (copy config ref) world fun slot after => fits after list slot :=
  (plansFitting_plan list ref world isReady here old).bind fun copy _ kept shares =>
    filling_make (here.trans_le (filling.grows kept)) copy shares

theorem filling_duplicateList (isReady : ready world) (here : list < world.heap.size)
    (shares : world.isBusy list = true → ∀ slot ∈ world.slots list, fits world list slot) :
    Meets guarantee (duplicateList config list) world fun _ _ => True := by
  apply (plansFitting_plan.planSlots isReady here shares).bind
  intro copies _ kept shares
  apply (filling_makeAll (here.trans_le (filling.grows kept)) copies shares).bind
  exact fun slots _ _ fitting => (filling_addList fitting).forget

theorem filling_push (isReady : ready world) (here : list < world.heap.size) (old : object < world.heap.size) :
    Meets guarantee (push list object config) world fun _ _ => True := by
  apply Meets.requireChangeable.bind
  rintro _ after - ⟨rfl, -⟩
  apply Meets.requireRoom.bind
  rintro _ after - rfl
  apply (filling_copy isReady here old).bind
  intro slot _ _ fitting
  exact (filling_extend (List.forall_mem_singleton.mpr fitting)).bind fun _ _ _ _ => Meets.element.forget

private theorem filling_extendByCopies {copies : List Copy} (here : list < world.heap.size)
    (shares : Copy.AllShare (fits world list) copies) :
    Meets guarantee (do requireRoom list copies.length; extend list (← makeAll copies)) world fun _ _ => True := by
  apply Meets.requireRoom.bind
  rintro _ after - rfl
  exact (filling_makeAll here copies shares).bind fun _ _ _ fitting => filling_extend fitting

theorem filling_append (isReady : ready world) (here : list < world.heap.size)
    (shares : world.isBusy source = true → ∀ slot ∈ world.slots source, fits world list slot) :
    Meets guarantee (append list source config) world fun _ _ => True := by
  apply Meets.requireChangeable.bind
  rintro _ after - ⟨rfl, -⟩
  exact (plansFitting_plan.planSlots isReady here shares).bind fun _ _ kept shares =>
    filling_extendByCopies (here.trans_le (filling.grows kept)) shares

theorem filling_replace {index : Int} (isReady : ready world) (here : list < world.heap.size)
    (old : object < world.heap.size) : Meets guarantee (replace list index object config) world fun _ _ => True := by
  apply Meets.requireChangeable.bind
  rintro _ after - ⟨rfl, -⟩
  apply (filling_position here).bind
  intro position middle kept _
  have size := filling.grows kept
  apply (filling_copy (filling.readies kept isReady) (here.trans_le size) (old.trans_le size)).bind
  intro slot _ _ fitting
  exact (filling_replaceSlot fitting).bind fun _ _ _ _ => Meets.element.forget

omit filling

/-! Variables. -/

theorem lenient_setConfig [lenient : Lenient guarantee cleared] :
    Meets guarantee (setConfig config) world fun _ _ => True :=
  (Meets.alter (entered_of_heap rfl)).forget

theorem lenient_setPrecision [lenient : Lenient guarantee cleared] {requested : Int} :
    Meets guarantee (setPrecision ref requested config) world fun _ _ => True := by
  refine .lift_bind fun _ _ => ?_
  apply Meets.requireChangeable.bind
  rintro _ after - ⟨rfl, -⟩
  refine .look ?_
  split
  next => exact .lenient_compute_bind fun _ _ => (Meets.alter entered_setStorage).forget
  next => exact .look .raise
  next => exact .refuseWrite

theorem lenient_changeBlock [lenient : Lenient guarantee cleared] {rule : BlockData → BlockData} :
    Meets guarantee (update (·.changeBlock ref rule)) world fun _ _ => True :=
  (Meets.alter entered_changeBlock).forget

theorem lenient_view [lenient : Lenient guarantee cleared] : Meets guarantee (view ref) world fun _ _ => True := by
  refine .look (.look ?_)
  split
  next => exact .pure trivial
  next => exact (lenient_add rfl rfl rfl rfl).forget
  next => exact .look (lenient_add rfl rfl rfl rfl).forget

include filling

theorem Filling.use {used : List Ref} (isReady : ready world) : ready { world with inUse := used } := by
  have entered : Entered world.heap.size cleared world { world with inUse := used } := entered_of_heap rfl
  exact filling.readies (filling.keeps entered) isReady

private theorem filling_writeBinding {binding : Binding} {value : Scalar} (isReady : ready world) :
    Meets guarantee (writeBinding ref binding value config) world fun _ _ => True := by
  cases binding with
  | cell kept readOnly =>
    cases readOnly with
    | true => exact .refuseWrite
    | false => exact (Meets.alter entered_setStorage).forget
  | length list name =>
    apply Meets.demand.bind
    rintro found after - ⟨rfl, rfl, live⟩
    exact .lenient_compute_bind fun _ _ => filling_resize (lt_size_of_isLive live)
  | precision target name =>
    apply Meets.demand.bind
    intro _ _ _ _
    exact .lenient_compute_bind fun _ _ => lenient_setPrecision
  | ownerName owner =>
    apply Meets.demand.bind
    rintro found after - ⟨rfl, -, -⟩
    exact .lenient_compute_bind fun _ _ => filling_rename isReady
  | beenSaid block =>
    apply Meets.demand.bind
    intro _ _ _ _
    exact .lenient_compute_bind fun _ _ => lenient_changeBlock
  | setting which =>
    refine .look ?_
    cases which with
    | strictLists => exact .lenient_compute_bind fun _ _ => lenient_setConfig
    | _ => exact .lenient_compute_bind fun _ _ => .lift_bind fun _ _ => lenient_setConfig

theorem filling_assign {value : Scalar} (isReady : ready world) :
    Meets guarantee (assign ref value config) world fun _ _ => True := by
  apply Meets.requireChangeable.bind
  rintro _ after - ⟨rfl, -⟩
  refine .look ?_
  split
  next => exact (Meets.alter entered_setStorage).forget
  next => exact filling_writeBinding isReady
  next => exact .refuseWrite

theorem filling_assignFrom (isReady : ready world) :
    Meets guarantee (assignFrom ref source config) world fun _ _ => True :=
  lenient_value.bind fun _ _ kept _ => filling_assign (filling.readies kept isReady)

/-- What is done on a view is done in a world that is ready if the world was. -/
theorem filling_onView {act : Ref → Act α} (isReady : ready world)
    (meets : ∀ shown world, ready world → Meets guarantee (act shown) world fun _ _ => True) :
    Meets guarantee (onView ref act) world fun _ _ => True :=
  lenient_view.bind fun shown _ kept _ => .lenient_holding (meets shown _ (filling.use (filling.readies kept isReady)))

omit filling

/-! Assignment of lists. -/

/-- Assigning to any list that exists, from any source, gives a guarantee. -/
def AssignsFitting (guarantee : Guarantee) (ready : World → Prop) (nested : Ref → Ref → Act Unit) : Prop :=
  ∀ list source world, ready world → list < world.heap.size → Meets guarantee (nested list source) world fun _ _ => True

variable {nested : Ref → Ref → Act Unit}

include filling

/-- An element is replaced by a copy. -/
private theorem filling_overwrite {position : Nat} (isReady : ready world) (here : list < world.heap.size)
    (old : source < world.heap.size) :
    Meets guarantee (overwrite list position source config) world fun _ _ => True :=
  (filling_copy isReady here old).bind fun _ _ _ fitting => filling_replaceSlot fitting

theorem AssignsFitting.assignElement (assigns : AssignsFitting guarantee ready nested) {position : Nat}
    (isReady : ready world) (here : list < world.heap.size) (old : source < world.heap.size) :
    Meets guarantee (assignElement nested list position source config) world fun _ _ => True := by
  rw [assignElement_eq]
  refine .look ?_
  split
  next current found =>
    refine .look ?_
    split
    next live =>
      refine .lenient_holding (.assignInPlace (filling_overwrite (filling.use isReady) here old) (fun _ _ _ => ?_) fun _ _ _ _ => ?_)
      · exact filling_assignFrom (filling.use isReady)
      · exact assigns _ source _ (filling.use isReady) (lt_size_of_isLive live)
    next => exact filling_overwrite isReady here old
  next => exact .throw filling.allows

theorem AssignsFitting.assignSlot (assigns : AssignsFitting guarantee ready nested) {position : Nat}
    (isReady : ready world) (here : list < world.heap.size) (known : world.AllKnown [slot]) :
    Meets guarantee (assignSlot nested list config position slot) world fun _ _ => True := by
  refine .look ?_
  split
  next live => exact .lenient_holding (assigns.assignElement (filling.use isReady) here (lt_size_of_isLive live))
  next gone =>
    have fitting : fits world list slot := by
      cases slot with
      | held element => exact filling.gone (known element List.mem_cons_self) (Bool.not_eq_true _ ▸ gone)
      | link target name => exact filling.link
    exact filling_replaceSlot fitting

theorem AssignsFitting.assignOverlap (assigns : AssignsFitting guarantee ready nested) (position : Nat)
    (isReady : ready world) (here : list < world.heap.size) (known : world.AllKnown slots) :
    Meets guarantee (assignOverlap nested list config position slots) world fun _ _ => True := by
  induction slots generalizing world position with
  | nil => exact .pure trivial
  | cons slot rest ih =>
    rw [assignOverlap_cons]
    have first : world.AllKnown [slot] := fun element inside =>
      known element (List.mem_singleton.mp inside ▸ List.mem_cons_self)
    apply (assigns.assignSlot isReady here first).bind
    intro _ after kept _
    exact ih (position + 1) (filling.readies kept isReady) (here.trans_le (filling.grows kept)) fun element inside =>
      (known element (List.mem_cons_of_mem _ inside)).trans_le (filling.grows kept)

private theorem filling_assignRest {overlap : Nat} (isReady : ready world) (here : list < world.heap.size)
    (known : world.AllKnown slots) : Meets guarantee (assignRest list overlap slots config) world fun _ _ => True := by
  unfold assignRest
  dsimp only
  split
  next =>
    refine .look ?_
    split
    next => exact .throw_bind filling.allows
    next =>
      have cut := @entered_changeSlots cleared world world.heap.size list (·.take overlap) fun _ => List.take_subset ..
      exact .look (.update_bind (filling.keeps cut) lenient_releaseAll)
  next =>
    apply (plansFitting_plan.mapM_planSlot isReady here known).bind
    exact fun _ _ kept shares => filling_extendByCopies (here.trans_le (filling.grows kept)) shares

theorem AssignsFitting.assignSlots (assigns : AssignsFitting guarantee ready nested) (isReady : ready world)
    (here : list < world.heap.size) (known : world.AllKnown slots) :
    Meets guarantee (assignSlots nested list config slots) world fun _ _ => True := by
  refine .look ?_
  apply (assigns.assignOverlap 0 isReady here fun element inside => known element (List.mem_of_mem_take inside)).bind
  intro _ after kept _
  refine .look ?_
  split
  next => exact .pure trivial
  next =>
    refine filling_assignRest (filling.readies kept isReady) (here.trans_le (filling.grows kept)) fun element inside => ?_
    exact (known element (List.mem_of_mem_drop inside)).trans_le (filling.grows kept)

theorem AssignsFitting.assignListWith (assigns : AssignsFitting guarantee ready nested) :
    AssignsFitting guarantee ready (assignListWith nested config) := by
  intro list source world isReady here
  rw [assignListWith_eq]
  refine .look ?_
  split
  next => exact .pure trivial
  next =>
    refine .look (.lenient_holding (.lenient_whileBusy ?_ fun _ _ _ _ done => done))
    have known : world.AllKnown (world.slots source) := fun element => filling.known isReady
    have same {inUse : List Ref} : (setBusy { world with inUse } list true).heap.size = world.heap.size := heap_size_change
    exact assigns.assignSlots (filling.readyBusy (filling.use isReady)) (same ▸ here)
      fun element inside => same ▸ known element inside

private theorem assignsFitting_assignListWithin (fuel : Nat) :
    AssignsFitting guarantee ready (assignListWithin fuel config) := by
  induction fuel with
  | zero => exact fun _ _ _ _ _ => .throw filling.allows
  | succ fuel ih => exact ih.assignListWith

theorem filling_assignList (isReady : ready world) (here : list < world.heap.size) :
    Meets guarantee (assignList list source config) world fun _ _ => True :=
  .look (assignsFitting_assignListWithin _ list source world isReady here)

end Act

end Dialogue
