import Dialogue.Proofs.FrozenLists
import Dialogue.Proofs.MaintainingLists

/-! Acts that leave constant lists alone. Readings, names and copies are no concern of a constant list. Whatever extends
or cuts a list has found out before that it is not constant, and nothing makes it constant in between. -/

namespace Dialogue.Act

open World

variable {α : Type} {frozen ref object scope list source block : Ref} {opened : Nat → Prop} {world : World}
  {config : Config} {name : String} {slot : Slot} {slots : List Slot}

theorem freezes_demand : Freezes frozen opened (demand ref name) := .of_meets fun _ => .demand

theorem freezes_element : Freezes frozen opened (element slot) := .of_meets fun _ => .element

theorem freezes_requireKind {allowed : Kind → Bool} {target : Kind} :
    Freezes frozen opened (requireKind allowed target ref) :=
  .of_meets fun _ => .requireKind

theorem freezes_requireChangeable : Freezes frozen opened (requireChangeable ref) :=
  .of_meets fun _ => .requireChangeable

private theorem freezes_aliasOf : Freezes frozen opened (aliasOf ref) := .of_meets fun _ => .aliasOf

theorem freezes_refuseWrite : Freezes frozen opened (refuseWrite ref : Act α) := fun _ => .refuseWrite

theorem freezes_add {made : Object} : Freezes frozen opened (add made) := fun _ => ⟨keeps_add, trivial⟩

theorem freezes_addValue {value : Scalar} : Freezes frozen opened (addValue name value) := freezes_add

theorem freezes_keep : Freezes frozen opened (keep ref) :=
  .bind (.update fun _ => keeps_of_heap rfl) fun _ => .pure

theorem freezes_releaseAll {refs : List Ref} : Freezes frozen opened (releaseAll refs) :=
  .update fun _ => keeps_releaseAll refs

theorem freezes_release : Freezes frozen opened (release ref) := .update fun _ => keeps_releaseAll [ref]

/-! Readings. -/

private theorem freezes_flattenWith {read : Ref → Act Scalar} (reads : ∀ ref, Freezes frozen opened (read ref)) :
    Freezes frozen opened (flattenWith read config list) := by
  refine .look fun busy => ?_
  split
  next => exact .pure
  next =>
    refine .whileBusy (.look fun slots => .foldlM fun text slot => ?_)
    exact freezes_element.bind fun found => (reads found).bind fun _ => .bind .compute fun _ => .pure

private theorem freezes_valueWithin (fuel : Nat) : Freezes frozen opened (valueWithin fuel config ref) := by
  induction fuel generalizing ref with
  | zero => exact .throw
  | succ fuel ih =>
    have flattens (list : Ref) : Freezes frozen opened (flattenWith (valueWithin fuel config) config list) :=
      freezes_flattenWith fun _ => ih
    refine .look fun body => ?_
    split
    next => exact .pure
    next => exact fun _ => meets_readBinding fun _ _ => ih _
    next =>
      split
      next => exact .pure
      next =>
        refine .bind (fun _ => meets_readFormula fun list => flattens list _) fun value => ?_
        exact .bind (.update fun _ => keeps_evaluate) fun _ => .pure
    next => exact (flattens ref).bind fun _ => .pure
    next => exact .look fun _ => .pure

theorem freezes_value : Freezes frozen opened (value config ref) := .look fun _ => freezes_valueWithin _

theorem freezes_flatten : Freezes frozen opened (flatten config list) := freezes_flattenWith fun _ => freezes_value

theorem freezes_textOf : Freezes frozen opened (textOf config ref) := freezes_value.bind fun _ => .compute

theorem freezes_numberOf : Freezes frozen opened (numberOf config ref) := freezes_value.bind fun _ => .compute

theorem freezes_truthOf : Freezes frozen opened (truthOf config ref) := freezes_value.bind fun _ => .compute

/-! Names. -/

theorem freezes_member? : Freezes frozen opened (member? scope name) :=
  .of_meets fun _ => meets_member? keeps_materialize

theorem freezes_hasMember : Freezes frozen opened (hasMember scope name) :=
  .of_meets fun _ => meets_hasMember keeps_materialize

theorem freezes_tryResolve {id : Identifier} : Freezes frozen opened (tryResolve scope id) :=
  fun _ => meets_tryResolve (fun _ _ _ => keeps_materialize) trivial

theorem freezes_resolve {id : Identifier} : Freezes frozen opened (resolve scope id) :=
  fun _ => meets_resolve (fun _ _ _ => keeps_materialize) trivial

theorem freezes_resolves {text : String} : Freezes frozen opened (resolves scope text) :=
  fun _ => meets_resolves (fun _ _ _ => keeps_materialize) trivial

private theorem freezes_adopt : Freezes frozen opened (adopt scope object) := by
  refine .look fun name => freezes_hasMember.bind fun taken => ?_
  split
  next => exact .look fun _ => .raise_bind
  next =>
    refine .look fun lineage => ?_
    split
    next => exact .look fun _ => .raise_bind
    next => exact .update fun _ => (freezing frozen opened).trans keeps_detach keeps_insertMember

theorem freezes_register : Freezes frozen opened (register scope object) :=
  freezes_requireChangeable.bind fun _ => freezes_adopt

theorem freezes_unregister : Freezes frozen opened (unregister scope name) := by
  refine .look fun found => ?_
  split
  next => exact .look fun _ => .raise
  next => exact .bind (.update fun _ => keeps_leave) fun _ => .pure

theorem freezes_clear : Freezes frozen opened (clear scope) :=
  .look fun _ => .bind (.update fun _ => keeps_clearMembers) fun _ => freezes_releaseAll

theorem freezes_rename : Freezes frozen opened (rename object name) := by
  refine freezes_requireChangeable.bind fun _ => .look fun former => ?_
  split
  next => exact .pure
  next =>
    refine .look fun parent => ?_
    split
    next => exact .update fun _ => keeps_change freeze?_setName
    next =>
      refine freezes_hasMember.bind fun taken => ?_
      split
      next => exact .look fun _ => .raise_bind
      next =>
        refine freezes_unregister.bind fun _ => ?_
        exact .bind (.update fun _ => keeps_change freeze?_setName) fun _ => freezes_adopt

theorem freezes_importScope : Freezes frozen opened (importScope scope object) := by
  refine freezes_requireKind.bind fun _ => .look fun imports => ?_
  split
  next => exact .look fun _ => .look fun _ => .raise_bind
  next => exact .update fun _ => keeps_changeScope

theorem freezes_unimport : Freezes frozen opened (unimport scope object) := by
  refine .look fun imports => ?_
  split
  next => exact .update fun _ => keeps_changeScope
  next => exact .look fun _ => .raise_bind

/-! Lists. -/

theorem freezes_extend (free : Free frozen list world) :
    Meets (freezing frozen opened) (extend list slots) world fun _ _ => True :=
  .update (keeps_changeSlots free) trivial

theorem freezes_truncate {length : Nat} (free : Free frozen list world) :
    Meets (freezing frozen opened) (truncate list length) world fun _ _ => True :=
  .look (.update_bind (keeps_changeSlots free) (freezes_releaseAll _))

theorem freezes_replaceSlot {position : Nat}
    (keeps : (freezing frozen opened).keeps world (world.changeSlots list (·.set position slot))) :
    Meets (freezing frozen opened) (replaceSlot list position slot) world fun _ _ => True := by
  refine .look ?_
  split
  next => exact .throw trivial
  next => exact .update_bind keeps (freezes_releaseAll _)

private theorem freezes_zeros (count : Nat) : Freezes frozen opened (zeros config count) := by
  induction count with
  | zero => exact .pure
  | succ count ih => exact freezes_addValue.bind fun _ => ih.bind fun _ => .pure

theorem freezes_resize {size : Int} : Freezes frozen opened (resize list size config) := by
  refine fun world => .freezing_of_old fun old => ?_
  have free (changeable : world.isConstant list = false) : Free frozen list world := fun same => ⟨old, same ▸ changeable⟩
  apply Meets.resize
  · intro changeable _ _
    exact (freezes_zeros _ world).bind fun _ _ kept _ => freezes_extend ((free changeable).later kept)
  · intro changeable _ _ _
    exact freezes_truncate (free changeable)

theorem freezes_position {index : Int} : Freezes frozen opened (position list index config) :=
  fun world => .position (fun _ _ _ => trivial) fun _ _ => freezes_resize world

theorem freezes_elementAt {position : Nat} : Freezes frozen opened (elementAt list position) :=
  fun _ => meets_elementAt

theorem freezes_elements : Freezes frozen opened (elements list) := fun _ => meets_elements

theorem freezes_get {index : Int} : Freezes frozen opened (get list index config) :=
  freezes_position.bind fun _ => freezes_elementAt

theorem freezes_pushItself : Freezes frozen opened (pushItself list object) := by
  refine .changeable fun world free => ?_
  apply Meets.requireRoom.bind
  rintro _ after - rfl
  split
  next => exact .look (freezes_extend free)
  next => exact freezes_extend free

theorem freezes_pushAlias : Freezes frozen opened (pushAlias list object) := by
  refine .changeable fun world free => ?_
  apply Meets.requireRoom.bind
  rintro _ after - rfl
  exact .look (freezes_extend free)

theorem freezes_appendThemselves : Freezes frozen opened (appendThemselves list source) := by
  refine .changeable fun world free => .look ?_
  apply Meets.requireRoom.bind
  rintro _ after - rfl
  exact freezes_extend free

theorem freezes_pop : Freezes frozen opened (pop list) := by
  refine .changeable fun world free => .look ?_
  split
  next => exact .raise
  next => exact .update_bind (keeps_changeSlots free) (freezes_element _)

theorem freezes_remove {index : Int} : Freezes frozen opened (remove list index config) := by
  refine .changeable fun world free => (freezes_position world).bind fun position after kept _ => .look ?_
  split
  next => exact .throw trivial
  next => exact .update_bind (keeps_changeSlots (free.later kept)) (freezes_element _)

theorem freezes_insert {index : Int} : Freezes frozen opened (insert list index config) := by
  have placed {world : World} (free : Free frozen list world) (position : Nat) : Meets (freezing frozen opened) (do
      let element ← addValue "" (.number (.zero config.precision))
      update (·.changeSlots list (·.insertIdx position (.held element)))
      return element) world fun _ _ => True :=
    (freezes_addValue world).bind fun _ _ kept _ => .update_bind (keeps_changeSlots (free.later kept)) (.pure trivial)
  refine .changeable fun world free => ?_
  apply Meets.requireRoom.bind
  rintro _ after - rfl
  refine .look ?_
  dsimp only
  split
  next => exact placed free _
  next => exact (freezes_position _).bind fun position _ kept _ => placed (free.later kept) position

/-! Copies. -/

theorem freezes_planSlot {plan : Ref → Act Copy} (plans : ∀ ref, Freezes frozen opened (plan ref)) :
    Freezes frozen opened (planSlot plan slot) := by
  rcases slot with element | ⟨target, name⟩
  · exact plans element
  · refine .look fun live => ?_
    split
    next => exact plans target
    next => exact .pure

theorem freezes_planSlots {plan : Ref → Act Copy} (plans : ∀ ref, Freezes frozen opened (plan ref)) :
    Freezes frozen opened (planSlots plan list) := by
  refine .look fun slots => .look fun busy => ?_
  split
  next => exact .pure
  next => exact .whileBusy (.mapM fun _ => freezes_planSlot plans)

private theorem freezes_planWithin (fuel : Nat) : Freezes frozen opened (planWithin fuel config ref) := by
  induction fuel generalizing ref with
  | zero => exact .throw
  | succ fuel ih =>
    refine .look fun kind => ?_
    split
    next => exact freezes_value.bind fun _ => .pure
    next =>
      refine .look fun busy => ?_
      split
      next => exact freezes_aliasOf.bind fun _ => .pure
      next => exact (freezes_planSlots fun _ => ih).bind fun _ => .pure
    next =>
      refine .bind (.look fun registered => ?_) fun _ => .pure
      split
      next => exact freezes_aliasOf
      next => exact .pure

theorem freezes_plan : Freezes frozen opened (plan config ref) := .look fun _ => freezes_planWithin _

mutual
private theorem freezes_make : ∀ copy : Copy, Freezes frozen opened (make copy)
  | .value _ => freezes_addValue.bind fun _ => .pure
  | .list items => (freezes_makeAll items).bind fun _ => freezes_add.bind fun _ => .pure
  | .keep _ => .pure

theorem freezes_makeAll : ∀ copies : List Copy, Freezes frozen opened (makeAll copies)
  | [] => .pure
  | copy :: rest => (freezes_make copy).bind fun _ => (freezes_makeAll rest).bind fun _ => .pure
end

theorem freezes_copy : Freezes frozen opened (copy config ref) := freezes_plan.bind fun _ => freezes_make _

theorem freezes_duplicateList : Freezes frozen opened (duplicateList config list) :=
  (freezes_planSlots fun _ => freezes_plan).bind fun _ => (freezes_makeAll _).bind fun _ => freezes_add

theorem freezes_push : Freezes frozen opened (push list object config) := by
  refine .changeable fun world free => ?_
  apply Meets.requireRoom.bind
  rintro _ world - rfl
  apply (freezes_copy world).bind
  intro slot after kept _
  exact (freezes_extend (free.later kept)).bind fun _ last _ _ => freezes_element last

theorem freezes_append : Freezes frozen opened (append list source config) := by
  refine .changeable fun world free => ?_
  apply (freezes_planSlots (fun _ => freezes_plan) world).bind
  intro copies after planned _
  apply Meets.requireRoom.bind
  rintro _ after - rfl
  exact (freezes_makeAll copies after).bind fun _ _ made _ => freezes_extend ((free.later planned).later made)

theorem freezes_replace {index : Int} : Freezes frozen opened (replace list index object config) := by
  refine .changeable fun world free => (freezes_position world).bind fun position after found _ => ?_
  apply (freezes_copy after).bind
  intro slot last copied _
  have still := (free.later found).later copied
  exact (freezes_replaceSlot (keeps_changeSlots still)).bind fun _ ended _ _ => freezes_element ended

/-! Values. -/

theorem freezes_setStorage {storage : Storage} : Freezes frozen opened (update (·.setStorage ref storage)) :=
  .update fun _ => keeps_change freeze?_setStorage

theorem freezes_changeBlock {rule : BlockData → BlockData} :
    Freezes frozen opened (update (·.changeBlock block rule)) :=
  .update fun _ => keeps_changeScope

theorem freezes_setConfig : Freezes frozen opened (setConfig config) := .update fun _ => keeps_of_heap rfl

theorem freezes_setPrecision {requested : Int} : Freezes frozen opened (setPrecision ref requested config) := by
  refine .bind .lift fun precision => freezes_requireChangeable.bind fun _ => .look fun storage => ?_
  split
  next => exact .bind .compute fun _ => freezes_setStorage
  next => exact .look fun _ => .raise
  next => exact freezes_refuseWrite

private theorem freezes_writeBinding {binding : Binding} {value : Scalar} :
    Freezes frozen opened (writeBinding ref binding value config) := by
  cases binding with
  | cell kept readOnly =>
    cases readOnly with
    | true => exact freezes_refuseWrite
    | false => exact freezes_setStorage
  | length list name => exact freezes_demand.bind fun _ => .bind .compute fun _ => freezes_resize
  | precision target name => exact freezes_demand.bind fun _ => .bind .compute fun _ => freezes_setPrecision
  | ownerName owner => exact freezes_demand.bind fun _ => .bind .compute fun _ => freezes_rename
  | beenSaid block => exact freezes_demand.bind fun _ => .bind .compute fun _ => freezes_changeBlock
  | setting which =>
    refine .look fun current => ?_
    cases which with
    | strictLists => exact .bind .compute fun _ => freezes_setConfig
    | _ => exact .bind .compute fun _ => .bind .lift fun _ => freezes_setConfig

theorem freezes_assign {value : Scalar} : Freezes frozen opened (assign ref value config) := by
  refine freezes_requireChangeable.bind fun _ => .look fun storage => ?_
  split
  next => exact freezes_setStorage
  next => exact freezes_writeBinding
  next => exact freezes_refuseWrite

theorem freezes_assignFrom : Freezes frozen opened (assignFrom ref source config) :=
  freezes_value.bind fun _ => freezes_assign

theorem freezes_view : Freezes frozen opened (view ref) := by
  refine .look fun name => .look fun kind => ?_
  split
  next => exact .pure
  next => exact freezes_add
  next => exact .look fun _ => freezes_add

theorem Freezes.onView {act : Ref → Act α} (freezes : ∀ shown, Freezes frozen opened (act shown)) :
    Freezes frozen opened (onView ref act) :=
  freezes_view.bind fun shown => (freezes shown).holding

end Dialogue.Act
