import Dialogue.Proofs.AssignmentSteps
import Dialogue.Proofs.CopySafety
import Dialogue.Proofs.MembershipSafety

/-! Writing variables and assigning lists. A list that is being assigned is in use, and so is every
element that the assignment reads, whatever the assignment lets go of on its way. -/

namespace Dialogue.Act

open World

variable {α : Type} {world : World} {ref list source : Ref} {config : Config}

theorem safe_setConfig : Safe .gentle (setConfig config) world fun _ _ => True :=
  .with_sound fun sound =>
    .update (.of_change (.outside rfl (fun _ => sound.inUse) (fun _ => sound.handles) (.inr rfl)) rfl) trivial

theorem safe_refuseWrite {post : α → World → Prop} : Safe .gentle (refuseWrite ref) world post := .look .raise

theorem safe_setPrecision {requested : Int} :
    Safe .gentle (setPrecision ref requested config) world fun _ _ => True := by
  refine .lift_bind fun precision _ => ?_
  apply safe_requireChangeable.bind
  intro _ after sound _ _
  refine .look ?_
  split
  next =>
    refine .compute_bind fun _ made => ?_
    exact .update (follows_store sound (by rintro _ ⟨⟩; exact Number.exact_new made) rfl) trivial
  next => exact .look .raise
  next => exact safe_refuseWrite

private theorem safe_writeSetting {which : Setting} {value : Scalar} :
    Safe .gentle (writeSetting which value config) world fun _ _ => True := by
  refine .look ?_
  cases which with
  | strictLists => exact .compute_bind fun _ _ => safe_setConfig
  | _ =>
    refine .compute_bind fun _ _ => ?_
    exact .lift_bind fun _ _ => safe_setConfig

private theorem safe_writeBinding {binding : Binding} {value : Scalar} (exact : value.Exact) :
    Safe .burying (writeBinding ref binding value config) world fun _ _ => True := by
  refine .with_sound fun sound => ?_
  cases binding with
  | cell kept readOnly =>
    cases readOnly with
    | true => exact safe_refuseWrite.relax
    | false =>
      refine .update ((?_ : Follows .gentle _ _).weaken) trivial
      exact follows_store sound (by rintro _ ⟨⟩; exact exact) rfl
  | length list name =>
    apply safe_demand.bind
    intro _ _ _ _ _
    exact .compute_bind fun _ _ => safe_resize.forget
  | precision target name =>
    apply safe_demand.bind
    intro _ _ _ _ _
    refine .compute_bind fun _ _ => ?_
    exact safe_setPrecision.relax
  | ownerName owner =>
    apply safe_demand.bind
    intro _ _ _ _ _
    exact .compute_bind fun _ _ => safe_rename.relax
  | beenSaid block =>
    apply safe_demand.bind
    intro _ after sound _ _
    refine .compute_bind fun _ _ => ?_
    exact .update ((follows_changeBlock sound).weaken) trivial
  | setting which => exact safe_writeSetting.relax

theorem safe_assign {value : Scalar} (exact : value.Exact) :
    Safe .burying (assign ref value config) world fun _ _ => True := by
  apply safe_requireChangeable.bind
  intro _ after sound _ _
  refine .look ?_
  split
  next =>
    refine .update ((?_ : Follows .gentle _ _).weaken) trivial
    exact follows_store sound (by rintro _ ⟨⟩; exact exact) rfl
  next => exact safe_writeBinding exact
  next => exact safe_refuseWrite.relax

theorem safe_assignFrom : Safe .burying (assignFrom ref source config) world fun _ _ => True :=
  (reads_value source world).bind fun _ _ _ _ exact => safe_assign exact

/-! Assignment of lists. -/

/-- Whether running code holds what a slot holds. -/
structure Kept (world : World) (slot : Slot) : Prop where
  held : ∀ element ∈ slot.held?, element ∈ world.inUse
  target : slot.target < world.heap.size

variable {slot : Slot}

theorem Kept.knows (kept : Kept world slot) (sound : world.Sound) : world.Knows slot :=
  ⟨fun element holds => sound.inUse (kept.held element holds), kept.target⟩

theorem Follows.kept {after : World} {freedom : Freedom} (follows : Follows freedom world after)
    (kept : Kept world slot) : Kept after slot :=
  ⟨fun element holds => follows.mem_inUse (kept.held element holds), kept.target.trans_le follows.evolves.size_le⟩

/-- Assigning to any list in use is safe, from any source in use. -/
def Assigns (nested : Ref → Ref → Act Unit) : Prop :=
  ∀ list source world, list ∈ world.inUse → Safe .burying (nested list source) world fun _ _ => True

variable {nested : Ref → Ref → Act Unit}

theorem safe_overwrite {position : Nat} (used : list ∈ world.inUse) (read : source ∈ world.inUse) :
    Safe .burying (overwrite list position source config) world fun _ _ => True := by
  refine .with_sound fun sound => ?_
  apply (safe_copy (sound.inUse read)).bind
  rintro slot after - began ⟨alive, -⟩
  exact (safe_replaceSlot (began.mem_inUse used) alive).forget

theorem Assigns.assignInPlace (assigns : Assigns nested) {position : Nat} {target : Ref} (used : list ∈ world.inUse)
    (held : target ∈ world.inUse) (read : source ∈ world.inUse) :
    Safe .burying (assignInPlace nested list position target source config) world fun _ _ => True := by
  refine .look (.look ?_)
  split
  next =>
    refine .look ?_
    split
    next => exact safe_overwrite used read
    next => exact safe_assignFrom
  next =>
    refine .look ?_
    split
    next => exact safe_overwrite used read
    next => exact assigns _ source world held
  next => exact safe_overwrite used read

theorem Assigns.assignElement (assigns : Assigns nested) {position : Nat} (used : list ∈ world.inUse)
    (read : source ∈ world.inUse) :
    Safe .burying (assignElement nested list position source config) world fun _ _ => True := by
  rw [assignElement_eq]
  refine .look ?_
  split
  next current found =>
    refine .look ?_
    split
    next live =>
      exact Safe.holding (by simpa using live) (fun _ _ began held => assigns.assignInPlace (began.mem_inUse used)
        (held _ List.mem_cons_self) (began.mem_inUse read)) fun _ _ _ _ => id
    next => exact safe_overwrite used read
  next => exact .throw

/-- A source is held while it is assigned. -/
theorem Assigns.holding_assignElement (assigns : Assigns nested) {position : Nat} (used : list ∈ world.inUse)
    (live : world.isLive source = true) :
    Safe .burying (holding [source] (Act.assignElement nested list position source config)) world fun _ _ => True :=
  Safe.holding (by simpa using live) (fun _ _ began read =>
    assigns.assignElement (began.mem_inUse used) (read _ List.mem_cons_self)) fun _ _ _ _ => id

theorem Assigns.assignSlot (assigns : Assigns nested) {position : Nat} (used : list ∈ world.inUse)
    (kept : Kept world slot) :
    Safe .burying (assignSlot nested list config position slot) world fun _ _ => True := by
  refine .with_sound fun sound => .look ?_
  split
  next live => exact assigns.holding_assignElement used live
  next => exact (safe_replaceSlot used (alive_singleton.mpr (kept.knows sound))).forget

theorem Assigns.assignOverlap (assigns : Assigns nested) {slots : List Slot} (position : Nat)
    (used : list ∈ world.inUse) (held : ∀ slot ∈ slots, Kept world slot) :
    Safe .burying (assignOverlap nested list config position slots) world fun _ _ => True := by
  induction slots generalizing world position with
  | nil => exact .pure trivial
  | cons slot rest ih =>
    obtain ⟨here, later⟩ := List.forall_mem_cons.mp held
    rw [assignOverlap_cons]
    exact (assigns.assignSlot used here).bind fun _ _ _ began _ =>
      ih (position + 1) (began.mem_inUse used) fun slot inside => began.kept (later slot inside)

private theorem safe_assignRest {overlap : Nat} {rest : List Slot} (alive : world.Alive rest)
    (old : list < world.heap.size) :
    Safe .burying (assignRest list overlap rest config) world fun _ _ => True := by
  unfold assignRest
  dsimp only
  split
  next =>
    refine .look ?_
    split
    next => exact .throw_bind
    next => exact safe_truncate.forget
  next =>
    apply (plans_plan.mapM_planSlot alive).bind
    exact fun copies _ _ began ⟨_, ready⟩ => (safe_extendByCopies ready (old.trans_le began.evolves.size_le)).relax

theorem Assigns.assignSlots (assigns : Assigns nested) {slots : List Slot} (used : list ∈ world.inUse)
    (held : ∀ slot ∈ slots, Kept world slot) : Safe .burying (assignSlots nested list config slots) world fun _ _ => True := by
  refine .look ?_
  apply (assigns.assignOverlap 0 used fun slot inside => held slot (List.mem_of_mem_take inside)).bind
  intro _ after sound passed _
  refine .look ?_
  split
  next => exact .pure trivial
  next =>
    refine safe_assignRest (fun slot inside => ?_) (lt_size_of_isLive (sound.inUse (passed.mem_inUse used)))
    exact (passed.kept (held slot (List.mem_of_mem_drop inside))).knows sound

theorem Assigns.assignListWith (assigns : Assigns nested) : Assigns (assignListWith nested config) := by
  intro list source world used
  rw [assignListWith_eq]
  refine .with_sound fun sound => .look ?_
  split
  next => exact .pure trivial
  next =>
    refine .look ?_
    have alive : world.Alive (world.slots source) := sound.alive_slots
    refine Safe.holding (fun ref member => ?_) (fun before _ began held => ?_) fun _ _ _ _ => id
    · obtain ⟨slot, inside, holds⟩ := List.mem_filterMap.mp member
      exact (alive slot inside).held ref holds
    · refine .whileBusy (fun busy _ went => ?_) fun _ _ _ _ => id
      exact assigns.assignSlots (went.mem_inUse (began.mem_inUse used)) fun slot inside => went.kept
        ⟨fun other holds => held other (List.mem_filterMap.mpr ⟨slot, inside, holds⟩), (began.knows (alive slot inside)).target⟩

theorem assigns_assignListWithin (fuel : Nat) : Assigns (assignListWithin fuel config) := by
  induction fuel with
  | zero => exact fun _ _ _ _ => .throw
  | succ fuel ih => exact ih.assignListWith

theorem safe_assignList (used : list ∈ world.inUse) :
    Safe .burying (assignList list source config) world fun _ _ => True :=
  .look (assigns_assignListWithin _ list source world used)

/-! Views and results of operations. -/

theorem safe_addHolding {object : Object} (unowned : object.parent = none) (bare : object.scope? = none)
    (live : ∀ other ∈ object.holds, world.isLive other = true)
    (grounded : object.content.Grounded world.heap.size world.heap.size) (empty : object.slots = []) :
    Safe .gentle (add object) world fun made after => after.isLive made = true := by
  refine (safe_add unowned (fun data found => by rw [bare] at found; cases found) live grounded empty).weaken ?_
  rintro made after - - ⟨rfl, rfl⟩
  exact isLive_size_add

theorem safe_view (live : world.isLive ref = true) :
    Safe .gentle (view ref) world fun shown after => after.isLive shown = true := by
  refine .look (.look ?_)
  split
  next => exact .pure live
  next =>
    refine safe_addHolding rfl rfl (fun other member => ?_) ?_ rfl
    · rwa [List.mem_singleton.mp member]
    · refine Body.grounded_var (fun _ none => nomatch none) fun source same => ?_
      exact Option.some.inj same ▸ lt_size_of_isLive live
  next => exact .look (safe_addVariable (by rintro _ ⟨⟩; trivial) (Storage.older_of_alone rfl) rfl)

theorem safe_onView {act : Ref → Act α} {post : α → World → Prop} (live : world.isLive ref = true)
    (safe : ∀ shown world, Safe .burying (act shown) world post)
    (stable : ∀ value {before after}, Evolves .releasing before after → post value before → post value after) :
    Safe .burying (onView ref act) world post := by
  apply (safe_view live).bind
  intro shown after _ _ lives
  exact Safe.holding (by simpa using lives) (fun before _ _ _ => safe shown before) stable

theorem safe_duplicateValue : Safe .gentle (duplicateValue config ref) world fun made after =>
    after.isLive made = true :=
  (reads_value ref world).bind fun _ _ _ _ exact => safe_addValue exact

theorem safe_binary {operation : BinaryOperation} {left right : Ref} :
    Safe .gentle (binary operation left right config) world fun made after => after.isLive made = true := by
  apply (reads_value right world).bind
  intro _ middle _ _ _
  apply (reads_value left middle).bind
  intro _ _ _ _ _
  exact .compute_bind fun _ computed => safe_addValue (Scalar.exact_binary computed)

theorem safe_unary {operation : UnaryOperation} :
    Safe .gentle (unary operation ref config) world fun made after => after.isLive made = true := by
  apply (reads_value ref world).bind
  intro _ _ _ _ exact
  exact .compute_bind fun _ computed => safe_addValue (Scalar.exact_unary exact computed)

end Dialogue.Act
