import Dialogue.Proofs.AssignmentSafety
import Dialogue.Proofs.Confinement

/-! Lists are assigned within their bounds. The overlap of two lists is measured once, so it must not change while
elements are assigned one after the other: the list that is being assigned is steady. Only a variable that is bound
to its length could change it, and none such is within reach. -/

namespace Dialogue

/-- Why a step has no result. -/
def Answer.stop? (answer : Answer) : Option Stop :=
  match answer.outcome with
  | .error stop => some stop
  | .ok _ => none

namespace Act

open World

variable {α : Type} {world after : World} {region steady : Ref → Prop} {guarded : Prop}
  {ref list source : Ref} {config : Config} {slot : Slot} {slots : List Slot}

/-- What acts do that are confined to a region. Those that are guarded stop for nothing but anomalies and overflows,
unless the fuel does not last. -/
def confined (region steady : Ref → Prop) (guarded : Prop) : Guarantee where
  keeps := Confined region steady guarded
  allows _ stop :=
    ((∃ anomaly, stop = .anomaly anomaly) ∨ stop = .fault .overflow) ∨ stop = .fault .exhausted ∨ ¬ guarded
  refl _ := .refl
  trans := .trans
  earlier _ allowed := allowed
  anomalies := .inl (.inl exists_anomaly)

/-- What confined acts rely on, everywhere on their way. -/
structure Fenced (region steady : Ref → Prop) (guarded : Prop) (world : World) : Prop where
  sound : world.Sound
  closed : world.Closed region
  unbound : guarded → world.Unbound region
  near : ∀ list, steady list → region list
  old : ∀ list, steady list → list < world.heap.size
  busy : ∀ list, steady list → world.isLive list = true → world.isBusy list = true

namespace Fenced

variable (fenced : Fenced region steady guarded world)

include fenced

theorem later (confined : Confined region steady guarded world after) (sound : after.Sound) :
    Fenced region steady guarded after where
  sound := sound
  closed := confined.closed fenced.closed
  unbound guards := confined.unbound (fenced.unbound guards)
  near := fenced.near
  old list inside := (fenced.old list inside).trans_le confined.size
  busy list inside live := by
    have old := fenced.old list inside
    rw [confined.isBusy old live]
    exact fenced.busy list inside (confined.isLive old live)

/-- Fewer steady lists. -/
theorem mono {fewer : Ref → Prop} (less : ∀ list, fewer list → steady list) : Fenced region fewer guarded world :=
  { fenced with
    near := fun list inside => fenced.near list (less list inside)
    old := fun list inside => fenced.old list (less list inside)
    busy := fun list inside => fenced.busy list (less list inside) }

theorem use {refs : List Ref} (alive : ∀ ref ∈ refs, world.isLive ref = true) :
    Fenced region steady guarded { world with inUse := refs ++ world.inUse } :=
  fenced.later confined_use ((follows_use fenced.sound alive).sound fenced.sound)

/-- A list that is not busy yet gets steady once it is. -/
theorem setBusy (near : region list) (isList : world.kindOf list = .list) :
    Fenced region (fun other => steady other ∨ other = list) guarded (world.setBusy list true) where
  sound := (follows_setBusy fenced.sound : Follows .gentle _ _).sound fenced.sound
  closed := fenced.closed.setBusy
  unbound guards := (fenced.unbound guards).setBusy
  near other inside := inside.elim (fenced.near other) fun same => same ▸ near
  old other inside := by
    rw [World.setBusy, changeList, heap_size_change]
    exact inside.elim (fenced.old other) fun same => same ▸ lt_size_of_isLive (isLive_of_isList isList)
  busy other inside live := by
    rw [isBusy_setBusy]
    split
    next here =>
      obtain ⟨data, listed⟩ := list?_of_isList isList
      rw [← here, listed]
      rfl
    next elsewhere =>
      rw [World.setBusy, changeList, isLive_change] at live
      exact inside.elim (fenced.busy other · live) fun same => absurd same.symm elsewhere

end Fenced

/-! Rules. -/

theorem Meets.confined {act : Act α} {result : α → World → Prop} (meets : Meets quiet act world result) :
    Meets (confined region steady guarded) act world result :=
  meets.relax Undisturbed.confined .inl

theorem Meets.confined_compute_bind {β : Type} {value : Except (Failure Cause) α} {next : α → Act β}
    {post : β → World → Prop} (rest : ∀ found, Meets (Act.confined region steady guarded) (next found) world post) :
    Meets (Act.confined region steady guarded) (Act.compute value >>= next) world post :=
  .compute_bind (fun _ => .inl (.inr rfl)) fun found _ => rest found

theorem Meets.confined_holding {act : Act α} {result : α → Prop} {refs : List Ref}
    (meets : Meets (Act.confined region steady guarded) act { world with inUse := refs ++ world.inUse }
      fun value _ => result value) :
    Meets (Act.confined region steady guarded) (Act.holding refs act) world fun value _ => result value := by
  have keeps {after : World} (kept : Confined region steady guarded { world with inUse := refs ++ world.inUse } after) :
      Confined region steady guarded world (after.settle world.inUse) := (confined_use.trans kept).trans confined_settle
  exact meets.holding keeps (fun allowed => allowed) fun _ _ done => done

theorem Meets.confined_whileBusy {act : Act α} {result : α → Prop} (free : world.isBusy list = false)
    (meets : Meets (Act.confined region steady guarded) act (world.setBusy list true) fun value _ => result value) :
    Meets (Act.confined region steady guarded) (Act.whileBusy list act) world fun value _ => result value :=
  meets.whileBusy (fun kept => kept.whileBusy free) (fun allowed => allowed) fun _ _ done => done

/-! Copies. -/

theorem confines_addValue {name : String} {value : Scalar} :
    Meets (confined region steady guarded) (addValue name value) world fun made _ => made = world.heap.size :=
  ⟨confined_add (by rintro _ _ ⟨⟩) (fun _ none => nomatch none), rfl⟩

private theorem confines_addList (within : ∀ slot ∈ slots, region slot.target) :
    Meets (confined region steady guarded) (add { name := "", body := .list { slots } }) world
      fun made _ => made = world.heap.size :=
  ⟨confined_add (by rintro _ _ ⟨⟩) within, rfl⟩

mutual
private theorem confines_make {world : World} (closed : world.Closed region) : ∀ copy : Copy, copy.SharesIn region →
    Meets (confined region steady guarded) (make copy) world fun slot _ => region slot.target
  | .value _, _ => confines_addValue.bind fun _ _ _ same => .pure (closed.new _ same.ge)
  | .list items, within => by
    apply (confines_makeAll closed items within).bind
    intro slots after kept near
    exact (confines_addList near).bind fun _ _ _ same => .pure ((kept.closed closed).new _ same.ge)
  | .keep _, within => .pure within

theorem confines_makeAll {world : World} (closed : world.Closed region) :
    ∀ copies : List Copy, Copy.AllShareIn region copies →
    Meets (confined region steady guarded) (makeAll copies) world fun slots _ => ∀ slot ∈ slots, region slot.target
  | [], _ => .pure fun _ none => nomatch none
  | copy :: rest, ⟨first, others⟩ => by
    apply (confines_make closed copy first).bind
    intro slot after kept near
    apply (confines_makeAll (kept.closed closed) rest others).bind
    intro slots _ _ all
    exact .pure (List.forall_mem_cons.mpr ⟨near, all⟩)
end

theorem confines_copy (fenced : Fenced region steady guarded world)
    (near : world.kindOf source ≠ .var → region source) :
    Meets (confined region steady guarded) (copy config source) world fun slot _ => region slot.target := by
  apply (meets_plan fenced.sound.ordered fenced.closed near).confined.bind
  intro copy after kept within
  exact confines_make (kept.closed fenced.closed) copy within

/-! Slots. A list that is steady gets no more and no fewer of them. -/

theorem confines_extend (within : ∀ slot ∈ slots, region slot.target) (free : guarded → ¬ steady list) :
    Meets (confined region steady guarded) (extend list slots) world fun _ _ => True := by
  refine .update (confined_changeSlots (fun closed near slot inside => ?_) fun guards still => absurd still (free guards)) trivial
  exact (List.mem_append.mp inside).elim (closed.slots near) (within slot)

private theorem confines_truncate {length : Nat} (free : guarded → ¬ steady list) :
    Meets (confined region steady guarded) (truncate list length) world fun _ _ => True := by
  have cut : Confined region steady guarded world (world.changeSlots list (·.take length)) :=
    confined_changeSlots (fun closed near _ inside => closed.slots near (List.mem_of_mem_take inside))
      fun guards still => absurd still (free guards)
  exact .look (.update_bind cut (.update (confined_releaseAll _) trivial))

/-- A slot that exists is replaced by one that refers into the region. -/
private theorem confines_replaceSlot {position : Nat} (near : region slot.target)
    (inside : guarded → position < world.length list) :
    Meets (confined region steady guarded) (replaceSlot list position slot) world fun _ _ => True := by
  refine .look ?_
  split
  next missing =>
    exact .throw (.inr (.inr fun guards => absurd (inside guards) (Nat.not_lt.mpr (List.getElem?_eq_none_iff.mp missing))))
  next previous found =>
    have replaced : Confined region steady guarded world (world.changeSlots list (·.set position slot)) := by
      refine confined_changeSlots (fun closed within other member => ?_) fun _ _ => List.length_set
      exact (List.mem_or_eq_of_mem_set member).elim (closed.slots within) fun same => same ▸ near
    exact .update_bind replaced (.update (confined_releaseAll _) trivial)

private theorem confines_zeros (count : Nat) (closed : world.Closed region) :
    Meets (confined region steady guarded) (zeros config count) world
      fun slots _ => ∀ slot ∈ slots, region slot.target := by
  induction count generalizing world with
  | zero => exact .pure fun _ none => nomatch none
  | succ count ih =>
    apply confines_addValue.bind
    intro made after kept same
    apply (ih (kept.closed closed)).bind
    intro slots _ _ all
    exact .pure (List.forall_mem_cons.mpr ⟨closed.new _ same.ge, all⟩)

/-- Steady lists can be resized only where they are constant. -/
theorem confines_resize {size : Int} (closed : world.Closed region)
    (fixed : guarded → steady list → world.isConstant list = true) :
    Meets (confined region steady guarded) (resize list size config) world fun _ _ => True := by
  have free (changeable : world.isConstant list = false) : guarded → ¬ steady list := fun guards still => by
    rw [fixed guards still] at changeable
    cases changeable
  apply Meets.resize
  · intro changeable _ _
    exact (confines_zeros _ closed).bind fun slots _ _ within => confines_extend within (free changeable)
  · intro changeable _ _ _
    exact confines_truncate (free changeable)

/-! Names. -/

theorem confines_member? {scope : Ref} {name : String} :
    Meets (confined region steady guarded) (member? scope name) world fun _ _ => True :=
  .update_bind confined_materialize (.see trivial)

private theorem confines_hasMember {scope : Ref} {name : String} :
    Meets (confined region steady guarded) (hasMember scope name) world fun _ _ => True :=
  confines_member?.bind fun _ _ _ _ => .pure trivial

private theorem confines_adopt {scope object : Ref} :
    Meets (confined region steady guarded) (adopt scope object) world fun _ _ => True := by
  refine .look ?_
  apply confines_hasMember.bind
  intro _ _ _ _
  split
  next => exact .look .raise_bind
  next =>
    refine .look ?_
    split
    next => exact .look .raise_bind
    next => exact .update (confined_detach.trans confined_insertMember) trivial

private theorem confines_unregister {scope : Ref} {name : String} :
    Meets (confined region steady guarded) (unregister scope name) world fun _ _ => True := by
  refine .look ?_
  split
  next => exact .look .raise
  next => exact .update_bind (confined_changeMembers.trans confined_setParent) (.pure trivial)

private theorem confines_rename {object : Ref} {name : String} :
    Meets (confined region steady guarded) (rename object name) world fun _ _ => True := by
  apply Meets.requireChangeable.bind
  rintro _ after - ⟨rfl, -⟩
  refine .look ?_
  split
  next => exact .pure trivial
  next =>
    refine .look ?_
    split
    next => exact .update (confined_change (fun _ => rfl) fun _ => rfl) trivial
    next =>
      apply confines_hasMember.bind
      intro _ _ _ _
      split
      next => exact .look .raise_bind
      next =>
        apply confines_unregister.bind
        intro taken _ _ _
        exact .update_bind (confined_change (fun _ => rfl) fun _ => rfl) confines_adopt

/-! Values. -/

private theorem confines_setPrecision {target : Ref} {requested : Int} :
    Meets (confined region steady guarded) (setPrecision target requested config) world fun _ _ => True := by
  refine .lift_bind fun _ _ => ?_
  apply Meets.requireChangeable.bind
  rintro _ after - ⟨rfl, -⟩
  refine .look ?_
  split
  next number stored =>
    refine .confined_compute_bind fun _ => ?_
    refine .update (confined_setStorage (by rintro _ _ ⟨⟩) (.inr fun text same => ?_)) trivial
    rw [stored] at same
    cases same
  next => exact .look .raise
  next => exact .refuseWrite

private theorem confines_setConfig : Meets (confined region steady guarded) (setConfig config) world fun _ _ => True :=
  .update (confined_of_heap rfl) trivial

private theorem confines_writeSetting {which : Setting} {value : Scalar} :
    Meets (confined region steady guarded) (writeSetting which value config) world fun _ _ => True := by
  refine .look ?_
  cases which with
  | strictLists => exact .confined_compute_bind fun _ => confines_setConfig
  | _ => exact .confined_compute_bind fun _ => .lift_bind fun _ _ => confines_setConfig

private theorem confines_writeBinding {binding : Binding} {value : Scalar} (fenced : Fenced region steady guarded world)
    (near : region ref) (bound : world.storage? ref = some (.bound binding)) (changeable : world.isConstant ref = false) :
    Meets (confined region steady guarded) (writeBinding ref binding value config) world fun _ _ => True := by
  cases binding with
  | cell kept readOnly =>
    cases readOnly with
    | true => exact .refuseWrite
    | false => exact .update (confined_setStorage (by rintro _ _ ⟨⟩) (.inl near)) trivial
  | length list name =>
    apply Meets.demand.bind
    rintro found after - ⟨rfl, rfl, live⟩
    refine .confined_compute_bind fun _ => confines_resize fenced.closed fun guards still => ?_
    have fixed := (fenced.unbound guards ref found name near (fenced.near found still) bound).2 live
    exact fixed.resolve_left (by rw [changeable]; exact Bool.false_ne_true)
  | precision target name =>
    apply Meets.demand.bind
    rintro found after - ⟨rfl, rfl, -⟩
    exact .confined_compute_bind fun _ => confines_setPrecision
  | ownerName owner =>
    apply Meets.demand.bind
    rintro found after - ⟨rfl, rfl, -⟩
    exact .confined_compute_bind fun _ => confines_rename
  | beenSaid block =>
    apply Meets.demand.bind
    rintro found after - ⟨rfl, rfl, -⟩
    refine .confined_compute_bind fun _ => ?_
    exact .update (confined_changeBlock fun _ => rfl) trivial
  | setting which => exact confines_writeSetting

private theorem confines_assign {value : Scalar} (fenced : Fenced region steady guarded world) (near : region ref) :
    Meets (confined region steady guarded) (assign ref value config) world fun _ _ => True := by
  apply Meets.requireChangeable.bind
  rintro _ after - ⟨rfl, changeable⟩
  refine .look ?_
  split
  next => exact .update (confined_setStorage (by rintro _ _ ⟨⟩) (.inl near)) trivial
  next bound => exact confines_writeBinding fenced near bound changeable
  next => exact .refuseWrite

private theorem confines_assignFrom (fenced : Fenced region steady guarded world) (near : region ref) :
    Meets (confined region steady guarded) (assignFrom ref source config) world fun _ _ => True := by
  apply ((meets_value fenced.sound.ordered).confined.with_safe fenced.sound (reads_value source world)).bind
  rintro value after kept ⟨-, sound, -⟩
  exact confines_assign (fenced.later kept sound) near

/-! Assignment. -/

/-- Assigning to any list in the region is confined to it. -/
def Confines (region : Ref → Prop) (guarded : Prop) (nested : Ref → Ref → Act Unit) : Prop :=
  ∀ steady list source world, Fenced region steady guarded world → world.kindOf list = .list → region list →
    region source → list ∈ world.inUse → Meets (confined region steady guarded) (nested list source) world fun _ _ => True

variable {nested : Ref → Ref → Act Unit}

private theorem confines_overwrite {position : Nat} (fenced : Fenced region steady guarded world) (still : steady list)
    (inside : guarded → position < world.length list) (used : list ∈ world.inUse) (read : source ∈ world.inUse)
    (near : region source) :
    Meets (confined region steady guarded) (overwrite list position source config) world fun _ _ => True := by
  apply ((confines_copy fenced fun _ => near).with_safe fenced.sound (safe_copy (fenced.sound.inUse read))).bind
  rintro slot after kept ⟨within, sound, began, -⟩
  refine confines_replaceSlot within fun guards => ?_
  rw [kept.counts guards list (fenced.old list still) still (sound.inUse (began.mem_inUse used))]
  exact inside guards

theorem Confines.assignElement (confines : Confines region guarded nested) {position : Nat}
    (fenced : Fenced region steady guarded world) (still : steady list)
    (inside : guarded → position < world.length list) (used : list ∈ world.inUse) (read : source ∈ world.inUse)
    (near : region source) :
    Meets (confined region steady guarded) (assignElement nested list position source config) world
      fun _ _ => True := by
  rw [assignElement_eq]
  refine .look ?_
  split
  next current found =>
    have within := fenced.closed.slots (fenced.near list still) (List.mem_of_getElem? found)
    refine .look ?_
    split
    next live =>
      have held := fenced.use (List.forall_mem_singleton.mpr live)
      have usedBefore {refs : List Ref} : list ∈ refs ++ world.inUse := List.mem_append_right _ used
      have readBefore {refs : List Ref} : source ∈ refs ++ world.inUse := List.mem_append_right _ read
      refine Meets.confined_holding (.assignInPlace ?_ (fun _ _ _ => ?_) fun isList _ _ _ => ?_)
      · exact confines_overwrite held still inside usedBefore readBefore near
      · exact confines_assignFrom held within
      · exact confines steady _ source _ held isList within near List.mem_cons_self
    next => exact confines_overwrite fenced still inside used read near
  next missing =>
    exact .throw (.inr (.inr fun guards => missing _ (List.getElem?_eq_getElem (inside guards))))

/-- A slot that is assigned or replaced refers into the region. -/
theorem Confines.assignSlot (confines : Confines region guarded nested) {position : Nat} {slot : Slot}
    (fenced : Fenced region steady guarded world) (still : steady list)
    (inside : guarded → position < world.length list) (used : list ∈ world.inUse) (near : region slot.target) :
    Meets (confined region steady guarded) (assignSlot nested list config position slot) world fun _ _ => True := by
  refine .look ?_
  split
  next live =>
    exact Meets.confined_holding (confines.assignElement (fenced.use (List.forall_mem_singleton.mpr live)) still inside
      (List.mem_append_right _ used) List.mem_cons_self near)
  next => exact confines_replaceSlot near inside

theorem Confines.assignOverlap (confines : Confines region guarded nested) (assigns : Assigns nested) (position : Nat)
    (fenced : Fenced region steady guarded world) (still : steady list) (used : list ∈ world.inUse)
    (inside : guarded → position + slots.length ≤ world.length list) (near : ∀ slot ∈ slots, region slot.target)
    (held : ∀ slot ∈ slots, Kept world slot) :
    Meets (confined region steady guarded) (assignOverlap nested list config position slots) world fun _ _ => True := by
  induction slots generalizing world position with
  | nil => exact .pure trivial
  | cons slot rest ih =>
    obtain ⟨here, later⟩ := List.forall_mem_cons.mp held
    obtain ⟨hereNear, laterNear⟩ := List.forall_mem_cons.mp near
    rw [List.length_cons] at inside
    have first : guarded → position < world.length list := fun guards => by have := inside guards; omega
    rw [assignOverlap_cons]
    apply ((confines.assignSlot fenced still first used hereNear).with_safe fenced.sound (assigns.assignSlot used here)).bind
    rintro _ after kept ⟨-, sound, began, -⟩
    refine ih (position + 1) (fenced.later kept sound) (began.mem_inUse used) (fun guards => ?_) laterNear
      fun slot inside => began.kept (later slot inside)
    rw [kept.counts guards list (fenced.old list still) still (sound.inUse (began.mem_inUse used))]
    have := inside guards
    omega

private theorem confines_assignRest {overlap : Nat} {rest : List Slot} (fenced : Fenced region steady guarded world)
    (free : guarded → ¬ steady list) (inside : guarded → overlap ≤ world.length list)
    (near : ∀ slot ∈ rest, region slot.target) :
    Meets (confined region steady guarded) (assignRest list overlap rest config) world fun _ _ => True := by
  unfold assignRest
  split
  next =>
    refine .look ?_
    split
    next short => exact .throw_bind (.inr (.inr fun guards => absurd short (Nat.not_lt.mpr (inside guards))))
    next => exact confines_truncate free
  next =>
    have planned : Meets quiet (rest.mapM (planSlot (plan config))) world _ :=
      meets_mapM_planSlot near fun slot inside inner went =>
        meets_plan (went.ordered fenced.sound.ordered) (went.closed fenced.closed) fun _ => near slot inside
    apply planned.confined.bind
    intro copies after kept within
    apply Meets.requireRoom.bind
    rintro _ _ - rfl
    apply (confines_makeAll (kept.closed fenced.closed) copies (Copy.allShareIn_iff.mpr within)).bind
    exact fun slots _ _ within => confines_extend within free

/-- The list is steady while its elements are assigned, and no longer when it takes the length of the source. -/
theorem Confines.assignSlots (confines : Confines region guarded nested) (assigns : Assigns nested)
    (fenced : Fenced region (fun other => steady other ∨ other = list) guarded world) (unsteady : ¬ steady list)
    (used : list ∈ world.inUse) (near : ∀ slot ∈ slots, region slot.target) (held : ∀ slot ∈ slots, Kept world slot) :
    Meets (confined region steady guarded) (assignSlots nested list config slots) world fun _ _ => True := by
  refine .look ?_
  dsimp only
  have fits : 0 + (slots.take (min (world.length list) slots.length)).length ≤ world.length list := by simp
  have heldFirst : ∀ slot ∈ slots.take (min (world.length list) slots.length), Kept world slot :=
    fun slot inside => held slot (List.mem_of_mem_take inside)
  have nearFirst : ∀ slot ∈ slots.take (min (world.length list) slots.length), region slot.target :=
    fun slot inside => near slot (List.mem_of_mem_take inside)
  have walked : Meets (confined region (fun other => steady other ∨ other = list) guarded)
      (Act.assignOverlap nested list config 0 (slots.take (min (world.length list) slots.length))) world
      fun _ after => Confined region (fun other => steady other ∨ other = list) guarded world after ∧ after.Sound ∧
        Follows .burying world after :=
    ((confines.assignOverlap assigns 0 fenced (.inr rfl) used (fun _ => fits) nearFirst heldFirst).with_safe
      fenced.sound (assigns.assignOverlap 0 used heldFirst)).weaken
      fun _ _ kept ⟨_, sound, began, _⟩ => ⟨kept, sound, began⟩
  have relaxed : Meets (confined region steady guarded) _ world _ :=
    walked.relax (fun kept => kept.mono fun _ => .inl) fun allowed => allowed
  apply relaxed.bind
  rintro _ after - ⟨kept, sound, began⟩
  refine .look ?_
  split
  next => exact .pure trivial
  next =>
    have later := (fenced.later kept sound).mono fun _ => .inl
    refine confines_assignRest later (fun _ => unsteady) (fun guards => ?_)
      fun slot inside => near slot (List.mem_of_mem_drop inside)
    rw [kept.counts guards list (fenced.old list (.inr rfl)) (.inr rfl) (sound.inUse (began.mem_inUse used))]
    exact Nat.min_le_left ..

theorem Confines.assignListWith (confines : Confines region guarded nested) (assigns : Assigns nested) :
    Confines region guarded (assignListWith nested config) := by
  intro steady list source world fenced isList near origin used
  rw [assignListWith_eq]
  refine .look ?_
  split
  next => exact .pure trivial
  next apart =>
    have free := Bool.not_eq_true _ ▸ (not_or.mp apart).2
    have unsteady : ¬ steady list := fun still => by
      rw [fenced.busy list still (isLive_of_isList isList)] at free
      cases free
    have known : ∀ slot ∈ world.slots source, world.Knows slot := fun _ => fenced.sound.knows
    have alive : ∀ ref ∈ (world.slots source).filterMap Slot.held?, world.isLive ref = true := by
      intro ref member
      obtain ⟨slot, inside, holds⟩ := List.mem_filterMap.mp member
      exact (known slot inside).held ref holds
    have before := (fenced.use alive).setBusy near isList
    refine .look (Meets.confined_holding (Meets.confined_whileBusy free ?_))
    refine confines.assignSlots assigns before unsteady (List.mem_append_right _ used)
      (fun slot => fenced.closed.slots origin) fun slot inside => ?_
    refine ⟨fun element holds => ?_, ?_⟩
    · exact List.mem_append_left _ (List.mem_filterMap.mpr ⟨slot, inside, holds⟩)
    · exact (known slot inside).target.trans_eq heap_size_change.symm

theorem confines_assignListWithin (fuel : Nat) : Confines region guarded (assignListWithin fuel config) := by
  induction fuel with
  | zero => exact fun _ _ _ _ _ _ _ _ _ => .throw (.inr (.inl rfl))
  | succ fuel ih => exact ih.assignListWith (assigns_assignListWithin fuel)

end Act

namespace World

variable {world : World} {list source ref other : Ref}

/-- Whether an object is found from a list by going from elements to elements. -/
def Reaches (world : World) : Ref → Ref → Prop :=
  Relation.ReflTransGen fun holder ref => ∃ slot ∈ world.slots holder, slot.target = ref

/-- Whether an object is the list, the source, or inside one of them at any depth. -/
def WithinReach (world : World) (list source ref : Ref) : Prop := world.Reaches list ref ∨ world.Reaches source ref

/-- Whether no variable within reach can change the length of a list within reach. -/
def LengthsFixed (world : World) (list source : Ref) : Prop :=
  ∀ ref counted name, world.WithinReach list source ref → world.WithinReach list source counted →
    world.storage? ref = some (.bound (.length counted name)) → world.isLive counted = true →
    world.isConstant ref = true ∨ world.isConstant counted = true

theorem LengthsFixed.unbound (fixed : world.LengthsFixed list source) (sound : world.Sound) :
    world.Unbound fun ref => world.heap.size ≤ ref ∨ world.WithinReach list source ref := by
  intro ref counted name near inside bound
  have live := lt_size_of_isLive (isLive_of_content? (content?_eq_some_var.mpr bound))
  have older := (sound.grounded (content?_eq_some_var.mpr bound)).older _ rfl counted rfl
  have known := older.trans live
  exact ⟨known, fixed ref counted name (near.resolve_left (Nat.not_le.mpr live))
    (inside.resolve_left (Nat.not_le.mpr known)) bound⟩

theorem lt_size_of_isBusy (busy : world.isBusy ref = true) : ref < world.heap.size := by
  by_contra fresh
  rw [isBusy, list?_eq, content?_of_size_le (Nat.not_lt.mp fresh)] at busy
  cases busy

end World

end Dialogue
