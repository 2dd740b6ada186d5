import Dialogue.Proofs.ListSafety
import Dialogue.Lists.Copying

/-! Copies in sound worlds. A plan mentions only objects that live, and since nothing is buried between
planning and making, they still live when the copy is made. -/

namespace Dialogue

namespace World

variable {world after last : World} {slot : Slot} {copies : List Copy}

mutual
/-- Whether a copy can be made: its values are rounded, what it shares lives, and none of its lists is
longer than one that there is. -/
def Ready (world : World) : Copy → Prop
  | .value scalar => scalar.Exact
  | .list items => (∃ like, items.length ≤ world.length like) ∧ world.ReadyAll items
  | .keep slot => world.Alive [slot]

def ReadyAll (world : World) : List Copy → Prop
  | [] => True
  | copy :: rest => world.Ready copy ∧ world.ReadyAll rest
end

private theorem readyAll_iff : world.ReadyAll copies ↔ ∀ copy ∈ copies, world.Ready copy := by
  induction copies with
  | nil => simp [ReadyAll]
  | cons copy rest ih => rw [ReadyAll, ih, List.forall_mem_cons]

mutual
theorem Ready.later (alive : ∀ ref, world.isLive ref = true → after.isLive ref = true)
    (longer : ∀ list, world.length list ≤ after.length list) (grown : world.heap.size ≤ after.heap.size) :
    ∀ copy : Copy, world.Ready copy → after.Ready copy
  | .value _, exact => exact
  | .list items, ⟨⟨like, short⟩, ready⟩ =>
    ⟨⟨like, short.trans (longer like)⟩, ReadyAll.later alive longer grown items ready⟩
  | .keep _, ready => fun other inside =>
    ⟨fun ref holds => alive ref ((ready other inside).held ref holds), (ready other inside).target.trans_le grown⟩

theorem ReadyAll.later (alive : ∀ ref, world.isLive ref = true → after.isLive ref = true)
    (longer : ∀ list, world.length list ≤ after.length list) (grown : world.heap.size ≤ after.heap.size) :
    ∀ copies : List Copy, world.ReadyAll copies → after.ReadyAll copies
  | [], _ => trivial
  | copy :: rest, ⟨first, others⟩ => ⟨Ready.later alive longer grown copy first, ReadyAll.later alive longer grown rest others⟩
end

/-- Lists that were there before have the same elements. -/
def KeepsLists (world after : World) : Prop := ∀ list < world.heap.size, after.slots list = world.slots list

theorem KeepsLists.length_eq (keeps : world.KeepsLists after) {list : Ref} (old : list < world.heap.size) :
    after.length list = world.length list :=
  congrArg List.length (keeps list old)

theorem KeepsLists.length_le (keeps : world.KeepsLists after) (list : Ref) : world.length list ≤ after.length list := by
  by_cases old : list < world.heap.size
  · exact (keeps.length_eq old).ge
  · rw [length, slots_eq_nil_of_size_le (Nat.not_lt.mp old)]
    exact Nat.zero_le _

theorem KeepsLists.trans (first : world.KeepsLists after) (second : after.KeepsLists last)
    (grown : world.heap.size ≤ after.heap.size) : world.KeepsLists last :=
  fun list old => (second list (old.trans_le grown)).trans (first list old)

end World

namespace Act

open World

variable {world : World} {ref list object : Ref} {slot : Slot} {config : Config}

theorem Follows.keepsLists {after : World} (follows : Follows .gentle world after) : world.KeepsLists after :=
  fun list _ => follows.evolves.slots list

theorem Follows.readyAll {after : World} {copies : List Copy} (follows : Follows .gentle world after)
    (ready : world.ReadyAll copies) : after.ReadyAll copies :=
  ReadyAll.later (fun _ => follows.isLive) follows.keepsLists.length_le follows.evolves.size_le copies ready

/-- Planning the copy of a living object is safe. -/
def Plans (plan : Ref → Act Copy) : Prop :=
  ∀ ref world, world.isLive ref = true → Safe .gentle (plan ref) world fun copy after => after.Ready copy

variable {plan : Ref → Act Copy}

theorem Plans.planSlot (plans : Plans plan) (alive : world.Alive [slot]) :
    Safe .gentle (planSlot plan slot) world fun copy after => after.Ready copy := by
  rcases slot with element | ⟨target, name⟩
  · exact plans element world ((alive_singleton.mp alive).held element rfl)
  · refine .look ?_
    split
    next live => exact plans target world live
    next => exact .pure alive

theorem Plans.mapM_planSlot (plans : Plans plan) {slots : List Slot} (alive : world.Alive slots) :
    Safe .gentle (slots.mapM (Act.planSlot plan)) world fun copies after =>
      copies.length = slots.length ∧ after.ReadyAll copies := by
  have all : Safe .gentle (slots.mapM (Act.planSlot plan)) world fun copies after =>
      copies.length = slots.length ∧ ∀ copy ∈ copies, after.Ready copy := by
    refine .mapM (fun copy after => after.Ready copy) (fun slot inside after began => ?_) ?_
    · exact plans.planSlot (alive_singleton.mpr (began.knows (alive slot inside)))
    · intro copy _ _ later ready
      exact Ready.later (fun _ => later.isLive) later.keepsLists.length_le later.evolves.size_le copy ready
  exact all.weaken fun _ _ _ _ ⟨counted, ready⟩ => ⟨counted, readyAll_iff.mpr ready⟩

/-- As many copies are planned as the list has elements. -/
theorem Plans.planSlots (plans : Plans plan) : Safe .gentle (planSlots plan list) world fun copies after =>
    copies.length = after.length list ∧ after.ReadyAll copies := by
  refine .with_sound fun sound => .look (.look ?_)
  split
  next =>
    refine .pure ⟨List.length_map _, readyAll_iff.mpr fun copy member => ?_⟩
    obtain ⟨kept, present, rfl⟩ := List.mem_map.mp member
    exact alive_singleton.mpr (sound.knows present)
  next =>
    refine .whileBusy (fun before _ began => ?_) fun copies before after later ⟨counted, ready⟩ => ?_
    · refine (plans.mapM_planSlot (began.alive sound.alive_slots)).weaken fun copies after _ went ⟨counted, ready⟩ => ?_
      exact ⟨counted.trans ((went.evolves.length list).trans (began.evolves.length list)).symm, ready⟩
    · exact ⟨counted.trans (later.evolves.length list).symm, later.readyAll ready⟩

theorem Plans.planWith (plans : Plans plan) : Plans (planWith plan config) := by
  intro ref world live
  refine .look ?_
  split
  next => exact (reads_value ref world).bind fun _ _ _ _ exact => .pure exact
  next =>
    refine .look ?_
    split
    next =>
      refine (safe_aliasOf (lt_size_of_isLive live)).bind fun slot after _ _ ⟨same, knows⟩ => .pure ?_
      exact alive_singleton.mpr (same ▸ knows)
    next => exact plans.planSlots.bind fun _ _ _ _ ⟨counted, ready⟩ => .pure ⟨⟨ref, counted.le⟩, ready⟩
  next => exact (safe_reference live).bind fun _ _ _ _ alive => .pure alive

private theorem plans_planWithin (fuel : Nat) : Plans (planWithin fuel config) := by
  induction fuel with
  | zero => exact fun _ _ _ => .throw
  | succ fuel ih => exact ih.planWith

theorem plans_plan : Plans (Act.plan config) :=
  fun ref world live => .look (plans_planWithin _ ref world live)

private theorem safe_addList {slots : List Slot} (alive : world.Alive slots)
    (short : ∃ like, slots.length ≤ world.length like) :
    Safe .filling (add { name := "", body := .list { slots } }) world fun made after =>
      after.isLive made = true ∧ world.KeepsLists after := by
  obtain ⟨like, fits⟩ := short
  intro sound
  refine ⟨.of_change (.make rfl (fun _ impossible => by cases impossible) (fun other member => ?_) ?_ ?_) rfl, ?_⟩
  · obtain ⟨slot, inside, holds⟩ := List.mem_filterMap.mp member
    exact (alive slot inside).held other holds
  · exact Body.grounded_list fun slot inside => (alive slot inside).target
  · exact .inr ⟨like, Freedom.fills_of_le fits rfl⟩
  · exact ⟨isLive_size_add, fun list old => by rw [slots_add, if_neg (Nat.ne_of_lt old)]⟩

mutual
private theorem safe_make {world : World} : ∀ copy : Copy, world.Ready copy →
    Safe .filling (make copy) world fun slot after => after.Alive [slot] ∧ world.KeepsLists after
  | .value scalar, exact => (safe_addValue exact).bind fun _ _ _ began live =>
    .pure ⟨alive_singleton.mpr (knows_held live), began.keepsLists⟩
  | .list items, ⟨⟨like, short⟩, ready⟩ => by
    apply (safe_makeAll items ready).bind
    intro slots after _ began ⟨alive, counted, keeps⟩
    have fits : slots.length ≤ after.length like := counted.trans_le (short.trans (keeps.length_le like))
    exact (safe_addList alive ⟨like, fits⟩).bind fun list last _ _ ⟨live, kept⟩ =>
      .pure ⟨alive_singleton.mpr (knows_held live), keeps.trans kept began.evolves.size_le⟩
  | .keep slot, alive => .pure ⟨alive, fun _ _ => rfl⟩

theorem safe_makeAll {world : World} : ∀ copies : List Copy, world.ReadyAll copies →
    Safe .filling (makeAll copies) world fun slots after =>
      after.Alive slots ∧ slots.length = copies.length ∧ world.KeepsLists after
  | [], _ => .pure ⟨alive_nil, rfl, fun _ _ => rfl⟩
  | copy :: rest, ⟨first, others⟩ => by
    apply (safe_make copy first).bind
    intro slot after _ began ⟨made, keeps⟩
    have ready := ReadyAll.later (fun _ => began.isLive) keeps.length_le began.evolves.size_le rest others
    refine (safe_makeAll rest ready).bind fun slots last _ went ⟨all, counted, kept⟩ => .pure ⟨?_, ?_, ?_⟩
    · exact alive_cons.mpr ⟨went.alive made, all⟩
    · exact congrArg Nat.succ counted
    · exact keeps.trans kept began.evolves.size_le
end

theorem safe_copy (live : world.isLive ref = true) : Safe .filling (copy config ref) world fun slot after =>
    after.Alive [slot] ∧ world.KeepsLists after := by
  apply (plans_plan ref world live).bind
  intro copy middle _ began ready
  refine (safe_make copy ready).weaken fun slot after _ _ ⟨alive, keeps⟩ => ⟨alive, ?_⟩
  exact began.keepsLists.trans keeps began.evolves.size_le

theorem safe_duplicateList : Safe .filling (duplicateList config list) world fun made after =>
    after.isLive made = true := by
  apply plans_plan.planSlots.bind
  intro copies middle _ _ ⟨counted, ready⟩
  apply (safe_makeAll copies ready).bind
  intro slots after _ _ ⟨alive, made, keeps⟩
  have fits : slots.length ≤ after.length list := (made.trans counted).trans_le (keeps.length_le list)
  exact (safe_addList alive ⟨list, fits⟩).weaken fun _ _ _ _ found => found.1

theorem safe_push (live : world.isLive object = true) (old : list < world.heap.size) :
    Safe .filling (push list object config) world fun found after => after.isLive found = true := by
  apply safe_requireChangeable.bind
  rintro _ after _ _ ⟨rfl, -⟩
  apply safe_requireRoom.bind
  rintro _ after _ _ ⟨rfl, room⟩
  apply (safe_copy live).bind
  intro slot middle _ _ ⟨alive, keeps⟩
  apply (safe_extend alive ((keeps.length_eq old).symm ▸ room)).bind
  intro _ last _ went _
  exact safe_element.weaken fun found final _ _ ⟨same, lives⟩ => same ▸ lives (alive_singleton.mp (went.alive alive))

/-- The room is measured for as many slots as the copies make. -/
theorem safe_extendByCopies {copies : List Copy} (ready : world.ReadyAll copies) (old : list < world.heap.size) :
    Safe .filling (do requireRoom list copies.length; extend list (← makeAll copies)) world fun _ _ => True := by
  apply safe_requireRoom.bind
  rintro _ after _ _ ⟨rfl, room⟩
  apply (safe_makeAll copies ready).bind
  intro slots made _ _ ⟨alive, counted, keeps⟩
  exact (safe_extend alive (by rwa [keeps.length_eq old, counted])).forget

theorem safe_append {other : Ref} (old : list < world.heap.size) :
    Safe .filling (append list other config) world fun _ _ => True := by
  apply safe_requireChangeable.bind
  rintro _ after _ _ ⟨rfl, -⟩
  apply plans_plan.planSlots.bind
  exact fun copies _ _ began ⟨_, ready⟩ => safe_extendByCopies ready (old.trans_le began.evolves.size_le)

theorem safe_replace {index : Int} (used : list ∈ world.inUse) (argument : object ∈ world.inUse) :
    Safe .burying (replace list index object config) world fun found after => after.isLive found = true := by
  apply safe_requireChangeable.bind
  rintro _ after _ _ ⟨rfl, -⟩
  apply safe_position.bind
  intro position middle sound began _
  apply (safe_copy (sound.inUse (began.mem_inUse argument))).bind
  intro slot last _ went ⟨alive, _⟩
  apply (safe_replaceSlot (went.mem_inUse (began.mem_inUse used)) alive).bind
  intro _ final _ _ placed
  exact safe_element.weaken fun found _ _ _ ⟨same, lives⟩ => same ▸ lives (alive_singleton.mp placed)

end Act

end Dialogue
