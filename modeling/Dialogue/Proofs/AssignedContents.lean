import Dialogue.Proofs.AssignedTrees
import Dialogue.Proofs.AssignmentBounds

/-! Contents that a list takes over by an assignment. Past the overlap a list loses what it has more than the source, or
gets copies of what the source has more; then it has the contents of the source, at every depth, and the source has not
changed. Only what lives counts: an alias may lose its object when the assignment lets go of the scope that owned it. -/

namespace Dialogue

namespace Act

open World ContentTree

variable {world after : World} {list source : Ref} {config : Config} {mines givens mades : List ContentTree} {bound overlap : Nat}
  {slots rest : List Slot} {nested : Ref → Ref → Act Unit}

/-- A list loses what lies past an index. -/
theorem gives_truncate_take (sound : world.Sound) (used : list ∈ world.inUse) (isList : world.kindOf list = .list) :
    Gives (truncate list overlap) world fun _ after =>
      Touches (· = list) world after ∧ after.slots list = (world.slots list).take overlap := by
  have old : list < (world.changeSlots list (·.take overlap)).heap.size :=
    (lt_size_of_isLive (sound.inUse used)).trans_eq heap_size_change.symm
  have ran : truncate list overlap world = .ok () ((world.changeSlots list (·.take overlap)).releaseAll
      (((world.slots list).drop overlap).filterMap Slot.held?)) := rfl
  have follows := (safe_truncate.of_ok sound ran).1
  have live := (follows.sound sound).inUse (follows.mem_inUse used)
  have changed : Touches (· = list) world (world.changeSlots list (·.take overlap)) := touches_changeList rfl
  have released : Touches (fun _ => False) (world.changeSlots list (·.take overlap)) _ :=
    touches_releaseAll (((world.slots list).drop overlap).filterMap Slot.held?)
  refine ⟨(), _, ran, changed.trans (touches_releaseAll _), ?_⟩
  rw [released.slots old id live, slots_changeSlots, if_pos ⟨rfl, isList⟩]

/-- A list gets copies of trees. -/
private theorem gives_extend_copies (isList : world.kindOf list = .list) (apart : list ∉ nodesOf givens)
    (stand : AllStand world givens)
    (once : (nodesOf givens).Nodup) (sources : rest.map Slot.target = givens.map ContentTree.ref)
    (room : world.length list + givens.length ≤ Limits.listLength) :
    Gives (do
      let copies ← rest.mapM (planSlot (plan config))
      requireRoom list copies.length
      extend list (← makeAll copies)) world fun _ after => Touches (· = list) world after ∧ ∃ slots mades,
        after.slots list = world.slots list ++ slots ∧ slots.map Slot.target = mades.map ContentTree.ref ∧
          (∀ slot ∈ slots, Aliases (· ∈ refsOf givens) slot) ∧ CopyAll world after givens mades := by
  have plans : ∀ tree ∈ givens, ∀ inner, world.Undisturbed inner → PlansTree (plan config) inner tree :=
    fun tree member inner went => plansTree_plan ((allStand_iff.mp stand tree member).kept went.touches)
      (once.sublist (nodes_sublist member))
  refine (gives_mapM_planSlot sources plans).bind fun copies middle ⟨reproduces, still⟩ => ?_
  have fits : middle.length list + copies.length ≤ Limits.listLength := by
    rwa [reproduces.length, World.length, still.slots, ← World.length]
  refine (gives_requireRoom fits).bind ?_
  rintro _ _ rfl
  have standing : AllStand _ givens := stand.kept still.touches
  refine (gives_makeAll_trees still.size.ge copies reproduces standing).bind ?_
  rintro slots made ⟨extended, mades, targets, aliases, copied⟩
  have old : list < world.heap.size := lt_size_of_isLive (isLive_of_isList isList)
  have same := extended.old list (old.trans_eq still.size.symm)
  have kind : made.kindOf list = .list := by
    rw [kindOf, same, ← kindOf, still.kindOf, isList]
  have slotsEq : made.slots list = world.slots list := by
    rw [slots_eq, same, ← slots_eq, still.slots]
  have changed : Touches (· = list) made (made.changeSlots list (· ++ slots)) := touches_changeList rfl
  have outside : ∀ ref ∈ nodesOf mades, ref ≠ list := by
    rintro _ member rfl
    exact (copied.nodes _ member).elim (fun fresh => absurd old (Nat.not_lt.mpr fresh)) apart
  refine .update ⟨still.touches.trans (extended.touches.trans changed), slots, mades, ?_, targets, aliases, ?_⟩
  · rw [slots_changeSlots, if_pos ⟨rfl, kind⟩, slotsEq]
  · exact ⟨copied.stand.later changed outside, copied.contents, copied.nodes,
      copied.aliased.later changed copied.stand.nodes_lt_size outside⟩

/-- Past the overlap a list comes to have as many elements as the source. -/
private theorem gives_assignRest (sound : world.Sound) (used : list ∈ world.inUse) (isList : world.kindOf list = .list)
    (apart : list ∉ nodesOf givens) (stand : AllStand world givens) (once : (nodesOf givens).Nodup)
    (sources : rest.map Slot.target = givens.map ContentTree.ref) (inside : overlap ≤ world.length list)
    (whole : givens ≠ [] → world.length list = overlap) (room : overlap + givens.length ≤ Limits.listLength) :
    Gives (assignRest list overlap rest config) world fun _ after => Touches (· = list) world after ∧ ∃ slots mades,
      after.slots list = (world.slots list).take overlap ++ slots ∧ slots.map Slot.target = mades.map ContentTree.ref ∧
        (∀ slot ∈ slots, Aliases (· ∈ refsOf givens) slot) ∧ CopyAll world after givens mades := by
  unfold assignRest
  cases rest with
  | nil =>
    obtain rfl := List.map_eq_nil_iff.mp sources.symm
    refine .look ?_
    rw [if_neg (Nat.not_lt.mpr inside)]
    obtain ⟨_, after, ran, touches, kept⟩ := gives_truncate_take sound used isList
    exact ⟨(), after, ran, touches, [], [], by rw [kept, List.append_nil], rfl, List.forall_mem_nil _, trivial, rfl,
      List.forall_mem_nil _, List.forall_mem_nil _⟩
  | cons slot slots =>
    have past : givens ≠ [] := by
      rintro rfl
      cases sources
    have length := whole past
    have all : (world.slots list).take overlap = world.slots list := List.take_of_length_le length.le
    rw [all]
    exact gives_extend_copies isList apart stand once sources (length ▸ room)

/-- What has come of assigning the overlap of two lists. -/
structure Overlapped (world : World) (list : Ref) (mines givens : List ContentTree) (overlap : Nat) (middle : World)
    (taken : List ContentTree) : Prop where
  touches : Touches (fun ref => ref = list ∨ ref ∈ nodesOf (mines.take overlap)) world middle
  targets : (middle.slots list).map Slot.target = (taken ++ mines.drop overlap).map ContentTree.ref
  aliases : ∀ slot ∈ middle.slots list, Aliases (fun ref => ref ∈ refsOf mines ∨ ref ∈ refsOf givens) slot
  all : TakeAll world middle (mines.take overlap) (givens.take overlap) taken
  count : overlap = min mines.length givens.length

namespace Overlapped

variable {middle : World} {taken : List ContentTree} (overlapped : Overlapped world list mines givens overlap middle taken)

include overlapped

theorem length_taken : taken.length = overlap := by
  have counted : (contentsOf taken).length = (contentsOf (givens.take overlap)).length := congrArg _ overlapped.all.contents
  have least := overlapped.count
  rw [contentsOf_eq, contentsOf_eq, List.length_map, List.length_map, List.length_take] at counted
  omega

theorem nodes (ref : Ref) (member : ref ∈ nodesOf taken) :
    ref ∈ nodesOf mines ∨ ref ∈ nodesOf givens ∨ world.heap.size ≤ ref :=
  (overlapped.all.nodes ref member).imp mem_nodesOf_of_mem_take
    (.imp_left mem_nodesOf_of_mem_take)

theorem aliased : Aliased middle (list :: nodesOf taken) fun ref => ref ∈ refsOf mines ∨ ref ∈ refsOf givens :=
  List.forall_mem_cons.mpr ⟨overlapped.aliases, overlapped.all.aliased.mono fun _ =>
    .imp (refsOf_subset (List.take_subset ..) ·) (refsOf_subset (List.take_subset ..) ·)⟩

/-- A constant list keeps what lies past the overlap. -/
theorem assigned (apart : list ∉ nodesOf mines) (separate : Separate world mines givens)
    (constant : world.isConstant list = true) :
    Assigned world list mines givens middle (taken ++ mines.drop overlap) := by
  have count := overlapped.count
  have surplus : mines.drop overlap = mines.drop givens.length := by
    rw [count, min_comm, ← List.drop_eq_drop_min]
  have first : givens.take overlap = givens.take mines.length := by
    rw [count, ← List.take_eq_take_min]
  have parts : (nodesOf (mines.take overlap) ++ nodesOf (mines.drop overlap)).Nodup := by
    rw [← nodesOf_append, List.take_append_drop]
    exact (List.nodup_append.mp separate.once).1
  have differ := (List.nodup_append.mp parts).2.2
  have inside : ∀ ref ∈ nodesOf (mines.drop overlap), ref ∈ nodesOf mines :=
    fun _ => mem_nodesOf_of_mem_drop
  have kept : AllStand middle (mines.drop overlap) := (separate.stand.drop overlap).later overlapped.touches fun ref member touched => by
    rcases touched with rfl | taken
    · exact apart (inside _ member)
    · exact differ ref taken ref member rfl
  refine ⟨overlapped.touches.mono fun ref _ => .imp_right mem_nodesOf_of_mem_take, overlapped.targets,
    allStand_append.mpr ⟨overlapped.all.stand, kept⟩, overlapped.all.retain.widen count overlapped.length_taken, ?_,
    ?_, fun changeable => ?_, fun _ => ⟨taken, surplus ▸ rfl, first ▸ overlapped.all.contents⟩⟩
  · rw [nodesOf_append]
    exact fun ref member => (List.mem_append.mp member).elim (overlapped.nodes ref) fun past => .inl (inside ref past)
  · rw [nodesOf_append]
    exact overlapped.aliased.append (kept.aliased.mono fun _ member => .inl (refsOf_subset (List.drop_subset ..) member))
  · cases changeable.symm.trans constant

/-- Another list takes over copies of what the source has more. -/
theorem extended {slots : List Slot} {more : List ContentTree} (old : list < world.heap.size)
    (apart : list ∉ nodesOf mines ∧ list ∉ nodesOf givens) (separate : Separate world mines givens)
    (changeable : world.isConstant list = false) (touches : Touches (· = list) middle after)
    (slotsEq : after.slots list = (middle.slots list).take overlap ++ slots)
    (targets : slots.map Slot.target = more.map ContentTree.ref)
    (aliases : ∀ slot ∈ slots, Aliases (· ∈ refsOf (givens.drop overlap)) slot) (copied : CopyAll middle after (givens.drop overlap) more) :
    Assigned world list mines givens after (taken ++ more) := by
  have grown := overlapped.touches.size
  have length := overlapped.length_taken
  have outside : ∀ ref ∈ nodesOf taken, ref ≠ list := by
    rintro _ member rfl
    rcases overlapped.nodes _ member with mine | given | fresh
    · exact apart.1 mine
    · exact apart.2 given
    · exact absurd old (Nat.not_lt.mpr fresh)
  have retain := overlapped.all.retain.later touches
    (fun ref member => (separate.stand.take overlap).nodes_lt_size ref member |>.trans_le grown)
    fun ref member => (separate.also.take overlap).nodes_lt_size ref member |>.trans_le grown
  refine ⟨?_, ?_, allStand_append.mpr ⟨overlapped.all.stand.later touches outside, copied.stand⟩,
    retain.widen overlapped.count length, ?_, ?_, fun _ => ?_, fun constant => ?_⟩
  · refine (overlapped.touches.mono fun ref _ => ?_).trans (touches.mono fun ref _ => .inl)
    exact .imp_right mem_nodesOf_of_mem_take
  · rw [slotsEq, List.map_append, List.map_take, overlapped.targets, targets, List.map_append, List.map_append,
      List.take_left' (by rw [List.length_map, length])]
  · rw [nodesOf_append]
    intro ref member
    rcases List.mem_append.mp member with first | past
    · exact overlapped.nodes ref first
    · rcases copied.nodes ref past with fresh | given
      · exact .inr (.inr (grown.trans fresh))
      · exact .inr (.inl (mem_nodesOf_of_mem_drop given))
  · have past : ∀ ref, ref ∈ refsOf (givens.drop overlap) → ref ∈ refsOf mines ∨ ref ∈ refsOf givens :=
      fun _ member => .inr (refsOf_subset (List.drop_subset ..) member)
    refine List.forall_mem_cons.mpr ⟨fun slot inside link => ?_, ?_⟩
    · rcases List.mem_append.mp (slotsEq ▸ inside) with first | added
      · exact overlapped.aliases slot (List.mem_of_mem_take first) link
      · exact past _ (aliases slot added link)
    · rw [nodesOf_append]
      exact (overlapped.aliased.tail.later touches overlapped.all.stand.nodes_lt_size outside).append (copied.aliased.mono past)
  · rw [contentsOf_append, overlapped.all.contents, copied.contents, ← contentsOf_append, List.take_append_drop]
  · cases changeable.symm.trans constant

private theorem length_middle : middle.length list = mines.length := by
  have length : (middle.slots list).length = taken.length + (mines.length - overlap) := by
    simpa using congrArg List.length overlapped.targets
  have first := overlapped.length_taken
  have least := overlapped.count
  rw [World.length, length]
  omega

/-- What the source has more stands as it stood, for only the list and what it refers to in the overlap have changed. -/
private theorem stand_rest (apart : list ∉ nodesOf givens) (separate : Separate world mines givens) :
    AllStand middle (givens.drop overlap) := by
  refine (separate.also.drop overlap).later overlapped.touches ?_
  rintro ref member (rfl | mine)
  · exact apart (mem_nodesOf_of_mem_drop member)
  · exact (List.nodup_append.mp separate.once).2.2 ref (mem_nodesOf_of_mem_take mine) ref (mem_nodesOf_of_mem_drop member) rfl

/-- A list that may change takes the length of the source. -/
private theorem gives_rest (sound : middle.Sound) (used : list ∈ middle.inUse) (isList : middle.kindOf list = .list)
    (old : list < world.heap.size) (apart : list ∉ nodesOf mines ∧ list ∉ nodesOf givens)
    (separate : Separate world mines givens) (changeable : world.isConstant list = false)
    (sources : slots.map Slot.target = givens.map ContentTree.ref) (room : givens.length ≤ Limits.listLength) :
    Gives (assignRest list overlap (slots.drop overlap) config) middle
      fun _ after => ∃ mades, Assigned world list mines givens after mades := by
  have length := overlapped.length_middle
  have least := overlapped.count
  have once : (nodesOf (givens.drop overlap)).Nodup :=
    (List.nodup_append.mp separate.once).2.1.sublist (nodesOf_sublist (List.drop_sublist ..))
  have sourcesRest : (slots.drop overlap).map Slot.target = (givens.drop overlap).map ContentTree.ref := by
    rw [List.map_drop, sources, List.map_drop]
  have whole (past : givens.drop overlap ≠ []) : middle.length list = overlap := by
    have some := List.length_pos_of_ne_nil past
    rw [List.length_drop] at some
    omega
  have fits : overlap + (givens.drop overlap).length ≤ Limits.listLength := by
    rw [List.length_drop]
    omega
  have rests : Gives (assignRest list overlap (slots.drop overlap) config) middle _ :=
    gives_assignRest sound used isList (fun member => apart.2 (mem_nodesOf_of_mem_drop member))
      (overlapped.stand_rest apart.2 separate) once sourcesRest (by omega) whole fits
  obtain ⟨_, after, ran, touches, added, more, slotsEq, addedTargets, aliases, copied⟩ := rests
  exact ⟨(), after, ran, _, overlapped.extended old apart separate changeable touches slotsEq addedTargets aliases copied⟩

end Overlapped

/-- The overlap is assigned. -/
private theorem gives_overlapped (trees : AssignsTrees nested bound) (assigns : Assigns nested) (sound : world.Sound)
    (used : list ∈ world.inUse) (separate : Separate world mines givens) (apart : list ∉ nodesOf mines ∧ list ∉ nodesOf givens)
    (targets : (world.slots list).map Slot.target = mines.map ContentTree.ref) (kept : ∀ slot ∈ slots, Kept world slot)
    (sources : slots.map Slot.target = givens.map ContentTree.ref) (enough : (nodesOf mines).length ≤ bound)
    (count : overlap = min mines.length givens.length) :
    Gives (assignOverlap nested list config 0 (slots.take overlap)) world fun _ after =>
      (∃ taken, Overlapped world list mines givens overlap after taken) ∧ after.Sound ∧ Follows .burying world after := by
  have fits : (givens.take overlap).length = (mines.take overlap).length := by
    rw [List.length_take, List.length_take]
    omega
  have reach : (givens.take overlap).length = overlap := by
    rw [List.length_take]
    omega
  have apartTaken : list ∉ nodesOf (mines.take overlap) ∧ list ∉ nodesOf (givens.take overlap) :=
    ⟨fun member => apart.1 (mem_nodesOf_of_mem_take member),
      fun member => apart.2 (mem_nodesOf_of_mem_take member)⟩
  have beginning : (mines.take overlap).map ContentTree.ref <+: ((world.slots list).drop 0).map Slot.target := by
    rw [List.drop_zero, targets, List.map_take]
    exact List.take_prefix ..
  have taken : ∀ slot ∈ slots.take overlap, Kept world slot := fun slot member => kept slot (List.mem_of_mem_take member)
  have sourcesTaken : (slots.take overlap).map Slot.target = (givens.take overlap).map ContentTree.ref := by
    rw [List.map_take, sources, List.map_take]
  have short : (nodesOf (mines.take overlap)).length ≤ bound :=
    (nodesOf_sublist (List.take_sublist ..)).length_le.trans enough
  obtain ⟨_, after, ran, ⟨touches, news, mades, slotsEq, newTargets, newAliases, all⟩, soundAfter, follows, -⟩ :=
    (gives_assignOverlap trees assigns sound used (separate.take overlap) apartTaken beginning taken sourcesTaken fits
      short).with_safe sound (assigns.assignOverlap 0 used taken)
  rw [reach, List.take_zero, List.nil_append, Nat.zero_add] at slotsEq
  refine ⟨(), after, ran, ⟨mades, touches, ?_, fun slot member link => ?_, all, count⟩, soundAfter, follows⟩
  · rw [slotsEq, List.map_append, newTargets, List.map_drop, targets, List.map_append, List.map_drop]
  · rcases List.mem_append.mp (slotsEq ▸ member) with new | past
    · exact (newAliases slot new link).imp (refsOf_subset (List.take_subset ..) ·) (refsOf_subset (List.take_subset ..) ·)
    · exact .inl (map_ref_subset (targets ▸ List.mem_map_of_mem (List.mem_of_mem_drop past)))

/-- While a list is busy, it gets what the source has. -/
private theorem gives_assignSlots (trees : AssignsTrees nested bound) (assigns : Assigns nested) (sound : world.Sound)
    (used : list ∈ world.inUse) (isList : world.kindOf list = .list) (separate : Separate world mines givens)
    (apart : list ∉ nodesOf mines ∧ list ∉ nodesOf givens)
    (targets : (world.slots list).map Slot.target = mines.map ContentTree.ref) (kept : ∀ slot ∈ slots, Kept world slot)
    (sources : slots.map Slot.target = givens.map ContentTree.ref)
    (room : world.isConstant list = false → givens.length ≤ Limits.listLength) (enough : (nodesOf mines).length ≤ bound) :
    Gives (assignSlots nested list config slots) world
      fun _ after => ∃ mades, Assigned world list mines givens after mades := by
  have count : world.length list = mines.length := by simpa [World.length] using congrArg List.length targets
  have counted : slots.length = givens.length := by simpa using congrArg List.length sources
  have old := lt_size_of_isLive (sound.inUse used)
  refine .look ?_
  dsimp only
  rw [count, counted]
  generalize same : min mines.length givens.length = overlap
  refine (gives_overlapped trees assigns sound used separate apart targets kept sources enough same.symm).bind ?_
  rintro _ middle ⟨⟨taken, overlapped⟩, soundMiddle, follows⟩
  have live := soundMiddle.inUse (follows.mem_inUse used)
  refine .look ?_
  rw [overlapped.touches.isConstant old live]
  cases constant : world.isConstant list with
  | true => exact .pure ⟨_, overlapped.assigned apart.1 separate constant⟩
  | false =>
    exact overlapped.gives_rest soundMiddle (follows.mem_inUse used) ((overlapped.touches.kindOf old live).trans isList) old
      apart separate constant sources (room constant)

/-- What a list has been given while it was busy it still has when it is idle again. -/
theorem Assigned.enclosed {start middle last : World} (assigned : Assigned start list mines givens middle mades)
    (old : list < world.heap.size) (apart : list ∉ nodesOf mines ∧ list ∉ nodesOf givens) (stand : AllStand world mines)
    (also : AllStand world givens) (constant : start.isConstant list = world.isConstant list)
    (before : Touches (· = list) world start) (ended : Touches (· = list) middle last)
    (slots : last.slots list = middle.slots list) : Assigned world list mines givens last mades := by
  have nodes : ∀ ref ∈ nodesOf mades, ref ∈ nodesOf mines ∨ ref ∈ nodesOf givens ∨ world.heap.size ≤ ref :=
    fun ref member => (assigned.nodes ref member).imp_right (.imp_right before.size.trans)
  have grown := before.size.trans assigned.touches.size
  have outside : ∀ ref ∈ nodesOf mades, ref ≠ list := by
    rintro _ member rfl
    rcases nodes _ member with mine | given | fresh
    · exact apart.1 mine
    · exact apart.2 given
    · exact absurd old (Nat.not_lt.mpr fresh)
  have changes : Touches (fun ref => ref = list ∨ ref ∈ nodesOf mines) world middle :=
    (before.mono fun _ _ => .inl).trans assigned.touches
  exact {
    touches := changes.trans (ended.mono fun _ _ => .inl)
    targets := slots ▸ assigned.targets
    stand := assigned.stand.later ended outside
    retain := assigned.retain.later ended (fun ref member => (stand.nodes_lt_size ref member).trans_le grown)
      fun ref member => (also.nodes_lt_size ref member).trans_le grown
    nodes
    aliased := List.forall_mem_cons.mpr ⟨slots ▸ assigned.aliased list List.mem_cons_self,
      assigned.aliased.tail.later ended assigned.stand.nodes_lt_size outside⟩
    contents := fun changeable => assigned.contents (constant.trans changeable)
    constant := fun still => assigned.constant (constant.trans still) }

/-- While a list is assigned it is busy, and what the source holds is in use. -/
def assigning (world : World) (list source : Ref) : World :=
  { world with inUse := (world.slots source).filterMap Slot.held? ++ world.inUse }.setBusy list true

theorem touches_assigning : Touches (· = list) world (assigning world list source) :=
  touches_withInUse.trans (touches_setBusy rfl)

private theorem slots_assigning {ref : Ref} : (assigning world list source).slots ref = world.slots ref := slots_setBusy

private theorem isConstant_assigning {ref : Ref} :
    (assigning world list source).isConstant ref = world.isConstant ref :=
  isConstant_setBusy

private theorem follows_assigning (sound : world.Sound) : Follows .gentle world (assigning world list source) := by
  have alive : ∀ ref ∈ (world.slots source).filterMap Slot.held?, world.isLive ref = true := by
    intro ref member
    obtain ⟨slot, inside, holds⟩ := List.mem_filterMap.mp member
    exact (sound.knows inside).held ref holds
  have began := follows_use sound alive
  exact began.trans (follows_setBusy (began.sound sound))

private theorem kept_assigning (sound : world.Sound) :
    ∀ slot ∈ world.slots source, Kept (assigning world list source) slot :=
  fun slot inside =>
    ⟨fun _ holds => List.mem_append_left _ (List.mem_filterMap.mpr ⟨slot, inside, holds⟩),
      (sound.knows inside).target.trans_le (follows_assigning sound).evolves.size_le⟩

private theorem gives_assignListWith (trees : AssignsTrees nested bound) (assigns : Assigns nested)
    (assignable : Assignable world list source mines givens) (enough : (nodesOf mines).length ≤ bound) :
    Gives (assignListWith nested config list source) world fun _ last => ∃ middle mades,
      Assigned (assigning world list source) list mines givens middle mades ∧
        last = (middle.setBusy list false).settle world.inUse := by
  obtain ⟨sound, used, isList, free, targets, others, different, apart, room, separate⟩ := assignable
  have began : Follows .gentle world (assigning world list source) := follows_assigning sound
  have separate : Separate (assigning world list source) mines givens := separate.later touches_assigning fun ref member same => by
    subst same
    exact (List.mem_append.mp member).elim apart.1 apart.2
  rw [assignListWith_eq]
  refine .look ?_
  rw [if_neg (by simp [different, free])]
  refine .look (.holding (.whileBusy ?_))
  refine (gives_assignSlots trees assigns (began.sound sound) (began.mem_inUse used) (kindOf_setBusy.trans isList) separate
    apart ((congrArg _ slots_assigning).trans targets) (kept_assigning sound) others
    (fun changeable => room (isConstant_assigning.symm.trans changeable)) enough).weaken ?_
  exact fun _ middle ⟨mades, assigned⟩ => ⟨middle, mades, assigned, rfl⟩

/-- One level of an assignment, if what is inside is assigned as it should be. -/
theorem AssignsTrees.assignListWith (trees : AssignsTrees nested bound) (assigns : Assigns nested) :
    AssignsTrees (assignListWith nested config) (bound + 1) := by
  intro world list source mines givens assignable enough
  have sound := assignable.sound
  have old := lt_size_of_isLive (sound.inUse assignable.used)
  obtain ⟨_, last, ran, ⟨middle, mades, assigned, rfl⟩, soundLast, follows, -⟩ :=
    (gives_assignListWith trees assigns assignable (Nat.le_of_lt_succ enough)).with_safe sound
      (assigns.assignListWith list source world assignable.used)
  have freed : Touches (· = list) middle (middle.setBusy list false) := touches_setBusy rfl
  have settled : Touches (fun _ => False) (middle.setBusy list false) ((middle.setBusy list false).settle world.inUse) :=
    touches_settle
  have known : list < (middle.setBusy list false).heap.size :=
    (old.trans_le (touches_assigning.size.trans assigned.touches.size)).trans_eq heap_size_change.symm
  refine ⟨(), _, ran, mades, assigned.enclosed old assignable.apart assignable.separate.stand assignable.separate.also
    isConstant_assigning touches_assigning (freed.trans touches_settle) ?_⟩
  rw [settled.slots known id (soundLast.inUse (follows.mem_inUse assignable.used)), slots_setBusy]

private theorem assignsTrees_assignListWithin (fuel : Nat) : AssignsTrees (assignListWithin fuel config) fuel := by
  induction fuel with
  | zero => exact fun _ never => absurd never (Nat.not_lt_zero _)
  | succ fuel ih => exact ih.assignListWith (assigns_assignListWithin fuel)

end Act

namespace World

open ContentTree

variable {world after : World} {list source : Ref} {mines givens mades : List ContentTree}

/-- What has come of assigning a list to another one, as far as objects live. Which have gone is up to aliases: the
assignment may let go of the scope that owned an object, and what is held stays. -/
structure Receives (world : World) (list source : Ref) (mines givens : List ContentTree) (after : World)
    (mades : List ContentTree) : Prop where
  lives : after.isLive list = true ∧ after.isLive source = true
  stands : (ContentTree.list list mades).Stands after
  length : after.length list = if world.isConstant list then world.length list else world.length source
  contents : world.isConstant list = false → contentsOf mades = contentsOf givens
  constant : world.isConstant list = true → ∃ taken, mades = taken ++ mines.drop givens.length ∧
    contentsOf taken = contentsOf (givens.take mines.length)
  retain : RetainAll after mines givens mades
  source : (ContentTree.list source givens).Stands after
  touches : Touches (· ∈ (ContentTree.list list mines).nodes) world after
  aliased : Aliased after (ContentTree.list list mades).nodes fun ref => ref ∈ refsOf mines ∨ ref ∈ refsOf givens
  held : ∀ ref, ∀ slot ∈ after.slots ref, ∀ element ∈ slot.held?, after.isLive element = true

theorem length_of_stands (stands : (ContentTree.list list mines).Stands world) (live : world.isLive list = true) :
    world.length list = mines.length := by
  simpa [World.length] using congrArg List.length (stands.2.1 live).2

private theorem length_of_contents (same : contentsOf mines = contentsOf givens) : mines.length = givens.length := by
  simpa [contentsOf_eq] using congrArg List.length same

/-- Assigning a list to another one succeeds and gives it the contents of the source at every depth. The source and
whatever is not in the destination stay as they are, and the elements of the destination stay where they can take over
what is in the source. A constant list only takes over what fits. -/
theorem list_assignment_copies (ongoing : world.Ongoing) (used : list ∈ world.inUse) (read : source ∈ world.inUse)
    (stands : (ContentTree.list list mines).Stands world) (also : (ContentTree.list source givens).Stands world)
    (once : ((ContentTree.list list mines).nodes ++ (ContentTree.list source givens).nodes).Nodup)
    (idle : ∀ ref ∈ (ContentTree.list list mines).nodes, world.isBusy ref = false)
    (changeable : ∀ ref ∈ nodesOf mines, world.kindOf ref = .list → world.isConstant ref = false)
    (fits : world.isConstant list = false → world.length source ≤ Limits.listLength)
    (within : ∀ ref ∈ nodesOf (givens.take mines.length), world.length ref ≤ Limits.listLength) (config : Config) :
    ∃ after mades, Act.assignList list source config world = .ok () after ∧
      world.Receives list source mines givens after mades := by
  have sound := ongoing.sound
  have live := sound.inUse used
  have liveSource := sound.inUse read
  obtain ⟨mineOnce, givenOnce, differ⟩ := List.nodup_append.mp once
  have separate : Separate world mines givens := {
    stand := stands.2.2
    also := also.2.2
    once := once.sublist (.append (List.sublist_cons_self ..) (List.sublist_cons_self ..))
    free := fun ref member => idle ref (List.mem_cons_of_mem _ member)
    changeable
    room := within }
  have different : list ≠ source := differ list List.mem_cons_self source List.mem_cons_self
  have apart : list ∉ nodesOf mines ∧ list ∉ nodesOf givens := ⟨(List.nodup_cons.mp mineOnce).1,
    fun member => differ list List.mem_cons_self list (List.mem_cons_of_mem _ member) rfl⟩
  have count := length_of_stands also liveSource
  have assignable : Act.Assignable world list source mines givens := {
    sound, used, different, apart, separate
    isList := (stands.2.1 live).1
    free := idle list List.mem_cons_self
    targets := (stands.2.1 live).2
    others := (also.2.1 liveSource).2
    room := fun free => count ▸ fits free }
  have enough : (nodesOf mines).length < world.assignmentFuel :=
    (length_nodes_le stands mineOnce).trans (Nat.le_add_right ..)
  have gives : Act.Gives (Act.assignList list source config) world _ :=
    .look (Act.assignsTrees_assignListWithin _ assignable enough)
  obtain ⟨_, after, ran, ⟨mades, assigned⟩, soundAfter, follows, -⟩ := gives.with_safe sound (Act.safe_assignList used)
  have lives := soundAfter.inUse (follows.mem_inUse used)
  have touches : Touches (· ∈ (ContentTree.list list mines).nodes) world after :=
    assigned.touches.mono fun _ _ => List.mem_cons.mpr
  have standing : (ContentTree.list list mades).Stands after :=
    ⟨lt_size_of_isLive lives, fun _ => ⟨(touches.kindOf stands.1 lives).trans (stands.2.1 live).1, assigned.targets⟩,
      assigned.stand⟩
  have outside : ∀ ref ∈ (ContentTree.list source givens).nodes, ref ∉ (ContentTree.list list mines).nodes :=
    fun ref given mine => differ ref mine ref given rfl
  refine ⟨after, mades, ran, {
    lives := ⟨lives, soundAfter.inUse (follows.mem_inUse read)⟩
    stands := standing
    length := ?_
    contents := assigned.contents
    constant := assigned.constant
    retain := assigned.retain
    source := also.later touches outside
    touches
    aliased := assigned.aliased
    held := fun ref slot member element holds => (soundAfter.knows member).held element holds }⟩
  rw [length_of_stands standing lives, length_of_stands stands live, count]
  split
  next constant =>
    obtain ⟨taken, rfl, same⟩ := assigned.constant constant
    have length := length_of_contents same
    rw [List.length_take] at length
    rw [List.length_append, List.length_drop]
    omega
  next free => exact length_of_contents (assigned.contents (Bool.not_eq_true _ ▸ free))

/-- A list of a variable and an empty list, and another one of a variable, a list and a scope, while both are in use. -/
def twoLists : World :=
  let reached := (runAll {} [
    { action := .create (.value "" (.text "x")), name := some "a" },
    { action := .create (.list "m"), name := some "m" },
    { action := .create (.list "d"), name := some "d" },
    { action := .list (.pushItself (.handle "a")), target := some "d" },
    { action := .list (.pushItself (.handle "m")), target := some "d" },
    { action := .create (.list "s"), name := some "s" },
    { action := .list (.pushItself (.value (.text "y"))), target := some "s" },
    { action := .list (.pushItself (.list [.value (.text "z")])), target := some "s" },
    { action := .list (.pushItself (.scope "t")), target := some "s" }]).2
  { reached with inUse := [2, 3] ++ reached.inUse }

/-- What is in the first list. -/
def firstItems : List ContentTree := [.value 0 (.text "x"), .list 1 []]

/-- What is in the second one. -/
def secondItems : List ContentTree := [.value 4 (.text "y"), .list 5 [.value 6 (.text "z")], .other 7]

private theorem slots_twoLists : (twoLists.slots 1).map Slot.target = [] ∧ (twoLists.slots 2).map Slot.target = [0, 1] ∧
    (twoLists.slots 3).map Slot.target = [4, 5, 7] ∧ (twoLists.slots 5).map Slot.target = [6] := by decide +kernel

theorem kinds_twoLists : ∀ list ∈ [1, 2, 3, 5], twoLists.kindOf list = .list := by decide +kernel

theorem stored_twoLists : twoLists.storage? 0 = some (.stored (.text "x")) ∧
    twoLists.storage? 4 = some (.stored (.text "y")) ∧ twoLists.storage? 6 = some (.stored (.text "z")) := by decide +kernel

theorem old_twoLists : ∀ ref < 8, ref < twoLists.heap.size := by decide +kernel

private theorem stands_first : (ContentTree.list 2 firstItems).Stands twoLists := by
  obtain ⟨inner, outer, -⟩ := slots_twoLists
  refine ⟨old_twoLists 2 (by decide), fun _ => ⟨kinds_twoLists 2 (by decide), outer⟩, ?_, ?_, trivial⟩
  · exact ⟨old_twoLists 0 (by decide), fun _ => stored_twoLists.1⟩
  · exact ⟨old_twoLists 1 (by decide), fun _ => ⟨kinds_twoLists 1 (by decide), inner⟩, trivial⟩

private theorem stands_second : (ContentTree.list 3 secondItems).Stands twoLists := by
  obtain ⟨-, -, outer, inner⟩ := slots_twoLists
  have shared : twoLists.Shared 7 := ⟨by decide +kernel, by decide +kernel⟩
  refine ⟨old_twoLists 3 (by decide), fun _ => ⟨kinds_twoLists 3 (by decide), outer⟩, ?_, ⟨?_, fun _ => ⟨?_, inner⟩, ?_, trivial⟩,
    ⟨old_twoLists 7 (by decide), fun _ => shared⟩, trivial⟩
  · exact ⟨old_twoLists 4 (by decide), fun _ => stored_twoLists.2.1⟩
  · exact old_twoLists 5 (by decide)
  · exact kinds_twoLists 5 (by decide)
  · exact ⟨old_twoLists 6 (by decide), fun _ => stored_twoLists.2.2⟩

/-- The variable takes the value, the empty list gets a copy of the other variable, and the scope joins them. -/
theorem list_assignment_copies_of_twoLists : ∃ after mades, Act.assignList 2 3 {} twoLists = .ok () after ∧
    after.length 2 = 3 ∧ (ContentTree.list 2 mades).Stands after ∧
      contentsOf mades = [.value (.text "y"), .list [.value (.text "z")], .other 7] := by
  have ongoing : twoLists.Ongoing := by
    refine Ongoing.use (Reachable.ongoing (.runAll (.start {}) _)) ?_
    decide +kernel
  have used : 2 ∈ twoLists.inUse ∧ 3 ∈ twoLists.inUse := by decide +kernel
  have once : ((ContentTree.list 2 firstItems).nodes ++ (ContentTree.list 3 secondItems).nodes).Nodup := by decide
  have idle : ∀ ref ∈ (ContentTree.list 2 firstItems).nodes, twoLists.isBusy ref = false := by decide +kernel
  have changeable : twoLists.isConstant 2 = false ∧
      ∀ ref ∈ nodesOf firstItems, twoLists.kindOf ref = .list → twoLists.isConstant ref = false := by decide +kernel
  have length : twoLists.length 3 = 3 := by decide +kernel
  have fits : twoLists.isConstant 2 = false → twoLists.length 3 ≤ Limits.listLength := fun _ => by
    rw [length]
    decide
  have within : ∀ ref ∈ nodesOf (secondItems.take firstItems.length), twoLists.length ref ≤ Limits.listLength := by
    decide +kernel
  obtain ⟨after, mades, ran, receives⟩ := list_assignment_copies ongoing used.1 used.2 stands_first stands_second once idle
    changeable.2 fits within {}
  refine ⟨after, mades, ran, ?_, receives.stands, receives.contents changeable.1⟩
  rw [receives.length, changeable.1, if_neg Bool.false_ne_true, length]

/-- A list with the alias of a scope, and another one that alone holds the scope's owner. -/
def aliasOfOwned : World :=
  (runAll {} [
    { action := .create (.scope "X"), name := some "x" },
    { action := .create (.scope "Y"), name := some "y" },
    { action := .scope (.register (.handle "y")), target := some "x" },
    { action := .create (.list "s"), name := some "s" },
    { action := .list (.push (.handle "y")), target := some "s" },
    { action := .create (.list "d"), name := some "d" },
    { action := .list (.pushItself (.handle "x")), target := some "d" },
    { action := .handles (.drop "x") },
    { action := .handles (.drop "y") }]).2

/-- The assignment lets go of the owner, so neither list has the scope any more. -/
theorem element_lost_with_owner :
    ((aliasOfOwned.slots 2).map Slot.target = [1] ∧ aliasOfOwned.kindOf 1 = .scope) ∧
      ((aliasOfOwned.slots 3).map Slot.target = [0] ∧ aliasOfOwned.kindOf 0 = .scope ∧
        aliasOfOwned.isConstant 3 = false ∧ aliasOfOwned.isBusy 3 = false) ∧
      (aliasOfOwned.run { action := .list (.assign (.handle "s")), target := some "d" }).1.stop? = none ∧
      ((aliasOfOwned.run { action := .list (.assign (.handle "s")), target := some "d" }).2.slots 3).map Slot.target = [1] ∧
      (aliasOfOwned.run { action := .list (.assign (.handle "s")), target := some "d" }).2.isLive 1 = false := by
  decide +kernel

end World

end Dialogue
