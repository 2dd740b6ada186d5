import Dialogue.Proofs.AssignmentSafety
import Dialogue.Proofs.TreeCopies

/-! Assignment of trees. At each position of the overlap, a variable takes a value, a list is assigned in turn, and
anything else is replaced by a copy. What one position touches are the objects of the destination at this position, so
positions can be assigned one after the other where no list or variable occurs twice. -/

namespace Dialogue

open World

namespace ContentTree

mutual
/-- Whether an object of the destination has stayed in its place where the source has one of the same sort: a list, or a
variable and the one of the destination is no constant. It need not have stayed if one of the two has gone. -/
def Retains (after : World) : ContentTree → ContentTree → ContentTree → Prop
  | .value ref _, .value given _, made => after.isConstant ref = false → after.isLive ref = true →
    after.isLive given = true → made.ref = ref
  | .list ref items, .list given others, made => after.isLive ref = true → after.isLive given = true →
    ∃ mades, made = .list ref mades ∧ RetainAll after items others mades
  | _, _, _ => True

def RetainAll (after : World) : List ContentTree → List ContentTree → List ContentTree → Prop
  | mine :: rest, given :: others, made :: mades => mine.Retains after given made ∧ RetainAll after rest others mades
  | _, _, _ => True
end

variable {world after last : World} {region : Ref → Prop} {mine given made : ContentTree} {mines givens mades more others : List ContentTree}

mutual
theorem Retains.later (touches : Touches region after last) :
    ∀ {mine given made : ContentTree}, mine.Retains after given made →
    (∀ ref ∈ mine.nodes, ref < after.heap.size) → (∀ ref ∈ given.nodes, ref < after.heap.size) → mine.Retains last given made
  | .value ref _, .value given _, _, retains, mineOld, givenOld => fun changeable live also => by
    have old := mineOld ref List.mem_cons_self
    rw [touches.isConstant old live] at changeable
    exact retains changeable (touches.isLive old live) (touches.isLive (givenOld given List.mem_cons_self) also)
  | .list ref _, .list given _, _, retains, mineOld, givenOld => fun live also => by
    obtain ⟨mades, rfl, all⟩ := retains (touches.isLive (mineOld ref List.mem_cons_self) live)
      (touches.isLive (givenOld given List.mem_cons_self) also)
    exact ⟨mades, rfl, RetainAll.later touches all (fun other member => mineOld other (List.mem_cons_of_mem _ member))
      fun other member => givenOld other (List.mem_cons_of_mem _ member)⟩
  | .value _ _, .list _ _, _, _, _, _ | .value _ _, .other _, _, _, _, _ | .list _ _, .value _ _, _, _, _, _
  | .list _ _, .other _, _, _, _, _ | .other _, .value _ _, _, _, _, _ | .other _, .list _ _, _, _, _, _
  | .other _, .other _, _, _, _, _ => trivial

theorem RetainAll.later (touches : Touches region after last) : ∀ {mines givens mades : List ContentTree},
    RetainAll after mines givens mades → (∀ ref ∈ nodesOf mines, ref < after.heap.size) →
      (∀ ref ∈ nodesOf givens, ref < after.heap.size) → RetainAll last mines givens mades
  | _ :: _, _ :: _, _ :: _, ⟨first, others⟩, mineOld, givenOld =>
    ⟨first.later touches (fun ref member => mineOld ref (List.mem_append_left _ member))
        fun ref member => givenOld ref (List.mem_append_left _ member),
      RetainAll.later touches others (fun ref member => mineOld ref (List.mem_append_right _ member))
        fun ref member => givenOld ref (List.mem_append_right _ member)⟩
  | [], _, _, _, _, _ => by simp [RetainAll]
  | _ :: _, [], _, _, _, _ => by simp [RetainAll]
  | _ :: _, _ :: _, [], _, _, _ => by simp [RetainAll]
end

/-- Past the overlap nothing need be retained. -/
theorem RetainAll.widen {overlap : Nat} (count : overlap = min mines.length givens.length)
    (length : mades.length = overlap)
    (retain : RetainAll after (mines.take overlap) (givens.take overlap) mades) :
    RetainAll after mines givens (mades ++ others) := by
  induction mades generalizing mines givens overlap with
  | nil =>
    obtain none | none : mines = [] ∨ givens = [] := by
      rw [← List.length_eq_zero_iff, ← List.length_eq_zero_iff]
      simp only [List.length_nil] at length
      omega
    · rw [none]
      simp [RetainAll]
    · rw [none]
      cases mines <;> simp [RetainAll]
  | cons made mades ih =>
    obtain ⟨fewer, rfl⟩ : ∃ fewer, overlap = fewer + 1 := ⟨mades.length, length.symm⟩
    cases mines with
    | nil => simp at count
    | cons mine mines =>
      cases givens with
      | nil => simp at count
      | cons given givens =>
        rw [List.take_succ_cons, List.take_succ_cons] at retain
        refine ⟨retain.1, ih ?_ (Nat.succ.inj length) retain.2⟩
        simp only [List.length_cons] at count
        omega

/-- What has come of assigning one tree to another one: a tree with the contents of the source, which consists of what
there was and what is new. -/
structure Takes (world after : World) (mine given made : ContentTree) : Prop where
  stands : made.Stands after
  contents : made.contents = given.contents
  retains : mine.Retains after given made
  nodes : ∀ ref ∈ made.nodes, ref ∈ mine.nodes ∨ ref ∈ given.nodes ∨ world.heap.size ≤ ref
  aliased : Aliased after made.nodes fun ref => ref ∈ mine.refs ∨ ref ∈ given.refs

/-- What has come of assigning trees to as many others or more. -/
structure TakeAll (world after : World) (mines givens mades : List ContentTree) : Prop where
  stand : AllStand after mades
  contents : contentsOf mades = contentsOf givens
  retain : RetainAll after mines givens mades
  nodes : ∀ ref ∈ nodesOf mades, ref ∈ nodesOf mines ∨ ref ∈ nodesOf givens ∨ world.heap.size ≤ ref
  aliased : Aliased after (nodesOf mades) fun ref => ref ∈ refsOf mines ∨ ref ∈ refsOf givens

/-- A tree that has been assigned stays as it is while others are. -/
theorem TakeAll.cons (takes : Takes world after mine given made) (touches : Touches region after last)
    (outside : ∀ ref ∈ made.nodes, ¬ region ref) (grown : world.heap.size ≤ after.heap.size)
    (mineOld : ∀ ref ∈ mine.nodes, ref < world.heap.size) (givenOld : ∀ ref ∈ given.nodes, ref < world.heap.size)
    (all : TakeAll after last mines givens mades) : TakeAll world last (mine :: mines) (given :: givens) (made :: mades) where
  stand := ⟨takes.stands.later touches outside, all.stand⟩
  contents := by rw [contentsOf, contentsOf, takes.contents, all.contents]
  retain := ⟨takes.retains.later touches (fun ref member => (mineOld ref member).trans_le grown)
    fun ref member => (givenOld ref member).trans_le grown, all.retain⟩
  nodes ref member := by
    rcases List.mem_append.mp member with here | there
    · exact (takes.nodes ref here).imp (List.mem_append_left _) (.imp_left (List.mem_append_left _))
    · exact (all.nodes ref there).imp (List.mem_append_right _) (.imp (List.mem_append_right _) grown.trans)
  aliased := by
    have first := takes.aliased.later touches takes.stands.nodes_lt_size outside
    refine (first.mono fun _ => ?_).append (all.aliased.mono fun _ => ?_)
    · exact .imp (List.mem_append_left _) (List.mem_append_left _)
    · exact .imp (List.mem_append_right _) (List.mem_append_right _)

/-- Trees that can be assigned: no list or variable occurs twice, lists of the destination are neither being assigned
nor constant, and those of the source do not have more elements than lists may have. -/
structure Separate (world : World) (mines givens : List ContentTree) : Prop where
  stand : AllStand world mines
  also : AllStand world givens
  once : (nodesOf mines ++ nodesOf givens).Nodup
  free : ∀ ref ∈ nodesOf mines, world.isBusy ref = false
  changeable : ∀ ref ∈ nodesOf mines, world.kindOf ref = .list → world.isConstant ref = false
  room : ∀ ref ∈ nodesOf (givens.take mines.length), world.length ref ≤ Limits.listLength

namespace Separate

variable (separate : Separate world mines givens)

include separate

theorem later (touches : Touches region world after) (outside : ∀ ref ∈ nodesOf mines ++ nodesOf givens, ¬ region ref) :
    Separate after mines givens where
  stand := separate.stand.later touches fun ref member => outside ref (List.mem_append_left _ member)
  also := separate.also.later touches fun ref member => outside ref (List.mem_append_right _ member)
  once := separate.once
  free ref member := by
    refine Bool.eq_false_iff.mpr fun busy => ?_
    have live : after.isLive ref = true := isLive_of_isBusy busy
    rw [touches.isBusy (separate.stand.nodes_lt_size ref member) (outside ref (List.mem_append_left _ member)) live,
      separate.free ref member] at busy
    cases busy
  changeable ref member isList := by
    have old := separate.stand.nodes_lt_size ref member
    have live : after.isLive ref = true := isLive_of_isList isList
    rw [touches.kindOf old live] at isList
    exact (touches.isConstant old live).trans (separate.changeable ref member isList)
  room ref member := by
    obtain ⟨tree, inside, here⟩ := mem_nodesOf.mp member
    have inside : ref ∈ nodesOf givens := mem_nodesOf.mpr ⟨tree, List.mem_of_mem_take inside, here⟩
    have fewer := touches.length_le (separate.also.nodes_lt_size ref inside) (outside ref (List.mem_append_right _ inside))
    exact fewer.trans (separate.room ref member)

theorem take (count : Nat) : Separate world (mines.take count) (givens.take count) where
  stand := separate.stand.take count
  also := separate.also.take count
  once := separate.once.sublist (.append (nodesOf_sublist (List.take_sublist ..)) (nodesOf_sublist (List.take_sublist ..)))
  free ref member := separate.free ref (mem_nodesOf_of_mem_take member)
  changeable ref member := separate.changeable ref (mem_nodesOf_of_mem_take member)
  room ref member := by
    refine separate.room ref ((nodesOf_sublist ?_).subset member)
    rw [List.length_take, List.take_take]
    exact List.take_sublist_take_left (by omega)

theorem withInUse {inUse : List Ref} : Separate { world with inUse } mines givens :=
  separate.later (touches_withInUse : Touches (fun _ => False) world _) fun _ _ => id

end Separate

theorem Separate.head (separate : Separate world (mine :: mines) (given :: givens)) :
    Separate world [mine] [given] where
  stand := ⟨separate.stand.1, trivial⟩
  also := ⟨separate.also.1, trivial⟩
  once := by
    rw [nodesOf_singleton, nodesOf_singleton]
    exact separate.once.sublist (.append (List.sublist_append_left ..) (List.sublist_append_left ..))
  free ref member := separate.free ref (List.mem_append_left _ (nodesOf_singleton ▸ member))
  changeable ref member := separate.changeable ref (List.mem_append_left _ (nodesOf_singleton ▸ member))
  room ref member := separate.room ref (List.mem_append_left _ (nodesOf_singleton ▸ member))

theorem Separate.tail (separate : Separate world (mine :: mines) (given :: givens)) : Separate world mines givens where
  stand := separate.stand.2
  also := separate.also.2
  once := separate.once.sublist (.append (List.sublist_append_right ..) (List.sublist_append_right ..))
  free ref member := separate.free ref (List.mem_append_right _ member)
  changeable ref member := separate.changeable ref (List.mem_append_right _ member)
  room ref member := separate.room ref (List.mem_append_right _ member)

/-- What follows can be assigned as before when a list has got its first element. -/
theorem Separate.rest {list : Ref} (separate : Separate world (mine :: mines) (given :: givens))
    (apart : list ∉ nodesOf mines ∧ list ∉ nodesOf givens)
    (touches : Touches (fun ref => ref = list ∨ ref ∈ mine.nodes) world after) : Separate after mines givens := by
  obtain ⟨mineOnce, -, differ⟩ := List.nodup_append.mp separate.once
  refine separate.tail.later touches fun ref member inside => ?_
  rcases inside with rfl | inside
  · exact (List.mem_append.mp member).elim apart.1 apart.2
  · rcases List.mem_append.mp member with mine | given
    · exact (List.nodup_append.mp mineOnce).2.2 ref inside ref mine rfl
    · exact differ ref (List.mem_append_left _ inside) ref (List.mem_append_right _ given) rfl

/-- What the first element has become is no part of what follows. -/
theorem Takes.not_mem_rest {list : Ref} (takes : Takes world after mine given made)
    (separate : Separate world (mine :: mines) (given :: givens)) (old : list < world.heap.size)
    (apart : list ∉ mine.nodes ∧ list ∉ given.nodes) :
    ∀ ref ∈ made.nodes, ¬ (ref = list ∨ ref ∈ nodesOf mines) := by
  obtain ⟨mineOnce, -, differ⟩ := List.nodup_append.mp separate.once
  intro ref member inside
  rcases takes.nodes ref member with mine | given | fresh
  · rcases inside with rfl | inside
    · exact apart.1 mine
    · exact (List.nodup_append.mp mineOnce).2.2 ref mine ref inside rfl
  · rcases inside with rfl | inside
    · exact apart.2 given
    · exact differ ref (List.mem_append_right _ inside) ref (List.mem_append_left _ given) rfl
  · refine absurd fresh (Nat.not_le.mpr ?_)
    rcases inside with rfl | inside
    · exact old
    · exact separate.stand.2.nodes_lt_size ref inside

/-- The elements of two lists can be assigned if the lists can. -/
theorem Separate.items {ref other : Ref} (separate : Separate world [.list ref mines] [.list other givens]) :
    Separate world mines givens where
  stand := separate.stand.1.2.2
  also := separate.also.1.2.2
  once := by
    have once := separate.once
    rw [nodesOf_singleton, nodesOf_singleton] at once
    exact once.sublist (.append (List.sublist_cons_self ..) (List.sublist_cons_self ..))
  free ref member := separate.free ref (List.mem_append_left _ (List.mem_cons_of_mem _ member))
  changeable ref member := separate.changeable ref (List.mem_append_left _ (List.mem_cons_of_mem _ member))
  room ref member := by
    obtain ⟨tree, inside, here⟩ := mem_nodesOf.mp member
    refine separate.room ref (List.mem_append_left _ (List.mem_cons_of_mem _ ?_))
    exact mem_nodesOf.mpr ⟨tree, List.mem_of_mem_take inside, here⟩

theorem Stands.of_isVar (stands : mine.Stands world) (isVar : world.kindOf mine.ref = .var) :
    ∃ ref scalar, mine = .value ref scalar ∧ world.storage? ref = some (.stored scalar) := by
  have live : world.isLive mine.ref = true := isLive_of_kindOf (by rw [isVar]; decide)
  cases mine with
  | value ref scalar => exact ⟨ref, scalar, rfl, stands.2 live⟩
  | list ref items => cases (stands.2.1 live).1.symm.trans isVar
  | other ref => exact absurd isVar (stands.2 live).1

theorem Stands.of_isList (stands : mine.Stands world) (isList : world.kindOf mine.ref = .list) :
    ∃ ref items, mine = .list ref items ∧ (world.slots ref).map Slot.target = items.map ContentTree.ref := by
  have live : world.isLive mine.ref = true := isLive_of_isList isList
  cases mine with
  | value ref scalar => cases (kindOf_of_storage? (stands.2 live)).symm.trans isList
  | list ref items => exact ⟨ref, items, rfl, (stands.2.1 live).2⟩
  | other ref => exact absurd isList (stands.2 live).2

/-- Where one of two objects has gone, nothing need be retained. -/
private theorem retains_of_gone (touches : Touches region world after) (stands : mine.Stands world)
    (also : given.Stands world)
    (gone : world.isLive mine.ref = false ∨ world.isLive given.ref = false) : mine.Retains after given made := by
  have never (live : after.isLive mine.ref = true) (lives : after.isLive given.ref = true) : False := by
    rcases gone with gone | gone
    · cases gone.symm.trans (touches.isLive stands.lt_size live)
    · cases gone.symm.trans (touches.isLive also.lt_size lives)
  cases mine with
  | value ref scalar =>
    cases given with
    | value other value => exact fun _ live lives => (never live lives).elim
    | _ => trivial
  | list ref items =>
    cases given with
    | list other others => exact fun live lives => (never live lives).elim
    | _ => trivial
  | other ref => cases given <;> trivial

end ContentTree

namespace Act

open ContentTree

variable {α : Type} {world after : World} {list : Ref} {config : Config} {mine given : ContentTree} {position bound : Nat}
  {slot current : Slot} {slots : List Slot} {mines givens : List ContentTree} {nested : Ref → Ref → Act Unit} {region : Ref → Prop}

/-- What has come of assigning a tree to the one at a position of a list. -/
structure Placed (world : World) (list : Ref) (position : Nat) (mine given : ContentTree) (after : World) : Prop where
  touches : Touches (fun ref => ref = list ∨ ref ∈ mine.nodes) world after
  takes : ∃ slot made, after.slots list = (world.slots list).set position slot ∧ slot.target = made.ref ∧
    Aliases (fun ref => ref ∈ mine.refs ∨ ref ∈ given.refs) slot ∧ Takes world after mine given made

theorem gives_replaceSlot_set (sound : world.Sound) (used : list ∈ world.inUse)
    (there : (world.slots list)[position]? = some current)
    (alive : world.Alive [slot]) : Gives (replaceSlot list position slot) world fun _ after =>
      Touches (· = list) world after ∧ after.slots list = (world.slots list).set position slot := by
  have isList : world.kindOf list = .list := kindOf_eq_list_of_mem_slots (List.mem_of_getElem? there)
  have old : list < (world.changeSlots list (·.set position slot)).heap.size :=
    (lt_size_of_isLive (sound.inUse used)).trans_eq heap_size_change.symm
  have ran : replaceSlot list position slot world = .ok () _ := replaceSlot_ok_iff.mpr ⟨current, there, rfl⟩
  have follows := ((safe_replaceSlot used alive).of_ok sound ran).1
  have released : Touches (fun _ => False) (world.changeSlots list (·.set position slot)) _ :=
    touches_releaseAll current.held?.toList
  have live := (follows.sound sound).inUse (follows.mem_inUse used)
  have changed : Touches (· = list) world (world.changeSlots list (·.set position slot)) := touches_changeList rfl
  refine ⟨(), _, ran, changed.trans (touches_releaseAll _), ?_⟩
  rw [released.slots old id live, slots_changeSlots, if_pos ⟨rfl, isList⟩]

/-- An element is replaced by a copy of a tree. -/
private theorem gives_overwrite (sound : world.Sound) (used : list ∈ world.inUse) (read : given.ref ∈ world.inUse)
    (there : (world.slots list)[position]? = some current) (stands : given.Stands world) (once : given.nodes.Nodup)
    (apart : list ∉ given.nodes) (yields : ∀ made after, Touches (· = list) world after → mine.Retains after given made) :
    Gives (overwrite list position given.ref config) world fun _ after => Placed world list position mine given after := by
  have old := lt_size_of_isLive (sound.inUse used)
  refine ((gives_copy_tree stands once).with_safe sound (safe_copy (sound.inUse read))).bind ?_
  rintro slot middle ⟨⟨copied, made, target, aliases, copies⟩, soundMiddle, began, alive, -⟩
  have usedMiddle := began.mem_inUse used
  have same := copied.slots old id (soundMiddle.inUse usedMiddle)
  obtain ⟨_, after, ran, replaced, placed⟩ := gives_replaceSlot_set soundMiddle usedMiddle (same ▸ there) alive
  have touches : Touches (· = list) world after := (copied.mono fun _ _ => False.elim).trans replaced
  have outside : ∀ ref ∈ made.nodes, ref ≠ list := by
    rintro _ member rfl
    exact (copies.nodes _ member).elim (fun fresh => absurd old (Nat.not_lt.mpr fresh)) apart
  refine ⟨(), after, ran, touches.mono fun _ _ => .inl, slot, made, same ▸ placed, target, fun link => .inr (aliases link), ?_⟩
  exact ⟨copies.stands.later replaced outside, copies.contents, yields made after touches,
    fun ref member => .inr ((copies.nodes ref member).symm),
    (copies.aliased.later replaced copies.stands.nodes_lt_size outside).mono fun _ => .inr⟩

/-- Assigning a position while objects are held that are let go of afterwards. -/
theorem Gives.placed_holding {refs : List Ref} {act : Act Unit} (sound : world.Sound) (used : list ∈ world.inUse)
    (safe : Safe .burying (Act.holding refs act) world fun _ _ => True) (stand : mine.Stands world) (also : given.Stands world)
    (gives : Gives act { world with inUse := refs ++ world.inUse } fun _ after =>
      Placed { world with inUse := refs ++ world.inUse } list position mine given after) :
    Gives (Act.holding refs act) world fun _ after => Placed world list position mine given after := by
  obtain ⟨_, after, ran, touches, slot, made, placed, target, aliases, takes⟩ := gives
  have went := holding_ok_iff.mpr ⟨after, ran, rfl⟩
  have follows := (safe.of_ok sound went).1
  have live := (follows.sound sound).inUse (follows.mem_inUse used)
  have old := lt_size_of_isLive (sound.inUse used)
  have settles : Touches (fun _ => False) after (after.settle world.inUse) := touches_settle
  refine ⟨(), _, went, touches_withInUse.trans (touches.trans touches_settle), slot, made, ?_, target, aliases, ?_⟩
  · exact (settles.slots (old.trans_le touches.size) id live).trans placed
  · refine ⟨takes.stands.kept settles, takes.contents, ?_, takes.nodes, takes.aliased.kept settles takes.stands.nodes_lt_size⟩
    exact takes.retains.later settles (fun ref member => (stand.nodes_lt_size ref member).trans_le touches.size)
      fun ref member => (also.nodes_lt_size ref member).trans_le touches.size

/-- Where one list can be assigned to another one. -/
structure Assignable (world : World) (list source : Ref) (mines givens : List ContentTree) : Prop where
  sound : world.Sound
  used : list ∈ world.inUse
  isList : world.kindOf list = .list
  free : world.isBusy list = false
  targets : (world.slots list).map Slot.target = mines.map ContentTree.ref
  others : (world.slots source).map Slot.target = givens.map ContentTree.ref
  different : list ≠ source
  apart : list ∉ nodesOf mines ∧ list ∉ nodesOf givens
  room : world.isConstant list = false → givens.length ≤ Limits.listLength
  separate : Separate world mines givens

/-- What has come of assigning one list to another one. -/
structure Assigned (world : World) (list : Ref) (mines givens : List ContentTree) (after : World) (mades : List ContentTree) :
    Prop where
  touches : Touches (fun ref => ref = list ∨ ref ∈ nodesOf mines) world after
  targets : (after.slots list).map Slot.target = mades.map ContentTree.ref
  stand : AllStand after mades
  retain : RetainAll after mines givens mades
  nodes : ∀ ref ∈ nodesOf mades, ref ∈ nodesOf mines ∨ ref ∈ nodesOf givens ∨ world.heap.size ≤ ref
  aliased : Aliased after (list :: nodesOf mades) fun ref => ref ∈ refsOf mines ∨ ref ∈ refsOf givens
  contents : world.isConstant list = false → contentsOf mades = contentsOf givens
  /-- A constant list keeps what lies past the overlap. -/
  constant : world.isConstant list = true → ∃ taken, mades = taken ++ mines.drop givens.length ∧
    contentsOf taken = contentsOf (givens.take mines.length)

/-- Whether lists are assigned as they should be, if there are fewer lists and variables in them than some bound. -/
def AssignsTrees (nested : Ref → Ref → Act Unit) (bound : Nat) : Prop :=
  ∀ {world list source mines givens}, Assignable world list source mines givens → (nodesOf mines).length < bound →
    Gives (nested list source) world fun _ after => ∃ mades, Assigned world list mines givens after mades

/-- A variable takes the value of another one. -/
private theorem gives_assignVariable {ref other : Ref} {former scalar : Scalar}
    (there : (world.slots list)[position]? = some current)
    (target : current.target = ref) (found : world.storage? ref = some (.stored former))
    (shows : world.storage? other = some (.stored scalar)) (changeable : world.isConstant ref = false) :
    Gives (assignFrom ref other config) world fun _ after =>
      Placed world list position (.value ref former) (.value other scalar) after := by
  refine (gives_stored shows).bind ?_
  rintro value middle ⟨rfl, still⟩
  have kept : middle.storage? ref = some (.stored former) := (still.storage?_eq_some (by rintro _ _ ⟨⟩)).mpr found
  have old := lt_size_of_isLive (isLive_of_storage? found)
  have reads : Touches (fun _ => False) world middle := still.touches
  have free : middle.isConstant ref = false := (reads.isConstant old (isLive_of_storage? kept)).trans changeable
  refine ⟨(), _, assign_eq ⟨former, kept⟩ free, still.touches.trans (touches_setStorage (.inr List.mem_cons_self)),
    current, .value ref value, ?_, target, fun _ => .inl (List.mem_singleton.mpr target), ?_⟩
  · obtain ⟨inside, rfl⟩ := List.getElem?_eq_some_iff.mp there
    rw [List.set_getElem_self, slots_setStorage, still.slots]
  · have stands : (ContentTree.value ref value).Stands (middle.setStorage ref (.stored value)) :=
      ⟨(old.trans_eq still.size.symm).trans_eq heap_size_change.symm, fun _ => storage?_setStorage_self kept⟩
    exact ⟨stands, rfl, fun _ _ _ => rfl, fun _ => .inl, stands.aliased.mono fun _ => .inl⟩

/-- A list takes the elements of another one. -/
private theorem gives_assignNested (trees : AssignsTrees nested bound) (assigns : Assigns nested) (sound : world.Sound)
    (used : list ∈ world.inUse) {ref other : Ref} (holds : ref ∈ world.inUse) (isList : world.kindOf ref = .list)
    (also : world.kindOf other = .list) {items others : List ContentTree}
    (separate : Separate world [.list ref items] [.list other others])
    (apart : list ∉ (ContentTree.list ref items).nodes) (there : (world.slots list)[position]? = some current)
    (target : current.target = ref) (enough : (ContentTree.list ref items).nodes.length ≤ bound) :
    Gives (nested ref other) world fun _ after =>
      Placed world list position (.list ref items) (.list other others) after := by
  have once := separate.once
  rw [nodesOf_singleton, nodesOf_singleton] at once
  obtain ⟨mineOnce, -, differ⟩ := List.nodup_append.mp once
  have inside : ref ∈ (ContentTree.list ref items).nodes := List.mem_cons_self
  have changeable := separate.changeable ref (List.mem_append_left _ inside) isList
  have targets := (separate.also.1.2.1 (isLive_of_isList also)).2
  have count : (world.slots other).length = others.length := by simpa using congrArg List.length targets
  have assignable : Assignable world ref other items others := {
    sound
    used := holds
    isList
    free := separate.free ref (List.mem_append_left _ inside)
    targets := (separate.stand.1.2.1 (isLive_of_isList isList)).2
    others := targets
    different := differ ref inside other List.mem_cons_self
    apart := ⟨(List.nodup_cons.mp mineOnce).1, fun member => differ ref inside ref (List.mem_cons_of_mem _ member) rfl⟩
    room := fun _ => count ▸ separate.room other (List.mem_append_left _ List.mem_cons_self)
    separate := separate.items }
  obtain ⟨_, after, ran, ⟨mades, assigned⟩, soundAfter, follows, -⟩ :=
    (trees assignable (Nat.lt_of_succ_le enough)).with_safe sound (assigns ref other world holds)
  have old := lt_size_of_isLive (isLive_of_isList isList)
  have touches : Touches (· ∈ (ContentTree.list ref items).nodes) world after :=
    assigned.touches.mono fun _ _ => List.mem_cons.mpr
  have kept := touches.slots (lt_size_of_isLive (sound.inUse used)) apart (soundAfter.inUse (follows.mem_inUse used))
  refine ⟨(), after, ran, touches.mono fun _ _ => .inr, current, .list ref mades, ?_, target,
    fun _ => .inl (target ▸ List.mem_cons_self), ?_⟩
  · obtain ⟨within, rfl⟩ := List.getElem?_eq_some_iff.mp there
    rw [List.set_getElem_self, kept]
  · refine ⟨⟨old.trans_le touches.size, fun live => ⟨(touches.kindOf old live).trans isList, assigned.targets⟩, assigned.stand⟩,
      congrArg Contents.list (assigned.contents changeable), fun _ _ => ⟨mades, rfl, assigned.retain⟩, ?_,
      assigned.aliased.mono fun _ => .imp (List.mem_cons_of_mem _) (List.mem_cons_of_mem _)⟩
    refine List.forall_mem_cons.mpr ⟨.inl inside, fun made member => ?_⟩
    exact (assigned.nodes made member).imp (List.mem_cons_of_mem _) (.imp_left (List.mem_cons_of_mem _))

private theorem gives_assignInPlace (trees : AssignsTrees nested bound) (assigns : Assigns nested) (sound : world.Sound)
    (used : list ∈ world.inUse) (holds : mine.ref ∈ world.inUse) (read : given.ref ∈ world.inUse)
    (separate : Separate world [mine] [given]) (apart : list ∉ mine.nodes ∧ list ∉ given.nodes)
    (there : (world.slots list)[position]? = some current) (target : current.target = mine.ref)
    (enough : mine.nodes.length ≤ bound) : Gives (assignInPlace nested list position mine.ref given.ref config) world
      fun _ after => Placed world list position mine given after := by
  have once := separate.once
  rw [nodesOf_singleton, nodesOf_singleton] at once
  obtain ⟨-, givenOnce, differ⟩ := List.nodup_append.mp once
  have overwrites (yields : ∀ made after, Touches (· = list) world after → mine.Retains after given made) :
      Gives (overwrite list position given.ref config) world fun _ after => Placed world list position mine given after :=
    gives_overwrite sound used read there separate.also.1 givenOnce apart.2 yields
  refine .look (.look ?_)
  split
  next isVar also =>
    obtain ⟨ref, former, rfl, found⟩ := separate.stand.1.of_isVar isVar
    obtain ⟨other, scalar, rfl, shows⟩ := separate.also.1.of_isVar also
    refine .look ?_
    split
    next constant =>
      refine overwrites fun made after touches changeable live _ => ?_
      cases changeable.symm.trans ((touches.isConstant separate.stand.1.lt_size live).trans constant)
    next changeable => exact gives_assignVariable there target found shows (Bool.not_eq_true _ ▸ changeable)
  next isList also =>
    obtain ⟨ref, items, rfl, -⟩ := separate.stand.1.of_isList isList
    obtain ⟨other, others, rfl, -⟩ := separate.also.1.of_isList also
    have free := separate.free ref (List.mem_append_left _ List.mem_cons_self)
    have different : ref ≠ other := differ ref List.mem_cons_self other List.mem_cons_self
    refine .look ?_
    rw [if_neg (by simp [ContentTree.ref, free, different])]
    exact gives_assignNested trees assigns sound used holds isList also separate apart.1 there target enough
  next notVars notLists =>
    refine overwrites fun made after _ => ?_
    have live := sound.inUse holds
    have also := sound.inUse read
    cases mine with
    | value ref former =>
      cases given with
      | value other scalar =>
        have shows := separate.also.1.2 also
        exact (notVars (kindOf_of_storage? (separate.stand.1.2 live)) (kindOf_of_storage? shows)).elim
      | _ => trivial
    | list ref items =>
      cases given with
      | list other others => exact (notLists (separate.stand.1.2.1 live).1 (separate.also.1.2.1 also).1).elim
      | _ => trivial
    | other ref => cases given <;> trivial

private theorem gives_assignElement (trees : AssignsTrees nested bound) (assigns : Assigns nested) (sound : world.Sound)
    (used : list ∈ world.inUse) (read : given.ref ∈ world.inUse) (separate : Separate world [mine] [given])
    (apart : list ∉ mine.nodes ∧ list ∉ given.nodes) (there : (world.slots list)[position]? = some current)
    (target : current.target = mine.ref) (enough : mine.nodes.length ≤ bound) :
    Gives (assignElement nested list position given.ref config) world
      fun _ after => Placed world list position mine given after := by
  by_cases live : world.isLive current.target = true
  case neg =>
    have gone := Bool.not_eq_true _ ▸ live
    have once : given.nodes.Nodup := nodesOf_singleton ▸ (List.nodup_append.mp separate.once).2.1
    unfold Gives
    rw [assignElement_of_gone there gone]
    exact gives_overwrite sound used read there separate.also.1 once apart.2 fun made after touches =>
      retains_of_gone touches separate.stand.1 separate.also.1 (.inl (target ▸ gone))
  have safe : Safe .burying (assignElement nested list position given.ref config) world _ := assigns.assignElement used read
  unfold Gives
  unfold Safe at safe
  rw [assignElement_of_live there live, target] at safe ⊢
  refine Gives.placed_holding sound used safe separate.stand.1 separate.also.1 ?_
  have follows : Follows .gentle world { world with inUse := [mine.ref] ++ world.inUse } :=
    follows_use sound (List.forall_mem_singleton.mpr (target ▸ live))
  exact gives_assignInPlace trees assigns (follows.sound sound) (follows.mem_inUse used) List.mem_cons_self
    (follows.mem_inUse read) separate.withInUse apart there target enough

/-- One position is assigned, whatever has become of what is there. -/
private theorem gives_assignSlot (trees : AssignsTrees nested bound) (assigns : Assigns nested) (sound : world.Sound)
    (used : list ∈ world.inUse) (separate : Separate world [mine] [given]) (apart : list ∉ mine.nodes ∧ list ∉ given.nodes)
    (there : (world.slots list)[position]? = some current) (target : current.target = mine.ref) (kept : Kept world slot)
    (source : slot.target = given.ref) (enough : mine.nodes.length ≤ bound) :
    Gives (assignSlot nested list config position slot) world fun _ after => Placed world list position mine given after := by
  refine .look ?_
  rw [source]
  split
  next also =>
    have reading : Safe .burying (holding [given.ref] (assignElement nested list position given.ref config)) world _ :=
      assigns.holding_assignElement used also
    refine Gives.placed_holding sound used reading separate.stand.1 separate.also.1 ?_
    have follows : Follows .gentle world { world with inUse := [given.ref] ++ world.inUse } :=
      follows_use sound (List.forall_mem_singleton.mpr also)
    exact gives_assignElement trees assigns (follows.sound sound) (follows.mem_inUse used) List.mem_cons_self
      separate.withInUse apart there target enough
  next gone =>
    obtain ⟨_, after, ran, replaced, placed⟩ := gives_replaceSlot_set sound used there (alive_singleton.mpr (kept.knows sound))
    refine ⟨(), after, ran, replaced.mono fun _ _ => .inl, slot, given, placed, source, fun _ => .inr (source ▸ ref_mem_refs), ?_⟩
    have outside : ∀ ref ∈ given.nodes, ref ≠ list := fun ref member same => apart.2 (same ▸ member)
    have stands := separate.also.1.later replaced outside
    exact ⟨stands, rfl, retains_of_gone replaced separate.stand.1 separate.also.1 (.inr (Bool.not_eq_true _ ▸ gone)),
      fun _ => .inr ∘ .inl, stands.aliased.mono fun _ => .inr⟩

/-- What has come of assigning trees to those at the positions of a list from one on. -/
structure Walked (world : World) (list : Ref) (position : Nat) (mines givens : List ContentTree) (after : World) : Prop where
  touches : Touches (fun ref => ref = list ∨ ref ∈ nodesOf mines) world after
  takes : ∃ news mades,
    after.slots list = (world.slots list).take position ++ news ++ (world.slots list).drop (position + givens.length) ∧
      news.map Slot.target = mades.map ContentTree.ref ∧
        (∀ slot ∈ news, Aliases (fun ref => ref ∈ refsOf mines ∨ ref ∈ refsOf givens) slot) ∧
          TakeAll world after mines givens mades

theorem Walked.nil : Walked world list position [] [] world where
  touches := .refl
  takes := ⟨[], [], by simp, rfl, List.forall_mem_nil _, trivial, rfl, by simp [RetainAll], List.forall_mem_nil _,
    List.forall_mem_nil _⟩

/-- The other positions are assigned once the first one has been. -/
theorem Walked.cons {middle : World} (placed : Placed world list position mine given middle)
    (walked : Walked middle list (position + 1) mines givens after) (old : list < world.heap.size)
    (inside : position < (world.slots list).length) (separate : Separate world (mine :: mines) (given :: givens))
    (apart : list ∉ mine.nodes ∧ list ∉ given.nodes) : Walked world list position (mine :: mines) (given :: givens) after := by
  obtain ⟨touches, new, made, slots, target, aliases, takes⟩ := placed
  obtain ⟨more, news, mades, slotsLater, targets, aliasesLater, all⟩ := walked
  refine ⟨?_, new :: news, made :: mades, ?_, ?_, ?_, ?_⟩
  · refine (touches.mono fun ref _ => .imp_right (List.mem_append_left _)).trans (more.mono fun ref _ => ?_)
    exact .imp_right (List.mem_append_right _)
  · have first : ((world.slots list).set position new).take (position + 1) = (world.slots list).take position ++ [new] := by
      rw [List.take_add_one, List.take_set_of_le le_rfl, List.getElem?_set_self inside]
      rfl
    have count : position + 1 + givens.length = position + (given :: givens).length := by
      rw [List.length_cons]
      omega
    rw [slotsLater, slots, first, List.drop_set_of_lt (by omega), count, List.append_assoc _ [new] news]
    rfl
  · rw [List.map_cons, List.map_cons, target, targets]
  · refine List.forall_mem_cons.mpr ⟨fun link => ?_, fun slot member link => ?_⟩
    · exact (aliases link).imp (List.mem_append_left _) (List.mem_append_left _)
    · exact (aliasesLater slot member link).imp (List.mem_append_right _) (List.mem_append_right _)
  · exact .cons takes more (takes.not_mem_rest separate old apart) touches.size separate.stand.1.nodes_lt_size
      separate.also.1.nodes_lt_size all

theorem gives_assignOverlap (trees : AssignsTrees nested bound) (assigns : Assigns nested) (sound : world.Sound)
    (used : list ∈ world.inUse) (separate : Separate world mines givens) (apart : list ∉ nodesOf mines ∧ list ∉ nodesOf givens)
    (targets : mines.map ContentTree.ref <+: ((world.slots list).drop position).map Slot.target)
    (kept : ∀ slot ∈ slots, Kept world slot) (sources : slots.map Slot.target = givens.map ContentTree.ref)
    (fits : givens.length = mines.length) (enough : (nodesOf mines).length ≤ bound) :
    Gives (assignOverlap nested list config position slots) world fun _ after => Walked world list position mines givens after := by
  induction slots generalizing world position mines givens with
  | nil =>
    obtain rfl := List.map_eq_nil_iff.mp sources.symm
    obtain rfl := List.length_eq_zero_iff.mp fits.symm
    exact .pure .nil
  | cons slot rest ih =>
    cases givens with
    | nil => cases sources
    | cons given givens =>
      cases mines with
      | nil => cases fits
      | cons mine mines =>
        obtain ⟨_, beginning, others⟩ := List.cons_prefix_iff.mp targets
        obtain ⟨current, currents, dropped, target, rfl⟩ := List.map_eq_cons_iff.mp beginning
        have there : (world.slots list)[position]? = some current := by
          rw [← List.head?_drop, dropped, List.head?_cons]
        obtain ⟨inside, -⟩ := List.getElem?_eq_some_iff.mp there
        obtain ⟨source, later⟩ := List.cons.inj sources
        obtain ⟨here, remaining⟩ := List.forall_mem_cons.mp kept
        have apartHere : list ∉ mine.nodes ∧ list ∉ given.nodes :=
          ⟨fun member => apart.1 (List.mem_append_left _ member), fun member => apart.2 (List.mem_append_left _ member)⟩
        have apartLater : list ∉ nodesOf mines ∧ list ∉ nodesOf givens :=
          ⟨fun member => apart.1 (List.mem_append_right _ member), fun member => apart.2 (List.mem_append_right _ member)⟩
        have short : mine.nodes.length ≤ bound := (List.sublist_append_left ..).length_le.trans enough
        have shorter : (nodesOf mines).length ≤ bound := (List.sublist_append_right ..).length_le.trans enough
        rw [assignOverlap_cons]
        refine ((gives_assignSlot trees assigns sound used separate.head apartHere there target here source short).with_safe
          sound (assigns.assignSlot used here)).bind ?_
        rintro _ middle ⟨placed, soundMiddle, follows, -⟩
        have targetsLater : mines.map ContentTree.ref <+: ((middle.slots list).drop (position + 1)).map Slot.target := by
          obtain ⟨new, -, slots, -⟩ := placed.takes
          rwa [slots, List.drop_set_of_lt (Nat.lt_succ_self position), ← List.tail_drop, dropped, List.tail_cons]
        exact (ih soundMiddle (follows.mem_inUse used) (separate.rest apartLater placed.touches) apartLater targetsLater
          (fun slot member => follows.kept (remaining slot member)) later (Nat.succ.inj fits) shorter).weaken fun _ after walked =>
            .cons placed walked (lt_size_of_isLive (sound.inUse used)) inside separate apartHere

end Act

end Dialogue
