import Dialogue.Proofs.AssignmentBounds
import Dialogue.Proofs.FaithfulCopies

/-! Acts that copy by value: a list is duplicated, an object is pushed onto a list or replaces an element, the elements
of a list are appended. Each of them makes faithful copies; where a list grows to an index first, what is copied can
still be copied. -/

namespace Dialogue

namespace World

variable {world after : World} {list ref other object : Ref} {config : Config}

/-- A list has got new values at its end, if anything has changed. -/
structure Lengthened (world : World) (list : Ref) (after : World) : Prop where
  others : ∀ ref < world.heap.size, ref ≠ list → after.object? ref = world.object? ref
  new : ∀ ref object, world.heap.size ≤ ref → after.object? ref = some object →
    ∃ scalar, object = { name := "", body := .var (.stored scalar) }
  isList : after.kindOf list = .list
  slots : ∀ slot ∈ after.slots list, slot ∈ world.slots list ∨ world.heap.size ≤ slot.target
  busy : after.isBusy list = world.isBusy list

namespace Lengthened

theorem refl (isList : world.kindOf list = .list) : world.Lengthened list world where
  others _ _ _ := rfl
  new ref object beyond found := by
    have none : world.object? ref = none := Heap.get?_of_size_le beyond
    cases none.symm.trans found
  isList := isList
  slots _ member := .inl member
  busy := rfl

variable (lengthened : world.Lengthened list after)

include lengthened

theorem consults (next : after.Consults ref other) : ref < world.heap.size ∧
    (world.Consults ref other ∨ world.heap.size ≤ other) := by
  have old : ref < world.heap.size := by
    by_contra beyond
    have new := lengthened.new ref
    rcases next with ⟨slot, member, -⟩ | shown
    · obtain ⟨object, there⟩ := Option.isSome_iff_exists.mp (isLive_of_mem_slots member)
      obtain ⟨scalar, rfl⟩ := new object (Nat.not_lt.mp beyond) there
      rw [slots_eq, there] at member
      cases member
    · obtain ⟨storage, found, shows⟩ := Option.bind_eq_some_iff.mp shown
      obtain ⟨object, there, body⟩ := Option.map_eq_some_iff.mp (storage?_eq_some.mp found)
      obtain ⟨scalar, rfl⟩ := new object (Nat.not_lt.mp beyond) there
      cases body
      cases shows
  refine ⟨old, ?_⟩
  by_cases here : ref = list
  · subst here
    rcases next with ⟨slot, member, rfl⟩ | shown
    · exact (lengthened.slots slot member).imp consults_of_mem id
    · obtain ⟨storage, found, -⟩ := Option.bind_eq_some_iff.mp shown
      cases lengthened.isList.symm.trans (kindOf_of_storage? found)
  · have same := lengthened.others ref old here
    refine .inl ?_
    unfold Consults at next ⊢
    rwa [slots_eq, storage?_eq_bind, same, ← slots_eq, ← storage?_eq_bind] at next

theorem transGen (reached : Relation.TransGen after.Consults ref other) :
    Relation.TransGen world.Consults ref other ∨ world.heap.size ≤ other := by
  induction reached with
  | single next => exact (lengthened.consults next).2.imp .single id
  | tail _ next ih =>
    obtain ⟨old, consults⟩ := lengthened.consults next
    exact consults.imp (ih.resolve_right (Nat.not_le.mpr old)).tail id

theorem dependsOn (reached : after.DependsOn ref other) : world.DependsOn ref other ∨ world.heap.size ≤ other := by
  rcases Relation.reflTransGen_iff_eq_or_transGen.mp reached with rfl | chain
  · exact .inl .refl
  · exact (lengthened.transGen chain).imp Relation.TransGen.to_reflTransGen id

theorem kindOf (isList : world.kindOf list = .list) (old : ref < world.heap.size) :
    after.kindOf ref = world.kindOf ref := by
  by_cases here : ref = list
  · rw [here, lengthened.isList, isList]
  · rw [World.kindOf, lengthened.others ref old here, World.kindOf]

theorem isLive (live : world.isLive ref = true) : after.isLive ref = true := by
  by_cases here : ref = list
  · exact here ▸ isLive_of_isList lengthened.isList
  · rw [World.isLive, lengthened.others ref (lt_size_of_isLive live) here]
    exact live

/-- What can be copied can still be copied when a list has grown. -/
theorem copyable (sound : world.Sound) (isList : world.kindOf list = .list) (live : world.isLive object = true)
    (copyable : world.Copyable config object) : after.Copyable config object where
  acyclic other reached otherList circle := by
    rcases lengthened.dependsOn reached with former | beyond
    · have old := lt_size_of_dependsOn sound (lt_size_of_isLive live) former
      exact copyable.acyclic other former ((lengthened.kindOf isList old).symm.trans otherList)
        ((lengthened.transGen circle).resolve_right (Nat.not_le.mpr old))
    · obtain ⟨object, there⟩ := Option.isSome_iff_exists.mp (isLive_of_isList otherList)
      obtain ⟨scalar, rfl⟩ := lengthened.new other object beyond there
      rw [World.kindOf, there] at otherList
      cases otherList
  pure other storage reached found := by
    rcases lengthened.dependsOn reached with former | beyond
    · have old := lt_size_of_dependsOn sound (lt_size_of_isLive live) former
      have apart : other ≠ list := by
        rintro rfl
        cases lengthened.isList.symm.trans (kindOf_of_storage? found)
      refine copyable.pure other storage former ?_
      rwa [storage?_eq_bind, lengthened.others other old apart, ← storage?_eq_bind] at found
    · obtain ⟨object, there, body⟩ := Option.map_eq_some_iff.mp (storage?_eq_some.mp found)
      obtain ⟨scalar, rfl⟩ := lengthened.new other object beyond there
      cases body
      trivial
  idle other reached := by
    rcases lengthened.dependsOn reached with former | beyond
    · by_cases here : other = list
      · rw [here, lengthened.busy]
        exact copyable.idle list (here ▸ former)
      · have old := lt_size_of_dependsOn sound (lt_size_of_isLive live) former
        rw [isBusy, list?_eq_bind, lengthened.others other old here, ← list?_eq_bind]
        exact copyable.idle other former
    · rw [isBusy, list?_eq_bind]
      cases there : after.object? other with
      | none => rfl
      | some object =>
        obtain ⟨scalar, rfl⟩ := lengthened.new other object beyond there
        rfl

end Lengthened

/-- New values join a list. -/
theorem Extends.lengthened {middle : World} {slots : List Slot} (extended : world.Extends middle)
    (isList : world.kindOf list = .list)
    (new : ∀ ref object, world.heap.size ≤ ref → middle.object? ref = some object →
      ∃ scalar, object = { name := "", body := .var (.stored scalar) })
    (beyond : ∀ slot ∈ slots, world.heap.size ≤ slot.target) :
    world.Lengthened list (middle.changeSlots list (· ++ slots)) := by
  have old := lt_size_of_isLive (isLive_of_isList isList)
  have same := extended.old list old
  have still : middle.kindOf list = .list := by rw [kindOf, same, ← kindOf, isList]
  refine ⟨fun ref inside apart => ?_, fun ref object fresh found => ?_, kindOf_changeSlots.trans still,
    fun slot member => ?_, ?_⟩
  · rw [changeSlots, changeList, object?_change, if_neg (Ne.symm apart), extended.old ref inside]
  · rw [changeSlots, changeList, object?_change, if_neg (old.trans_le fresh).ne] at found
    exact new ref object fresh found
  · rw [slots_changeSlots, if_pos ⟨rfl, still⟩, slots_eq, same, ← slots_eq] at member
    exact (List.mem_append.mp member).imp id (beyond slot)
  · rw [isBusy_changeSlots, isBusy, list?_eq_bind, same, ← list?_eq_bind, isBusy]

end World

namespace Act

open World

variable {world : World} {list : Ref} {config : Config} {index size : Int}

private theorem zeros_new (count : Nat) (world : World) : Meets anything (zeros config count) world fun slots after =>
    world.Extends after ∧ (∀ slot ∈ slots, world.heap.size ≤ slot.target) ∧
      ∀ ref object, world.heap.size ≤ ref → after.object? ref = some object →
        ∃ scalar, object = { name := "", body := .var (.stored scalar) } := by
  induction count generalizing world with
  | zero =>
    refine .pure ⟨.refl, List.forall_mem_nil _, fun ref object beyond found => ?_⟩
    have none : world.object? ref = none := Heap.get?_of_size_le beyond
    cases none.symm.trans found
  | succ count ih =>
    have added : Meets anything (addValue "" (.number (.zero config.precision))) world fun made after =>
        made = world.heap.size ∧ after = world.add { name := "", body := .var (.stored (.number (.zero config.precision))) } :=
      ⟨trivial, rfl, rfl⟩
    apply added.bind
    rintro _ _ - ⟨rfl, rfl⟩
    refine (ih _).bind fun slots after _ ⟨extended, beyond, new⟩ => .pure ⟨Extends.add.trans extended, ?_, ?_⟩
    · refine List.forall_mem_cons.mpr ⟨le_rfl, fun slot member => ?_⟩
      exact Extends.add.size.trans (beyond slot member)
    · intro ref object fresh found
      rcases fresh.eq_or_lt with rfl | later
      · have there := extended.kept (object?_add.trans (if_pos rfl))
        exact ⟨_, Option.some.inj (found.symm.trans there)⟩
      · exact new ref object (by rwa [World.add, Heap.size_add]) found

private theorem lengthened_position (isList : world.kindOf list = .list) :
    Meets anything (position list index config) world fun _ after => world.Lengthened list after := by
  refine .position (fun _ _ _ => .refl isList) fun past _ => .resize (fun _ _ _ => ?_) fun _ fits _ shorter => ?_
  · apply (zeros_new _ world).bind
    rintro zeros middle - ⟨extended, beyond, new⟩
    exact .update trivial (extended.lengthened isList new beyond)
  · -- Lists are never as long as integers are large, so the list does not get shorter.
    unfold Limits.listLength Limits.integerBound at *
    omega

/-! What comes of copies. -/

variable {α β : Type} {after : World} {object made found : Ref} {slot : Slot}

/-- What follows a check that has passed. -/
private theorem ok_of_passed {check : Act α} {next : α → Act β} {value : β}
    (passes : Meets anything check world fun _ after => after = world)
    (ran : (check >>= next) world = .ok value after) : ∃ passed, next passed world = .ok value after := by
  obtain ⟨passed, last, checked, rest⟩ := bind_ok_iff.mp ran
  rw [(passes.of_ok checked).2] at rest
  exact ⟨passed, rest⟩

theorem ok_of_requireChangeable {next : Unit → Act β} {value : β}
    (ran : (requireChangeable list >>= next) world = .ok value after) : next () world = .ok value after := by
  have passes : Meets anything (requireChangeable list) world fun _ after => after = world :=
    Meets.requireChangeable.weaken fun _ _ _ done => done.1
  exact (ok_of_passed passes ran).choose_spec

private theorem ok_of_requireRoom {extra : Nat} {next : Unit → Act β} {value : β}
    (ran : (requireRoom list extra >>= next) world = .ok value after) : next () world = .ok value after :=
  (ok_of_passed Meets.requireRoom ran).choose_spec

private theorem faithful_copy (sound : world.Sound) (copyable : world.Copyable config object)
    (live : world.isLive object = true)
    (ran : copy config object world = .ok slot after) :
    Faithful config (fun _ => False) world [.held object] after [slot] ∧
      (world.kindOf object = .list → outcome (flatten config slot.target) after = outcome (flatten config object) world) := by
  obtain ⟨plan, planned⟩ := planned_of_copy sound copyable live copyable.legible (fun _ reached => reached) ran
  have ordered := ((safe_copy live).of_ok sound ran).1.sound sound |>.ordered
  refine ⟨planned.faithful sound ?_ ?_, fun isList => planned.flatten_eq sound copyable isList ordered⟩
  · exact List.forall_mem_singleton.mpr (lt_size_of_isLive live)
  · exact List.forall_mem_singleton.mpr fun _ reached => reached

private theorem faithful_duplicateList (sound : world.Sound) (copyable : world.Copyable config list)
    (isList : world.kindOf list = .list) (ran : duplicateList config list world = .ok made after) :
    Faithful config (fun _ => False) world [.held list] after [.held made] ∧
      outcome (flatten config made) after = outcome (flatten config list) world := by
  obtain ⟨plans, planned⟩ :=
    planned_of_duplicateList sound copyable isList copyable.legible (fun _ reached => reached) ran
  have ordered := (safe_duplicateList.of_ok sound ran).1.sound sound |>.ordered
  refine ⟨planned.faithful sound ?_ ?_, planned.flatten_eq sound copyable isList ordered⟩
  · exact List.forall_mem_singleton.mpr (lt_size_of_isLive (isLive_of_isList isList))
  · exact List.forall_mem_singleton.mpr fun _ reached => reached

private theorem faithful_push (sound : world.Sound) (copyable : world.Copyable config object)
    (live : world.isLive object = true)
    (isList : world.kindOf list = .list) (ran : push list object config world = .ok found after) :
    ∃ slot, found = slot.target ∧ after.slots list = world.slots list ++ [slot] ∧
      Faithful config (· = list) world [.held object] after [slot] ∧
      (world.kindOf object = .list →
        outcome (flatten config found) after = outcome (flatten config object) world) := by
  have old := lt_size_of_isLive (isLive_of_isList isList)
  have ordered := ((safe_push live old).of_ok sound ran).1.sound sound |>.ordered
  obtain ⟨slot, copied, made, joins⟩ := bind_ok_iff.mp (ok_of_requireRoom (ok_of_requireChangeable ran))
  obtain ⟨_, _, extended, gives⟩ := bind_ok_iff.mp joins
  obtain ⟨-, rfl⟩ := EStateM.Result.ok.inj extended
  obtain ⟨-, rfl, rfl⟩ := Meets.of_ok gives (Meets.element : Meets anything _ _ _)
  obtain ⟨plan, planned⟩ := planned_of_copy sound copyable live copyable.legible (fun _ reached => reached) made
  have joined : Planned config (world.DependsOn object) (· = list) world [plan] [.held object]
      (copied.changeSlots list (· ++ [slot])) [slot] := planned.changeSlots old fun _ => False.elim
  refine ⟨slot, rfl, planned.slots_joined isList, joined.faithful sound ?_ ?_, fun objectIsList => ?_⟩
  · exact List.forall_mem_singleton.mpr (lt_size_of_isLive live)
  · exact List.forall_mem_singleton.mpr fun _ reached => reached
  · exact joined.flatten_eq sound copyable objectIsList ordered

/-- What is put in the place of an element is copied once the list has grown to the index. -/
private theorem faithful_replace (sound : world.Sound) (copyable : world.Copyable config object)
    (live : world.isLive object = true)
    (isList : world.kindOf list = .list) (ran : replace list index object config world = .ok found after) :
    ∃ position before slot copied previous, Act.position list index config world = .ok position before ∧
      copy config object before = .ok slot copied ∧
      Faithful config (fun _ => False) before [.held object] copied [slot] ∧
      (world.kindOf object = .list →
        outcome (flatten config slot.target) copied = outcome (flatten config object) before) ∧
      found = slot.target ∧ (copied.slots list)[position]? = some previous ∧
      after = (copied.changeSlots list (·.set position slot)).releaseAll previous.held?.toList := by
  obtain ⟨position, before, positioned, copies⟩ := bind_ok_iff.mp (ok_of_requireChangeable ran)
  obtain ⟨slot, copied, made, places⟩ := bind_ok_iff.mp copies
  obtain ⟨_, last, placed, gives⟩ := bind_ok_iff.mp places
  obtain ⟨-, rfl, rfl⟩ := Meets.of_ok gives (Meets.element : Meets anything _ _ _)
  obtain ⟨follows, -⟩ := safe_position.of_ok sound positioned
  have lengthened := ((lengthened_position isList).of_ok positioned).2
  obtain ⟨previous, there, rfl⟩ := replaceSlot_ok_iff.mp placed
  obtain ⟨faithful, flattens⟩ := faithful_copy (follows.sound sound) (lengthened.copyable sound isList live copyable)
    (lengthened.isLive live) made
  have kind := lengthened.kindOf isList (lt_size_of_isLive live)
  exact ⟨position, before, slot, copied, previous, positioned, made, faithful, fun isList => flattens (kind.trans isList),
    rfl, there, rfl⟩

private theorem faithful_append (sound : world.Sound) (copyable : world.Copyable config object)
    (isList : world.kindOf list = .list)
    (also : world.Copyable config list)
    (unshown : ∀ ref name, world.DependsOn list ref → world.storage? ref ≠ some (.bound (.length list name)))
    (ran : append list object config world = .ok () after) :
    ∃ copies, after.slots list = world.slots list ++ copies ∧
      Faithful config (· = list) world (world.slots object) after copies ∧
      ∀ text, outcome (flatten config list) world = .ok text →
        outcome (flatten config list) after = (do return text ++ (← outcome (flatten config object) world)) := by
  have old := lt_size_of_isLive (isLive_of_isList isList)
  have ordered := ((safe_append old).of_ok sound ran).1.sound sound |>.ordered
  obtain ⟨plans, middle, plans_ran, rest⟩ := bind_ok_iff.mp (ok_of_requireChangeable ran)
  obtain ⟨copies, copied, made, extended⟩ := bind_ok_iff.mp (ok_of_requireRoom rest)
  obtain ⟨-, rfl⟩ := EStateM.Result.ok.inj extended
  -- Both what is appended and the list itself are read again, so planning must leave both as they look.
  let region : Ref → Prop := fun ref => world.DependsOn object ref ∨ world.DependsOn list ref
  obtain ⟨described, twins⟩ : Copy.DescribesAll config world plans (world.slots object) ∧ Twins config region world middle :=
    described_slots sound copyable (copyable.legible.or also.legible) (fun _ => .inl) plans_ran
  have known : ∀ source ∈ world.slots object, source.target < world.heap.size := fun _ member => (sound.knows member).target
  have planned := planned_of_makeAll sound described known twins made
  have joined : Planned config region (· = list) world plans (world.slots object)
      (copied.changeSlots list (· ++ copies)) copies := planned.changeSlots old fun _ => False.elim
  have mirrors : Mirrors config (world.Below list) world (copied.changeSlots list (· ++ copies)) :=
    joined.mirrors sound (fun ref below => lt_size_of_dependsOn sound old below.dependsOn)
      (fun ref below => .inr below.dependsOn) also.not_below fun ref name below => unshown ref name below.dependsOn
  refine ⟨copies, planned.slots_joined isList, joined.faithful sound known ?_, fun text shown => ?_⟩
  · exact fun source member ref reached => .inl (.head (consults_of_mem member) reached)
  · rw [flatten_shown sound.ordered copyable described]
    refine flatten_appended joined mirrors (planned.slots_joined isList) ?_ sound old known also ?_ ordered shown
    · exact (joined.adds.kinds list old).trans isList
    · exact (((meets_append sound.ordered).of_ok ran).1 list).trans (also.idle list .refl)

end Act

namespace World

variable {world : World} {object : Ref} {config : Config}

/-- Copies by value are deep, faithful and independent, whichever act makes them. What is duplicated, pushed or put in
the place of an element has the text that it had before it was copied. A list to which another one is appended has its
former text, followed by that of the other one, which may be the list itself. -/
theorem copies_are_faithful (ongoing : world.Ongoing) (copyable : world.Copyable config object)
    (live : world.isLive object = true) :
    (∀ made after, world.kindOf object = .list → Act.duplicateList config object world = .ok made after →
      Faithful config (fun _ => False) world [.held object] after [.held made] ∧
      Act.outcome (Act.flatten config made) after = Act.outcome (Act.flatten config object) world) ∧
    (∀ list found after, world.kindOf list = .list → Act.push list object config world = .ok found after →
      ∃ slot, found = slot.target ∧ after.slots list = world.slots list ++ [slot] ∧
        Faithful config (· = list) world [.held object] after [slot] ∧
        (world.kindOf object = .list →
          Act.outcome (Act.flatten config found) after = Act.outcome (Act.flatten config object) world)) ∧
    (∀ list index found after, world.kindOf list = .list →
      Act.replace list index object config world = .ok found after →
      ∃ position before slot copied previous, Act.position list index config world = .ok position before ∧
        Act.copy config object before = .ok slot copied ∧
        Faithful config (fun _ => False) before [.held object] copied [slot] ∧
        (world.kindOf object = .list →
          Act.outcome (Act.flatten config slot.target) copied = Act.outcome (Act.flatten config object) before) ∧
        found = slot.target ∧ (copied.slots list)[position]? = some previous ∧
        after = (copied.changeSlots list (·.set position slot)).releaseAll previous.held?.toList) ∧
    (∀ list after, world.kindOf list = .list → world.Copyable config list →
      (∀ ref name, world.DependsOn list ref → world.storage? ref ≠ some (.bound (.length list name))) →
      Act.append list object config world = .ok () after →
      ∃ copies, after.slots list = world.slots list ++ copies ∧
        Faithful config (· = list) world (world.slots object) after copies ∧
        ∀ text, Act.outcome (Act.flatten config list) world = .ok text →
          Act.outcome (Act.flatten config list) after =
            (do return text ++ (← Act.outcome (Act.flatten config object) world))) := by
  have sound := ongoing.sound
  exact ⟨fun made after isList => Act.faithful_duplicateList sound copyable isList,
    fun list found after isList => Act.faithful_push sound copyable live isList,
    fun list index found after isList => Act.faithful_replace sound copyable live isList,
    fun list after isList => Act.faithful_append sound copyable isList⟩

/-- A list that holds another one twice, in which there are a variable that is bound to a cell of the host and an alias
of a scope. -/
def diamond : World :=
  (runAll {} [
    { action := .create (.scope "root"), name := some "root" },
    { action := .create (.scope "part"), name := some "part" },
    { action := .scope (.register (.handle "part")), target := some "root" },
    { action := .create (.cell "cell" (.text "x") false), name := some "cell" },
    { action := .create (.list "inner"), name := some "inner" },
    { action := .list (.pushItself (.handle "cell")), target := some "inner" },
    { action := .list (.push (.handle "part")), target := some "inner" },
    { action := .create (.list "outer"), name := some "outer" },
    { action := .list (.pushItself (.handle "inner")), target := some "outer" },
    { action := .list (.pushItself (.handle "inner")), target := some "outer" }]).2

private theorem lt_of_consults_diamond {ref other : Ref} (consults : diamond.Consults ref other) : other < ref := by
  have sound : diamond.Sound := (Reachable.runAll (.start {}) _).sound
  have smaller : ∀ list < diamond.heap.size, ∀ slot ∈ diamond.slots list, slot.target < list := by decide +kernel
  rcases consults with ⟨slot, member, rfl⟩ | shown
  · refine smaller ref (Nat.lt_of_not_le fun beyond => ?_) slot member
    rw [slots_eq_nil_of_size_le beyond] at member
    cases member
  · obtain ⟨storage, found, shows⟩ := Option.bind_eq_some_iff.mp shown
    exact sound.ordered ref other (by rw [found]; exact Storage.source?_of_shown? shows)

theorem contents_diamond : ∀ ref < diamond.heap.size, diamond.isBusy ref = false ∧
    (diamond.storage? ref = none ∨ diamond.storage? ref = some (.bound (.cell (.text "x") false))) := by
  decide +kernel

private theorem copyable_diamond (list : Ref) : diamond.Copyable {} list where
  acyclic other _ _ circle := by
    have smaller {first last : Ref} (path : Relation.TransGen diamond.Consults first last) : last < first := by
      induction path with
      | single next => exact lt_of_consults_diamond next
      | tail _ next ih => exact (lt_of_consults_diamond next).trans ih
    exact lt_irrefl other (smaller circle)
  pure other storage _ found := by
    rcases (contents_diamond other (lt_size_of_isLive (isLive_of_storage? found))).2 with none | same
    · cases none.symm.trans found
    · obtain rfl := Option.some.inj (same.symm.trans found)
      trivial
  idle other _ := by
    by_cases old : other < diamond.heap.size
    · exact (contents_diamond other old).1
    · exact Bool.eq_false_iff.mpr fun busy => old (lt_size_of_isBusy busy)

/-- The copy of the list has the text of the list, and appended to itself the list has that text twice. -/
theorem copies_are_faithful_of_diamond :
    (∃ made after, Act.duplicateList {} 4 diamond = .ok made after ∧
      Faithful {} (fun _ => False) diamond [.held 4] after [.held made] ∧
      Act.outcome (Act.flatten {} made) after = .ok "xroot:partxroot:part") ∧
    ∃ after, Act.append 4 4 {} diamond = .ok () after ∧
      Act.outcome (Act.flatten {} 4) after = .ok "xroot:partxroot:partxroot:partxroot:part" := by
  have ongoing : diamond.Ongoing := Reachable.ongoing (.runAll (.start {}) _)
  have isList : diamond.kindOf 4 = .list := by decide +kernel
  have text : Act.outcome (Act.flatten {} 4) diamond = .ok "xroot:partxroot:part" := by decide +kernel
  obtain ⟨duplicated, -, -, appended⟩ :=
    copies_are_faithful ongoing (copyable_diamond 4) (isLive_of_kindOf (by rw [isList]; decide))
  constructor
  · obtain ⟨made, came⟩ : ∃ made, Act.outcome (Act.duplicateList {} 4) diamond = .ok made := ⟨9, by decide +kernel⟩
    obtain ⟨after, ran⟩ := Act.outcome_eq_ok.mp came
    obtain ⟨faithful, same⟩ := duplicated made after isList ran
    exact ⟨made, after, ran, faithful, same.trans text⟩
  · have came : Act.outcome (Act.append 4 4 {}) diamond = .ok () := by decide +kernel
    obtain ⟨after, ran⟩ := Act.outcome_eq_ok.mp came
    have unbound (ref : Ref) (name : String) : diamond.storage? ref ≠ some (.bound (.length 4 name)) := fun bound => by
      rcases (contents_diamond ref (lt_size_of_isLive (isLive_of_storage? bound))).2 with none | same
      · cases none.symm.trans bound
      · cases same.symm.trans bound
    obtain ⟨copies, -, -, texts⟩ := appended 4 after isList (copyable_diamond 4) (fun ref name _ => unbound ref name) ran
    refine ⟨after, ran, (texts _ text).trans ?_⟩
    rw [text]
    rfl

end World

end Dialogue
