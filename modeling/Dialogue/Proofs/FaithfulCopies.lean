import Dialogue.Proofs.CopiedTexts
import Dialogue.Proofs.SessionSafety

/-! Copies by value are deep, faithful and independent. What is copied stays as it was; what the copy leads to is new or
shared, and both have the same text. -/

namespace Dialogue

namespace World

variable {world middle after : World} {ref other list : Ref} {config : Config} {region changed : Ref → Prop} {source made slot : Slot}
  {sources copies slots : List Slot} {plan : Copy} {plans : List Copy}

/-- What has come of copying some slots, where a list may have got the copies. -/
structure Faithful (config : Config) (changed : Ref → Prop) (world : World) (sources : List Slot) (after : World)
    (copies : List Slot) : Prop where
  copied : List.Forall₂ (Copied config world after) sources copies
  /-- The lists and variables that a copy leads to are new, without a name, and no constants. -/
  independent : ∀ copy ∈ copies, ∀ ref, after.DependsOn copy.target ref →
    after.kindOf ref = .var ∨ after.kindOf ref = .list →
      world.heap.size ≤ ref ∧ after.nameOf ref = "" ∧ after.isConstant ref = false
  /-- What was there before has not changed, apart from what readings work out, -/
  kept : ∀ ref < world.heap.size, ¬ changed ref →
    (after.object? ref).map Object.essence = (world.object? ref).map Object.essence
  /-- and what was copied looks as it did in that respect too. -/
  seen : ∀ source ∈ sources, ∀ ref, world.DependsOn source.target ref → ¬ changed ref →
    (after.body? ref).map (Body.seen config) = (world.body? ref).map (Body.seen config)

private theorem lt_size_of_consults (sound : world.Sound) (old : ref < world.heap.size)
    (consults : world.Consults ref other) :
    other < world.heap.size := by
  rcases consults with ⟨slot, member, rfl⟩ | shown
  · exact (sound.knows member).target
  · obtain ⟨storage, found, shows⟩ := Option.bind_eq_some_iff.mp shown
    refine lt_trans (sound.ordered ref other ?_) old
    rw [found]
    exact Storage.source?_of_shown? shows

theorem lt_size_of_dependsOn (sound : world.Sound) (old : ref < world.heap.size) (reached : world.DependsOn ref other) :
    other < world.heap.size := by
  induction reached with
  | refl => exact old
  | tail _ next ih => exact lt_size_of_consults sound ih next

/-- Copies that were planned in a world and are made in a later one, in which some lists may have changed. -/
structure Planned (config : Config) (region changed : Ref → Prop) (world : World) (plans : List Copy) (sources : List Slot)
    (after : World) (copies : List Slot) : Prop where
  described : Copy.DescribesAll config world plans sources
  makes : Copy.MakesAll world after plans copies
  adds : world.Adds after
  inside : ∀ copy ∈ copies, world.InCopies copy.target
  kept : ∃ middle, Twins config region world middle ∧
    ∀ ref < world.heap.size, ¬ changed ref → after.object? ref = middle.object? ref

theorem Planned.faithful (planned : Planned config region changed world plans sources after copies)
    (sound : world.Sound)
    (known : ∀ source ∈ sources, source.target < world.heap.size)
    (within : ∀ source ∈ sources, ∀ ref, world.DependsOn source.target ref → region ref) :
    Faithful config changed world sources after copies where
  copied := planned.makes.copied planned.described
  independent copy member ref reached copied := by
    have fresh := planned.adds.fresh (planned.adds.dependsOn (planned.inside copy member) reached) copied
    have live : after.isLive ref = true := isLive_of_kindOf (by rcases copied with is | is <;> rw [is] <;> decide)
    obtain ⟨object, there⟩ := Option.isSome_iff_exists.mp live
    rw [World.nameOf, isConstant, there]
    cases planned.adds.new ref object fresh there <;> exact ⟨fresh, rfl, rfl⟩
  kept ref old same := by
    obtain ⟨middle, twins, kept⟩ := planned.kept
    rw [kept ref old same, twins.undisturbed.same]
  seen source member ref reached same := by
    obtain ⟨middle, twins, kept⟩ := planned.kept
    have old := lt_size_of_dependsOn sound (known source member) reached
    rw [body?, kept ref old same, ← body?, twins.bodies ref (within source member ref reached)]

/-- A list that gets the copies changes nothing else. -/
theorem Planned.changeSlots {rule : List Slot → List Slot}
    (planned : Planned config region changed world plans sources after copies)
    (old : list < world.heap.size) (same : ∀ ref, changed ref → ref = list) :
    Planned config region (· = list) world plans sources (after.changeSlots list rule) copies where
  described := planned.described
  makes := planned.makes.later fun ref object fresh found => by
    rw [World.changeSlots, changeList, object?_change, if_neg (old.trans_le fresh).ne, found]
  adds := planned.adds.changeSlots old
  inside := planned.inside
  kept := by
    obtain ⟨middle, twins, kept⟩ := planned.kept
    refine ⟨middle, twins, fun ref inside apart => ?_⟩
    rw [World.changeSlots, changeList, object?_change, if_neg (Ne.symm apart)]
    exact kept ref inside fun touched => apart (same ref touched)

theorem Planned.slots_joined (planned : Planned config region (fun _ => False) world plans sources after copies)
    (isList : world.kindOf list = .list) {added : List Slot} :
    (after.changeSlots list (· ++ added)).slots list = world.slots list ++ added := by
  have old := lt_size_of_isLive (isLive_of_isList isList)
  obtain ⟨middle, twins, kept⟩ := planned.kept
  rw [slots_changeSlots, if_pos ⟨rfl, (planned.adds.kinds list old).trans isList⟩, slots_eq, kept list old id, ← slots_eq,
    twins.undisturbed.slots]

end World

namespace Act

open World

variable {world after : World} {ref object list : Ref} {config : Config} {region : Ref → Prop} {slot : Slot} {plan : Copy}
  {plans : List Copy} {sources copies : List Slot} {α : Type}

theorem planned_of_makeAll {middle : World} (sound : world.Sound)
    (described : Copy.DescribesAll config world plans sources)
    (known : ∀ source ∈ sources, source.target < world.heap.size) (twins : Twins config region world middle)
    (ran : makeAll plans middle = .ok copies after) :
    Planned config region (fun _ => False) world plans sources after copies := by
  obtain ⟨-, extended, adds, made, inside⟩ :=
    (makes_makeAll twins.undisturbed.adds plans (described.within sound known)).of_ok ran
  refine ⟨described, made, adds, fun copy member => (inside copy member).2, middle, twins, fun ref old _ => ?_⟩
  exact extended.old ref (old.trans_eq twins.undisturbed.size.symm)

private theorem planned_of_make {middle : World} {source : Slot} (sound : world.Sound)
    (describes : plan.Describes config world source) (known : source.target < world.heap.size)
    (twins : Twins config region world middle) (ran : make plan middle = .ok slot after) :
    Planned config region (fun _ => False) world [plan] [source] after [slot] := by
  have all : makeAll [plan] middle = .ok [slot] after := by
    rw [makeAll, bind_of_ok ran]
    rfl
  exact planned_of_makeAll sound ⟨_, _, rfl, describes, rfl⟩ (List.forall_mem_singleton.mpr known) twins all

theorem described_slots {middle : World} (sound : world.Sound) (copyable : world.Copyable config list)
    (legible : Legible config region world) (within : ∀ other, world.DependsOn list other → region other)
    (ran : planSlots (Act.plan config) list world = .ok plans middle) :
    Copy.DescribesAll config world plans (world.slots list) ∧ Twins config region world middle := by
  have near : Nearby config world list world := ⟨.refl, .refl, sound.ordered⟩
  have plans : Meets anything (planSlots (Act.plan config) list) world _ :=
    describes_planSlots copyable near legible within fun slot member =>
      plansAlike_plan sound.ordered (copyable.element member) fun other reached =>
        within other (.head (consults_of_mem member) reached)
  exact (plans.of_ok ran).2

theorem planned_of_copy (sound : world.Sound) (copyable : world.Copyable config object)
    (live : world.isLive object = true)
    (legible : Legible config region world) (within : ∀ other, world.DependsOn object other → region other)
    (ran : copy config object world = .ok slot after) :
    ∃ plan, Planned config region (fun _ => False) world [plan] [.held object] after [slot] := by
  obtain ⟨plan, middle, planned, made⟩ := bind_ok_iff.mp ran
  have near : Nearby config world object world := ⟨.refl, .refl, sound.ordered⟩
  obtain ⟨-, describes, twins⟩ := (plansAlike_plan sound.ordered copyable within world near legible).of_ok planned
  exact ⟨plan, planned_of_make sound describes (lt_size_of_isLive live) twins made⟩

theorem planned_of_duplicateList {made : Ref} (sound : world.Sound) (copyable : world.Copyable config list)
    (isList : world.kindOf list = .list) (legible : Legible config region world)
    (within : ∀ other, world.DependsOn list other → region other) (ran : duplicateList config list world = .ok made after) :
    ∃ plans, Planned config region (fun _ => False) world [.list plans] [.held list] after [.held made] := by
  obtain ⟨plans, middle, planned, rest⟩ := bind_ok_iff.mp ran
  obtain ⟨slots, last, copied, added⟩ := bind_ok_iff.mp rest
  obtain ⟨all, twins⟩ := described_slots sound copyable legible within planned
  -- The new list is made as it would be inside another copy.
  have whole : make (.list plans) middle = .ok (.held made) after := by
    rw [make, bind_of_ok copied, bind_of_ok added]
    rfl
  exact ⟨plans, planned_of_make sound ⟨isList, all⟩ (lt_size_of_isLive (isLive_of_isList isList)) twins whole⟩

end Act

namespace World

variable {world after : World} {config : Config} {region changed : Ref → Prop} {source copy : Slot} {plan : Copy}
  {plans : List Copy} {sources copies : List Slot}

/-- The copy of a list has the text of the list. -/
theorem Planned.flatten_eq (planned : Planned config region changed world [plan] [source] after [copy])
    (sound : world.Sound)
    (copyable : world.Copyable config source.target) (isList : world.kindOf source.target = .list) (ordered : after.Ordered) :
    Act.outcome (Act.flatten config copy.target) after = Act.outcome (Act.flatten config source.target) world := by
  have known := lt_size_of_isLive (isLive_of_isList isList)
  obtain ⟨described, makes, adds, inside, -⟩ := planned
  obtain ⟨_, _, ⟨⟩, describes, -⟩ := described
  obtain ⟨_, _, ⟨⟩, made, -⟩ := makes
  cases plan with
  | value => cases isList.symm.trans describes.1
  | keep => exact absurd isList describes.1.2
  | list items =>
    have again := made.describes sound adds describes known
    rw [Act.flatten_shown ordered (adds.copyable (inside _ List.mem_cons_self)) again.2,
      Act.flatten_shown sound.ordered copyable describes.2]
    exact Copy.allShown_eq sound adds (describes.within sound known)

/-! A list that gets the copies itself. -/

variable {ref other list : Ref} {inner : Ref → Prop}

/-- What is reached from the elements of a list. -/
def Below (world : World) (list ref : Ref) : Prop := ∃ slot ∈ world.slots list, world.DependsOn slot.target ref

theorem Below.dependsOn (below : world.Below list ref) : world.DependsOn list ref := by
  obtain ⟨slot, member, reached⟩ := below
  exact .head (consults_of_mem member) reached

theorem Below.tail (below : world.Below list ref) (next : world.Consults ref other) : world.Below list other := by
  obtain ⟨slot, member, reached⟩ := below
  exact ⟨slot, member, reached.tail next⟩

theorem Copyable.not_below (copyable : world.Copyable config list) : ¬ world.Below list list := by
  rintro ⟨slot, member, back⟩
  exact copyable.apart member back

theorem Copyable.legible_below (copyable : world.Copyable config list) : Legible config (world.Below list) world where
  slots inside member := inside.tail (consults_of_mem member)
  shown inside found shows := inside.tail (.inr (by rw [found, Option.bind_some, shows]))
  pure inside found := copyable.pure _ _ inside.dependsOn found

/-- Where two worlds look alike, the same objects are consulted. -/
theorem Mirrors.consults {beside : World} (mirrors : Mirrors config inner world beside) (inside : inner ref)
    (consults : beside.Consults ref other) : world.Consults ref other := by
  rcases consults with ⟨slot, member, rfl⟩ | shown
  · exact consults_of_mem (mirrors.slots inside ▸ member)
  · refine .inr ?_
    have shows (world : World) : (world.storage? ref).bind Storage.shown? =
        ((world.storage? ref).map (Storage.seen config)).bind Storage.shown? := by
      rw [Option.bind_map]
      exact congrArg (Option.bind _) (funext fun _ => Storage.shown?_seen.symm)
    rw [shows, ← mirrors.storage? inside, ← shows, shown]

theorem Mirrors.transGen {beside : World} (mirrors : Mirrors config (world.Below list) world beside)
    (inside : world.Below list ref) (reached : Relation.TransGen beside.Consults ref other) :
    Relation.TransGen world.Consults ref other ∧ world.Below list other := by
  induction reached with
  | single next =>
    have consults := mirrors.consults inside next
    exact ⟨.single consults, inside.tail consults⟩
  | tail _ next ih =>
    have consults := mirrors.consults ih.2 next
    exact ⟨ih.1.tail consults, ih.2.tail consults⟩

/-- What does not lead to the list that gets the copies looks as it did. -/
theorem Planned.mirrors (planned : Planned config region (· = list) world plans sources after copies)
    (sound : world.Sound)
    (old : ∀ ref, inner ref → ref < world.heap.size) (less : ∀ ref, inner ref → region ref) (apart : ¬ inner list)
    (unshown : ∀ ref name, inner ref → world.storage? ref ≠ some (.bound (.length list name))) :
    Mirrors config inner world after := by
  obtain ⟨middle, twins, kept⟩ := planned.kept
  have other (ref : Ref) (inside : inner ref) : ref ≠ list := fun same => apart (same ▸ inside)
  refine ⟨planned.adds.settings, fun ref inside => ?_, fun ref live => ?_, fun {ref source name} inside bound => ?_⟩
  · rw [body?, kept ref (old ref inside) (other ref inside), ← body?, twins.bodies ref (less ref inside)]
  · exact ⟨planned.adds.outside ref (lt_size_of_isLive live), planned.adds.fullName_eq sound.forest live⟩
  · have another : source ≠ list := fun same => unshown ref name inside (same ▸ bound)
    have older : source < ref := sound.ordered ref source (by rw [bound]; rfl)
    rw [length, slots_eq, kept source (older.trans (old ref inside)) another, ← slots_eq, twins.undisturbed.slots, length]

section Appended

variable (planned : Planned config region (· = list) world plans sources after copies)
  (mirrors : Mirrors config (world.Below list) world after) (slots : after.slots list = world.slots list ++ copies)
  (isList : after.kindOf list = .list)

include planned mirrors slots isList

/-- Below a list that has got copies is what was below it before, and what the copies consist of. -/
private theorem below_appended (next : after.Consults list ref) (reached : after.DependsOn ref other) :
    world.Below list other ∨ world.InCopies other := by
  induction reached with
  | refl =>
    rcases next with ⟨slot, member, rfl⟩ | shown
    · rw [slots] at member
      rcases List.mem_append.mp member with former | new
      · exact .inl ⟨slot, former, .refl⟩
      · exact .inr (planned.inside slot new)
    · obtain ⟨storage, found, -⟩ := Option.bind_eq_some_iff.mp shown
      cases isList.symm.trans (kindOf_of_storage? found)
  | tail _ next ih =>
    rcases ih with below | copied
    · exact .inl (below.tail (mirrors.consults below next))
    · exact .inr (planned.adds.consults copied next).1

theorem reached_appended (reached : after.DependsOn list ref) :
    ref = list ∨ world.Below list ref ∨ world.InCopies ref := by
  rcases reached.cases_head with rfl | ⟨other, next, rest⟩
  · exact .inl rfl
  · exact .inr (below_appended planned mirrors slots isList next rest)

/-- A list that has got copies can be copied in turn. -/
private theorem copyable_appended (old : list < world.heap.size) (copyable : world.Copyable config list)
    (free : after.isBusy list = false) : after.Copyable config list where
  acyclic other reached otherList circle := by
    rcases reached_appended planned mirrors slots isList reached with rfl | below | copied
    · obtain ⟨first, next, rest⟩ := Relation.TransGen.head'_iff.mp circle
      rcases below_appended planned mirrors slots isList next rest with below | beyond | shared
      · exact copyable.not_below below
      · exact old.not_ge beyond
      · exact shared.2 ((planned.adds.kinds other old).symm.trans isList)
    · have again := (mirrors.transGen below circle).1
      exact copyable.acyclic other below.dependsOn ((mirrors.kindOf below).symm.trans otherList) again
    · exact (planned.adds.lt_of_transGen copied circle).false
  pure other storage reached found := by
    rcases reached_appended planned mirrors slots isList reached with rfl | below | copied
    · cases isList.symm.trans (kindOf_of_storage? found)
    · exact (mirrors.legible copyable.legible_below).pure below found
    · obtain ⟨scalar, rfl⟩ := planned.adds.stored copied found
      trivial
  idle other reached := by
    rcases reached_appended planned mirrors slots isList reached with rfl | below | copied
    · exact free
    · exact (mirrors.isBusy below).trans (copyable.idle other below.dependsOn)
    · exact planned.adds.free copied

/-- The text of a list that has got copies is the former one, followed by that of the copies. -/
theorem flatten_appended {text : String} (sound : world.Sound) (old : list < world.heap.size)
    (known : ∀ source ∈ sources, source.target < world.heap.size) (copyable : world.Copyable config list)
    (free : after.isBusy list = false) (ordered : after.Ordered)
    (shown : Act.outcome (Act.flatten config list) world = .ok text) :
    Act.outcome (Act.flatten config list) after = (do return text ++ (← Copy.allShown config world plans)) := by
  have still : after.Copyable config list := copyable_appended planned mirrors slots isList old copyable free
  have within : ∀ slot ∈ world.slots list, after.DependsOn list slot.target := fun slot member =>
    .single (consults_of_mem (slots ▸ List.mem_append_left _ member))
  obtain ⟨last, flattened⟩ := Act.outcome_eq_ok.mp shown
  rw [Act.flatten, Act.flattenWith_eq (copyable.idle list .refl)] at flattened
  obtain ⟨read, ran, -⟩ := Act.whileBusy_ok_iff.mp flattened
  rw [Act.see_bind, slots_setBusy] at ran
  have reads (region : Ref → Prop) : Act.ReadsAlike config region (Act.value config) (Act.value config) :=
    fun ref world beside => Act.readsAlike_valueWithin _ _ ref world beside
  have former := Act.comes_of_agrees ran
    ((reads (world.Below list)).texts (fun slot member => ⟨slot, member, .refl⟩) copyable.legible_below.setBusy mirrors.setBusy)
    ((reads (after.DependsOn list)).texts within still.legible.setBusy .refl)
  have described := planned.makes.describes sound planned.adds planned.described known
  have comes : Act.Comes (Act.flatten config list) after (do return text ++ (← Copy.allShown config after plans))
      (Twins config (after.DependsOn list) after) := by
    refine Act.comes_flattenWith free ?_
    rw [slots, List.foldlM_append]
    change Act.Comes _ _ (Except.ok text >>= fun text => do return text ++ (← Copy.allShown config after plans)) _
    refine former.bind fun text last twins => ?_
    have readable : ∀ slot ∈ copies, Act.Readable config (after.DependsOn list) after last slot := fun slot member =>
      (Act.readable_elements ordered still (slots ▸ List.mem_append_right _ member)).later twins
    exact (Act.comes_slots plans Act.fueled_value described readable
      (twins.forth.legible still.legible.setBusy)).weaken fun _ => twins.trans
  rw [comes.outcome_eq (Act.meets_flatten ordered),
    Copy.allShown_eq sound planned.adds (planned.described.within sound known)]

end Appended

end World

end Dialogue
