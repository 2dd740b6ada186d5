import Dialogue.Proofs.ListLengths
import Dialogue.Proofs.MaintainingSteps

/-! Lists that hold themselves. A list goes into itself as an alias, and of what was there before, a copy holds only
what is no list. So a list comes to hold itself only when the elements of a list that holds it are appended to it
themselves. -/

namespace Dialogue

namespace World

variable {world after : World} {list object ref : Ref} {slot : Slot} {step : Step}

/-- Whether a list is only referred to where it is in itself: no list holds itself. -/
def Selfless (world : World) : Prop := ∀ list, ∀ slot ∈ world.slots list, slot.target = list → slot.held? = none

theorem selfless_iff : world.Selfless ↔ ∀ list, .held list ∉ world.slots list := by
  constructor
  · intro selfless list inside
    have none := selfless list _ inside rfl
    cases none
  · intro apart list slot inside here
    rcases slot with element | ⟨target, name⟩
    · obtain rfl : element = list := here
      exact absurd inside (apart element)
    · rfl

/-- Whether members are owned by their scopes, and whatever lists hold exists or has existed. -/
structure Accounted (world : World) : Prop where
  enrolled : world.Enrolled
  known : ∀ {list}, world.AllKnown (world.slots list)

theorem Sound.accounted (sound : world.Sound) : world.Accounted :=
  ⟨sound.enrolled, fun _ inside => (sound.knows inside).target⟩

/-- Whether what a slot holds, if anything, exists or has existed and is not the list that the slot goes into. -/
def Foreign (world : World) (list : Ref) (slot : Slot) : Prop :=
  ∀ element ∈ slot.held?, element < world.heap.size ∧ (element = list → world.kindOf list ≠ .list)

theorem accounted_setBusy {busy : Bool} : (world.setBusy list busy).Accounted ↔ world.Accounted := by
  constructor
  · rintro ⟨enrolled, known⟩
    refine ⟨enrolled_setBusy.mp enrolled, fun {list} => ?_⟩
    simpa only [AllKnown, slots_setBusy, heap_size_setBusy] using @known list
  · rintro ⟨enrolled, known⟩
    refine ⟨enrolled_setBusy.mpr enrolled, fun {list} => ?_⟩
    simpa only [AllKnown, slots_setBusy, heap_size_setBusy] using @known list

/-- What becomes of a world in which no list comes to hold itself. -/
structure Apart (world after : World) : Prop extends Lasting (fun _ => True) world after where
  idle : ∀ {list}, after.isBusy list = true → world.isBusy list = true
  accounted : world.Accounted → after.Accounted
  itself : ∀ {list}, .held list ∈ after.slots list → .held list ∈ world.slots list

namespace Apart

theorem refl : world.Apart world := ⟨.refl, fun busy => busy, fun accounted => accounted, fun inside => inside⟩

theorem trans {last : World} (first : world.Apart after) (second : after.Apart last) : world.Apart last where
  toLasting := first.toLasting.trans second.toLasting
  idle busy := first.idle (second.idle busy)
  accounted accounted := second.accounted (first.accounted accounted)
  itself inside := first.itself (second.itself inside)

theorem of_slots (lasting : Lasting (fun _ => True) world after)
    (idle : ∀ {list}, after.isBusy list = true → world.isBusy list = true)
    (known : ∀ {list element}, .held element ∈ after.slots list →
      .held element ∈ world.slots list ∨ element < world.heap.size)
    (itself : ∀ {list}, .held list ∈ after.slots list → .held list ∈ world.slots list) : world.Apart after where
  toLasting := lasting
  idle := idle
  accounted accounted := by
    refine ⟨lasting.enrolled accounted.enrolled, fun element inside => ?_⟩
    exact ((known inside).elim (accounted.known element) id).trans_le lasting.size
  itself := itself

/-- Whatever gets an owner, no list gets elements. -/
theorem of_entered (entered : Entered object (fun _ => True) world after) : world.Apart after :=
  .of_slots entered.toLasting entered.idle (fun inside => .inl (entered.slots inside)) entered.slots

theorem changeSlots {rule : List Slot → List Slot}
    (known : ∀ element, .held element ∈ rule (world.slots list) →
      .held element ∈ world.slots list ∨ element < world.heap.size)
    (itself : .held list ∈ rule (world.slots list) → .held list ∈ world.slots list ∨ world.kindOf list ≠ .list) :
    world.Apart (world.changeSlots list rule) := by
  refine .of_slots (lasting_of_shapes (fun _ => shape?_changeSlots) heap_size_change) (fun busy => ?_) (fun inside => ?_)
    fun inside => ?_
  · rwa [isBusy_changeSlots] at busy
  · rw [slots_changeSlots] at inside
    split at inside
    next here => exact here.1 ▸ known _ inside
    next => exact .inl inside
  · rw [slots_changeSlots] at inside
    split at inside
    next here =>
      obtain ⟨rfl, isList⟩ := here
      exact (itself inside).resolve_right fun notList => notList isList
    next => exact inside

theorem add {made : Object} (bare : made.shape.members = {}) (idle : made.isBusy = false)
    (known : world.AllKnown made.slots) : world.Apart (world.add made) := by
  refine .of_slots (lasting_add bare) (fun busy => isBusy_add idle ▸ busy) (fun inside => ?_) fun {list} inside => ?_
  · rw [slots_add] at inside
    split at inside
    next => exact .inr (known _ inside)
    next => exact .inl inside
  · rw [slots_add] at inside
    split at inside
    next here => exact absurd (known list inside) (Nat.not_lt.mpr here.ge)
    next => exact inside

theorem whileBusy (apart : (world.setBusy list true).Apart after) : world.Apart (after.setBusy list false) where
  toLasting := lasting_setBusy.trans (apart.toLasting.trans lasting_setBusy)
  idle := isBusy_of_while apart.idle
  accounted accounted := accounted_setBusy.mpr (apart.accounted (accounted_setBusy.mpr accounted))
  itself inside := by
    rw [slots_setBusy] at inside
    exact slots_setBusy ▸ apart.itself inside

theorem foreign (apart : world.Apart after) (foreign : world.Foreign list slot) : after.Foreign list slot := by
  intro element holds
  obtain ⟨old, other⟩ := foreign element holds
  exact ⟨old.trans_le apart.size, fun same isList => other same (apart.lists (same ▸ old) isList)⟩

theorem selfless (apart : world.Apart after) (selfless : world.Selfless) : after.Selfless :=
  selfless_iff.mpr fun list inside => selfless_iff.mp selfless list (apart.itself inside)

end Apart

end World

namespace Act

open World

variable {world : World} {list object : Ref}

def distancing : Guarantee where
  keeps := Apart
  allows _ _ := True
  refl _ := .refl
  trans := .trans
  earlier _ _ := trivial
  anomalies := trivial

instance filling_distancing : Filling distancing (fun _ => True) Accounted Foreign where
  keeps := .of_entered
  whileBusy := .whileBusy
  allows := trivial
  grows apart := apart.size
  idle apart := apart.idle
  readies apart := apart.accounted
  refits apart := apart.foreign
  readyBusy := accounted_setBusy.mpr
  fitsBusy foreign element holds := by
    rw [heap_size_setBusy, kindOf_setBusy]
    exact foreign element holds
  enrolled accounted := accounted.enrolled
  known accounted := accounted.known _
  link _ none := nomatch none
  new here _ := by
    rintro _ ⟨⟩
    exact ⟨lt_size_of_isLive isLive_size_add, fun same => absurd here (Nat.not_lt.mpr same.le)⟩
  unowned _ old notList _ := by
    rintro _ ⟨⟩
    exact ⟨old, fun same => same ▸ notList⟩
  gone old dead := by
    rintro _ ⟨⟩
    refine ⟨old, fun same isList => ?_⟩
    rw [same, isLive_of_isList isList] at dead
    cases dead
  fills foreign := by
    refine .changeSlots (fun element inside => (foreign _ inside).imp_right fun fits => (fits _ rfl).1) fun inside => ?_
    exact (foreign _ inside).imp_right fun fits => (fits _ rfl).2 rfl
  adds _ bare idle foreign := .add bare idle fun element inside => (foreign _ inside).elim fun _ fits => (fits _ rfl).1
  registered _ _ := .of_entered

theorem liberal_distancing : Liberal distancing fun _ => True where
  admits _ _ _ := .of_entered
  holds apart old := by
    refine .changeSlots (fun element inside => ?_) fun inside => ?_
    · refine (List.mem_append.mp inside).imp_right fun last => ?_
      rw [Slot.held.inj (List.mem_singleton.mp last)]
      exact old
    · refine .inl ((List.mem_append.mp inside).resolve_right fun last => apart ?_)
      exact (Slot.held.inj (List.mem_singleton.mp last)).symm

private theorem gives_appendThemselves {other : Ref} (changeable : world.isConstant list = false)
    (room : world.length list + world.length other ≤ Limits.listLength) :
    Gives (appendThemselves list other) world fun _ after => after = world.changeSlots list (· ++ world.slots other) := by
  apply (gives_requireChangeable changeable).bind
  rintro _ _ rfl
  refine .look ?_
  apply (gives_requireRoom room).bind
  rintro _ _ rfl
  exact .update rfl

/-- The elements of a list that holds another one cannot be appended to it if it is constant or has no room for them. -/
private theorem distancing_appendThemselves {other : Ref} (accounted : world.Accounted)
    (refused : .held list ∈ world.slots other → world.kindOf list = .list →
      world.isConstant list = false → Limits.listLength < world.length list + world.length other) :
    Meets distancing (appendThemselves list other) world fun _ _ => True := by
  by_cases fitting : ∀ slot ∈ world.slots other, world.Foreign list slot
  · exact filling_appendThemselves fitting
  · apply Meets.requireChangeable.bind
    rintro _ after - ⟨rfl, changeable⟩
    obtain ⟨slot, inside, unfit⟩ : ∃ slot ∈ after.slots other, ¬ after.Foreign list slot := by simpa using fitting
    have held : slot = .held list ∧ after.kindOf list = .list := by
      rcases slot with element | ⟨target, name⟩
      · by_contra apart
        refine unfit ?_
        rintro _ ⟨⟩
        refine ⟨accounted.known element inside, fun same isList => apart ⟨same ▸ rfl, isList⟩⟩
      · exact absurd (fun _ none => nomatch none) unfit
    have full := refused (held.1 ▸ inside) held.2 changeable
    have stops : Meets distancing (requireRoom list (after.slots other).length) after fun _ _ => False := by
      refine .look ?_
      dsimp only
      rw [if_pos (show Limits.listLength < after.length list + (after.slots other).length from full)]
      exact .raise
    exact .look (stops.bind fun _ _ _ => False.elim)

end Act

namespace World

open Act

variable {world after : World} {list : Ref} {step : Step}

/-- Whether a step appends to a list, as they are, the elements of a list that holds it. -/
def AppendsToItself (world : World) (step : Step) (list : Ref) : Prop :=
  ∃ argument other after, step.action = .list (.appendThemselves argument) ∧
    world.handles.find? (step.target.getD "") = some list ∧ world.kindOf list = .list ∧
    Act.argument argument { world with inUse := list :: world.inUse } = .ok other after ∧
    .held list ∈ after.slots other ∧ after.isConstant list = false ∧
    after.length list + after.length other ≤ Limits.listLength

private theorem apart_run (sound : world.Sound) (rest : world.AtRest)
    (careful : ∀ list, ¬ world.AppendsToItself step list) :
    world.Apart (world.run step).2 := by
  have performs : Meets distancing (perform step.target step.action) world fun _ _ => True := by
    refine filling_perform sound.accounted sound (.inr liberal_distancing) (.inl rest) (fun _ _ => trivial)
      (fun _ _ => liberal_distancing.admits _) fun argument appends => ?_
    rw [appends]
    refine lenient_targeted (by decide) sound fun list found used _ => .look (Meets.done ?_)
    apply (filling_argument (.inr liberal_distancing) used.accounted used).with_ran.bind
    rintro other after kept ⟨ran, -, accounted⟩
    refine Meets.requireKind.bind ?_
    rintro _ _ - ⟨rfl, -⟩
    refine distancing_appendThemselves accounted fun inside isList changeable => Nat.not_le.mp fun room => ?_
    have old : list < world.heap.size := lt_size_of_isLive (used.inUse List.mem_cons_self)
    exact careful list ⟨argument, other, _, appends, found, kept.lists old isList, ran, inside, changeable, room⟩
  rw [run_snd]
  exact performs.lenient_answerStep.keeps_leaves

/-- A list that holds itself is never let go of. -/
private theorem held_by_itself_of_releasing (evolves : Evolves .releasing world after)
    (inside : .held list ∈ world.slots list) :
    .held list ∈ after.slots list := by
  induction evolves with
  | refl => exact inside
  | tail _ change held =>
    have live := isLive_of_mem_slots held
    rcases change.stays_or_buried live with stays | ⟨-, unheld, -⟩
    · have released : Evolves .releasing _ _ := .single change
      rwa [released.slots_of_isLive (lt_size_of_isLive live) stays]
    · exact absurd (mem_holdsOf_of_slot held rfl) ((isHeld_eq_false unheld).2.2 list)

private theorem held_by_itself_of_appends (sound : world.Sound) (appends : world.AppendsToItself step list) :
    .held list ∈ (world.run step).2.slots list := by
  obtain ⟨action, target, name⟩ := step
  obtain ⟨argument, other, after, rfl, found, isList, ran, inside, changeable, room⟩ := appends
  have live := isLive_of_isList isList
  have uses : Follows .gentle world { world with inUse := [list] ++ world.inUse } :=
    follows_use sound fun other member => List.mem_singleton.mp member ▸ live
  have began := ((safe_argument argument).of_ok (uses.sound sound) ran).1
  have isListThen : after.kindOf list = .list :=
    (began.evolves.before (lt_size_of_isLive live) (began.isLive live)).2.trans isList
  have performs : Gives (perform target (.list (.appendThemselves argument))) world
      fun _ last => last = after.changeSlots list (· ++ after.slots other) := by
    refine gives_targeted found isList (.look ?_)
    have argues : Gives (Act.argument argument) { world with inUse := list :: world.inUse } fun value last =>
        value = other ∧ last = after := ⟨other, after, ran, rfl, rfl⟩
    have requires : Gives (requireList other) after fun _ last => last = after := by
      refine .look ?_
      rw [kindOf_eq_list_of_mem_slots inside]
      exact .pure rfl
    refine Gives.bind (argues.bind ?_) fun _ _ done => .pure done
    rintro _ _ ⟨rfl, rfl⟩
    apply requires.bind
    rintro _ _ rfl
    exact gives_appendThemselves changeable room
  obtain ⟨outcome, last, performed, rfl⟩ := performs
  refine held_by_itself_of_releasing (evolves_run sound performed) ?_
  rw [slots_changeSlots, if_pos ⟨rfl, isListThen⟩]
  exact List.mem_append_right _ inside

private theorem selfless_run_iff (reached : Reachable world) (selfless : world.Selfless) :
    (world.run step).2.Selfless ↔ ∀ list, ¬ world.AppendsToItself step list := by
  constructor
  · intro after list appends
    exact selfless_iff.mp after list (held_by_itself_of_appends reached.sound appends)
  · intro careful
    exact (apart_run reached.sound reached.atRest careful).selfless selfless

/-- No list ever holds itself, and what a list has of itself is an alias, just if no step of a session appends to a
list, as they are, the elements of a list that holds it. -/
theorem no_list_holds_itself_iff (config : Config) (steps : List Step) :
    (∀ done, done <+: steps → (runAll { config } done).2.Selfless) ↔
      ∀ done step, done ++ [step] <+: steps → Continues { config } done →
        ∀ list, ¬ (runAll { config } done).2.AppendsToItself step list :=
  holds_throughout_iff (fun _ _ none => nomatch none) fun _ _ reached _ selfless => selfless_run_iff reached selfless

/-- One list holds another, to which its elements are appended as they are. -/
def appendedToItself : List Step := [
  { action := .create (.list ""), name := some "l" },
  { action := .create (.list ""), name := some "m" },
  { action := .list (.pushItself (.handle "l")), target := some "m" },
  { action := .list (.appendThemselves (.handle "m")), target := some "l" }]

/-- The list has become its own element, and stays when nobody else holds it. -/
theorem list_kept_by_itself :
    .held 0 ∈ (runAll {} appendedToItself).2.slots 0 ∧ ¬ (runAll {} appendedToItself).2.Selfless ∧
    let drops : List Step := [{ action := .handles (.drop "l") }, { action := .handles (.drop "m") }]
    (runAll {} (appendedToItself ++ drops)).2.isLive 0 = true := by
  have held : .held 0 ∈ (runAll {} appendedToItself).2.slots 0 := by decide +kernel
  exact ⟨held, fun selfless => selfless_iff.mp selfless 0 held, by decide +kernel⟩

end World

end Dialogue
