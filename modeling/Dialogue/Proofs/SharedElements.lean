import Dialogue.Proofs.MaintainingSteps

/-! Registered objects that lists hold. A list gets aliases of what is registered, so it holds a registered object only
if that was registered while the list held it. Nothing keeps a host from registering an element of a list. -/

namespace Dialogue

namespace Act

open World

variable {world : World} {target : Option String} {name : String}

private theorem safe_registerHandle :
    Safe .gentle (perform target (.scope (.register (.handle name)))) world Lives := by
  refine safe_targeted (by decide) fun scope _ isScope _ => ?_
  apply safe_handle.bind
  rintro object after sound began ⟨-, used⟩
  have live := sound.inUse (used ▸ List.mem_cons_self : object ∈ after.inUse)
  apply (safe_register (began.isScope (isScope rfl)) live).bind
  intro _ _ _ went _
  exact .pure (lives_object.mpr (went.isLive live))

end Act

namespace World

open Act

variable {world : World} {step : Step} {object : Ref}

/-- Whether no list holds an object that is registered. -/
def Unshared (world : World) : Prop :=
  ∀ list element, .held element ∈ world.slots list → world.isRegistered element = false

/-- Whether a step registers an object that a list holds, where the list stays and the object stays registered. -/
def RegistersHeld (world : World) (step : Step) : Prop :=
  ∃ list object, world.Registers step object ∧ .held object ∈ world.slots list ∧
    (world.run step).2.isLive list = true ∧ (world.run step).2.isRegistered object = true

/-- A step that registers what has a handle gives no list an element. -/
private theorem evolves_run_of_registers (sound : world.Sound) (registers : world.Registers step object) :
    Evolves .releasing world (world.run step).2 := by
  obtain ⟨action, target, result⟩ := step
  obtain ⟨name, rfl, -⟩ := registers
  have safe : Safe .releasing (answerStep ⟨.scope (.register (.handle name)), target, result⟩) world fun _ _ => True :=
    safe_registerHandle.relax.answerStep
  rw [run_snd]
  exact (safe.follows_leaves sound).evolves

private theorem tidy_run (sound : world.Sound) (unshared : world.Unshared) (copies : step.action.pushesCopies = true) :
    (world.run step).2.Tidy (world.Registers step) := by
  have tidy : world.Tidy (world.Registers step) := sound.tidy fun list element inside registered => by
    rw [unshared list element inside] at registered
    cases registered
  have maintained : Maintained (world.Registers step) (fun _ => True) world (world.run step).2 :=
    maintained_run tidy sound (.inl copies) (fun _ _ => trivial) fun _ registers => registers
  exact maintained.tidy tidy

/-- What is registered and held after a step is what the step has registered. -/
private theorem unshared_run_iff (sound : world.Sound) (unshared : world.Unshared)
    (copies : step.action.pushesCopies = true) :
    (world.run step).2.Unshared ↔ ¬ world.RegistersHeld step := by
  constructor
  · rintro after ⟨list, object, registers, inside, live, registered⟩
    have evolves := evolves_run_of_registers sound registers
    have same := evolves.slots_of_isLive (lt_size_of_isLive (isLive_of_mem_slots inside)) live
    rw [after list object (same ▸ inside)] at registered
    cases registered
  · intro careful list element inside
    by_contra free
    have registered : (world.run step).2.isRegistered element = true := Bool.not_eq_false _ ▸ free
    have registers := ((tidy_run sound unshared copies).held inside element rfl).exempt_of_isRegistered registered
    rcases (evolves_run_of_registers sound registers).slots_of_releasing list with same | none
    · exact careful ⟨list, element, registers, same ▸ inside, isLive_of_mem_slots inside, registered⟩
    · rw [none] at inside
      cases inside

/-- In a session in which objects are pushed as copies, no list ever holds a registered object, just if no step
registers an object that a list holds and goes on to hold. -/
theorem unshared_throughout_iff (config : Config) (steps : List Step)
    (copies : ∀ step ∈ steps, step.action.pushesCopies = true) :
    (∀ done, done <+: steps → (runAll { config } done).2.Unshared) ↔
      ∀ done step, done ++ [step] <+: steps → Continues { config } done →
        ¬ (runAll { config } done).2.RegistersHeld step := by
  refine @holds_throughout_iff config steps Unshared (fun world step => ¬ world.RegistersHeld step) ?_ ?_
  · intro list element inside
    cases inside
  · intro world step reached inside unshared
    exact unshared_run_iff reached.sound unshared (copies step inside)

/-- A scope is registered before it is pushed. -/
def pushedMember : List Step := [
  { action := .create (.scope "outer"), name := some "o" },
  { action := .scope (.register (.scope "inner")), target := some "o", name := some "i" },
  { action := .create (.list "list"), name := some "l" },
  { action := .list (.push (.handle "i")), target := some "l" }]

theorem unshared_pushedMember : (∀ step ∈ pushedMember, step.action.pushesCopies = true) ∧
    (runAll {} pushedMember).2.slots 2 = [.link 1 "outer:inner"] ∧
    ∀ done, done <+: pushedMember → (runAll {} done).2.Unshared := by
  have copies : ∀ step ∈ pushedMember, step.action.pushesCopies = true := by decide
  refine ⟨copies, by decide +kernel, (unshared_throughout_iff {} pushedMember copies).mpr ?_⟩
  rintro done step inside - ⟨list, object, ⟨name, registering, -⟩, -⟩
  have known : step ∈ pushedMember := inside.subset (by simp)
  simp only [pushedMember, List.mem_cons, List.not_mem_nil, or_false] at known
  rcases known with rfl | rfl | rfl | rfl <;> simp at registering

/-- The element that was pushed is registered while the list holds it. -/
def registeredElement : List Step := [
  { action := .create (.list "list"), name := some "l" },
  { action := .list (.push (.value (.integer 1))), target := some "l", name := some "e" },
  { action := .object (.rename "element"), target := some "e" },
  { action := .create (.scope "scope"), name := some "s" },
  { action := .scope (.register (.handle "e")), target := some "s" }]

theorem registered_element_held : (∀ step ∈ registeredElement, step.action.pushesCopies = true) ∧
    .held 2 ∈ (runAll {} registeredElement).2.slots 0 ∧ (runAll {} registeredElement).2.isRegistered 2 = true ∧
    ¬ (runAll {} registeredElement).2.Unshared := by
  have held : .held 2 ∈ (runAll {} registeredElement).2.slots 0 := by decide +kernel
  have registered : (runAll {} registeredElement).2.isRegistered 2 = true := by decide +kernel
  refine ⟨by decide, held, registered, fun unshared => ?_⟩
  rw [unshared 0 2 held] at registered
  cases registered

end World

end Dialogue
