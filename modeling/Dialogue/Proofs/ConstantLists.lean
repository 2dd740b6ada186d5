import Dialogue.Proofs.FrozenSteps
import Dialogue.Proofs.ListGrowth

/-! Constant lists. Whatever a session does, a list that stays constant keeps its length, and only an assignment to it
reaches its slots. Whatever else would change a list says that it is constant. -/

namespace Dialogue

namespace Act

open World

variable {world : World} {list : Ref} {target : Option String}

/-- Acts that leave the slots of a list as they are. -/
def sparing (list : Ref) : Guarantee where
  keeps world after := after.heap.size = world.heap.size ∧ after.slots list = world.slots list
  allows _ _ := True
  refl _ := ⟨rfl, rfl⟩
  trans first second := ⟨second.1.trans first.1, second.2.trans first.2⟩
  earlier _ _ := trivial
  anomalies := trivial

theorem Meets.sparing {α : Type} {act : Act α} {result : α → World → Prop} (meets : Meets quiet act world result) :
    Meets (Act.sparing list) act world result :=
  meets.relax (fun kept => ⟨kept.size, Undisturbed.slots kept⟩) fun _ => trivial

/-- Marking an object changes no list. -/
private theorem spares_setConstant {constant : Bool} :
    Meets (sparing list) (perform target (.object (.setConstant constant))) world fun _ _ => True := by
  have finds : Meets (sparing list) (handle (target.getD "")) world fun _ _ => True := by
    refine .look ?_
    split
    next => exact .update_bind ⟨rfl, rfl⟩ (.pure trivial)
    next => exact .throw trivial
  refine finds.bind fun ref after _ _ => ?_
  have marks : Meets (sparing list) (update (·.setConstant ref constant)) after fun _ _ => True :=
    .update ⟨heap_size_change, slots_change fun _ => rfl⟩ trivial
  exact marks.done

end Act

namespace World

open Act

variable {world : World} {list : Ref}

private theorem lt_size_of_isConstant (constant : world.isConstant list = true) : list < world.heap.size := by
  by_contra beyond
  rw [isConstant, object?, Heap.get?_of_size_le (Nat.not_lt.mp beyond)] at constant
  cases constant

/-- A list that is constant before and after a step has the same length, and other slots only where the step reassigns
it. -/
private theorem kept_by_step {step : Step} (constant : world.isConstant list = true)
    (still : (world.run step).2.isConstant list = true) :
    (world.run step).2.length list = world.length list ∧ ∀ position, ¬ world.Reassigns step list position →
      ((world.run step).2.slots list)[position]? = (world.slots list)[position]? := by
  have old := lt_size_of_isConstant constant
  by_cases marks : ∃ constant, step.action = .object (.setConstant constant)
  · obtain ⟨constant, same⟩ := marks
    have performs : Meets (sparing list) (perform step.target step.action) world fun _ _ => True :=
      same ▸ spares_setConstant
    obtain ⟨size, slots⟩ := performs.keeps_leaves
    have finishes : (freezing list fun _ => False).keeps (leaves (perform step.target step.action) world)
        (world.run step).2 := keeps_run_of_performed step
    have kept := finishes (size ▸ old)
    refine ⟨(kept.length still).trans (congrArg List.length slots), fun position _ => ?_⟩
    rw [kept.slots still position not_false, slots]
  · have performs : Meets (freezing list (world.Reassigns step list)) (perform step.target step.action) world
        fun _ _ => True :=
      freezes_perform (fun _ reassigned => reassigned) (not_exists.mp marks)
    have kept := (freezing list _).trans performs.keeps_leaves (keeps_run_of_performed step) old
    exact ⟨kept.length still, kept.slots still⟩

/-- What happens to a list that stays constant from step to step. -/
private theorem kept_by_steps {steps : List Step}
    (still : ∀ done, done <+: steps → (world.runAll done).2.isConstant list = true) :
    (world.runAll steps).2.length list = world.length list ∧
      ∀ position, ((world.runAll steps).2.slots list)[position]? ≠ (world.slots list)[position]? →
        ∃ done step, done ++ [step] <+: steps ∧ (world.runAll done).2.Reassigns step list position := by
  induction steps using List.reverseRecOn with
  | nil => exact ⟨rfl, fun position changed => absurd rfl changed⟩
  | append_singleton steps step ih =>
    have before := List.prefix_append steps [step]
    obtain ⟨counted, reached⟩ := ih fun done inside => still done (inside.trans before)
    have earlier {position : Nat} (changed : ((world.runAll steps).2.slots list)[position]? ≠ (world.slots list)[position]?) :
        ∃ done other, done ++ [other] <+: steps ++ [step] ∧ (world.runAll done).2.Reassigns other list position := by
      obtain ⟨done, other, inside, reassigned⟩ := reached position changed
      exact ⟨done, other, inside.trans before, reassigned⟩
    have after := still _ (List.prefix_refl _)
    rw [runAll_append_singleton] at after ⊢
    split at after
    next goes =>
      rw [if_pos goes]
      obtain ⟨length, slots⟩ := kept_by_step (still steps before) after
      refine ⟨length.trans counted, fun position changed => ?_⟩
      by_cases reassigned : (world.runAll steps).2.Reassigns step list position
      · exact ⟨steps, step, List.prefix_refl _, reassigned⟩
      · exact earlier (slots position reassigned ▸ changed)
    next ended =>
      rw [if_neg ended]
      exact ⟨counted, fun _ changed => earlier changed⟩

end World

/-- The position that an index means, whether or not the list has it. -/
def World.placeOf? (world : World) (list : Ref) (index : Int) : Option Nat :=
  if 0 ≤ index then some index.toNat
  else if 0 ≤ world.length list + index then some (world.length list + index).toNat
  else none

/-! What changes a list directly. -/

inductive Mutation where
  | resize (size : Int)
  | push (object : Ref)
  | pushItself (object : Ref)
  | pushAlias (object : Ref)
  | pop
  | append (other : Ref)
  | appendThemselves (other : Ref)
  | replace (index : Int) (object : Ref)
  | remove (index : Int)
  | insert (index : Int)
  /-- The position of an index, which may make a list grow that is not strict. -/
  | position (index : Int)
  | get (index : Int)

namespace Act

open World

variable {α β : Type} {world : World} {list : Ref} {config : Config} {index size : Int} {stop : Stop}

def mutate (list : Ref) (config : Config) (mutation : Mutation) : Act Unit := do
  match mutation with
  | .resize size => resize list size config
  | .push object => let _ ← push list object config
  | .pushItself object => pushItself list object
  | .pushAlias object => pushAlias list object
  | .pop => let _ ← pop list
  | .append other => append list other config
  | .appendThemselves other => appendThemselves list other
  | .replace index object => let _ ← replace list index object config
  | .remove index => let _ ← remove list index config
  | .insert index => let _ ← insert list index config
  | .position index => let _ ← position list index config
  | .get index => let _ ← get list index config

/-- Whether an act would change a list if that were not constant. -/
def Affects (act : Act α) (list : Ref) (world : World) : Prop :=
  (leaves act (world.setConstant list false)).slots list ≠ world.slots list

/-- Whether an act does nothing but say that a list is constant. -/
def Refuses (act : Act α) (list : Ref) (world : World) : Prop :=
  act world = .error (.ofCause (.constantModified (world.fullName list))) world

theorem Refuses.bind {act : Act α} {next : α → Act β} (refuses : Refuses act list world) :
    Refuses (act >>= next) list world :=
  bind_of_error refuses

theorem refuses_requireChangeable (constant : world.isConstant list = true) :
    Refuses (requireChangeable list) list world := by
  change (if world.isConstant list = true then _ else _ : Act Unit) world = _
  rw [if_pos constant]
  rfl

/-- What comes after an act does not matter if it leaves the list alone. -/
theorem Affects.of_bind {act : Act α} {next : α → Act β}
    (spares : ∀ value world, Meets (sparing list) (next value) world fun _ _ => True)
    (affects : Affects (act >>= next) list world) : Affects act list world := by
  refine fun same => affects (Eq.trans ?_ same)
  change (leaves (EStateM.bind act next) _).slots list = _
  unfold leaves EStateM.bind
  cases act (world.setConstant list false) with
  | ok value after => exact (spares value after).keeps_leaves.2
  | error stop after => rfl

private theorem not_affects {act : Act α}
    (spares : Meets (sparing list) act (world.setConstant list false) fun _ _ => True) :
    ¬ Affects act list world :=
  fun affects => affects (spares.keeps_leaves.2.trans (slots_change fun _ => rfl))

private theorem refuses_resize (constant : world.isConstant list = true)
    (affects : Affects (resize list size config) list world) :
    Refuses (resize list size config) list world := by
  by_cases outside : size < 0 ∨ Limits.listLength < size
  · refine absurd affects (not_affects ?_)
    unfold resize
    rw [if_pos outside]
    exact .raise_bind
  · unfold resize
    rw [if_neg outside]
    exact (refuses_requireChangeable constant).bind

/-- An index within a list, or one that a strict list does not have, changes nothing. -/
theorem meets_position_of_short {guarantee : Guarantee}
    (short : index < world.length list ∨ config.strictLists = true) :
    Meets guarantee (position list index config) world fun position after =>
      after = world ∧ world.placeOf? list index = some position ∧ position < world.length list := by
  refine .position (fun position inside means => ⟨rfl, ?_, inside⟩) fun past lenient => ?_
  · split_ifs at means with negative
    · rw [placeOf?, if_neg (by omega), if_pos (by omega)]
      exact congrArg some (by omega)
    · rw [placeOf?, if_pos (by omega)]
      exact congrArg some (by omega)
  · have strict := short.resolve_left (Int.not_lt.mpr past)
    rw [lenient] at strict
    cases strict

/-- The list asks whether it is constant before it grows to an index. -/
private theorem refuses_position (constant : world.isConstant list = true)
    (affects : Affects (position list index config) list world) :
    Refuses (position list index config) list world := by
  have counted : (world.setConstant list false).length list = world.length list :=
    congrArg List.length (slots_change fun _ => rfl)
  by_cases short : index < world.length list ∨ config.strictLists = true
  · exact absurd affects (not_affects (meets_position_of_short (counted ▸ short)).forget)
  · obtain ⟨past, lenient⟩ := not_or.mp short
    have grows : Affects (do
        resize list (min (index + 1) (Limits.integerBound - 1)) config
        return index.toNat : Act Nat) list world := by
      unfold Affects leaves at affects ⊢
      rwa [position_of_growth (counted ▸ Int.not_lt.mp past) lenient] at affects
    have refuses := refuses_resize constant (grows.of_bind fun _ _ => .pure trivial)
    exact (position_of_growth (Int.not_lt.mp past) lenient).trans refuses.bind

private theorem refuses_mutate {mutation : Mutation} (constant : world.isConstant list = true)
    (affects : Affects (mutate list config mutation) list world) : Refuses (mutate list config mutation) list world := by
  have refuses := refuses_requireChangeable constant
  cases mutation with
  | resize size => exact refuses_resize constant affects
  | position index => exact (refuses_position constant (affects.of_bind fun _ _ => .pure trivial)).bind
  | get index =>
    have finds := affects.of_bind fun _ _ => .pure trivial
    exact (refuses_position constant (finds.of_bind fun _ _ => meets_elementAt)).bind.bind
  | pushItself | pushAlias | append | appendThemselves => exact refuses.bind
  | push | pop | replace | remove | insert => exact refuses.bind.bind

end Act

namespace World

open Act

variable {world : World} {list : Ref}

/-- Whatever steps leave a constant list constant, it keeps its length, and its slots change only where the overlap of
an assignment to it reaches; and whatever else would change it says that it is constant. -/
theorem constant_lists_kept (constant : world.isConstant list = true) :
    (∀ steps, (∀ done, done <+: steps → (world.runAll done).2.isConstant list = true) →
      (world.runAll steps).2.length list = world.length list ∧
      ∀ position, ((world.runAll steps).2.slots list)[position]? ≠ (world.slots list)[position]? →
        ∃ done step, done ++ [step] <+: steps ∧ (world.runAll done).2.Reassigns step list position) ∧
    ∀ mutation config, Affects (mutate list config mutation) list world → Refuses (mutate list config mutation) list world :=
  ⟨fun _ => kept_by_steps, fun _ _ => refuses_mutate constant⟩

/-- A constant list of two elements. -/
def constantPair : World :=
  (runAll {} [{ action := .create (.list "l"), name := some "l" }, { action := .list (.resize 2), target := some "l" },
    { action := .object (.setConstant true), target := some "l" }]).2

/-- Assigns three lists to a list. -/
def threeLists : Step := { action := .list (.assign (.list [.list [], .list [], .list []])), target := some "l" }

theorem constant_pair_kept :
    constantPair.isConstant 0 = true ∧ (constantPair.runAll [threeLists]).2.length 0 = 2 ∧
      (∃ done step, done ++ [step] <+: [threeLists] ∧ (constantPair.runAll done).2.Reassigns step 0 1) ∧
      Refuses (mutate 0 {} .pop) 0 constantPair := by
  have constant : constantPair.isConstant 0 = true := by decide +kernel
  have still : ∀ done, done <+: [threeLists] → (constantPair.runAll done).2.isConstant 0 = true := by
    intro done inside
    rcases List.prefix_cons_iff.mp inside with rfl | ⟨rest, rfl, more⟩
    · exact constant
    · obtain rfl := List.prefix_nil.mp more
      decide +kernel
  have counted : constantPair.length 0 = 2 := by decide +kernel
  have changed : ((constantPair.runAll [threeLists]).2.slots 0)[1]? ≠ (constantPair.slots 0)[1]? := by decide +kernel
  have affects : Affects (mutate 0 {} .pop) 0 constantPair := by
    unfold Affects
    decide +kernel
  obtain ⟨kept, refuses⟩ := constant_lists_kept constant
  obtain ⟨length, reached⟩ := kept [threeLists] still
  exact ⟨constant, length.trans counted, reached 1 changed, refuses .pop {} affects⟩

end World

end Dialogue
