import Dialogue.Proofs.ListGrowth

/-! How long lists get in a session. No list gets longer than lists may be, except by an insertion before
the last position of a list that is not strict and has to grow to get there. -/

namespace Dialogue

namespace Act

open World

variable {world : World} {list : Ref} {step : Step}

theorem gives_targeted {target : Option String} {act : Ref → Act (Outcome Ref)} {post : Outcome Ref → World → Prop}
    (found : world.handles.find? (target.getD "") = some list) (isList : world.kindOf list = .list)
    (gives : Gives (act list) { world with inUse := list :: world.inUse } post) :
    Gives (targeted target .list act) world post := by
  have handles : Gives (handle (target.getD "")) world fun ref after =>
      ref = list ∧ after = { world with inUse := list :: world.inUse } := by
    refine .look ?_
    rw [found]
    exact ⟨list, _, rfl, rfl, rfl⟩
  have requires : Gives (requireKind (· == .list) .list list) { world with inUse := list :: world.inUse }
      fun _ after => after = { world with inUse := list :: world.inUse } := by
    refine .look ?_
    split
    next => exact .pure rfl
    next other => exact absurd (beq_iff_eq.mpr isList) other
  have looks : Gives (look .list list) { world with inUse := list :: world.inUse } fun ref after =>
      ref = list ∧ after = { world with inUse := list :: world.inUse } :=
    requires.bind fun _ _ same => .pure ⟨rfl, same⟩
  apply handles.bind
  rintro ref after ⟨rfl, rfl⟩
  apply looks.bind
  rintro ref after ⟨rfl, rfl⟩
  exact gives

theorem gives_perform (overfills : world.Overfills step list) :
    Gives (perform step.target step.action) world fun _ after => Grows world list (Limits.listLength + 1) after := by
  obtain ⟨action, target, name⟩ := step
  obtain ⟨found, isList, index, rfl, last, lenient, changeable, past⟩ := overfills
  have overfilled : World.Overfilled { world with inUse := list :: world.inUse } list index world.config :=
    ⟨last, lenient, changeable, past⟩
  refine gives_targeted found isList (.look (.map ?_))
  have held : { world with inUse := list :: world.inUse }.kindOf list = .list := isList
  obtain ⟨made, after, ran, grown⟩ := gives_insert held overfilled
  exact ⟨made, after, ran, grown.isList, grown.length, grown.others, grown.handles⟩

end Act

namespace World

open Act

variable {world : World} {list : Ref} {step : Step}

/-- Once a step has been performed, it lets go of what it used and describes what has come of it. -/
private theorem run_snd_of_performed {outcome : Outcome Ref} {after : World}
    (performed : perform step.target step.action world = .ok outcome after) :
    (world.run step).2 =
      (leaves (finish step.name outcome) (after.settle (outcome.refs ++ world.inUse))).settle world.inUse := by
  rw [run_snd, answerStep_eq, leaves_lettingGo]
  refine congrArg (settle · world.inUse) (leaves_bind ?_)
  unfold lettingGo
  rw [performed]
  rfl

private theorem settles_performed (sound : world.Sound) {outcome : Outcome Ref} {after : World}
    (performed : perform step.target step.action world = .ok outcome after) :
    after.Sound ∧ Evolves .releasing after (after.settle (outcome.refs ++ world.inUse)) := by
  have safe : Safe .overfilling (perform step.target step.action) world Lives := safe_perform fun _ _ => rfl
  have ran := safe sound
  rw [performed] at ran
  have soundAfter := ran.1.sound sound
  exact ⟨soundAfter, evolves_settle soundAfter ran.2 ran.1.inUse⟩

theorem evolves_run (sound : world.Sound) {outcome : Outcome Ref} {after : World}
    (performed : perform step.target step.action world = .ok outcome after) :
    Evolves .releasing after (world.run step).2 := by
  obtain ⟨soundAfter, settles⟩ := settles_performed sound performed
  have soundSettled := settles.sound soundAfter
  have finishes : Safe .releasing (finish step.name outcome) (after.settle (outcome.refs ++ world.inUse))
      fun _ _ => True := safe_finish fun ref member => inUse_settle ▸ List.mem_append_left _ member
  have finished := finishes.follows_leaves soundSettled
  have used := finished.inUse
  rw [inUse_settle] at used
  have ends : Evolves .releasing _ (World.settle _ ([] ++ world.inUse)) :=
    evolves_settle (finished.sound soundSettled) (fun _ none => by cases none) ((List.suffix_append ..).trans used)
  rw [run_snd_of_performed performed]
  exact (settles.trans finished.evolves).trans ends

/-- An overfilled list that lives on has one element more than lists may hold. -/
private theorem length_run_of_overfills (sound : world.Sound) (overfills : world.Overfills step list)
    (live : (world.run step).2.isLive list = true) : (world.run step).2.length list = Limits.listLength + 1 := by
  obtain ⟨outcome, after, performed, grown⟩ := gives_perform overfills
  have released := evolves_run sound performed
  have old := lt_size_of_isLive (isLive_of_isList grown.isList)
  rw [length, released.slots_of_isLive old live]
  exact grown.length

/-- No other list gets longer where one is overfilled. -/
private theorem length_run_le_of_overfills (sound : world.Sound) (overfills : world.Overfills step list) {other : Ref}
    (apart : other ≠ list) : (world.run step).2.length other ≤ world.length other := by
  obtain ⟨outcome, after, performed, grown⟩ := gives_perform overfills
  refine ((evolves_run sound performed).length_le_of_releasing other).trans ?_
  rw [length, grown.others other apart]
  rfl

/-- Whether no list is longer than lists may be. -/
def Limited (world : World) : Prop := ∀ list, world.length list ≤ Limits.listLength

private theorem limited_run_of_not_overfills (sound : world.Sound) (within : world.Limited)
    (careful : ∀ list, ¬world.Overfills step list) : (world.run step).2.Limited := by
  have safe : Safe .burying (answerStep step) world fun _ _ => True :=
    safe_answerStep fun list overfills => absurd overfills (careful list)
  rw [run_snd]
  exact (safe.follows_leaves sound).evolves.length_le within fun room roomy => (Option.some.inj roomy).ge

/-- A step leads past the limit just if it overfills a list that lives on. -/
private theorem limited_run_iff (sound : world.Sound) (within : world.Limited) :
    (world.run step).2.Limited ↔ ∀ list, world.Overfills step list → (world.run step).2.isLive list = false := by
  constructor
  · intro after list overfills
    by_contra live
    have full := length_run_of_overfills sound overfills (Bool.not_eq_false _ ▸ live)
    have short := after list
    omega
  · intro gone
    by_cases careful : ∀ list, ¬world.Overfills step list
    · exact limited_run_of_not_overfills sound within careful
    · obtain ⟨list, overfills⟩ := not_forall_not.mp careful
      intro other
      by_cases here : other = list
      · rw [length, here, slots_eq_nil_of_not_isLive (gone list overfills)]
        exact Nat.zero_le _
      · exact (length_run_le_of_overfills sound overfills here).trans (within other)

private theorem length_run_le (sound : world.Sound) (near : ∀ list, world.length list ≤ Limits.listLength + 1)
    (list : Ref) :
    (world.run step).2.length list ≤ Limits.listLength + 1 := by
  have safe : Safe .overfilling (answerStep step) world fun _ _ => True := safe_answerStep fun _ _ => rfl
  rw [run_snd]
  exact (safe.follows_leaves sound).evolves.length_le near (fun room roomy => (Option.some.inj roomy).ge) list

/-- A step that names nothing leaves its target the handle. -/
private theorem isLive_run_of_overfills (sound : world.Sound) (overfills : world.Overfills step list)
    (unnamed : step.name = none) : (world.run step).2.isLive list = true := by
  obtain ⟨outcome, after, performed, grown⟩ := gives_perform overfills
  obtain ⟨soundAfter, settles⟩ := settles_performed sound performed
  have describes : Safe .gentle (finish step.name outcome) (after.settle (outcome.refs ++ world.inUse))
      fun _ _ => True := by
    rw [unnamed]
    exact safe_describeAll
  have described := describes.follows_leaves (settles.sound soundAfter)
  have handles : (world.run step).2.handles = world.handles := by
    rw [run_snd_of_performed performed, handles_settle, described.evolves.handles, handles_settle, grown.handles]
  apply (sound_run sound step).handles
  rw [handles]
  exact Table.mem_values.mpr ⟨_, overfills.target⟩

/-- In every session, no list gets more than one element too many; and all states of a session are within
the limit just if no step of it overfills a list that lives on. -/
theorem lengths_within_limit_iff (config : Config) (steps : List Step) :
    (∀ list, (runAll { config } steps).2.length list ≤ Limits.listLength + 1) ∧
    ((∀ done, done <+: steps → (runAll { config } done).2.Limited) ↔
      ∀ done step, done ++ [step] <+: steps → Continues { config } done →
        ∀ list, (runAll { config } done).2.Overfills step list →
          (runAll { config } (done ++ [step])).2.isLive list = false) := by
  have sound (done : List Step) : (runAll { config } done).2.Sound := ((Reachable.start config).runAll done).sound
  have next {done : List Step} {step : Step} (goes : Continues { config } done) :
      (runAll { config } (done ++ [step])).2 = ((runAll { config } done).2.run step).2 := by
    rw [runAll_append_singleton, if_pos goes]
  refine ⟨?_, ?_, ?_⟩
  -- A list one too long has no room left, so no step adds to it.
  · induction steps using List.reverseRecOn with
    | nil => exact fun _ => Nat.zero_le _
    | append_singleton done step ih =>
      rw [runAll_append_singleton]
      split
      · exact length_run_le (sound done) ih
      · exact ih
  · intro within done step inside goes list overfills
    have after := within _ inside
    rw [next goes] at after ⊢
    exact (limited_run_iff (sound done) (within done ((List.prefix_append ..).trans inside))).mp after list overfills
  -- Each state within the limit comes from one within the limit, by a step that overfills nothing that lives on.
  · intro careful done inside
    induction done using List.reverseRecOn with
    | nil => exact fun _ => Nat.zero_le _
    | append_singleton done step ih =>
      have before := ih ((List.prefix_append ..).trans inside)
      by_cases goes : Continues { config } done
      · have gone := careful done step inside goes
        rw [next goes] at gone ⊢
        exact (limited_run_iff (sound done) before).mpr gone
      · rwa [runAll_append_singleton, if_neg goes]

/-- An element is inserted before the last position that lists may have, while the list is empty. -/
def insertionFarBehind : Step := { action := .list (.insert 16777215), target := some "l" }

theorem length_past_limit :
    Limits.listLength <
      (runAll {} [{ action := .create (.list "l"), name := some "l" }, insertionFarBehind]).2.length 0 := by
  have overfills :
      (runAll {} [{ action := .create (.list "l"), name := some "l" }]).2.Overfills insertionFarBehind 0 := by
    refine ⟨?_, ?_, 16777215, rfl, ?_, ?_, ?_, ?_⟩ <;> decide +kernel
  have sound := ((Reachable.start {}).runAll [{ action := .create (.list "l"), name := some "l" }]).sound
  have full := length_run_of_overfills sound overfills (isLive_run_of_overfills sound overfills rfl)
  have goes : Continues {} [{ action := .create (.list "l"), name := some "l" }] := by decide +kernel
  have last := @runAll_append_singleton {} [{ action := .create (.list "l"), name := some "l" }] insertionFarBehind
  rw [if_pos goes] at last
  rw [← last] at full
  exact Nat.lt_of_lt_of_eq (Nat.lt_succ_self _) full.symm

end World

end Dialogue
