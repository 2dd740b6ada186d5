import Dialogue.Performance
import Dialogue.Proofs.AssignmentSafety
import Dialogue.Proofs.SearchRelation

/-! Searches and runs in sound worlds. A search makes built-in members and nothing else. A run keeps its
operator and argument in use, so its result lives when it ends. -/

namespace Dialogue

namespace World

open Act

variable {world : World}

/-- What a search leads to. -/
def Found (world : World) (found : Search) : Prop :=
  Follows .gentle world found.world ∧ ∀ object ∈ found.answer, found.world.isLive object = true

private theorem found_nothing {trail : Trail} : world.Found ⟨none, trail, world⟩ := ⟨.refl, nofun⟩

private theorem found_of_searched {trail : Trail} {goal : Goal} {segments : List String} {found : Search}
    (sound : world.Sound)
    (search : Searched trail world goal segments found) : world.Found found := by
  have follows : world.Sound → Follows .gentle world found.world :=
    search.preserves (fun world after => world.Sound → Follows .gentle world after) (fun _ _ => .refl)
      (fun first second sound => (first sound).trans (second ((first sound).sound sound)))
      fun _ _ _ sound => follows_materialize sound
  refine ⟨follows sound, fun object answered => ?_⟩
  obtain ⟨scope, name, present⟩ := search.answer_is_member answered
  exact ((follows sound).sound sound).isLive_of_member present

private theorem found_resolve {scope : Ref} {id : Identifier} {found : Search} (sound : world.Sound)
    (ended : world.resolve scope id = some found) : world.Found found := by
  rcases searched_resolve ended with rfl | ⟨_, _, search⟩
  · exact found_nothing
  · exact found_of_searched sound search

end World

namespace Act

open World

variable {α : Type} {world : World} {ref scope operator argument block : Ref} {config : Config}

theorem safe_tryResolve {id : Identifier} : Safe .gentle (tryResolve scope id) world fun found after =>
    ∀ object ∈ found, after.isLive object = true := by
  intro sound
  unfold tryResolve
  cases ended : world.resolve scope id with
  | none => exact .refl
  | some found => exact found_resolve sound ended

theorem safe_resolve {id : Identifier} : Safe .gentle (resolve scope id) world fun object after =>
    after.isLive object = true := by
  apply safe_tryResolve.bind
  intro found after _ _ live
  split
  next object => exact .pure (live object rfl)
  next => exact .raise

theorem safe_resolves {text : String} : Safe .gentle (resolves scope text) world fun _ _ => True := by
  unfold resolves
  split
  next => exact .pure trivial
  next => exact safe_tryResolve.bind fun _ _ _ _ _ => .pure trivial

/-! Operators and blocks. -/

theorem safe_listMember {builtin : Builtin} : Safe .gentle (listMember scope builtin) world fun list after =>
    after.isLive list = true := by
  refine safe_member?.bind fun found after sound _ ⟨_, eq⟩ => ?_
  split
  next => exact .look .raise
  next list =>
    refine safe_requireKind.bind fun _ last _ _ ⟨same, _⟩ => .pure ?_
    rw [same]
    exact sound.isLive_of_member eq.symm

theorem safe_input : Safe .gentle (input operator) world fun list after => after.isLive list = true :=
  safe_listMember

theorem safe_bindInput (used : argument ∈ world.inUse) :
    Safe .burying (bindInput operator argument config) world fun _ _ => True := by
  apply safe_input.bind
  intro list after _ began live
  refine Safe.holding (by simpa using live) (fun before _ went held => .look ?_) fun _ _ _ _ => id
  split
  next => exact safe_assignList (held list List.mem_cons_self)
  next =>
    apply safe_resize.bind
    intro _ last sound ended _
    have argumentLives := sound.inUse (ended.mem_inUse (went.mem_inUse (began.mem_inUse used)))
    have listLives := sound.inUse (ended.mem_inUse (held list List.mem_cons_self))
    exact (safe_push argumentLives (lt_size_of_isLive listLives)).bind fun _ _ _ _ _ => .pure trivial

theorem safe_changeBlock {rule : BlockData → BlockData} :
    Safe .gentle (update (·.changeBlock block rule)) world fun _ _ => True :=
  .with_sound fun sound => .update (follows_changeBlock sound) trivial

theorem safe_say {text : String} : Safe .gentle (say block text) world fun _ _ => True := safe_changeBlock

theorem safe_addNext : Safe .filling (addNext block ref) world fun _ _ => True := by
  apply safe_requireKind.bind
  rintro _ after - - ⟨rfl, isBlock⟩
  have live : after.isLive ref = true := isLive_of_isScope (by rw [eq_of_beq isBlock]; rfl)
  exact safe_listMember.bind fun _ _ _ went _ => safe_pushAlias (lt_size_of_isLive (went.isLive live))

theorem safe_successors : Safe .gentle (successors block) world fun found after =>
    ∀ other ∈ found, after.isLive other = true := by
  refine safe_listMember.bind fun list _ _ _ _ => safe_elements.bind fun blocks after _ _ live => ?_
  have checks : Safe .gentle (blocks.forM requireBlock) after fun _ _ => True :=
    .forM fun _ _ _ _ => safe_requireKind.forget
  exact checks.bind fun _ _ _ went _ => .pure fun other member => went.isLive (live other member)

private theorem safe_sum {elements : List Ref} : Safe .gentle (sum elements config) world fun total _ => total.Exact :=
  .foldlM Scalar.exact_zero fun _ _ _ _ _ _ =>
    safe_numberOf.bind fun _ _ _ _ _ => .compute fun _ computed => Scalar.exact_binary computed

private theorem safe_follow {rule : Rule} (used : operator ∈ world.inUse) :
    Safe .burying (follow operator rule) world fun made after => after.isLive made = true := by
  refine .with_sound fun sound => .look ?_
  cases rule with
  | sum =>
    refine safe_input.bind fun _ _ _ _ _ => safe_elements.bind fun _ _ _ _ _ => ?_
    exact safe_sum.bind fun _ _ _ _ exact => (safe_addValue exact).relax
  | count => exact safe_input.bind fun _ _ _ _ _ => .look (safe_addValue Scalar.exact_integer).relax
  | echo =>
    refine safe_input.bind fun _ _ _ _ _ => safe_flatten.bind fun _ _ _ _ _ => ?_
    exact (safe_addValue Scalar.exact_text).relax
  | first => exact safe_input.bind fun _ _ _ _ _ => safe_get
  | input => exact safe_input.relax
  | pop => exact safe_input.bind fun _ _ _ _ _ => safe_pop.relax
  | self => exact .pure (sound.inUse used)
  | fail => exact .look .raise

/-- Running the body of a block in use is safe. -/
def Runs (run : Ref → Act Unit) : Prop :=
  ∀ block world, block ∈ world.inUse → Safe .burying (run block) world fun _ _ => True

/-- Operating an operator in use with an argument in use is safe, and the result lives. -/
def Operates (operate : Ref → Ref → Act Ref) : Prop :=
  ∀ operator argument world, operator ∈ world.inUse → argument ∈ world.inUse →
    Safe .burying (operate operator argument) world fun made after => after.isLive made = true

theorem Runs.operateWith {run : Ref → Act Unit} (runs : Runs run) : Operates (operateWith run) := by
  intro operator argument world operatorUsed argumentUsed
  refine .look ?_
  apply (safe_bindInput argumentUsed).bind
  intro _ after _ began _
  refine .look ?_
  have used := began.mem_inUse operatorUsed
  split
  next => exact safe_follow used
  next =>
    apply safe_changeBlock.bind
    intro _ before _ went _
    apply (runs operator before (went.mem_inUse used)).bind
    intro _ _ _ _ _
    exact safe_changeBlock.bind fun _ _ _ _ _ => .look (safe_addValue Scalar.exact_text).relax

private theorem safe_bodyScope (live : world.isLive block = true) :
    Safe .gentle (bodyScope block) world fun scope after => after.isLive scope = true := by
  refine .look ?_
  dsimp only
  split
  next => exact .pure live
  next context _ =>
    refine .look ?_
    split
    next lives => exact safe_requireKind.bind fun _ _ _ _ ⟨same, _⟩ => .pure (same ▸ lives)
    next => exact .pure live

theorem Operates.execute {operate : Ref → Ref → Act Ref} (operates : Operates operate) {instruction : Instruction} :
    Safe .burying (execute operate block scope instruction) world fun _ _ => True := by
  refine .look ?_
  cases instruction with
  | say text => exact safe_say.relax
  | sayInput =>
    refine safe_input.bind fun _ _ _ _ _ => safe_flatten.bind fun _ _ _ _ _ => ?_
    exact safe_say.relax
  | sayNamed identifier =>
    refine safe_resolve.bind fun _ _ _ _ _ => safe_textOf.bind fun _ _ _ _ _ => ?_
    exact safe_say.relax
  | sayWhetherSaid => exact .look safe_say.relax
  | fail identifier => exact .raise
  | set identifier value =>
    refine safe_resolve.bind fun target _ _ _ live => .liftStop_bind fun _ read => ?_
    exact safe_onView live (fun _ _ => safe_assign (Literal.exact_scalar read)) fun _ _ _ _ => id
  | next identifier => exact safe_resolve.bind fun _ _ _ _ _ => safe_addNext.relax
  | call identifier argument =>
    apply safe_resolve.bind
    intro operator _ _ _ live
    refine safe_requireKind.bind fun _ before _ _ ⟨same, _⟩ => .liftStop_bind fun _ read => ?_
    subst same
    apply (safe_addValue (Literal.exact_scalar read)).bind
    intro argument middle _ began made
    have alive : ∀ ref ∈ [operator, argument], middle.isLive ref = true := by
      simpa using ⟨began.isLive live, made⟩
    refine Safe.holding alive (fun inside _ _ held => ?_) fun _ _ _ _ => id
    refine (operates operator argument inside (held _ (by simp)) (held _ (by simp))).bind
      fun result _ _ _ lives => ?_
    refine Safe.holding (by simpa using lives) (fun last _ _ _ => ?_) fun _ _ _ _ => id
    exact safe_textOf.bind fun _ _ _ _ _ => safe_say.relax

theorem Safe.located {act : Act α} {freedom : Freedom} {post : α → World → Prop} (safe : Safe freedom act world post) :
    Safe freedom (located block act) world post := by
  intro sound
  have ran := safe sound
  unfold Act.located
  cases went : act world with
  | ok result after => rwa [went] at ran
  | error stop after => rwa [went] at ran

private theorem runs_runWithin (depth : Nat) : Runs (runWithin depth) := by
  induction depth with
  | zero => exact fun _ _ _ => .located .raise
  | succ depth ih =>
    intro block world used
    refine .located (.look (.forM fun instruction _ after began => ?_))
    refine .with_sound fun sound => ?_
    apply (safe_bodyScope (sound.inUse (began.mem_inUse used))).bind
    intro scope last _ _ live
    exact Safe.holding (by simpa using live) (fun _ _ _ _ => ih.operateWith.execute) fun _ _ _ _ => id

theorem operates_operate : Operates operate := (runs_runWithin _).operateWith

end Act

end Dialogue
