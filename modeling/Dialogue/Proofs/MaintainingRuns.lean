import Dialogue.Performance
import Dialogue.Proofs.MaintainingLists

/-! Runs where a guarantee says which slots fit into which lists. Operators and blocks look members up, assign, and put
copies and aliases into lists. What they make is new. -/

namespace Dialogue.Act

open World

variable {α : Type} {cleared : Ref → Prop} {ready : World → Prop} {fits : World → Ref → Slot → Prop}
  {guarantee : Guarantee} {world : World} {ref scope block operator : Ref} {config : Config}

section Lenient

variable [lenient : Lenient guarantee cleared]

include lenient

theorem Meets.lenient_located {act : Act α} {result : α → World → Prop} (meets : Meets guarantee act world result) :
    Meets guarantee (located block act) world result := by
  unfold Meets Act.located
  cases ran : act world with
  | ok value after => exact meets.of_ok ran
  | error stop after => exact ⟨(meets.of_error ran).1, lenient.allows⟩

theorem lenient_liftStop {value : Except Stop α} :
    Meets guarantee (liftStop value) world fun _ after => after = world := by
  cases value with
  | ok found => exact .pure rfl
  | error stop => exact .throw lenient.allows

/-! Operators and blocks. -/

theorem lenient_listMember {builtin : Builtin} :
    Meets guarantee (listMember scope builtin) world fun list after => list < after.heap.size := by
  apply lenient_member?.bind
  intro found after _ _
  split
  next => exact .look .raise
  next =>
    apply Meets.requireKind.bind
    rintro _ _ - ⟨rfl, isList⟩
    exact .pure (lt_size_of_isLive (isLive_of_isList (beq_iff_eq.mp isList)))

theorem lenient_input :
    Meets guarantee (input operator) world fun list after => list < after.heap.size := lenient_listMember

theorem lenient_say {text : String} : Meets guarantee (say block text) world fun _ _ => True := lenient_changeBlock

theorem lenient_successors : Meets guarantee (successors block) world fun _ _ => True := by
  apply lenient_listMember.bind
  intro list _ _ _
  apply meets_elements.bind
  intro blocks after _ _
  have checks : Meets guarantee (blocks.forM requireBlock) after fun _ _ => True :=
    .forM fun _ _ _ _ => Meets.requireKind.forget
  exact checks.bind fun _ _ _ _ => .pure trivial

private theorem lenient_sum {elements : List Ref} : Meets guarantee (sum elements config) world fun _ _ => True :=
  .foldlM trivial fun _ _ _ _ _ _ => lenient_numberOf.bind fun _ _ _ _ => .lenient_compute fun _ _ => trivial

end Lenient

theorem meets_bodyScope : Meets guarantee (bodyScope block) world fun _ _ => True := by
  refine .look ?_
  dsimp only
  split
  next => exact .pure trivial
  next =>
    refine .look ?_
    split
    next => exact Meets.requireKind.bind fun _ _ _ _ => .pure trivial
    next => exact .pure trivial

section Filling

variable [filling : Filling guarantee cleared ready fits]

include filling

private theorem filling_bindInput {argument : Ref} (isReady : ready world) (old : argument < world.heap.size) :
    Meets guarantee (bindInput operator argument config) world fun _ _ => True := by
  apply lenient_input.bind
  intro list after kept here
  have readied : ready { after with inUse := [list] ++ after.inUse } := filling.use (filling.readies kept isReady)
  refine .lenient_holding (.look ?_)
  split
  next => exact filling_assignList readied here
  next =>
    refine Meets.bind (filling_resize here) fun _ last went _ => ?_
    have size := filling.grows went
    refine (filling_push (filling.readies went readied) (here.trans_le size) ?_).bind fun _ _ _ _ => .pure trivial
    exact old.trans_le ((filling.grows kept).trans size)

theorem filling_addNext {successor : Ref} : Meets guarantee (addNext block successor) world fun _ _ => True :=
  Meets.requireKind.bind fun _ _ _ _ => lenient_listMember.bind fun _ _ _ _ => filling_pushAlias

private theorem filling_follow {rule : Rule} : Meets guarantee (follow operator rule) world fun _ _ => True := by
  refine .look ?_
  cases rule with
  | sum =>
    refine lenient_input.bind fun _ _ _ _ => meets_elements.bind fun _ _ _ _ => ?_
    exact lenient_sum.bind fun _ _ _ _ => lenient_addValue.forget
  | count => exact lenient_input.bind fun _ _ _ _ => .look lenient_addValue.forget
  | echo => exact lenient_input.bind fun _ _ _ _ => lenient_flatten.bind fun _ _ _ _ => lenient_addValue.forget
  | first => exact lenient_input.bind fun _ _ _ here => filling_get here
  | input => exact lenient_input.forget
  | pop => exact lenient_input.bind fun _ _ _ _ => lenient_pop
  | self => exact .pure trivial
  | fail => exact .look .raise

end Filling

/-- Running the body of any block gives a guarantee. -/
def RunsFitting (guarantee : Guarantee) (ready : World → Prop) (run : Ref → Act Unit) : Prop :=
  ∀ block world, ready world → Meets guarantee (run block) world fun _ _ => True

/-- Operating anything with an argument that exists gives a guarantee. -/
def OperatesFitting (guarantee : Guarantee) (ready : World → Prop) (operate : Ref → Ref → Act Ref) : Prop :=
  ∀ operator argument world, ready world → argument < world.heap.size →
    Meets guarantee (operate operator argument) world fun _ _ => True

variable [filling : Filling guarantee cleared ready fits]

include filling

theorem RunsFitting.operateWith {run : Ref → Act Unit} (runs : RunsFitting guarantee ready run) :
    OperatesFitting guarantee ready (operateWith run) := by
  intro operator argument world isReady old
  refine .look ?_
  apply (filling_bindInput isReady old).bind
  intro _ after kept _
  refine .look ?_
  split
  next => exact filling_follow
  next =>
    apply lenient_changeBlock.bind
    intro _ before went _
    apply (runs operator before (filling.readies went (filling.readies kept isReady))).bind
    intro _ _ _ _
    exact lenient_changeBlock.bind fun _ _ _ _ => .look lenient_addValue.forget

theorem OperatesFitting.execute {operate : Ref → Ref → Act Ref} (operates : OperatesFitting guarantee ready operate)
    {instruction : Instruction} (isReady : ready world) :
    Meets guarantee (execute operate block scope instruction) world fun _ _ => True := by
  refine .look ?_
  cases instruction with
  | say text => exact lenient_say
  | sayInput => exact lenient_input.bind fun _ _ _ _ => lenient_flatten.bind fun _ _ _ _ => lenient_say
  | sayNamed identifier => exact lenient_resolve.bind fun _ _ _ _ => lenient_textOf.bind fun _ _ _ _ => lenient_say
  | sayWhetherSaid => exact .look lenient_say
  | fail identifier => exact .raise
  | set identifier value =>
    apply lenient_resolve.bind
    intro target after kept _
    apply lenient_liftStop.bind
    rintro value _ - rfl
    exact filling_onView (filling.readies kept isReady) fun _ _ => filling_assign
  | next identifier => exact lenient_resolve.bind fun _ _ _ _ => filling_addNext
  | call identifier argument =>
    apply lenient_resolve.bind
    intro operator after kept _
    apply Meets.requireKind.bind
    rintro _ _ - ⟨rfl, -⟩
    apply lenient_liftStop.bind
    rintro value before - rfl
    apply lenient_addValue.bind
    rintro argument last began ⟨rfl, made⟩
    have old : before.heap.size < last.heap.size := made ▸ lt_size_of_isLive isLive_size_add
    have inside : ready { last with inUse := [operator, before.heap.size] ++ last.inUse } :=
      filling.use (filling.readies began (filling.readies kept isReady))
    refine .lenient_holding ((operates operator _ _ inside old).bind fun result _ _ _ => ?_)
    exact .lenient_holding (lenient_textOf.bind fun _ _ _ _ => lenient_say)

private theorem runsFitting_runWithin (depth : Nat) : RunsFitting guarantee ready (runWithin depth) := by
  induction depth with
  | zero => exact fun _ _ _ => .lenient_located .raise
  | succ depth ih =>
    intro block world isReady
    refine .lenient_located (.look (.forM fun instruction _ after kept => ?_))
    apply meets_bodyScope.bind
    intro scope last went _
    exact .lenient_holding (ih.operateWith.execute (filling.use (filling.readies went (filling.readies kept isReady))))

theorem operatesFitting_operate : OperatesFitting guarantee ready operate := (runsFitting_runWithin _).operateWith

end Dialogue.Act
