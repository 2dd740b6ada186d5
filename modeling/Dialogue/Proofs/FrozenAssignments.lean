import Dialogue.Proofs.FreezingActs
import Dialogue.Proofs.MaintainingRuns

/-! Assignments of lists, at any depth. Operators assign their inputs, blocks operate what their bodies call, and lists
assign the lists that are their elements. Only an assignment reaches the slots of a list that is constant, and only
those that the source has as well. -/

namespace Dialogue

/-- What may assign lists while it goes on. -/
inductive Work where
  | assign (fuel : Nat) (config : Config) (list source : Ref)
  | operate (depth : Nat) (operator argument : Ref)
  | run (depth : Nat) (block : Ref)

namespace World

/-- The world in which the elements of a list are assigned one after the other. -/
def beginAssignment (world : World) (list source : Ref) : World :=
  setBusy { world with inUse := (world.slots source).filterMap Slot.held? ++ world.inUse } list true

/-- How many slots a list has in common with the source of its assignment. -/
def overlap (world : World) (list source : Ref) : Nat := min (world.length list) (world.length source)

end World

namespace Act

/-- One instruction of a body, inside of which so many blocks may still run. -/
def instruct (depth : Nat) (block : Ref) (instruction : Instruction) : Act Unit := do
  let scope ← bodyScope block
  holding [scope] (execute (operateWith (runWithin depth)) block scope instruction)

/-- What a body that calls an operator does first: it finds the operator and makes the argument. -/
def prepare (scope : Ref) (identifier : String) (argument : Literal) : Act (Ref × Ref) := do
  let config ← see (·.config)
  let operator ← resolve scope (.parse identifier)
  requireOperator operator
  let argument ← addValue "" (← liftStop (argument.scalar config))
  return (operator, argument)

end Act

open Act in
/-- What work that begins in a world starts on its way, and the world in which that begins. -/
inductive Starts : Work → World → Work → World → Prop where
  /-- A list whose element is a list assigns it, once the elements before it are assigned. -/
  | element {fuel : Nat} {config : Config} {list source : Ref} {world reached : World} {position : Nat} {current slot : Slot}
      (apart : list ≠ source) (idle : world.isBusy list = false) (shared : position < world.overlap list source)
      (before : assignOverlap (assignListWithin fuel config) list config 0 ((world.slots source).take position)
        (world.beginAssignment list source) = .ok () reached)
      (given : (world.slots source)[position]? = some slot) (isList : reached.kindOf slot.target = .list)
      (found : (reached.slots list)[position]? = some current) (isTarget : reached.kindOf current.target = .list)
      (free : reached.isBusy current.target = false) (other : current.target ≠ slot.target) :
      Starts (.assign (fuel + 1) config list source) world (.assign fuel config current.target slot.target)
        { reached with inUse := [current.target] ++ ([slot.target] ++ reached.inUse) }
  /-- An operator assigns its input if the argument is a list. -/
  | input {depth : Nat} {operator argument list : Ref} {world reached : World}
      (found : Act.input operator world = .ok list reached) (isList : reached.kindOf argument = .list) :
      Starts (.operate depth operator argument) world (.assign reached.assignmentFuel world.config list argument)
        { reached with inUse := [list] ++ reached.inUse }
  /-- A block runs its body once it has its input. -/
  | body {depth : Nat} {operator argument : Ref} {world reached : World}
      (bound : bindInput operator argument world.config world = .ok () reached)
      (ofBlock : ∀ rule, reached.role? operator ≠ some (.operator rule)) :
      Starts (.operate depth operator argument) world (.run depth operator)
        (reached.changeBlock operator fun data => { data with out := "" })
  /-- A body operates what it calls, once the instructions before have run. -/
  | instruction {depth : Nat} {block scope operator value : Ref} {identifier : String} {argument : Literal}
      {done rest : List Instruction} {world reached looked ready : World}
      (script : world.script (world.positionOf block) = done ++ .call identifier argument :: rest)
      (before : done.forM (instruct depth block) world = .ok () reached)
      (entered : bodyScope block reached = .ok scope looked)
      (prepared : prepare scope identifier argument { looked with inUse := [scope] ++ looked.inUse } =
        .ok (operator, value) ready) :
      Starts (.run (depth + 1) block) world (.operate depth operator value)
        { ready with inUse := [operator, value] ++ ready.inUse }

/-- Whether work assigns a list, itself or by what it starts, while the list and the source both have a position. -/
inductive Work.Reassigns (list : Ref) (position : Nat) : Work → World → Prop where
  | here {fuel : Nat} {config : Config} {source : Ref} {world : World} (apart : list ≠ source)
      (idle : world.isBusy list = false) (shared : position < world.overlap list source) :
      Reassigns list position (.assign fuel config list source) world
  | inside {work other : Work} {world reached : World} (starts : Starts work world other reached)
      (reassigns : Reassigns list position other reached) : Reassigns list position work world

/-- Whether work reassigns a list only at open positions. -/
def Work.ReassignsOnly (work : Work) (frozen : Ref) (opened : Nat → Prop) (world : World) : Prop :=
  ∀ position, work.Reassigns frozen position world → opened position

theorem Work.ReassignsOnly.inside {work other : Work} {frozen : Ref} {opened : Nat → Prop} {world reached : World}
    (within : work.ReassignsOnly frozen opened world) (starts : Starts work world other reached) :
    other.ReassignsOnly frozen opened reached :=
  fun position reassigns => within position (.inside starts reassigns)

namespace Act

open World

variable {α β : Type} {frozen ref list source block operator argument : Ref} {opened : Nat → Prop}
  {world after : World} {config : Config} {guarantee : Guarantee} {nested : Ref → Ref → Act Unit} {slot : Slot}
  {slots done : List Slot} {position : Nat}

namespace Meets

/-- Each act of a list begins where those before it lead. -/
private theorem forM_reached {items : List β} {act : β → Act PUnit}
    (each : ∀ done item rest after, items = done ++ item :: rest → done.forM act world = .ok ⟨⟩ after →
      Meets guarantee (act item) after fun _ _ => True) :
    Meets guarantee (items.forM act) world fun _ _ => True := by
  induction items using List.reverseRecOn with
  | nil => exact .pure trivial
  | append_singleton done item ih =>
    have parts : (done ++ [item]).forM act = done.forM act >>= fun _ => act item := by simp
    rw [parts]
    have began : Meets guarantee (done.forM act) world fun _ _ => True :=
      ih fun former other rest after split => each former other (rest ++ [item]) after (by simp [split])
    apply began.with_ran.bind
    rintro ⟨⟩ reached - ⟨ran, -⟩
    exact each done item [] reached rfl ran

end Meets

/-! Assignments. -/

/-- An element is replaced by a copy. -/
private theorem freezes_overwrite (inside : list = frozen → opened position) :
    Freezes frozen opened (overwrite list position source config) :=
  fun world => (freezes_copy world).bind fun _ _ _ _ => freezes_replaceSlot (keeps_setSlot inside)

/-- An assigned element is replaced, unless it is a variable or a list that is assigned in turn. -/
private theorem freezes_assignElement (inside : list = frozen → opened position)
    (nests : ∀ current, (world.slots list)[position]? = some current → world.kindOf source = .list →
      world.kindOf current.target = .list → world.isBusy current.target = false → current.target ≠ source →
      Meets (freezing frozen opened) (nested current.target source)
        { world with inUse := [current.target] ++ world.inUse } fun _ _ => True) :
    Meets (freezing frozen opened) (assignElement nested list position source config) world fun _ _ => True := by
  have overwrites : Freezes frozen opened (overwrite list position source config) := freezes_overwrite inside
  rw [assignElement_eq]
  refine .look ?_
  split
  next current found =>
    refine .look ?_
    split
    next =>
      refine Meets.freezing_holding (.assignInPlace (overwrites _) (fun _ _ _ => freezes_assignFrom _) ?_)
      exact fun isTarget isList => nests current found isList isTarget
    next => exact overwrites _
  next => exact .throw trivial

/-- The slots that lists have in common are assigned one after the other, each where the one before leads. -/
private theorem freezes_assignOverlap (inside : list = frozen → ∀ position < slots.length, opened position)
    (each : ∀ done slot rest reached, slots = done ++ slot :: rest →
      assignOverlap nested list config 0 done world = .ok () reached →
      Meets (freezing frozen opened) (assignElement nested list done.length slot.target config)
        { reached with inUse := [slot.target] ++ reached.inUse } fun _ _ => True) :
    Meets (freezing frozen opened) (assignOverlap nested list config 0 slots) world fun _ _ => True := by
  induction slots using List.reverseRecOn with
  | nil => exact .pure trivial
  | append_singleton done slot ih =>
    have began : Meets (freezing frozen opened) (assignOverlap nested list config 0 done) world fun _ _ => True := by
      refine ih (fun here position within => inside here position ?_) fun former other rest reached split => ?_
      · rw [List.length_append]
        exact Nat.lt_add_right _ within
      · exact each former other (rest ++ [slot]) reached (by simp [split])
    rw [assignOverlap_concat, Nat.zero_add]
    apply began.with_ran.bind
    rintro ⟨⟩ reached - ⟨ran, -⟩
    refine .look ?_
    split
    next => exact (each done slot [] reached rfl ran).freezing_holding
    next => exact freezes_replaceSlot (keeps_setSlot fun here => inside here done.length (by simp))

private theorem freezes_assignRest {overlap : Nat} (free : Free frozen list world) :
    Meets (freezing frozen opened) (assignRest list overlap slots config) world fun _ _ => True := by
  unfold assignRest
  dsimp only
  split
  next =>
    refine .look ?_
    split
    next => exact .throw_bind trivial
    next => exact freezes_truncate free
  next =>
    have plans : Freezes frozen opened (slots.mapM (planSlot (plan config))) :=
      .mapM fun _ => freezes_planSlot fun _ => freezes_plan
    apply (plans world).bind
    intro copies after planned _
    apply Meets.requireRoom.bind
    rintro _ after - rfl
    exact (freezes_makeAll copies after).bind fun _ _ made _ => freezes_extend ((free.later planned).later made)

private theorem take_eq_append {rest : List Slot} {count : Nat} (parts : slots.take count = done ++ slot :: rest) :
    done.length < count ∧ slots.take done.length = done ∧ slots[done.length]? = some slot := by
  have within : done.length < (slots.take count).length := by simp [parts]
  have small := within.trans_le (List.length_take_le ..)
  refine ⟨small, ?_, ?_⟩
  · rw [← Nat.min_eq_left small.le, ← List.take_take, parts, List.take_left]
  · rw [← List.getElem?_take_of_lt small, parts]
    simp

/-- An assignment reaches a constant list only at the positions that it opens. -/
private theorem freezes_assignListWithin (fuel : Nat)
    (within : (Work.assign fuel config list source).ReassignsOnly frozen opened world) :
    Meets (freezing frozen opened) (assignListWithin fuel config list source) world fun _ _ => True := by
  induction fuel generalizing world list source with
  | zero => exact .throw trivial
  | succ fuel ih =>
    refine .look ?_
    split
    next => exact .pure trivial
    next begins =>
      obtain ⟨apart, idle⟩ := not_or.mp begins
      have idle : world.isBusy list = false := Bool.not_eq_true _ ▸ idle
      refine .look (Meets.freezing_holding (Meets.freezing_whileBusy (.look ?_)))
      dsimp only
      generalize counted : min (World.length _ list) (world.slots source).length = overlap
      have idled : (world.beginAssignment list source).length list = world.length list :=
        congrArg List.length (slots_changeList fun _ => rfl)
      obtain rfl : overlap = world.overlap list source := by
        rw [← counted, World.overlap, ← idled]
        rfl
      have assigns : Meets (freezing frozen opened) (assignOverlap (assignListWithin fuel config) list config 0
          ((world.slots source).take (world.overlap list source))) (world.beginAssignment list source) fun _ _ => True := by
        have inside (here : list = frozen) (position : Nat) (shared : position < world.overlap list source) :
            opened position := within position (here ▸ .here apart idle shared)
        refine freezes_assignOverlap (fun here position counted => ?_) fun done slot rest reached parts ran => ?_
        · exact inside here position (counted.trans_le (List.length_take_le ..))
        · obtain ⟨shared, before, given⟩ := take_eq_append parts
          refine freezes_assignElement (fun here => inside here _ shared) fun current found isList isTarget free other => ?_
          have starts : Starts (.assign (fuel + 1) config list source) world (.assign fuel config current.target slot.target)
              { reached with inUse := [current.target] ++ ([slot.target] ++ reached.inUse) } :=
            .element apart idle shared (before.symm ▸ ran) given isList found isTarget free other
          exact ih (within.inside starts)
      apply assigns.bind
      intro _ after _ _
      refine .look ?_
      split
      next => exact .pure trivial
      next changeable =>
        refine .freezing_of_old fun old => freezes_assignRest fun same => ⟨old, ?_⟩
        exact same ▸ Bool.not_eq_true _ ▸ changeable

theorem freezes_assignList
    (within : (Work.assign world.assignmentFuel config list source).ReassignsOnly frozen opened world) :
    Meets (freezing frozen opened) (assignList list source config) world fun _ _ => True :=
  .look (freezes_assignListWithin _ within)

/-! Operators and blocks. -/

theorem freezes_listMember {scope : Ref} {builtin : Builtin} : Freezes frozen opened (listMember scope builtin) := by
  refine freezes_member?.bind fun found => ?_
  split
  next => exact .look fun _ => .raise
  next => exact freezes_requireKind.bind fun _ => .pure

theorem freezes_input : Freezes frozen opened (input operator) := freezes_listMember

theorem freezes_say {text : String} : Freezes frozen opened (say block text) := freezes_changeBlock

theorem freezes_addNext {successor : Ref} : Freezes frozen opened (addNext block successor) :=
  freezes_requireKind.bind fun _ => freezes_listMember.bind fun _ => freezes_pushAlias

theorem freezes_successors : Freezes frozen opened (successors block) :=
  freezes_listMember.bind fun _ => freezes_elements.bind fun _ =>
    .bind (.forM fun _ => freezes_requireKind) fun _ => .pure

private theorem freezes_sum {elements : List Ref} : Freezes frozen opened (sum elements config) :=
  .foldlM fun _ _ => freezes_numberOf.bind fun _ => .compute

private theorem freezes_follow {rule : Rule} : Freezes frozen opened (follow operator rule) := by
  refine .look fun config => ?_
  cases rule with
  | sum =>
    exact freezes_input.bind fun _ => freezes_elements.bind fun _ => freezes_sum.bind fun _ => freezes_addValue
  | count => exact freezes_input.bind fun _ => .look fun _ => freezes_addValue
  | echo => exact freezes_input.bind fun _ => freezes_flatten.bind fun _ => freezes_addValue
  | first => exact freezes_input.bind fun _ => freezes_get
  | input => exact freezes_input
  | pop => exact freezes_input.bind fun _ => freezes_pop
  | self => exact .pure
  | fail => exact .look fun _ => .raise

private theorem freezes_bindInput {depth : Nat}
    (within : (Work.operate depth operator argument).ReassignsOnly frozen opened world) :
    Meets (freezing frozen opened) (bindInput operator argument world.config) world fun _ _ => True := by
  apply (freezes_input world).with_ran.bind
  rintro list reached - ⟨found, -⟩
  refine Meets.freezing_holding (.look ?_)
  split
  next isList =>
    exact freezes_assignList (within.inside (.input found isList))
  next => exact (freezes_resize _).bind fun _ after _ _ => (freezes_push after).bind fun _ _ _ _ => .pure trivial

private theorem freezes_operateWith {depth : Nat}
    (runs : ∀ {block world}, (Work.run depth block).ReassignsOnly frozen opened world →
      Meets (freezing frozen opened) (runWithin depth block) world fun _ _ => True)
    (within : (Work.operate depth operator argument).ReassignsOnly frozen opened world) :
    Meets (freezing frozen opened) (operateWith (runWithin depth) operator argument) world fun _ _ => True := by
  refine .look ?_
  apply (freezes_bindInput within).with_ran.bind
  rintro ⟨⟩ reached - ⟨bound, -⟩
  refine .look ?_
  split
  next => exact freezes_follow _
  next ofBlock =>
    refine .update_bind keeps_changeScope ?_
    apply (runs (within.inside (.body bound ofBlock))).bind
    intro _ after _ _
    exact (freezes_changeBlock after).bind fun _ _ _ _ => .look (freezes_addValue _)

private theorem execute_call {operate : Ref → Ref → Act Ref} {scope : Ref} {identifier : String} {literal : Literal} :
    execute operate block scope (.call identifier literal) = (do
      let config ← see (·.config)
      let called ← prepare scope identifier literal
      holding [called.1, called.2] do
        let result ← operate called.1 called.2
        holding [result] do say block (← textOf config result)) := by
  unfold prepare
  simp only [bind_assoc, pure_bind]
  rfl

/-- Only an instruction that calls an operator may assign a list. -/
private theorem freezes_execute {operate : Ref → Ref → Act Ref} {scope : Ref} {instruction : Instruction}
    (operates : ∀ {identifier literal operator value ready}, instruction = .call identifier literal →
      prepare scope identifier literal world = .ok (operator, value) ready →
      Meets (freezing frozen opened) (operate operator value) { ready with inUse := [operator, value] ++ ready.inUse }
        fun _ _ => True) :
    Meets (freezing frozen opened) (execute operate block scope instruction) world fun _ _ => True := by
  cases instruction with
  | say text => exact .look (freezes_say _)
  | sayInput => exact .look (freezes_input.bind (fun _ => freezes_flatten.bind fun _ => freezes_say) _)
  | sayNamed identifier => exact .look (freezes_resolve.bind (fun _ => freezes_textOf.bind fun _ => freezes_say) _)
  | sayWhetherSaid => exact .look (.look (freezes_say _))
  | fail identifier => exact .look .raise
  | set identifier value =>
    exact .look (freezes_resolve.bind (fun _ => .bind .liftStop fun _ => .onView fun _ => freezes_assign) _)
  | next identifier => exact .look (freezes_resolve.bind (fun _ => freezes_addNext) _)
  | call identifier literal =>
    have prepares : Freezes frozen opened (prepare scope identifier literal) :=
      .look fun _ => freezes_resolve.bind fun _ => freezes_requireKind.bind fun _ =>
        .bind .liftStop fun _ => freezes_addValue.bind fun _ => .pure
    rw [execute_call]
    refine .look ?_
    apply (prepares world).with_ran.bind
    rintro ⟨operator, value⟩ ready - ⟨prepared, -⟩
    apply Meets.freezing_holding
    apply (operates rfl prepared).bind
    intro result after _ _
    exact Freezes.holding (freezes_textOf.bind fun _ => freezes_say) after

theorem Meets.freezing_located {act : Act α} {result : α → World → Prop}
    (meets : Meets (freezing frozen opened) act world result) :
    Meets (freezing frozen opened) (located block act) world result := by
  unfold Meets Act.located
  cases ran : act world with
  | ok value after => exact meets.of_ok ran
  | error stop after => exact ⟨(meets.of_error ran).1, trivial⟩

private theorem freezes_runWithin (depth : Nat)
    (within : (Work.run depth block).ReassignsOnly frozen opened world) :
    Meets (freezing frozen opened) (runWithin depth block) world fun _ _ => True := by
  induction depth generalizing world block with
  | zero => exact .freezing_located .raise
  | succ depth ih =>
    refine .freezing_located (.look (.forM_reached fun done instruction rest reached script before => ?_))
    apply meets_bodyScope.with_ran.bind
    rintro scope after - ⟨looked, -⟩
    apply Meets.freezing_holding
    apply freezes_execute
    rintro identifier literal operator value ready rfl prepared
    apply freezes_operateWith ih
    exact within.inside (.instruction script before looked prepared)

theorem freezes_operate
    (within : (Work.operate Limits.callDepth operator argument).ReassignsOnly frozen opened world) :
    Meets (freezing frozen opened) (operate operator argument) world fun _ _ => True :=
  freezes_operateWith (freezes_runWithin _) within

end Act

end Dialogue
