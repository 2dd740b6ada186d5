import Dialogue.Proofs.FrozenAssignments
import Dialogue.Proofs.MaintainingSteps

/-! Steps that reach constant lists. A step may assign a list itself or operate something that does; no other step
reaches the slots of a constant list, and neither does what follows once a step has been performed. -/

namespace Dialogue

namespace Act

/-- What a step finds that assigns a list: the settings, the list and the source. -/
def findAssigned (target : Option String) (source : Argument) : Act (Config × Ref × Ref) := do
  let list ← look .list (← handle (target.getD ""))
  let config ← see (·.config)
  let source ← argument source
  requireList source
  return (config, list, source)

/-- What a step finds that operates something: the operator and its argument. -/
def findOperated (target : Option String) (value : Argument) : Act (Ref × Ref) := do
  let operator ← look .operator (← handle (target.getD ""))
  return (operator, ← argument value)

variable {target : Option String}

private theorem perform_assign {source : Argument} : perform target (.list (.assign source)) = (do
    let found ← findAssigned target source
    done (assignList found.2.1 found.2.2 found.1)) := by
  unfold findAssigned perform targeted performList done
  simp only [bind_assoc, pure_bind]

private theorem perform_operate {value : Argument} : perform target (.operator (.operate value)) = (do
    let found ← findOperated target value
    resulting (operate found.1 found.2)) := by
  unfold findOperated perform targeted performOperator resulting
  simp only [bind_assoc, pure_bind, map_bind]

end Act

namespace World

open Act

/-- What a step starts that may assign lists, and the world in which that begins. -/
inductive Begins (world : World) : Step → Work → World → Prop where
  | assign {target name : Option String} {source : Argument} {config : Config} {list other : Ref} {ready : World}
      (found : findAssigned target source world = .ok (config, list, other) ready) :
      Begins world { action := .list (.assign source), target, name } (.assign ready.assignmentFuel config list other) ready
  | operate {target name : Option String} {value : Argument} {operator argument : Ref} {ready : World}
      (found : findOperated target value world = .ok (operator, argument) ready) :
      Begins world { action := .operator (.operate value), target, name } (.operate Limits.callDepth operator argument) ready

/-- Whether in the course of a step a list is assigned while it and the source both have a position. -/
def Reassigns (world : World) (step : Step) (list : Ref) (position : Nat) : Prop :=
  ∃ work ready, world.Begins step work ready ∧ work.Reassigns list position ready

end World

namespace Act

open World

variable {α β : Type} {frozen ref list scope block operator : Ref} {opened : Nat → Prop} {world : World}
  {config : Config} {name : String} {target : Option String}

/-! Steps. -/

theorem freezes_handle : Freezes frozen opened (handle name) := by
  refine .look fun found => ?_
  split
  next => exact freezes_keep
  next => exact .throw

private theorem freezes_bindHandle : Freezes frozen opened (bindHandle name ref) :=
  .look fun _ => .bind (.update fun _ => keeps_of_heap rfl) fun _ => freezes_releaseAll

theorem freezes_literal {value : Literal} : Freezes frozen opened (literal value) := .look fun _ => .liftStop

mutual
theorem freezes_argument : ∀ argument : Argument, Freezes frozen opened (Act.argument argument)
  | .handle _ => freezes_handle
  | .list items => freezes_add.bind fun _ => freezes_keep.bind fun _ => (freezes_pushArguments items).bind fun _ => .pure
  | .plain _ | .scope _ => freezes_add.bind fun _ => freezes_keep
  | .value _ => freezes_literal.bind fun _ => freezes_addValue.bind fun _ => freezes_keep

private theorem freezes_pushArguments {list : Ref} :
    ∀ items : List Argument, Freezes frozen opened (Act.pushArguments list items)
  | [] => .pure
  | item :: rest => (freezes_argument item).bind fun _ => freezes_pushItself.bind fun _ => freezes_pushArguments rest
end

private theorem freezes_nestInLists (depth : Nat) : Freezes frozen opened (nestInLists ref depth) := by
  induction depth generalizing ref with
  | zero => exact .pure
  | succ depth ih => exact freezes_add.bind fun _ => freezes_pushItself.bind fun _ => ih

private theorem freezes_create {creation : Creation} : Freezes frozen opened (create creation) := by
  cases creation with
  | plain | scope | list | setting | operator | pi | counter => exact freezes_add
  | value => exact freezes_literal.bind fun _ => freezes_addValue
  | cell => exact freezes_literal.bind fun _ => freezes_add
  | block name position context body =>
    have contexts : Freezes frozen opened (context.mapM handle) := by
      cases context with
      | none => exact .pure
      | some name => exact .map freezes_handle
    have scripts : Freezes frozen opened (body.forM (storeScript position)) := by
      cases body with
      | none => exact .pure
      | some body => exact .update fun _ => keeps_of_heap rfl
    exact contexts.bind fun _ => scripts.bind fun _ => freezes_add
  | nestedLists value depth => exact (freezes_argument value).bind fun _ => freezes_nestInLists depth

theorem Freezes.done {act : Act Unit} (freezes : Freezes frozen opened act) : Freezes frozen opened (done act) :=
  freezes.bind fun _ => .pure

theorem Freezes.resulting {act : Act Ref} (freezes : Freezes frozen opened act) :
    Freezes frozen opened (resulting act) :=
  .map freezes

private theorem freezes_performSettings {action : SettingsAction} : Freezes frozen opened (performSettings action) := by
  refine .look fun config => ?_
  cases action with
  | change change => exact freezes_setConfig.done
  | read => exact .pure
  | setPrecision requested => exact .done (.bind .lift fun _ => freezes_setConfig)
  | setBase requested => exact .done (.bind .lift fun _ => freezes_setConfig)
  | setStrict strictLists => exact freezes_setConfig.done

private theorem freezes_performHandles {action : HandleAction} :
    Freezes frozen opened (performHandles target action) := by
  cases action with
  | drop name =>
    refine .look fun found => ?_
    split
    next => exact .pure
    next => exact .bind (.update fun _ => keeps_of_heap rfl) fun _ => freezes_release.bind fun _ => .pure
  | weak name =>
    have targets : Freezes frozen opened (target.mapM handle) := by
      cases target with
      | none => exact .pure
      | some name => exact .map freezes_handle
    exact .done (targets.bind fun _ => .update fun _ => keeps_of_heap rfl)
  | upgrade name orElse =>
    cases orElse with
    | none => exact .look fun _ => .pure
    | some missing =>
      refine .look fun found => ?_
      split
      next => exact .pure
      next => exact .raise
  | showWeak name => exact .look fun _ => .pure

theorem freezes_look {through : View} : Freezes frozen opened (Act.look through ref) := by
  cases through with
  | object => exact .pure
  | var => exact freezes_view
  | _ => exact freezes_requireKind.bind fun _ => .pure

private theorem freezes_performObject {action : ObjectAction} (marks : ∀ constant, action ≠ .setConstant constant) :
    Freezes frozen opened (performObject ref action) := by
  refine .look fun config => ?_
  cases action with
  | copyHandle => exact .pure
  | isSame other => exact freezes_handle.bind fun _ => .pure
  | isTargetOf weak => exact .look fun _ => .look fun _ => .pure
  | describe => exact .look fun _ => .pure
  | rename name => exact freezes_rename.done
  | setConstant constant => exact absurd rfl (marks constant)
  | requireChangeable => exact freezes_requireChangeable.done
  | parent => exact .look fun _ => .pure
  | root => exact .look fun _ => .pure
  | cast view => exact freezes_look.resulting
  | text => exact freezes_textOf.bind fun _ => .pure
  | number => exact freezes_numberOf.bind fun _ => .pure
  | truth => exact freezes_truthOf.bind fun _ => .pure
  | inspect view => exact freezes_look.bind fun _ => .look fun _ => freezes_release.bind fun _ => .pure
  | tour tour => exact .look fun _ => .pure
  | isEmpty =>
    refine .look fun kind => ?_
    dsimp only
    split
    next => exact .look fun _ => .pure
    next => exact freezes_requireKind.bind fun _ => .look fun _ => .pure

private theorem freezes_performScope {action : ScopeAction} : Freezes frozen opened (performScope scope action) := by
  cases action with
  | register object => exact (freezes_argument object).bind fun _ => freezes_register.bind fun _ => .pure
  | unregister name => exact freezes_unregister.resulting
  | clear => exact freezes_clear.done
  | member name => exact freezes_member?.bind fun _ => .pure
  | contains name => exact freezes_hasMember.bind fun _ => .pure
  | members => exact .look fun _ => .pure
  | imports => exact .look fun _ => .pure
  | importScope imported => exact .done ((freezes_argument imported).bind fun _ => freezes_importScope)
  | unimport imported => exact .done ((freezes_argument imported).bind fun _ => freezes_unimport)
  | resolve identifier => exact freezes_resolve.resulting
  | tryResolve identifier => exact freezes_tryResolve.bind fun _ => .pure
  | resolves text => exact freezes_resolves.bind fun _ => .pure
  | nestScopes label depth =>
    refine .resulting (.foldlM fun _ _ => ?_)
    exact freezes_add.bind fun _ => freezes_keep.bind fun _ => freezes_register.bind fun _ => .pure

private theorem freezes_performValue {action : ValueAction} : Freezes frozen opened (performValue ref action) := by
  refine .look fun config => ?_
  cases action with
  | read => exact freezes_value.bind fun _ => .pure
  | kind => exact freezes_value.bind fun _ => .pure
  | assign value => exact .onView fun _ => .done (freezes_literal.bind fun _ => freezes_assign)
  | assignFrom source => exact .onView fun _ => .done ((freezes_argument source).bind fun _ => freezes_assignFrom)
  | duplicate =>
    refine .look fun kind => ?_
    split
    next => exact freezes_duplicateList.resulting
    next => exact .resulting (freezes_value.bind fun _ => freezes_addValue)
  | precision => exact freezes_value.bind fun _ => .pure
  | setPrecision requested => exact .onView fun _ => freezes_setPrecision.done
  | precisionVariable => exact .onView fun _ => .resulting (.look fun _ => freezes_add)
  | binary operation right =>
    refine .resulting ((freezes_argument right).bind fun _ => freezes_value.bind fun _ => freezes_value.bind fun _ => ?_)
    exact .bind .compute fun _ => freezes_addValue
  | unary operation => exact .resulting (freezes_value.bind fun _ => .bind .compute fun _ => freezes_addValue)

private theorem freezes_performList {action : ListAction} (apart : ∀ source, action ≠ .assign source) :
    Freezes frozen opened (performList list action) := by
  refine .look fun config => ?_
  cases action with
  | elements => exact freezes_elements.bind fun _ => .pure
  | texts => exact freezes_elements.bind fun _ => .bind (.mapM fun _ => freezes_textOf) fun _ => .pure
  | resize size => exact freezes_resize.done
  | push object => exact .resulting ((freezes_argument object).bind fun _ => freezes_push)
  | pushItself object => exact .done ((freezes_argument object).bind fun _ => freezes_pushItself)
  | pop => exact freezes_pop.resulting
  | append other =>
    exact .done ((freezes_argument other).bind fun _ => freezes_requireKind.bind fun _ => freezes_append)
  | appendThemselves other =>
    exact .done ((freezes_argument other).bind fun _ => freezes_requireKind.bind fun _ => freezes_appendThemselves)
  | position index => exact freezes_position.bind fun _ => .pure
  | get index => exact freezes_get.resulting
  | elementAt position => exact freezes_elementAt.resulting
  | replace index object => exact .resulting ((freezes_argument object).bind fun _ => freezes_replace)
  | remove index => exact freezes_remove.resulting
  | insert index => exact freezes_insert.resulting
  | length => exact .resulting (.look fun _ => freezes_add)
  | assign source => exact absurd rfl (apart source)
  | flatten => exact freezes_flatten.bind fun _ => .pure

private theorem freezes_performBlock {action : BlockAction} : Freezes frozen opened (performBlock block action) := by
  cases action with
  | say text => exact freezes_say.done
  | out => exact .look fun _ => .pure
  | beenSaid => exact .look fun _ => .pure
  | setBeenSaid beenSaid => exact freezes_changeBlock.done
  | next => exact freezes_listMember.resulting
  | addNext successor => exact .done ((freezes_argument successor).bind fun _ => freezes_addNext)
  | successors => exact freezes_successors.bind fun _ => .pure
  | bookmark => exact .look fun _ => .look fun _ => .pure

theorem Freezes.targeted {through : View} {act : Ref → Act (Outcome Ref)}
    (freezes : ∀ ref, Freezes frozen opened (act ref)) :
    Freezes frozen opened (targeted target through act) :=
  freezes_handle.bind fun _ => freezes_look.bind fun ref => freezes ref

/-- A step reaches a constant list only at the positions that it opens, unless it marks an object. -/
theorem freezes_perform {step : Step} (within : ∀ position, world.Reassigns step frozen position → opened position)
    (marks : ∀ constant, step.action ≠ .object (.setConstant constant)) :
    Meets (freezing frozen opened) (perform step.target step.action) world fun _ _ => True := by
  obtain ⟨action, target, name⟩ := step
  cases action with
  | settings action => exact freezes_performSettings world
  | create creation => exact freezes_create.resulting world
  | handles action => exact freezes_performHandles world
  | object action =>
    exact Freezes.targeted (fun _ => freezes_performObject fun constant same => marks constant (congrArg _ same)) world
  | scope action => exact Freezes.targeted (fun _ => freezes_performScope) world
  | value action => exact Freezes.targeted (fun _ => freezes_performValue) world
  | list action =>
    by_cases assigns : ∃ source, action = .assign source
    · obtain ⟨source, rfl⟩ := assigns
      have finds : Freezes frozen opened (findAssigned target source) :=
        freezes_handle.bind fun _ => freezes_look.bind fun _ => .look fun _ =>
          (freezes_argument source).bind fun _ => freezes_requireKind.bind fun _ => .pure
      dsimp only
      rw [perform_assign]
      apply (finds world).with_ran.bind
      rintro ⟨config, list, other⟩ ready - ⟨found, -⟩
      exact (freezes_assignList fun position reassigns => within position ⟨_, ready, .assign found, reassigns⟩).done
    · exact Freezes.targeted (fun _ => freezes_performList (not_exists.mp assigns)) world
  | operator action =>
    cases action with
    | input => exact Freezes.targeted (fun _ => freezes_input.resulting) world
    | operate value =>
      have finds : Freezes frozen opened (findOperated target value) :=
        freezes_handle.bind fun _ => freezes_look.bind fun _ => (freezes_argument value).bind fun _ => .pure
      dsimp only
      rw [perform_operate]
      apply (finds world).with_ran.bind
      rintro ⟨operator, argument⟩ ready - ⟨found, -⟩
      exact (freezes_operate fun position reassigns => within position ⟨_, ready, .operate found, reassigns⟩).resulting
  | block action => exact Freezes.targeted (fun _ => freezes_performBlock) world

theorem freezes_describe : Freezes frozen opened (describe ref) := by
  have lengths {build : Option Nat → Description} {kind : Kind} :
      Freezes frozen opened (if kind = .list then (some <$> see (·.length ref)) >>= fun length => pure (build length)
        else pure none >>= fun length => pure (build length)) := by
    split
    next => exact .bind (.map .see) fun _ => .pure
    next => exact .pure
  refine .look fun config => .look fun kind => .look fun _ => .look fun _ => .look fun _ => .look fun _ => .look fun _ => ?_
  dsimp only
  split
  next => exact .bind (.map freezes_value.attempt) fun _ => lengths
  next => exact lengths

private theorem freezes_describeAll {outcome : Outcome Ref} : Freezes frozen opened (outcome.mapM describe) := by
  cases outcome with
  | object ref => exact freezes_describe.bind fun _ => .pure
  | described ref isScope => exact freezes_describe.bind fun _ => .pure
  | objects refs => exact .bind (.mapM fun _ => freezes_describe) fun _ => .pure
  | bookmark position context =>
    cases context with
    | none => exact .pure
    | some context => exact .bind (.map freezes_describe) fun _ => .pure
  | _ => exact .pure

private theorem freezes_finish {outcome : Outcome Ref} {name : Option String} :
    Freezes frozen opened (finish name outcome) := by
  unfold finish
  dsimp only
  split
  next => exact freezes_bindHandle.bind fun _ => freezes_describeAll
  next => exact freezes_describeAll

private theorem keeps_lettingGo_bind {act : Act α} {refs : α → List Ref} {next : α → Act β}
    (freezes : ∀ value, Freezes frozen opened (next value)) :
    (freezing frozen opened).keeps (leaves act world) (leaves (lettingGo refs act >>= next) world) := by
  change (freezing frozen opened).keeps _ (leaves (EStateM.bind (lettingGo refs act) next) world)
  unfold leaves EStateM.bind lettingGo
  cases act world with
  | ok value after =>
    exact (freezing frozen opened).trans keeps_settle (freezes value (after.settle (refs value ++ world.inUse))).keeps_leaves
  | error stop after => exact keeps_settle

/-- Once a step has been performed, nothing reaches a constant list any more. -/
theorem keeps_run_of_performed (step : Step) :
    (freezing frozen opened).keeps (leaves (perform step.target step.action) world) (world.run step).2 := by
  rw [run_snd, answerStep_eq, leaves_lettingGo]
  exact (freezing frozen opened).trans (keeps_lettingGo_bind fun _ => freezes_finish) keeps_settle

end Act

end Dialogue
