import Dialogue.Proofs.MaintainingRuns
import Dialogue.Proofs.SessionSafety

/-! Steps that leave worlds in order. Operators and blocks look members up, put copies into lists and assign. So a
step gives every guarantee about what lists hold, unless it pushes an object itself, appends the elements of a list
themselves or registers an object that had a handle. -/

namespace Dialogue

/-! What steps push and register. -/

/-- Whether an argument that is made puts no objects into a list. -/
def Argument.pushesCopies : Argument → Bool
  | .list items => items.isEmpty
  | _ => true

/-- Whether no object gets into a list unless it is copied or new. Elements of other lists may be appended themselves.
-/
def Action.pushesCopies : Action → Bool
  | .create (.nestedLists ..) | .list (.pushItself _) => false
  | .scope (.register argument) | .scope (.importScope argument) | .scope (.unimport argument)
  | .value (.assignFrom argument) | .value (.binary _ argument) | .list (.push argument) | .list (.append argument)
  | .list (.appendThemselves argument) | .list (.replace _ argument) | .list (.assign argument)
  | .operator (.operate argument) | .block (.addNext argument) => argument.pushesCopies
  | _ => true

/-- Whether a step registers an object that has a handle. -/
def World.Registers (world : World) (step : Step) (object : Ref) : Prop :=
  ∃ name, step.action = .scope (.register (.handle name)) ∧ world.handles.find? name = some object

/-- Whether no list is busy. -/
def World.AtRest (world : World) : Prop := ∀ list, world.isBusy list = false

/-- Whether a step clears a scope. -/
def World.Clears (world : World) (step : Step) (scope : Ref) : Prop :=
  step.action = .scope .clear ∧ world.handles.find? (step.target.getD "") = some scope

namespace Act

open World

variable {α : Type} {exempt cleared : Ref → Prop} {ready : World → Prop} {fits : World → Ref → Slot → Prop}
  {guarantee : Guarantee} {world : World} {ref object scope list block operator : Ref} {name : String} {config : Config}

/-! Handles and new objects. -/

section Lenient

variable [lenient : Lenient guarantee cleared]

include lenient

theorem lenient_handle : Meets guarantee (handle name) world fun found after =>
    world.handles.find? name = some found ∧ after = { world with inUse := found :: world.inUse } := by
  refine .look ?_
  split
  next found there =>
    apply lenient_keep.weaken
    rintro kept after - ⟨rfl, same⟩
    exact ⟨there, same⟩
  next => exact .throw lenient.allows

private theorem lenient_bindHandle : Meets guarantee (bindHandle name ref) world fun _ _ => True :=
  .look (.update_bind (lenient.keeps (entered_of_heap rfl)) lenient_releaseAll)

theorem lenient_literal {value : Literal} : Meets guarantee (literal value) world fun _ after => after = world :=
  .look lenient_liftStop

/-- A new object without an owner, members or elements, which is kept. -/
theorem lenient_addKept {made : Object} (unowned : made.parent = none) (bare : made.shape.members = {})
    (empty : made.slots = []) (idle : made.isBusy = false) :
    Meets guarantee (do keep (← add made)) world fun kept _ => kept = world.heap.size := by
  apply (lenient_add unowned bare empty idle).bind
  rintro added after - ⟨rfl, -⟩
  exact lenient_keep.weaken fun _ _ _ same => same.1

/-- What an argument makes is new. -/
private theorem lenient_newArgument {argument : Argument} (copies : argument.pushesCopies = true)
    (new : ∀ name, argument ≠ .handle name) :
    Meets guarantee (Act.argument argument) world fun made _ => made = world.heap.size := by
  cases argument with
  | handle name => exact absurd rfl (new name)
  | list items =>
    obtain rfl := List.isEmpty_iff.mp copies
    exact (lenient_addKept rfl rfl rfl rfl).bind fun _ _ _ same => .pure same
  | plain name => exact lenient_addKept rfl rfl rfl rfl
  | scope name => exact lenient_addKept rfl rfl rfl rfl
  | value value =>
    apply lenient_literal.bind
    rintro scalar after - rfl
    exact lenient_addKept rfl rfl rfl rfl

private theorem lenient_argument {argument : Argument} (copies : argument.pushesCopies = true) :
    Meets guarantee (Act.argument argument) world fun _ _ => True := by
  by_cases handle : ∃ name, argument = .handle name
  · obtain ⟨name, rfl⟩ := handle
    exact lenient_handle.forget
  · exact (lenient_newArgument copies (not_exists.mp handle)).forget

private theorem lenient_storeScript {position : Position} {body : List Instruction} :
    Meets guarantee (storeScript position body) world fun _ _ => True :=
  (Meets.alter (entered_of_heap rfl)).forget

private theorem lenient_derivedVariable {formula : Formula} {memo : Memo} :
    Meets guarantee (derivedVariable name formula memo) world fun _ _ => True :=
  (lenient_add rfl rfl rfl rfl).forget

end Lenient

/-! Arguments that put objects into lists, where a guarantee does not mind which. -/

/-- Whether a guarantee says nothing against an owner of an object. -/
def Admits (guarantee : Guarantee) (cleared : Ref → Prop) (object : Ref) : Prop :=
  ∀ {world after}, Entered object cleared world after → guarantee.keeps world after

/-- Guarantees that mind neither what is owned nor which other objects a list holds. -/
structure Liberal (guarantee : Guarantee) (cleared : Ref → Prop) : Prop where
  admits : ∀ object, Admits guarantee cleared object
  holds : ∀ {world : World} {list object : Ref}, object ≠ list → object < world.heap.size →
    guarantee.keeps world (world.changeSlots list (· ++ [.held object]))

private theorem liberal_maintains (all : ∀ ref, exempt ref) : Liberal (maintains exempt cleared) cleared where
  admits object _ _ entered := entered.maintained fun _ => all object
  holds _ old := maintained_changeSlots fun slot inside => by
    refine (List.mem_append.mp inside).imp_right fun last => ?_
    rw [List.mem_singleton.mp last]
    exact holdable_held (.of_exempt (all _) old)

section Filling

variable [filling : Filling guarantee cleared ready fits]

include filling

theorem Liberal.pushItself (liberal : Liberal guarantee cleared) (old : object < world.heap.size) :
    Meets guarantee (pushItself list object) world fun _ _ => True := by
  apply Meets.requireChangeable.bind
  rintro _ after - ⟨rfl, -⟩
  apply Meets.requireRoom.bind
  rintro _ after - rfl
  split
  next => exact .look (filling_extend (List.forall_mem_singleton.mpr filling.link))
  next apart => exact .update (liberal.holds apart old) trivial

mutual
theorem Liberal.argument {world : World} (liberal : Liberal guarantee cleared) (sound : world.Sound) :
    ∀ argument : Argument,
    Meets guarantee (Act.argument argument) world fun _ _ => True
  | .list items => by
    apply ((lenient_add rfl rfl rfl rfl).with_safe sound safe_addEmpty).bind
    rintro list after - ⟨-, sound, -, live⟩
    apply (lenient_keep.with_safe sound (safe_use live)).bind
    rintro kept last - ⟨-, sound, -, -⟩
    exact (Liberal.pushArguments liberal sound items).bind fun _ _ _ _ => .pure trivial
  | .handle _ | .plain _ | .scope _ | .value _ => lenient_argument rfl

theorem Liberal.pushArguments {world : World} {list : Ref} (liberal : Liberal guarantee cleared) (sound : world.Sound) :
    ∀ items : List Argument, Meets guarantee (Act.pushArguments list items) world fun _ _ => True
  | [] => .pure trivial
  | item :: rest => by
    apply ((Liberal.argument liberal sound item).with_safe sound (safe_argument item)).bind
    rintro made after - ⟨-, sound, -, used⟩
    have live := sound.inUse used
    apply ((liberal.pushItself (lt_size_of_isLive live)).with_safe sound (safe_pushItself live)).bind
    rintro _ last - ⟨-, sound, -⟩
    exact Liberal.pushArguments liberal sound rest
end

theorem filling_argument {argument : Argument} (free : argument.pushesCopies = true ∨ Liberal guarantee cleared)
    (isReady : ready world) (sound : world.Sound) :
    Meets guarantee (Act.argument argument) world fun made after => after.isLive made = true ∧ ready after := by
  have makes : Meets guarantee (Act.argument argument) world fun _ _ => True :=
    free.elim lenient_argument fun liberal => liberal.argument sound argument
  apply (makes.with_safe sound (safe_argument argument)).weaken
  rintro made after kept ⟨-, sound, -, used⟩
  exact ⟨sound.inUse used, filling.readies kept isReady⟩

theorem Liberal.nestInLists (liberal : Liberal guarantee cleared) (depth : Nat) (old : object < world.heap.size) :
    Meets guarantee (nestInLists object depth) world fun _ _ => True := by
  induction depth generalizing world object with
  | zero => exact .pure trivial
  | succ depth ih =>
    apply (lenient_add rfl rfl rfl rfl).bind
    rintro list after kept ⟨rfl, made⟩
    have new : world.heap.size < after.heap.size := made ▸ lt_size_of_isLive isLive_size_add
    apply (liberal.pushItself (old.trans_le (filling.grows kept))).bind
    exact fun _ last went _ => ih (new.trans_le (filling.grows went))

end Filling

/-! Actions. -/

theorem Meets.done {act : Act Unit} (meets : Meets guarantee act world fun _ _ => True) :
    Meets guarantee (done act) world fun _ _ => True :=
  meets.bind fun _ _ _ _ => .pure trivial

theorem Meets.resulting {act : Act Ref} (meets : Meets guarantee act world fun _ _ => True) :
    Meets guarantee (resulting act) world fun _ _ => True :=
  .map meets

section Lenient

variable [lenient : Lenient guarantee cleared]

include lenient

private theorem lenient_performSettings {action : SettingsAction} :
    Meets guarantee (performSettings action) world fun _ _ => True := by
  refine .look ?_
  cases action with
  | change change => exact lenient_setConfig.done
  | read => exact .pure trivial
  | setPrecision requested => exact Meets.done (.lift_bind fun _ _ => lenient_setConfig)
  | setBase requested => exact Meets.done (.lift_bind fun _ _ => lenient_setConfig)
  | setStrict strictLists => exact lenient_setConfig.done

private theorem lenient_release :
    Meets guarantee (release ref) world fun _ _ => True := @lenient_releaseAll _ _ _ lenient [ref]

private theorem lenient_performHandles {target : Option String} {action : HandleAction} :
    Meets guarantee (performHandles target action) world fun _ _ => True := by
  cases action with
  | drop name =>
    refine .look ?_
    split
    next => exact .pure trivial
    next =>
      refine .update_bind (lenient.keeps (entered_of_heap rfl)) ?_
      exact lenient_release.bind fun _ _ _ _ => .pure trivial
  | weak name =>
    have targets : Meets guarantee (target.mapM handle) world fun _ _ => True := by
      cases target with
      | none => exact .pure trivial
      | some name => exact Meets.map lenient_handle.forget
    exact Meets.done (targets.bind fun _ _ _ _ => (Meets.alter (entered_of_heap rfl)).forget)
  | upgrade name orElse =>
    cases orElse with
    | none => exact .look (.pure trivial)
    | some missing =>
      refine .look ?_
      split
      next => exact .pure trivial
      next => exact .raise
  | showWeak name => exact .look (.pure trivial)

private theorem lenient_look {through : View} : Meets guarantee (Act.look through ref) world fun _ _ => True := by
  cases through with
  | object => exact .pure trivial
  | var => exact lenient_view
  | _ => exact Meets.requireKind.bind fun _ _ _ _ => .pure trivial

private theorem lenient_nestInScope {name : String} (isScope : (world.kindOf scope).isScope = true) :
    Meets guarantee (do
      let inner ← keep (← add { name, body := .scope { role := .bare } })
      register scope inner
      return inner) world fun _ _ => True := by
  have nests : Meets (enters world.heap.size cleared) (do
      let inner ← keep (← add { name, body := .scope { role := .bare } })
      register scope inner
      return inner) world fun _ _ => True := by
    apply (lenient_add rfl rfl rfl rfl).bind
    rintro added after - ⟨rfl, made⟩
    apply lenient_keep.bind
    rintro inner last - ⟨rfl, same⟩
    have old := lt_size_of_isLive (isLive_of_isScope isScope)
    refine (enters_register ?_ ?_).bind fun _ _ _ _ => .pure trivial
    · rw [same, made]
      change ((world.add _).kindOf scope).isScope = true
      rwa [kindOf, object?_add, if_neg old.ne]
    · rw [same, made]
      exact isLive_size_add
  exact nests.relax lenient.keeps fun _ => lenient.allows

/-- Scopes that are made one inside another are all new. -/
private theorem lenient_nestInScopes {label : String} {depth : Nat} (isScope : (world.kindOf scope).isScope = true)
    (sound : world.Sound) : Meets guarantee (nestInScopes scope label depth) world fun _ _ => True := by
  have nests : Meets guarantee (nestInScopes scope label depth) world fun inner after =>
      after.Sound ∧ (after.kindOf inner).isScope = true := by
    refine .foldlM ⟨sound, isScope⟩ fun index _ outer before _ ⟨sound, isScope⟩ => ?_
    exact ((lenient_nestInScope isScope).with_safe sound (safe_nestInScope isScope)).weaken
      fun _ _ _ ⟨_, sound, _, isScope⟩ => ⟨sound, isScope⟩
  exact nests.forget

/-- What has no handle is new when it is registered. -/
private theorem lenient_registerNew {argument : Argument} (copies : argument.pushesCopies = true)
    (new : ∀ name, argument ≠ .handle name) (isScope : (world.kindOf scope).isScope = true) (sound : world.Sound) :
    Meets guarantee (performScope scope (.register argument)) world fun _ _ => True := by
  have registers : Meets (enters world.heap.size cleared) (performScope scope (.register argument)) world fun _ _ => True := by
    apply ((lenient_newArgument copies new).with_safe sound (safe_argument argument)).bind
    rintro made after - ⟨rfl, sound, began, used⟩
    exact (enters_register (began.isScope isScope) (sound.inUse used)).bind fun _ _ _ _ => .pure trivial
  exact registers.relax lenient.keeps fun _ => lenient.allows

end Lenient

/-! A list that is busy shares its slots with its copies. At rest no list is, and otherwise its slots have to fit. -/

/-- Whether whatever a list holds fits into every list. -/
def Interchangeable (ready : World → Prop) (fits : World → Ref → Slot → Prop) : Prop :=
  ∀ {world list other slot}, ready world → slot ∈ world.slots other → fits world list slot

private theorem fits_of_busy {other : Ref} (shared : world.AtRest ∨ Interchangeable ready fits) (isReady : ready world)
    (busy : world.isBusy other = true) : ∀ slot ∈ world.slots other, fits world list slot := by
  rcases shared with rest | interchangeable
  · rw [rest other] at busy
    cases busy
  · exact fun slot => interchangeable isReady

section Filling

variable [filling : Filling guarantee cleared ready fits]

include filling

theorem Filling.atRest {after : World} (kept : guarantee.keeps world after) (rest : world.AtRest) : after.AtRest := by
  intro list
  by_contra busy
  have before := filling.idle kept (Bool.not_eq_false _ ▸ busy)
  rw [rest list] at before
  cases before

private theorem filling_create {creation : Creation}
    (free : (Action.create creation).pushesCopies = true ∨ Liberal guarantee cleared) (isReady : ready world)
    (sound : world.Sound) : Meets guarantee (create creation) world fun _ _ => True := by
  cases creation with
  | plain | scope | list | setting | operator => exact (lenient_add rfl rfl rfl rfl).forget
  | pi | counter => exact lenient_derivedVariable
  | value => exact lenient_literal.bind fun _ _ _ _ => lenient_addValue.forget
  | cell => exact lenient_literal.bind fun _ _ _ _ => (lenient_add rfl rfl rfl rfl).forget
  | block name position context body =>
    have contexts : Meets guarantee (context.mapM handle) world fun _ _ => True := by
      cases context with
      | none => exact .pure trivial
      | some name => exact Meets.map lenient_handle.forget
    have scripts {world : World} : Meets guarantee (body.forM (storeScript position)) world fun _ _ => True := by
      cases body with
      | none => exact .pure trivial
      | some body => exact lenient_storeScript
    exact contexts.bind fun _ _ _ _ => scripts.bind fun _ _ _ _ => (lenient_add rfl rfl rfl rfl).forget
  | nestedLists value depth =>
    have liberal := free.resolve_left Bool.false_ne_true
    apply (filling_argument (.inr liberal) isReady sound).bind
    exact fun _ _ _ ⟨live, _⟩ => liberal.nestInLists depth (lt_size_of_isLive live)

private theorem filling_performObject {action : ObjectAction} (isReady : ready world) :
    Meets guarantee (performObject ref action) world fun _ _ => True := by
  refine .look ?_
  cases action with
  | copyHandle => exact .pure trivial
  | isSame other => exact lenient_handle.bind fun _ _ _ _ => .pure trivial
  | isTargetOf weak => exact .look (.look (.pure trivial))
  | describe => exact .look (.pure trivial)
  | rename name => exact (filling_rename isReady).done
  | setConstant constant => exact (Meets.alter entered_setConstant).forget.done
  | requireChangeable => exact Meets.requireChangeable.forget.done
  | parent => exact .look (.pure trivial)
  | root => exact .look (.pure trivial)
  | cast view => exact lenient_look.resulting
  | text => exact lenient_textOf.bind fun _ _ _ _ => .pure trivial
  | number => exact lenient_numberOf.bind fun _ _ _ _ => .pure trivial
  | truth => exact lenient_truthOf.bind fun _ _ _ _ => .pure trivial
  | inspect view =>
    apply lenient_look.bind
    intro shown _ _ _
    exact .look (lenient_release.bind fun _ _ _ _ => .pure trivial)
  | tour tour => exact .look (.pure trivial)
  | isEmpty =>
    refine .look ?_
    dsimp only
    split
    next => exact .look (.pure trivial)
    next => exact Meets.requireKind.bind fun _ _ _ _ => .look (.pure trivial)

private theorem filling_performScope {action : ScopeAction} (isReady : ready world) (sound : world.Sound)
    (isScope : (world.kindOf scope).isScope = true)
    (free : (Action.scope action).pushesCopies = true ∨ Liberal guarantee cleared) (allowed : action = .clear → cleared scope)
    (given : ∀ name object, action = .register (.handle name) → world.handles.find? name = some object →
      Admits guarantee cleared object) :
    Meets guarantee (performScope scope action) world fun _ _ => True := by
  cases action with
  | register argument =>
    by_cases named : ∃ name, argument = .handle name
    · obtain ⟨name, rfl⟩ := named
      apply (lenient_handle.with_safe sound safe_handle).bind
      rintro object after - ⟨⟨found, -⟩, soundAfter, began, -, used⟩
      have live := soundAfter.inUse (used ▸ List.mem_cons_self : object ∈ after.inUse)
      have registers := (enters_register (began.isScope isScope) live).relax (given name object rfl found) fun _ => filling.allows
      exact registers.bind fun _ _ _ _ => .pure trivial
    · rcases free with copies | liberal
      · exact lenient_registerNew copies (not_exists.mp named) isScope sound
      · apply ((liberal.argument sound argument).with_safe sound (safe_argument argument)).bind
        rintro made after - ⟨-, soundAfter, began, used⟩
        have live := soundAfter.inUse used
        have registers := (enters_register (began.isScope isScope) live).relax (liberal.admits made) fun _ => filling.allows
        exact registers.bind fun _ _ _ _ => .pure trivial
  | unregister name => exact lenient_unregister.forget.resulting
  | clear => exact (lenient_clear isScope (allowed rfl)).done
  | member name => exact lenient_member?.bind fun _ _ _ _ => .pure trivial
  | contains name => exact lenient_hasMember.bind fun _ _ _ _ => .pure trivial
  | members => exact .look (.pure trivial)
  | imports => exact .look (.pure trivial)
  | importScope imported => exact Meets.done ((filling_argument free isReady sound).bind fun _ _ _ _ => lenient_importScope)
  | unimport imported => exact Meets.done ((filling_argument free isReady sound).bind fun _ _ _ _ => lenient_unimport)
  | resolve identifier => exact lenient_resolve.resulting
  | tryResolve identifier => exact lenient_tryResolve.bind fun _ _ _ _ => .pure trivial
  | resolves text => exact lenient_resolves.bind fun _ _ _ _ => .pure trivial
  | nestScopes label depth => exact (lenient_nestInScopes isScope sound).resulting

/-- The source is an argument that is worked out while the view is held. -/
private theorem filling_assignArgument {source : Argument} (isReady : ready world) (sound : world.Sound)
    (live : world.isLive ref = true) (free : source.pushesCopies = true ∨ Liberal guarantee cleared) :
    Meets guarantee (onView ref fun view => done do assignFrom view (← Act.argument source) config) world
      fun _ _ => True := by
  apply (lenient_view.with_safe sound (safe_view live)).bind
  rintro shown after kept ⟨-, sound, -, live⟩
  have used : Sound { after with inUse := [shown] ++ after.inUse } := (follows_use sound (by simpa using live)).sound sound
  refine .lenient_holding (Meets.done ((filling_argument free (filling.use (filling.readies kept isReady)) used).bind ?_))
  exact fun _ _ _ ⟨_, readied⟩ => filling_assignFrom readied

private theorem filling_performValue {action : ValueAction} (isReady : ready world) (sound : world.Sound)
    (live : world.isLive ref = true) (free : (Action.value action).pushesCopies = true ∨ Liberal guarantee cleared)
    (shared : world.AtRest ∨ Interchangeable ready fits) : Meets guarantee (performValue ref action) world fun _ _ => True := by
  refine .look ?_
  cases action with
  | read => exact lenient_value.bind fun _ _ _ _ => .pure trivial
  | kind => exact lenient_value.bind fun _ _ _ _ => .pure trivial
  | assign value =>
    refine filling_onView isReady fun _ _ isReady => Meets.done (lenient_literal.bind ?_)
    exact fun _ _ kept _ => filling_assign (filling.readies kept isReady)
  | assignFrom source => exact filling_assignArgument isReady sound live free
  | duplicate =>
    refine .look ?_
    split
    next => exact (filling_duplicateList isReady (lt_size_of_isLive live) (fits_of_busy shared isReady)).resulting
    next => exact (lenient_value.bind fun _ _ _ _ => lenient_addValue.forget).resulting
  | precision => exact lenient_value.bind fun _ _ _ _ => .pure trivial
  | setPrecision requested => exact filling_onView isReady fun _ _ _ => lenient_setPrecision.done
  | precisionVariable =>
    exact filling_onView isReady fun _ _ _ => Meets.resulting (.look (lenient_add rfl rfl rfl rfl).forget)
  | binary operation right =>
    refine Meets.resulting ((filling_argument free isReady sound).bind fun _ _ _ _ => ?_)
    refine lenient_value.bind fun _ _ _ _ => lenient_value.bind fun _ _ _ _ => ?_
    exact .lenient_compute_bind fun _ _ => lenient_addValue.forget
  | unary operation =>
    refine Meets.resulting (lenient_value.bind fun _ _ _ _ => ?_)
    exact .lenient_compute_bind fun _ _ => lenient_addValue.forget

private theorem filling_performList {action : ListAction} (isReady : ready world) (sound : world.Sound)
    (live : world.isLive list = true) (free : (Action.list action).pushesCopies = true ∨ Liberal guarantee cleared)
    (shared : world.AtRest ∨ Interchangeable ready fits) (apart : ∀ other, action ≠ .appendThemselves other) :
    Meets guarantee (performList list action) world fun _ _ => True := by
  have here := lt_size_of_isLive live
  refine .look ?_
  cases action with
  | elements => exact meets_elements.bind fun _ _ _ _ => .pure trivial
  | texts =>
    apply meets_elements.bind
    intro found after _ _
    have texts : Meets guarantee (found.mapM (textOf world.config)) after fun _ _ => True :=
      Meets.forget (.mapM (fun _ => True) fun _ _ _ _ => lenient_textOf)
    exact texts.bind fun _ _ _ _ => .pure trivial
  | resize size => exact (filling_resize here).done
  | push object =>
    refine Meets.resulting ((filling_argument free isReady sound).bind ?_)
    exact fun _ _ kept ⟨live, isReady⟩ =>
      filling_push isReady (here.trans_le (filling.grows kept)) (lt_size_of_isLive live)
  | pushItself object =>
    have liberal := free.resolve_left Bool.false_ne_true
    refine Meets.done ((filling_argument (.inr liberal) isReady sound).bind ?_)
    exact fun made _ _ ⟨live, _⟩ => liberal.pushItself (lt_size_of_isLive live)
  | pop => exact lenient_pop.resulting
  | append other =>
    refine Meets.done ((filling_argument free isReady sound).bind fun _ _ kept ⟨_, isReady⟩ => Meets.requireKind.bind ?_)
    rintro _ after - ⟨rfl, -⟩
    have later := shared.imp_left (filling.atRest kept)
    exact filling_append isReady (here.trans_le (filling.grows kept)) (fits_of_busy later isReady)
  | appendThemselves other => exact absurd rfl (apart other)
  | position index => exact (filling_position here).bind fun _ _ _ _ => .pure trivial
  | get index => exact (filling_get here).resulting
  | elementAt position => exact meets_elementAt.resulting
  | replace index object =>
    refine Meets.resulting ((filling_argument free isReady sound).bind ?_)
    exact fun _ _ kept ⟨live, isReady⟩ =>
      filling_replace isReady (here.trans_le (filling.grows kept)) (lt_size_of_isLive live)
  | remove index => exact (filling_remove here).resulting
  | insert index => exact (filling_insert here).resulting
  | length => exact Meets.resulting (.look (lenient_add rfl rfl rfl rfl).forget)
  | assign other =>
    refine Meets.done ((filling_argument free isReady sound).bind fun _ _ kept ⟨_, isReady⟩ => Meets.requireKind.bind ?_)
    rintro _ after - ⟨rfl, -⟩
    exact filling_assignList isReady (here.trans_le (filling.grows kept))
  | flatten => exact lenient_flatten.bind fun _ _ _ _ => .pure trivial

private theorem filling_performOperator {action : OperatorAction} (isReady : ready world) (sound : world.Sound)
    (free : (Action.operator action).pushesCopies = true ∨ Liberal guarantee cleared) :
    Meets guarantee (performOperator operator action) world fun _ _ => True := by
  cases action with
  | input => exact lenient_input.forget.resulting
  | operate argument =>
    refine Meets.resulting ((filling_argument free isReady sound).bind ?_)
    exact fun made after _ ⟨live, isReady⟩ => operatesFitting_operate operator made after isReady (lt_size_of_isLive live)

private theorem filling_performBlock {action : BlockAction} (isReady : ready world) (sound : world.Sound)
    (free : (Action.block action).pushesCopies = true ∨ Liberal guarantee cleared) :
    Meets guarantee (performBlock block action) world fun _ _ => True := by
  cases action with
  | say text => exact lenient_say.done
  | out => exact .look (.pure trivial)
  | beenSaid => exact .look (.pure trivial)
  | setBeenSaid beenSaid => exact lenient_changeBlock.done
  | next => exact lenient_listMember.forget.resulting
  | addNext successor => exact Meets.done ((filling_argument free isReady sound).bind fun _ _ _ _ => filling_addNext)
  | successors => exact lenient_successors.bind fun _ _ _ _ => .pure trivial
  | bookmark => exact .look (.look (.pure trivial))

end Filling

/-! Steps. -/

section Lenient

variable [lenient : Lenient guarantee cleared]

include lenient

theorem lenient_targeted {target : Option String} {through : View} {act : Ref → Act (Outcome Ref)}
    (other : through ≠ .var) (sound : world.Sound)
    (meets : ∀ ref, world.handles.find? (target.getD "") = some ref → Sound { world with inUse := ref :: world.inUse } →
      (through = .scope → (world.kindOf ref).isScope = true) →
      Meets guarantee (act ref) { world with inUse := ref :: world.inUse } fun _ _ => True) :
    Meets guarantee (targeted target through act) world fun _ _ => True := by
  apply (lenient_handle.with_safe sound safe_handle).bind
  rintro ref after - ⟨⟨found, rfl⟩, soundAfter, -⟩
  have looks (allowed : Kind → Bool) (kind : Kind) : Meets guarantee (do requireKind allowed kind ref; return ref)
      { world with inUse := ref :: world.inUse } fun shown last =>
        last = { world with inUse := ref :: world.inUse } ∧ shown = ref ∧ allowed (world.kindOf ref) = true :=
    Meets.requireKind.bind fun _ _ _ ⟨same, fits⟩ => .pure ⟨same, rfl, fits⟩
  cases through with
  | var => exact absurd rfl other
  | object => exact meets ref found soundAfter nofun
  | scope =>
    apply (looks Kind.isScope .scope).bind
    rintro shown last - ⟨rfl, rfl, isScope⟩
    exact meets _ found soundAfter fun _ => isScope
  | list =>
    apply (looks (· == .list) .list).bind
    rintro shown last - ⟨rfl, rfl, -⟩
    exact meets _ found soundAfter nofun
  | operator =>
    apply (looks (fun kind => kind == .operator || kind == .block) .operator).bind
    rintro shown last - ⟨rfl, rfl, -⟩
    exact meets _ found soundAfter nofun
  | block =>
    apply (looks (· == .block) .block).bind
    rintro shown last - ⟨rfl, rfl, -⟩
    exact meets _ found soundAfter nofun

theorem lenient_describe : Meets guarantee (describe ref) world fun _ _ => True := by
  have lengths {world : World} {build : Option Nat → Description} {kind : Kind} :
      Meets guarantee (if kind = .list then (some <$> see (·.length ref)) >>= fun length => pure (build length)
        else pure none >>= fun length => pure (build length)) world fun _ _ => True := by
    split
    next =>
      have sees : Meets guarantee (some <$> see (·.length ref)) world fun _ _ => True := .map (.see trivial)
      exact sees.bind fun _ _ _ _ => .pure trivial
    next => exact .pure trivial
  refine .look (.look (.look (.look (.look (.look (.look ?_))))))
  dsimp only
  split
  next =>
    have reads : Meets guarantee (some <$> attempt (value world.config ref)) world fun _ _ => True :=
      .map lenient_value.attempt.forget
    exact reads.bind fun _ _ _ _ => lengths
  next => exact lengths

private theorem lenient_describeAll {outcome : Outcome Ref} :
    Meets guarantee (outcome.mapM describe) world fun _ _ => True := by
  cases outcome with
  | object ref => exact lenient_describe.bind fun _ _ _ _ => .pure trivial
  | described ref isScope => exact lenient_describe.bind fun _ _ _ _ => .pure trivial
  | objects refs =>
    have described : Meets guarantee (refs.mapM describe) world fun _ _ => True :=
      Meets.forget (.mapM (fun _ => True) fun _ _ _ _ => lenient_describe)
    exact described.bind fun _ _ _ _ => .pure trivial
  | bookmark position context =>
    cases context with
    | none => exact .pure trivial
    | some context =>
      have described : Meets guarantee (some <$> describe context) world fun _ _ => True := .map lenient_describe
      exact described.bind fun _ _ _ _ => .pure trivial
  | _ => exact .pure trivial

private theorem lenient_finish {outcome : Outcome Ref} {name : Option String} :
    Meets guarantee (finish name outcome) world fun _ _ => True := by
  unfold finish
  dsimp only
  split
  next => exact lenient_bindHandle.bind fun _ _ _ _ => lenient_describeAll
  next => exact lenient_describeAll

/-- A step gives the guarantees that its action gives. -/
theorem Meets.lenient_answerStep {step : Step}
    (performs : Meets guarantee (perform step.target step.action) world fun _ _ => True) :
    Meets guarantee (answerStep step) world fun _ _ => True := by
  rw [answerStep_eq]
  exact .lenient_lettingGo (performs.lenient_lettingGo.bind fun _ _ _ _ => lenient_finish)

end Lenient

theorem filling_perform [filling : Filling guarantee cleared ready fits] {step : Step} (isReady : ready world)
    (sound : world.Sound) (free : step.action.pushesCopies = true ∨ Liberal guarantee cleared)
    (shared : world.AtRest ∨ Interchangeable ready fits) (clears : ∀ scope, world.Clears step scope → cleared scope)
    (registers : ∀ object, world.Registers step object → Admits guarantee cleared object)
    (appends : ∀ other, step.action = .list (.appendThemselves other) →
      Meets guarantee (perform step.target step.action) world fun _ _ => True) :
    Meets guarantee (perform step.target step.action) world fun _ _ => True := by
  obtain ⟨action, target, name⟩ := step
  cases action with
  | settings action => exact lenient_performSettings
  | create creation => exact (filling_create free isReady sound).resulting
  | handles action => exact lenient_performHandles
  | object action =>
    exact lenient_targeted (by decide) sound fun _ _ _ _ => filling_performObject (filling.use isReady)
  | scope action =>
    refine lenient_targeted (by decide) sound fun scope found sound isScope => ?_
    refine filling_performScope (filling.use isReady) sound (isScope rfl) free ?_ ?_
    · exact fun clearing => clears scope ⟨congrArg _ clearing, found⟩
    · exact fun name object registering found => registers object ⟨name, congrArg _ registering, found⟩
  | value action =>
    refine lenient_targeted (by decide) sound fun ref _ sound _ => ?_
    exact filling_performValue (filling.use isReady) sound (sound.inUse List.mem_cons_self) free shared
  | list action =>
    by_cases themselves : ∃ other, action = .appendThemselves other
    · obtain ⟨other, rfl⟩ := themselves
      exact appends other rfl
    · refine lenient_targeted (by decide) sound fun list _ sound _ => ?_
      exact filling_performList (filling.use isReady) sound (sound.inUse List.mem_cons_self) free shared
        (not_exists.mp themselves)
  | operator action =>
    exact lenient_targeted (by decide) sound fun _ _ sound _ => filling_performOperator (filling.use isReady) sound free
  | block action =>
    exact lenient_targeted (by decide) sound fun _ _ sound _ => filling_performBlock (filling.use isReady) sound free

private theorem maintains_appendThemselves {target : Option String} {other : Argument} (tidy : world.Tidy exempt)
    (sound : world.Sound) (free : other.pushesCopies = true ∨ ∀ ref, exempt ref) :
    Meets (maintains exempt cleared) (perform target (.list (.appendThemselves other))) world fun _ _ => True := by
  refine lenient_targeted (by decide) sound fun list _ sound _ => .look (Meets.done ?_)
  have used : Entered world.heap.size cleared world { world with inUse := list :: world.inUse } := entered_of_heap rfl
  have tidy := used.maintained_new.tidy tidy
  refine (filling_argument (free.imp_right liberal_maintains) tidy sound).bind fun _ _ _ ⟨_, tidy⟩ => ?_
  refine Meets.requireKind.bind ?_
  rintro _ after - ⟨rfl, -⟩
  exact filling_appendThemselves fun slot inside => tidy.held inside

end Act

namespace World

open Act

variable {exempt cleared : Ref → Prop} {world : World} {step : Step}

/-- A step maintains a tidy world where it pushes copies and registers exempt objects. -/
theorem maintained_run (tidy : world.Tidy exempt) (sound : world.Sound)
    (free : step.action.pushesCopies = true ∨ ∀ ref, exempt ref) (clears : ∀ scope, world.Clears step scope → cleared scope)
    (registers : ∀ object, world.Registers step object → exempt object) :
    Maintained exempt cleared world (world.run step).2 := by
  have performs : Meets (maintains exempt cleared) (perform step.target step.action) world fun _ _ => True := by
    refine filling_perform tidy sound (free.imp_right liberal_maintains) (.inr fun tidy inside => tidy.held inside) clears ?_ ?_
    · exact fun object registering _ _ entered => entered.maintained fun _ => registers object registering
    · intro other appending
      rw [appending] at free ⊢
      exact maintains_appendThemselves tidy sound free
  rw [run_snd]
  exact performs.lenient_answerStep.keeps_leaves

private theorem atRest_run (sound : world.Sound) (rest : world.AtRest) : (world.run step).2.AtRest := by
  have tidy : world.Tidy fun _ => True := sound.tidy fun _ _ _ _ => trivial
  have maintained : Maintained (fun _ => True) (fun _ => True) world (world.run step).2 :=
    maintained_run tidy sound (.inr fun _ => trivial) (fun _ _ => trivial) fun _ _ => trivial
  exact filling_maintains.atRest maintained rest

/-- Between the steps of a session no list is busy. -/
theorem Reachable.atRest (reached : Reachable world) : world.AtRest := by
  induction reached with
  | start => exact fun _ => rfl
  | step reached step rest => exact atRest_run reached.sound rest

end World

end Dialogue
