import Dialogue.Proofs.PerformanceSafety
import Dialogue.Session.Run

/-! Every world that a session reaches is sound. A step keeps in use what it works on, so whatever it
comes to lives when its result is bound to a handle. -/

namespace Dialogue

/-- Whether a step makes a list longer than lists may be, by an insertion on which the list grows. -/
structure World.Overfills (world : World) (step : Step) (list : Ref) : Prop where
  target : world.handles.find? (step.target.getD "") = some list
  isList : world.kindOf list = .list
  insertion : ∃ index, step.action = .list (.insert index) ∧ world.Overfilled list index world.config

namespace Act

open World

variable {α : Type} {world : World} {ref : Ref} {config : Config}

theorem safe_handle {name : String} : Safe .gentle (handle name) world fun found after =>
    world.handles.find? name = some found ∧ after = { world with inUse := found :: world.inUse } := by
  refine .with_sound fun sound => .look ?_
  split
  next object found =>
    have live := sound.handles (Table.mem_values.mpr ⟨name, found⟩)
    exact (safe_keep live).weaken fun _ _ _ _ ⟨same, used⟩ => ⟨same ▸ found, same ▸ used⟩
  next => exact .throw

private theorem safe_bindHandle {name : String} (live : world.isLive ref = true) :
    Safe .releasing (bindHandle name ref) world fun _ _ => True := by
  refine .with_sound fun sound => .look ?_
  have binds : Follows .releasing world { world with handles := world.handles.insert name ref } := by
    refine .of_change (.outside rfl (fun _ => sound.inUse) (fun other member => ?_) (.inl rfl)) rfl
    obtain ⟨key, found⟩ := Table.mem_values.mp member
    rw [Table.find?_insert] at found
    split at found
    next => exact Option.some.inj found ▸ live
    next => exact sound.handles (Table.mem_values.mpr ⟨key, found⟩)
  apply Safe.update_bind binds
  intro _ _ _ _
  exact (safe_releaseAll _).forget

theorem safe_literal {value : Literal} : Safe .gentle (literal value) world fun scalar _ => scalar.Exact :=
  .look (.liftStop fun _ read => Literal.exact_scalar read)

/-! New objects. -/

theorem safe_addScope {name : String} {role : Role} :
    Safe .gentle (add { name, body := .scope { role } }) world fun made after => after.isLive made = true ∧
      after.kindOf made = ({ name, body := .scope { role } } : Object).kind :=
  safe_add_free rfl (fun _ same => Option.some.inj same ▸ ⟨rfl, rfl⟩) rfl Body.grounded_plain rfl

/-- An object that is no scope and has no elements yet. -/
private theorem safe_addSimple {object : Object} (unowned : object.parent = none) (bare : object.scope? = none)
    (free : object.holds = []) (grounded : ∀ {ref size}, object.content.Grounded ref size) (empty : object.slots = []) :
    Safe .gentle (add object) world fun made after => after.isLive made = true :=
  safe_addHolding unowned bare (fun _ member => by rw [free] at member; cases member) grounded empty

private theorem safe_addPlain {name : String} :
    Safe .gentle (add { name, body := .plain }) world fun made after => after.isLive made = true :=
  safe_addSimple rfl rfl rfl Body.grounded_plain rfl

theorem safe_addEmpty {name : String} :
    Safe .gentle (add { name, body := .list {} }) world fun made after => after.isLive made = true :=
  safe_addSimple rfl rfl rfl (Body.grounded_list fun _ none => nomatch none) rfl

theorem safe_use (live : world.isLive ref = true) :
    Safe .gentle (keep ref) world fun made after => made ∈ after.inUse :=
  (safe_keep live).weaken fun _ _ _ _ ⟨same, used⟩ => same ▸ used ▸ List.mem_cons_self

mutual
theorem safe_argument {world : World} : ∀ argument : Argument,
    Safe .filling (Act.argument argument) world fun made after => made ∈ after.inUse
  | .handle name => safe_handle.weaken fun _ _ _ _ ⟨_, used⟩ => used ▸ List.mem_cons_self
  | .list items => by
    apply safe_addEmpty.bind
    intro list _ _ _ live
    apply (safe_use live).bind
    intro kept _ _ _ used
    exact (safe_pushArguments items).bind fun _ _ _ went _ => .pure (went.mem_inUse used)
  | .plain name => safe_addPlain.bind fun _ _ _ _ live => (safe_use live).relax
  | .scope name => safe_addScope.bind fun _ _ _ _ ⟨live, _⟩ => (safe_use live).relax
  | .value value =>
    safe_literal.bind fun _ _ _ _ exact => (safe_addValue exact).bind fun _ _ _ _ live => (safe_use live).relax

private theorem safe_pushArguments {world : World} {list : Ref} : ∀ items : List Argument,
    Safe .filling (Act.pushArguments list items) world fun _ _ => True
  | [] => .pure trivial
  | item :: rest => by
    apply (safe_argument item).bind
    intro made after sound _ used
    exact (safe_pushItself (sound.inUse used)).bind fun _ _ _ _ _ => safe_pushArguments rest
end

private theorem safe_nestInLists (depth : Nat) (live : world.isLive ref = true) :
    Safe .filling (nestInLists ref depth) world fun made after => after.isLive made = true := by
  induction depth generalizing world ref with
  | zero => exact .pure live
  | succ depth ih =>
    apply safe_addEmpty.bind
    intro list middle _ began made
    exact (safe_pushItself (began.isLive live)).bind fun _ _ _ went _ => ih (went.isLive made)

private theorem safe_storeScript {position : Position} {body : List Instruction} :
    Safe .gentle (storeScript position body) world fun _ _ => True :=
  .with_sound fun sound =>
    .update (.of_change (.outside rfl (fun _ => sound.inUse) (fun _ => sound.handles) (.inr rfl)) rfl) trivial

private theorem safe_create (creation : Creation) :
    Safe .filling (create creation) world fun made after => after.isLive made = true := by
  cases creation with
  | plain => exact safe_addPlain.relax
  | list => exact safe_addEmpty.relax
  | setting | pi => exact (safe_addEmptyVariable rfl (Storage.older_of_alone rfl) rfl).relax
  | counter name memoized => cases memoized <;> exact (safe_addEmptyVariable rfl (Storage.older_of_alone rfl) rfl).relax
  | scope | operator => exact safe_addScope.weaken fun _ _ _ _ found => found.1
  | value => exact safe_literal.bind fun _ _ _ _ exact => (safe_addValue exact).relax
  | cell name value readOnly =>
    refine safe_literal.bind fun _ _ _ _ exact => ?_
    exact (safe_addVariable (by rintro _ ⟨⟩; exact exact) (Storage.older_of_alone rfl) rfl).relax
  | block name position context body =>
    have contexts : Safe .gentle (context.mapM handle) world fun _ _ => True := by
      cases context with
      | none => exact .pure trivial
      | some name => exact Safe.map safe_handle.forget
    have scripts {world : World} : Safe .gentle (body.forM (storeScript position)) world fun _ _ => True := by
      cases body with
      | none => exact .pure trivial
      | some body => exact safe_storeScript
    refine contexts.bind fun _ _ _ _ _ => scripts.bind fun _ _ _ _ _ => ?_
    exact safe_addScope.weaken fun _ _ _ _ found => found.1
  | nestedLists value depth =>
    exact (safe_argument value).bind fun _ _ sound _ used => safe_nestInLists depth (sound.inUse used)

/-! Steps. -/

/-- Everything that an outcome refers to lives. -/
def Lives (outcome : Outcome Ref) (world : World) : Prop := ∀ ref ∈ outcome.refs, world.isLive ref = true

theorem lives_object : Lives (.object ref) world ↔ world.isLive ref = true := by simp [Lives, Outcome.refs]

theorem lives_ofOption {found : Option Ref} (live : ∀ ref ∈ found, world.isLive ref = true) :
    Lives (.ofOption found) world := by
  cases found with
  | none => exact fun _ impossible => by cases impossible
  | some ref => exact lives_object.mpr (live ref rfl)

variable {freedom : Freedom}

theorem Safe.done {act : Act Unit} (safe : Safe freedom act world fun _ _ => True) :
    Safe freedom (done act) world Lives :=
  safe.bind fun _ _ _ _ _ => .pure fun _ impossible => by cases impossible

theorem Safe.resulting {act : Act Ref} (safe : Safe freedom act world fun ref after => after.isLive ref = true) :
    Safe freedom (resulting act) world Lives :=
  .map (safe.weaken fun _ _ _ _ live => lives_object.mpr live)

theorem Safe.answer {outcome : Outcome Ref} (free : outcome.refs = []) :
    Safe freedom (Pure.pure outcome : Act (Outcome Ref)) world Lives :=
  .pure fun _ member => by rw [free] at member; cases member

private theorem safe_look {through : View} (live : world.isLive ref = true) :
    Safe .gentle (Act.look through ref) world fun shown after => after.isLive shown = true := by
  cases through with
  | object => exact .pure live
  | var => exact safe_view live
  | _ => exact safe_requireKind.bind fun _ _ _ _ ⟨same, _⟩ => .pure (same ▸ live)

private theorem safe_performSettings {action : SettingsAction} : Safe .gentle (performSettings action) world Lives := by
  refine .look ?_
  cases action with
  | change change => exact safe_setConfig.done
  | read => exact .answer rfl
  | setPrecision requested => exact Safe.done (.lift_bind fun _ _ => safe_setConfig)
  | setBase requested => exact Safe.done (.lift_bind fun _ _ => safe_setConfig)
  | setStrict strictLists => exact safe_setConfig.done

private theorem isLive_of_upgrade? {name : String} (found : world.upgrade? name = some ref) : world.isLive ref = true :=
  (Option.filter_eq_some_iff.mp found).2

private theorem safe_performHandles {target : Option String} {action : HandleAction} :
    Safe .burying (performHandles target action) world Lives := by
  refine .with_sound fun sound => ?_
  cases action with
  | drop name =>
    refine .look ?_
    split
    next => exact .answer rfl
    next object found =>
      have drops : Follows .releasing world { world with handles := world.handles.erase name } := by
        refine .of_change (.outside rfl (fun _ => sound.inUse) (fun other member => ?_) (.inl rfl)) rfl
        obtain ⟨key, present⟩ := Table.mem_values.mp member
        rw [Table.find?_erase] at present
        split at present
        next => cases present
        next => exact sound.handles (Table.mem_values.mpr ⟨key, present⟩)
      apply Safe.update_bind drops
      intro _ _ _ _
      exact (safe_release object).bind fun _ _ _ _ _ => .answer rfl
  | weak name =>
    have targets : Safe .gentle (target.mapM handle) world fun _ _ => True := by
      cases target with
      | none => exact .pure trivial
      | some name => exact Safe.map safe_handle.forget
    refine Safe.done (targets.bind fun _ after sound _ _ => .update ?_ trivial)
    exact .of_change (.outside rfl (fun _ => sound.inUse) (fun _ => sound.handles) (.inr rfl)) rfl
  | upgrade name orElse =>
    cases orElse with
    | none => exact .look (.pure (lives_ofOption fun _ found => isLive_of_upgrade? found))
    | some missing =>
      refine .look ?_
      split
      next found => exact .pure (lives_object.mpr (isLive_of_upgrade? found))
      next => exact .raise
  | showWeak name => exact .look (.answer rfl)

private theorem safe_performObject {action : ObjectAction} (used : ref ∈ world.inUse) :
    Safe .burying (performObject ref action) world Lives := by
  refine .with_sound fun sound => .look ?_
  have live := sound.inUse used
  cases action with
  | copyHandle => exact .pure (lives_object.mpr live)
  | isSame other => exact safe_handle.bind fun _ _ _ _ _ => .answer rfl
  | isTargetOf weak => exact .look (.look (.answer rfl))
  | describe => exact .look (.pure (lives_object.mpr live))
  | rename name => exact safe_rename.relax.done
  | setConstant constant => exact Safe.done (.update ((follows_setConstant sound).weaken) trivial)
  | requireChangeable => exact safe_requireChangeable.forget.done
  | parent =>
    refine .look (.pure (lives_ofOption fun owner owned => ?_))
    exact sound.forest.isLive_of_owner? ref owner (sound.forest.parent?_eq ref ▸ owned)
  | root => exact .look (.pure (lives_object.mpr (sound.forest.isLive_root live)))
  | cast view => exact (safe_look live).resulting.relax
  | text => exact safe_textOf.bind fun _ _ _ _ _ => .answer rfl
  | number => exact safe_numberOf.bind fun _ _ _ _ _ => .answer rfl
  | truth => exact safe_truthOf.bind fun _ _ _ _ _ => .answer rfl
  | inspect view =>
    apply (safe_look live).bind
    intro shown _ _ _ _
    refine .look ?_
    exact (safe_release shown).bind fun _ _ _ _ _ => .answer rfl
  | tour tour => exact .look (.answer rfl)
  | isEmpty =>
    refine .look ?_
    dsimp only
    split
    next => exact .look (.answer rfl)
    next => exact safe_requireKind.bind fun _ _ _ _ _ => .look (.answer rfl)

theorem safe_nestInScope {scope : Ref} {name : String} (isScope : (world.kindOf scope).isScope = true) :
    Safe .gentle (do
      let inner ← keep (← add { name, body := .scope { role := .bare } })
      register scope inner
      return inner) world fun inner after => (after.kindOf inner).isScope = true := by
  apply safe_addScope.bind
  rintro made middle _ began ⟨live, kind⟩
  apply (safe_keep live).bind
  rintro inner after _ went ⟨same, _⟩
  have innerScope : (after.kindOf inner).isScope = true := same ▸ went.isScope (kind ▸ rfl)
  refine (safe_register ((began.trans went).isScope isScope) (isLive_of_isScope innerScope)).bind ?_
  exact fun _ _ _ ended _ => .pure (ended.isScope innerScope)

private theorem safe_nestInScopes {scope : Ref} {label : String} {depth : Nat}
    (isScope : (world.kindOf scope).isScope = true) :
    Safe .gentle (nestInScopes scope label depth) world fun inner after => after.isLive inner = true := by
  have nests : Safe .gentle (nestInScopes scope label depth) world fun inner after =>
      (after.kindOf inner).isScope = true :=
    .foldlM isScope fun _ _ _ _ _ outerScope => safe_nestInScope outerScope
  exact nests.weaken fun _ _ _ _ found => isLive_of_isScope found

private theorem safe_performScope {scope : Ref} {action : ScopeAction} (isScope : (world.kindOf scope).isScope = true) :
    Safe .burying (performScope scope action) world Lives := by
  refine .with_sound fun sound => ?_
  cases action with
  | register object =>
    apply (safe_argument object).bind
    intro made after soundAfter began used
    apply (safe_register (began.isScope isScope) (soundAfter.inUse used)).bind
    intro _ _ soundLast went _
    exact .pure (lives_object.mpr (soundLast.inUse (went.mem_inUse used)))
  | unregister name => exact (safe_unregister.weaken fun _ _ _ _ found => found.1).resulting
  | clear => exact (safe_clear isScope).done
  | member name =>
    refine safe_member?.bind fun found after soundAfter _ ⟨_, eq⟩ => .pure (lives_ofOption fun object same => ?_)
    exact soundAfter.isLive_of_member (eq.symm.trans same)
  | contains name => exact safe_hasMember.bind fun _ _ _ _ _ => .answer rfl
  | members =>
    refine .look (.pure fun object member => ?_)
    obtain ⟨name, found⟩ := Table.mem_values.mp member
    exact sound.isLive_of_member found
  | imports => exact .look (.pure fun _ member => (List.mem_filter.mp member).2)
  | importScope imported =>
    refine Safe.done ((safe_argument imported).bind fun _ _ _ began _ => ?_)
    exact (safe_importScope (began.isScope isScope)).relax
  | unimport imported =>
    exact ((safe_argument imported).bind fun _ _ _ _ _ => safe_unimport.relax).done
  | resolve identifier => exact safe_resolve.relax.resulting
  | tryResolve identifier => exact safe_tryResolve.bind fun _ _ _ _ live => .pure (lives_ofOption live)
  | resolves text => exact safe_resolves.bind fun _ _ _ _ _ => .answer rfl
  | nestScopes label depth => exact (safe_nestInScopes isScope).relax.resulting

/-- What is done on a view refers to nothing. -/
theorem safe_onView_done {act : Ref → Act Unit} (live : world.isLive ref = true)
    (safe : ∀ shown world, Safe .burying (act shown) world fun _ _ => True) :
    Safe .burying (onView ref fun shown => done (act shown)) world Lives := by
  have empty : Safe .burying (onView ref fun shown => done (act shown)) world fun outcome _ => outcome.refs = [] := by
    refine safe_onView live (fun shown world => ?_) fun _ _ _ _ => id
    exact (safe shown world).bind fun _ _ _ _ _ => .pure rfl
  exact empty.weaken fun outcome _ _ _ free _ member => by rw [free] at member; cases member

/-- The precision variable is new, so nothing lets go of it together with the view that it is about. -/
private theorem safe_onView_precisionVariable (live : world.isLive ref = true) :
    Safe .burying (onView ref fun shown => resulting (precisionVariable shown)) world Lives := by
  apply (safe_view live).bind
  intro shown before soundBefore _ shownLives
  refine Safe.lettingGo (fun outcome after => ∃ made, outcome = .object made ∧
      after.isLive made = true ∧ (∀ holder, made ∉ after.holdsOf holder) ∧ made ∉ after.inUse)
    (?_ : Safe .gentle _ _ _) (fun _ _ _ _ _ impossible => by cases impossible) ?_
  · have uses : Follows .gentle before { before with inUse := [shown] ++ before.inUse } :=
      follows_use soundBefore (by simpa using shownLives)
    apply Safe.update_bind uses
    intro middle sound began _
    refine Safe.map (.look ?_)
    refine Safe.weaken (safe_add rfl ?_ ?_ ?_ rfl) ?_
    · exact fun _ impossible => by cases impossible
    · exact fun _ impossible => by cases impossible
    · refine Body.grounded_var (fun _ none => nomatch none) fun source same => ?_
      exact Option.some.inj same ▸ lt_size_of_isLive (began.isLive shownLives)
    rintro made after - - ⟨rfl, rfl⟩
    refine ⟨_, rfl, isLive_size_add, fun holder member => ?_, fun member => ?_⟩
    · rw [holdsOf_add] at member
      split at member
      next => cases member
      next => exact sound.fresh_unheld (Nat.le_refl _) holder member
    · exact absurd (lt_size_of_isLive (sound.inUse member)) (Nat.lt_irrefl _)
  · rintro outcome after - - ⟨made, rfl, alive, unheld, unused⟩
    exact lives_object.mpr (isLive_releaseAll alive unheld unused)

private theorem safe_performValue {action : ValueAction} (used : ref ∈ world.inUse) :
    Safe .burying (performValue ref action) world Lives := by
  refine .with_sound fun sound => .look ?_
  have live := sound.inUse used
  cases action with
  | read => exact (reads_value ref world).bind fun _ _ _ _ _ => .answer rfl
  | kind => exact (reads_value ref world).bind fun _ _ _ _ _ => .answer rfl
  | assign value =>
    exact safe_onView_done live fun _ _ => safe_literal.bind fun _ _ _ _ exact => safe_assign exact
  | assignFrom source =>
    exact safe_onView_done live fun _ _ => (safe_argument source).bind fun _ _ _ _ _ => safe_assignFrom
  | duplicate =>
    refine .look ?_
    split
    next => exact safe_duplicateList.relax.resulting
    next => exact safe_duplicateValue.relax.resulting
  | precision => exact (reads_value ref world).bind fun _ _ _ _ _ => .answer rfl
  | setPrecision requested =>
    exact safe_onView_done live fun _ _ => safe_setPrecision.relax
  | precisionVariable => exact safe_onView_precisionVariable live
  | binary operation right =>
    refine Safe.resulting ((safe_argument right).bind fun _ _ _ _ _ => ?_)
    exact safe_binary.relax
  | unary operation => exact safe_unary.relax.resulting

private theorem safe_performList [Gentler .burying freedom] {list : Ref} {action : ListAction}
    (used : list ∈ world.inUse)
    (free : ∀ index, action = .insert index → world.Overfilled list index world.config → freedom = .overfilling) :
    Safe freedom (performList list action) world Lives := by
  have : Gentler .filling freedom := .trans .burying
  refine .with_sound fun sound => .look ?_
  have old := lt_size_of_isLive (sound.inUse used)
  cases action with
  | elements => exact safe_elements.bind fun _ _ _ _ live => .pure live
  | texts =>
    apply safe_elements.bind
    intro found after _ _ _
    have texts : Safe .gentle (found.mapM (textOf world.config)) after fun texts _ =>
        texts.length = found.length ∧ ∀ text ∈ texts, True :=
      .mapM (fun _ _ => True) (fun _ _ _ _ => safe_textOf) fun _ _ _ _ => id
    exact texts.bind fun _ _ _ _ _ => .answer rfl
  | resize size => exact safe_resize.forget.done
  | push object =>
    refine Safe.resulting ((safe_argument object).bind fun _ _ sound began made => ?_)
    exact (safe_push (sound.inUse made) (old.trans_le began.evolves.size_le)).relax
  | pushItself object =>
    refine Safe.done ((safe_argument object).bind fun _ _ sound _ made => ?_)
    exact (safe_pushItself (sound.inUse made)).relax
  | pop => exact safe_pop.relax.resulting
  | append other =>
    refine Safe.done ((safe_argument other).bind fun _ _ _ began _ => ?_)
    refine safe_requireKind.bind fun _ _ _ went _ => (safe_append ?_).relax
    exact old.trans_le (began.evolves.size_le.trans went.evolves.size_le)
  | appendThemselves other =>
    refine Safe.done ((safe_argument other).bind fun _ _ _ _ _ => ?_)
    exact safe_requireKind.bind fun _ _ _ _ _ => safe_appendThemselves.relax
  | position index => exact safe_position.bind fun _ _ _ _ _ => .answer rfl
  | get index => exact safe_get.relax.resulting
  | elementAt position => exact safe_elementAt.relax.resulting
  | replace index object =>
    exact Safe.resulting ((safe_argument object).bind fun _ _ _ began made =>
      (safe_replace (began.mem_inUse used) made).relax)
  | remove index => exact safe_remove.relax.resulting
  | insert index => exact (safe_insert (free index rfl)).resulting
  | length => exact (safe_lengthVariable old).relax.resulting
  | assign other =>
    refine Safe.done ((safe_argument other).bind fun _ _ _ began _ => ?_)
    refine safe_requireKind.bind fun _ _ _ went _ => ?_
    exact (safe_assignList (went.mem_inUse (began.mem_inUse used))).relax
  | flatten => exact safe_flatten.bind fun _ _ _ _ _ => .answer rfl

private theorem safe_performOperator {operator : Ref} {action : OperatorAction} (used : operator ∈ world.inUse) :
    Safe .burying (performOperator operator action) world Lives := by
  cases action with
  | input => exact safe_input.relax.resulting
  | operate object =>
    exact Safe.resulting ((safe_argument object).bind fun _ _ _ began made =>
      operates_operate operator _ _ (began.mem_inUse used) made)

private theorem safe_performBlock {block : Ref} {action : BlockAction} :
    Safe .filling (performBlock block action) world Lives := by
  cases action with
  | say text => exact safe_say.relax.done
  | out => exact .look (.answer rfl)
  | beenSaid => exact .look (.answer rfl)
  | setBeenSaid beenSaid => exact safe_changeBlock.relax.done
  | next => exact safe_listMember.relax.resulting
  | addNext successor => exact Safe.done ((safe_argument successor).bind fun _ _ _ _ _ => safe_addNext)
  | successors => exact safe_successors.bind fun _ _ _ _ live => .pure live
  | bookmark =>
    refine .look (.look (.pure fun ref member => ?_))
    exact (Option.filter_eq_some_iff.mp (Option.mem_toList.mp member)).2

/-- The object that a step works on stays in use, and is of the kind that the step needs. -/
theorem safe_targeted {target : Option String} {through : View} {act : Ref → Act (Outcome Ref)}
    (other : through ≠ .var)
    (safe : ∀ ref, world.handles.find? (target.getD "") = some ref →
      (through = .scope → (world.kindOf ref).isScope = true) → (through = .list → world.kindOf ref = .list) →
      Safe freedom (act ref) { world with inUse := ref :: world.inUse } Lives) :
    Safe freedom (targeted target through act) world Lives := by
  apply safe_handle.bind
  rintro ref after _ _ ⟨found, rfl⟩
  have looks (allowed : Kind → Bool) (kind : Kind) : Safe .gentle (do requireKind allowed kind ref; return ref)
      { world with inUse := ref :: world.inUse } fun shown last =>
        last = { world with inUse := ref :: world.inUse } ∧ shown = ref ∧ allowed (world.kindOf ref) = true :=
    safe_requireKind.bind fun _ _ _ _ ⟨same, fits⟩ => .pure ⟨same, rfl, fits⟩
  cases through with
  | var => exact absurd rfl other
  | object => exact safe ref found (fun impossible => by cases impossible) fun impossible => by cases impossible
  | scope =>
    apply (looks Kind.isScope .scope).bind
    rintro shown last - - ⟨rfl, rfl, isScope⟩
    exact safe _ found (fun _ => isScope) fun impossible => by cases impossible
  | list =>
    apply (looks (· == .list) .list).bind
    rintro shown last - - ⟨rfl, rfl, isList⟩
    exact safe _ found (fun impossible => by cases impossible) fun _ => eq_of_beq isList
  | operator =>
    apply (looks (fun kind => kind == .operator || kind == .block) .operator).bind
    rintro shown last - - ⟨rfl, rfl, -⟩
    exact safe _ found (fun impossible => by cases impossible) fun impossible => by cases impossible
  | block =>
    apply (looks (· == .block) .block).bind
    rintro shown last - - ⟨rfl, rfl, -⟩
    exact safe _ found (fun impossible => by cases impossible) fun impossible => by cases impossible

theorem safe_perform [Gentler .burying freedom] {step : Step}
    (free : ∀ list, world.Overfills step list → freedom = .overfilling) :
    Safe freedom (perform step.target step.action) world Lives := by
  have : Gentler .gentle freedom := .trans .burying
  have : Gentler .filling freedom := .trans .burying
  obtain ⟨action, target, name⟩ := step
  cases action with
  | settings action => exact safe_performSettings.relax
  | create creation => exact (safe_create creation).relax.resulting
  | handles action => exact safe_performHandles.relax
  | object action =>
    exact safe_targeted (by decide) fun _ _ _ _ => (safe_performObject List.mem_cons_self).relax
  | scope action =>
    refine safe_targeted (by decide) fun _ _ isScope _ => Safe.relax (safe_performScope ?_)
    exact isScope rfl
  | value action => exact safe_targeted (by decide) fun _ _ _ _ => (safe_performValue List.mem_cons_self).relax
  | list action =>
    refine safe_targeted (by decide) fun list found _ isList => safe_performList List.mem_cons_self ?_
    rintro index rfl ⟨last, lenient, changeable, past⟩
    exact free list ⟨found, isList rfl, index, rfl, last, lenient, changeable, past⟩
  | operator action => exact safe_targeted (by decide) fun _ _ _ _ => (safe_performOperator List.mem_cons_self).relax
  | block action => exact safe_targeted (by decide) fun _ _ _ _ => safe_performBlock.relax

theorem safe_attempt {act : Act α} {post : α → World → Prop} (safe : Safe freedom act world post) :
    Safe freedom (attempt act) world fun outcome after => ∀ value, outcome = .ok value → post value after := by
  intro sound
  have ran := safe sound
  unfold attempt
  cases went : act world with
  | ok result after =>
    rw [went] at ran
    exact ⟨ran.1, fun _ same => Except.ok.inj same ▸ ran.2⟩
  | error stop after =>
    rw [went] at ran
    dsimp only
    by_cases ends : stop.isFault = true
    · rw [if_pos ends]
      exact ran
    · rw [if_neg ends]
      exact ⟨ran, fun _ never => nomatch never⟩

theorem safe_describe : Safe .gentle (describe ref) world fun _ _ => True := by
  have lengths {world : World} {build : Option Nat → Description} {kind : Kind} :
      Safe .gentle (if kind = .list then (some <$> see (·.length ref)) >>= fun length => pure (build length)
        else pure none >>= fun length => pure (build length)) world fun _ _ => True := by
    split
    next =>
      have sees : Safe .gentle (some <$> see (·.length ref)) world fun _ _ => True := .map (.see trivial)
      exact sees.bind fun _ _ _ _ _ => .pure trivial
    next => exact .pure trivial
  refine .look (.look (.look (.look (.look (.look (.look ?_))))))
  dsimp only
  split
  next =>
    have reads : Safe .gentle (some <$> attempt (value world.config ref)) world fun _ _ => True :=
      .map (safe_attempt (reads_value ref world)).forget
    exact reads.bind fun _ _ _ _ _ => lengths
  next => exact lengths

theorem safe_describeAll {outcome : Outcome Ref} :
    Safe .gentle (outcome.mapM describe) world fun _ _ => True := by
  cases outcome with
  | object ref => exact safe_describe.bind fun _ _ _ _ _ => .pure trivial
  | described ref isScope => exact safe_describe.bind fun _ _ _ _ _ => .pure trivial
  | objects refs =>
    exact (Safe.mapM (fun _ _ => True) (fun _ _ _ _ => safe_describe) fun _ _ _ _ => id).bind
      fun _ _ _ _ _ => .pure trivial
  | bookmark position context =>
    cases context with
    | none => exact .pure trivial
    | some context =>
      have described : Safe .gentle (some <$> describe context) world fun _ _ => True := .map safe_describe
      exact described.bind fun _ _ _ _ _ => .pure trivial
  | _ => exact .pure trivial

/-- What a step does once it has been performed. -/
def finish (name : Option String) (outcome : Outcome Ref) : Act (Outcome Description) := do
  match name, outcome with
  | some name, .object ref => bindHandle name ref
  | _, _ => pure ()
  outcome.mapM describe

theorem answerStep_eq (step : Step) : answerStep step =
    lettingGo (fun _ => []) (lettingGo Outcome.refs (perform step.target step.action) >>= finish step.name) :=
  rfl

theorem safe_finish {name : Option String} {outcome : Outcome Ref} (used : ∀ ref ∈ outcome.refs, ref ∈ world.inUse) :
    Safe .releasing (finish name outcome) world fun _ _ => True := by
  refine .with_sound fun sound => ?_
  unfold finish
  dsimp only
  split
  next ref =>
    apply (safe_bindHandle (sound.inUse (used ref List.mem_cons_self))).bind
    intro _ _ _ _ _
    exact safe_describeAll.relax
  next => exact safe_describeAll.relax

/-- What a step comes to stays in use while the step lets go of everything else. -/
theorem Safe.answerStep [Gentler .releasing freedom] {step : Step}
    (performs : Safe freedom (perform step.target step.action) world Lives) :
    Safe freedom (answerStep step) world fun _ _ => True := by
  rw [answerStep_eq]
  refine Safe.lettingGo (fun _ _ => True) (?_ : Safe freedom _ _ _)
    (fun _ _ _ _ _ impossible => by cases impossible) fun _ _ _ _ _ => trivial
  have performs : Safe freedom (Act.lettingGo Outcome.refs (perform step.target step.action)) world
      fun outcome after => ∀ ref ∈ outcome.refs, ref ∈ after.inUse := by
    refine performs.lettingGo _ (fun _ _ _ lives => lives) fun outcome after _ _ _ ref member => ?_
    rw [inUse_settle]
    exact List.mem_append_left _ member
  exact performs.bind fun _ _ _ _ used => (safe_finish used).relax

theorem safe_answerStep [Gentler .burying freedom] {step : Step}
    (free : ∀ list, world.Overfills step list → freedom = .overfilling) :
    Safe freedom (answerStep step) world fun _ _ => True :=
  have : Gentler .releasing freedom := .trans .burying
  (safe_perform free).answerStep

end Act

namespace World

variable {world : World}

/-- The worlds that sessions reach from an empty one, whatever the settings that they start with. -/
inductive Reachable : World → Prop where
  | start (config : Config) : Reachable { config }
  | step {world : World} (reached : Reachable world) (step : Step) : Reachable (world.run step).2

theorem runAll_cons (step : Step) (rest : List Step) : world.runAll (step :: rest) =
    if (world.run step).1.ends then ([(world.run step).1], (world.run step).2)
    else ((world.run step).1 :: ((world.run step).2.runAll rest).1, ((world.run step).2.runAll rest).2) :=
  rfl

theorem Reachable.runAll (reached : Reachable world) (steps : List Step) : Reachable (world.runAll steps).2 := by
  induction steps generalizing world with
  | nil => exact reached
  | cons step rest ih =>
    rw [runAll_cons]
    split
    · exact reached.step step
    · exact ih (reached.step step)

private theorem sound_start (config : Config) : Sound { config } := by
  have nothing (ref : Ref) : ({ config } : World).object? ref = none := rfl
  have unowned (ref : Ref) : ({ config } : World).owner? ref = none := by rw [owner?, nothing]; rfl
  have bare (ref : Ref) : ({ config } : World).members ref = {} := rfl
  refine ⟨⟨?_, ?_, fun ref => ⟨_, .top (unowned ref)⟩, ?_, ?_⟩, ?_, ?_, ?_, ?_⟩
  · intro scope name object found
    cases found
  · intro object scope owned
    rw [unowned] at owned
    cases owned
  · intro scope imported member
    cases member
  · intro scope name builtin object named found
    cases found
  · intro ref member
    cases member
  · intro ref member
    cases member
  · intro holder ref member
    cases member
  · intro ref body found
    cases found

theorem run_snd (step : Step) : (world.run step).2 = Act.leaves (Act.answerStep step) world := by
  unfold run Act.leaves
  cases Act.answerStep step world <;> rfl

/-- A step leaves a sound world, whether or not it fails. -/
theorem sound_run (sound : world.Sound) (step : Step) : (world.run step).2.Sound := by
  rw [run_snd]
  have safe : Act.Safe .overfilling (Act.answerStep step) world fun _ _ => True := Act.safe_answerStep fun _ _ => rfl
  exact (safe.follows_leaves sound).sound sound

theorem Reachable.sound (reached : Reachable world) : world.Sound := by
  induction reached with
  | start config => exact sound_start config
  | step _ step ih => exact sound_run ih step

/-- No fault ends a session on the way. -/
def Continues (world : World) (steps : List Step) : Prop := ∀ answer ∈ (world.runAll steps).1, answer.ends = false

instance (world : World) (steps : List Step) : Decidable (world.Continues steps) :=
  inferInstanceAs (Decidable (∀ _ ∈ _, _))

private theorem continues_cons {step : Step} {rest : List Step} :
    world.Continues (step :: rest) ↔ (world.run step).1.ends = false ∧ (world.run step).2.Continues rest := by
  unfold Continues
  rw [runAll_cons]
  cases ended : (world.run step).1.ends <;> simp [ended]

/-- One more step is taken unless the session has ended. -/
theorem runAll_append_singleton (done : List Step) (step : Step) :
    (world.runAll (done ++ [step])).2 =
      if world.Continues done then ((world.runAll done).2.run step).2 else (world.runAll done).2 := by
  induction done generalizing world with
  | nil =>
    have goes : world.Continues [] := List.forall_mem_nil _
    rw [if_pos goes, List.nil_append, runAll_cons]
    split <;> rfl
  | cons first rest ih =>
    rw [List.cons_append, runAll_cons, runAll_cons]
    split
    next ended =>
      rw [if_neg fun goes => ?_]
      exact Bool.false_ne_true ((continues_cons.mp goes).1.symm.trans ended)
    next goes =>
      rw [ih]
      simp only [continues_cons, Bool.not_eq_true _ ▸ goes, true_and]

/-- Something holds of all states of a session just if each step from a state of which it holds keeps it. -/
theorem holds_throughout_iff {config : Config} {steps : List Step} {holds : World → Prop} {keeps : World → Step → Prop}
    (start : holds { config })
    (kept : ∀ world step, Reachable world → step ∈ steps → holds world → (holds (world.run step).2 ↔ keeps world step)) :
    (∀ done, done <+: steps → holds (World.runAll { config } done).2) ↔
      ∀ done step, done ++ [step] <+: steps → Continues { config } done →
        keeps (World.runAll { config } done).2 step := by
  have one {done : List Step} {step : Step} (inside : done ++ [step] <+: steps)
      (before : holds (World.runAll { config } done).2) :
      holds (World.runAll { config } (done ++ [step])).2 ↔
        (Continues { config } done → keeps (World.runAll { config } done).2 step) := by
    rw [runAll_append_singleton]
    split
    next goes =>
      rw [kept _ step ((Reachable.start config).runAll done) (inside.subset (by simp)) before]
      exact ⟨fun keeps _ => keeps, fun keeps => keeps goes⟩
    next ended => exact iff_of_true before fun goes => absurd goes ended
  constructor
  · intro throughout done step inside
    exact (one inside (throughout done ((List.prefix_append ..).trans inside))).mp (throughout _ inside)
  · intro careful done inside
    induction done using List.reverseRecOn with
    | nil => exact start
    | append_singleton done step ih =>
      exact (one inside (ih ((List.prefix_append ..).trans inside))).mpr (careful done step inside)

/-- The worlds that changes lead to in the course of a session, between its steps or in the middle of one. -/
def Ongoing (world : World) : Prop := ∃ start, Reachable start ∧ Evolves .overfilling start world

theorem Reachable.ongoing (reached : Reachable world) : world.Ongoing := ⟨world, reached, .refl⟩

theorem Ongoing.sound (ongoing : world.Ongoing) : world.Sound := by
  obtain ⟨start, reached, evolves⟩ := ongoing
  exact evolves.sound reached.sound

/-- Whatever lives may be in use. -/
theorem Ongoing.use (ongoing : world.Ongoing) {refs : List Ref} (alive : ∀ ref ∈ refs, world.isLive ref = true) :
    Ongoing { world with inUse := refs ++ world.inUse } := by
  have follows : Act.Follows .overfilling world _ := (Act.follows_use ongoing.sound alive).weaken
  obtain ⟨start, reached, evolves⟩ := ongoing
  exact ⟨start, reached, evolves.trans follows.evolves⟩

end World

end Dialogue
