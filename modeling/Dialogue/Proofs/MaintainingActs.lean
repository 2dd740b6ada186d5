import Dialogue.Proofs.MembershipChanges
import Dialogue.Proofs.ReadingTermination
import Dialogue.Proofs.SearchRelation

/-! Acts that leave worlds in order. Readings and searches give no object an owner that was there before, so they do
whatever a guarantee is lenient about. Registration gives one object an owner. Renaming takes an owner away and gives
it back to the same object. A guarantee about what lists hold says which slots fit into them. -/

namespace Dialogue

namespace World

variable {cleared : Ref → Prop} {world : World} {scope ref : Ref} {name : String}

private theorem isLive_materialize (live : world.isLive ref = true) :
    (world.materialize scope name).isLive ref = true := by
  rcases materialize_cases world scope name with ⟨-, same⟩ | ⟨builtin, named, -, made⟩
  · rwa [same]
  · rw [made, isLive_made named, live, Bool.or_true]

private theorem kindOf_materialize (live : world.isLive ref = true) :
    (world.materialize scope name).kindOf ref = world.kindOf ref := by
  rcases materialize_cases world scope name with ⟨-, same⟩ | ⟨builtin, named, -, made⟩
  · rw [same]
  · rw [made, kindOf_made named (lt_size_of_isLive live)]

end World

namespace Act

open World

variable {α : Type} {exempt cleared : Ref → Prop} {ready : World → Prop} {fits : World → Ref → Slot → Prop}
  {guarantee : Guarantee} {world : World} {ref object scope list : Ref} {name : String} {config : Config}

def enters (object : Ref) (cleared : Ref → Prop) : Guarantee where
  keeps := Entered object cleared
  allows _ _ := True
  refl _ := .refl
  trans := .trans
  earlier _ _ := trivial
  anomalies := trivial

def maintains (exempt cleared : Ref → Prop) : Guarantee where
  keeps := Maintained exempt cleared
  allows _ _ := True
  refl _ := .refl
  trans := .trans
  earlier _ _ := trivial
  anomalies := trivial

/-- Guarantees that say nothing against owners of new objects. -/
class Lenient (guarantee : Guarantee) (cleared : outParam (Ref → Prop)) : Prop where
  keeps : ∀ {world after}, Entered world.heap.size cleared world after → guarantee.keeps world after
  whileBusy : ∀ {world after list}, guarantee.keeps (world.setBusy list true) after →
    guarantee.keeps world (after.setBusy list false)
  allows : ∀ {world stop}, guarantee.allows world stop

instance lenient_enters : Lenient (enters object cleared) cleared :=
  ⟨fun entered => entered.of_new (Nat.le_refl _), Entered.whileBusy, trivial⟩

/-- Guarantees about what lists hold. Slots may go into the lists that they fit. An alias fits into any list, and so
does an object that is no list, if nobody owns it; a new object fits into the lists that were there before it. -/
class Filling (guarantee : Guarantee) (cleared : outParam (Ref → Prop)) (ready : outParam (World → Prop))
    (fits : outParam (World → Ref → Slot → Prop)) : Prop extends Lenient guarantee cleared where
  grows : ∀ {world after : World}, guarantee.keeps world after → world.heap.size ≤ after.heap.size
  idle : ∀ {world after : World} {list : Ref},
    guarantee.keeps world after → after.isBusy list = true → world.isBusy list = true
  readies : ∀ {world after}, guarantee.keeps world after → ready world → ready after
  refits : ∀ {world after list slot}, guarantee.keeps world after → fits world list slot → fits after list slot
  readyBusy : ∀ {world : World} {list : Ref}, ready world → ready (world.setBusy list true)
  fitsBusy : ∀ {world : World} {other list : Ref} {slot : Slot},
    fits world list slot → fits (world.setBusy other true) list slot
  enrolled : ∀ {world : World}, ready world → world.Enrolled
  known : ∀ {world : World} {list element : Ref},
    ready world → .held element ∈ world.slots list → element < world.heap.size
  link : ∀ {world list target name}, fits world list (.link target name)
  new : ∀ {world : World} {list : Ref} {made : Object}, list < world.heap.size → made.parent = none →
    fits (world.add made) list (.held world.heap.size)
  unowned : ∀ {world : World} {list object : Ref}, ready world → object < world.heap.size →
    world.kindOf object ≠ .list → world.isRegistered object = false → fits world list (.held object)
  gone : ∀ {world : World} {list object : Ref}, object < world.heap.size → world.isLive object = false →
    fits world list (.held object)
  fills : ∀ {world : World} {list : Ref} {rule : List Slot → List Slot},
    (∀ slot ∈ rule (world.slots list), slot ∈ world.slots list ∨ fits world list slot) →
    guarantee.keeps world (world.changeSlots list rule)
  adds : ∀ {world : World} {made : Object}, made.parent = none → made.shape.members = {} → made.isBusy = false →
    (∀ slot ∈ made.slots, ∃ list, fits world list slot) → guarantee.keeps world (world.add made)
  registered : ∀ {world after : World} {object : Ref}, ready world → world.isRegistered object = true →
    Entered object cleared world after → guarantee.keeps world after

instance filling_maintains :
    Filling (maintains exempt cleared) cleared (Tidy exempt) fun world _ => world.Holdable exempt where
  keeps := Entered.maintained_new
  whileBusy := Maintained.whileBusy
  allows := trivial
  grows kept := kept.size
  idle kept := kept.idle
  readies kept := kept.tidy
  refits kept := kept.holdable
  readyBusy := tidy_setBusy.mpr
  fitsBusy holdable element holds := loose_setBusy.mpr (holdable element holds)
  enrolled tidy := tidy.enrolled
  known tidy inside := (tidy.held inside _ rfl).old
  link := holdable_link
  new _ unowned := holdable_held (loose_add unowned)
  unowned tidy old _ free := holdable_held (tidy.loose old free)
  gone old dead := holdable_held (loose_of_not_isLive old dead)
  fills := maintained_changeSlots
  adds unowned bare idle holdable :=
    maintained_add unowned bare idle fun slot inside => (holdable slot inside).elim fun _ => id
  registered _ registered entered := entered.maintained fun loose => loose.exempt_of_isRegistered registered

namespace Meets

variable {act : Act α} {result : α → World → Prop}

variable [lenient : Lenient guarantee cleared]

include lenient

theorem alter {rule : World → World} (entered : Entered world.heap.size cleared world (rule world)) :
    Meets guarantee (Act.update rule) world fun _ after => after = rule world :=
  .update (lenient.keeps entered) rfl

theorem lenient_whileBusy (meets : Meets guarantee act (world.setBusy list true) result)
    (stable : ∀ value {before after}, guarantee.keeps before after → result value before → result value after) :
    Meets guarantee (Act.whileBusy list act) world result := by
  refine meets.whileBusy lenient.whileBusy (fun _ => lenient.allows) fun value after done => ?_
  exact stable value (lenient.keeps entered_setIdle) done

theorem lenient_holding {refs : List Ref}
    (meets : Meets guarantee act { world with inUse := refs ++ world.inUse } fun _ _ => True) :
    Meets guarantee (Act.holding refs act) world fun _ _ => True := by
  refine meets.holding (fun kept => ?_) (fun _ => lenient.allows) fun _ _ _ => trivial
  exact guarantee.trans (guarantee.trans (lenient.keeps entered_use) kept) (lenient.keeps entered_settle)

theorem lenient_lettingGo {refs : α → List Ref} (meets : Meets guarantee act world fun _ _ => True) :
    Meets guarantee (Act.lettingGo refs act) world fun _ _ => True := by
  unfold Meets Act.lettingGo
  cases ran : act world with
  | ok value after => exact ⟨guarantee.trans (meets.of_ok ran).1 (lenient.keeps entered_settle), trivial⟩
  | error stop after => exact ⟨guarantee.trans (meets.of_error ran).1 (lenient.keeps entered_settle), lenient.allows⟩

theorem lenient_compute {value : Except (Failure Cause) α} (done : ∀ found, value = .ok found → result found world) :
    Meets guarantee (Act.compute value) world result :=
  .compute (fun _ => lenient.allows) done

theorem lenient_compute_bind {β : Type} {value : Except (Failure Cause) α} {next : α → Act β} {post : β → World → Prop}
    (rest : ∀ found, value = .ok found → Meets guarantee (next found) world post) :
    Meets guarantee (Act.compute value >>= next) world post :=
  .compute_bind (fun _ => lenient.allows) rest

end Meets

/-! Searches. -/

theorem meets_member? (looks : guarantee.keeps world (world.materialize scope name)) :
    Meets guarantee (member? scope name) world fun _ after => after = world.materialize scope name :=
  .update_bind looks (.see rfl)

theorem meets_hasMember (looks : guarantee.keeps world (world.materialize scope name)) :
    Meets guarantee (hasMember scope name) world fun _ after => after = world.materialize scope name :=
  (meets_member? looks).bind fun _ _ _ same => .pure same

section Searches

variable (looks : ∀ world scope name, guarantee.keeps world (world.materialize scope name))
  (allows : ∀ {world stop}, guarantee.allows world stop)

include looks allows

theorem meets_tryResolve {id : Identifier} : Meets guarantee (tryResolve scope id) world fun _ _ => True := by
  unfold Meets tryResolve
  cases ended : world.resolve scope id with
  | none => exact ⟨guarantee.refl _, allows⟩
  | some found =>
    refine ⟨?_, trivial⟩
    rcases searched_resolve ended with rfl | ⟨_, _, search⟩
    · exact guarantee.refl _
    · exact search.preserves guarantee.keeps guarantee.refl guarantee.trans looks

theorem meets_resolve {id : Identifier} : Meets guarantee (resolve scope id) world fun _ _ => True := by
  apply (meets_tryResolve looks allows).bind
  intro found after _ _
  split
  next => exact .pure trivial
  next => exact .raise

theorem meets_resolves {text : String} : Meets guarantee (resolves scope text) world fun _ _ => True := by
  unfold resolves
  split
  next => exact .pure trivial
  next => exact (meets_tryResolve looks allows).bind fun _ _ _ _ => .pure trivial

end Searches

section Lenient

variable [lenient : Lenient guarantee cleared]

include lenient

/-! Readings. -/

variable {read : Ref → Act Scalar}

private theorem lenient_flattenWith (reads : ∀ ref world, Meets guarantee (read ref) world fun _ _ => True) :
    Meets guarantee (flattenWith read config list) world fun _ _ => True := by
  refine .look ?_
  split
  next => exact .pure trivial
  next =>
    refine .lenient_whileBusy (.look (.foldlM trivial fun slot _ text after _ _ => ?_)) fun _ _ _ _ done => done
    apply Meets.element.bind
    intro found _ _ _
    exact (reads found _).bind fun _ _ _ _ => .lenient_compute_bind fun _ _ => .pure trivial

private theorem lenient_valueWithin (fuel : Nat) :
    Meets guarantee (valueWithin fuel config ref) world fun _ _ => True := by
  induction fuel generalizing world ref with
  | zero => exact .throw lenient.allows
  | succ fuel ih =>
    have flattens (list : Ref) : Meets guarantee (flattenWith (valueWithin fuel config) config list) world fun _ _ => True :=
      lenient_flattenWith fun _ _ => ih
    refine .look ?_
    split
    next => exact .pure trivial
    next => exact meets_readBinding fun _ _ => ih
    next =>
      split
      next => exact .pure trivial
      next =>
        apply (meets_readFormula flattens).bind
        intro value after _ _
        exact .update_bind (lenient.keeps entered_evaluate) (.pure trivial)
    next => exact (flattens ref).bind fun _ _ _ _ => .pure trivial
    next => exact .look (.pure trivial)

theorem lenient_value : Meets guarantee (value config ref) world fun _ _ => True := .look (lenient_valueWithin _)

theorem lenient_flatten : Meets guarantee (flatten config list) world fun _ _ => True :=
  lenient_flattenWith fun _ _ => lenient_value

theorem lenient_textOf : Meets guarantee (textOf config ref) world fun _ _ => True :=
  lenient_value.bind fun _ _ _ _ => .lenient_compute fun _ _ => trivial

theorem lenient_numberOf : Meets guarantee (numberOf config ref) world fun _ _ => True :=
  lenient_value.bind fun _ _ _ _ => .lenient_compute fun _ _ => trivial

theorem lenient_truthOf : Meets guarantee (truthOf config ref) world fun _ _ => True :=
  lenient_value.bind fun _ _ _ _ => .lenient_compute fun _ _ => trivial

/-! New objects. -/

/-- A new object without an owner, members or elements. -/
theorem lenient_add {made : Object} (unowned : made.parent = none) (bare : made.shape.members = {})
    (empty : made.slots = []) (idle : made.isBusy = false) :
    Meets guarantee (add made) world fun added after => added = world.heap.size ∧ after = world.add made :=
  ⟨lenient.keeps (entered_add unowned bare empty idle), rfl, rfl⟩

theorem lenient_addValue {name : String} {value : Scalar} :
    Meets guarantee (addValue name value) world fun added after =>
    added = world.heap.size ∧ after = world.add { name, body := .var (.stored value) } :=
  lenient_add rfl rfl rfl rfl

theorem lenient_keep : Meets guarantee (keep ref) world fun kept after =>
    kept = ref ∧ after = { world with inUse := ref :: world.inUse } :=
  .update_bind (lenient.keeps (entered_of_heap rfl)) (.pure ⟨rfl, rfl⟩)

theorem lenient_releaseAll {refs : List Ref} : Meets guarantee (releaseAll refs) world fun _ _ => True :=
  (Meets.alter (entered_releaseAll refs)).forget

/-! Names. -/

theorem lenient_member? :
    Meets guarantee (member? scope name) world fun _ after => after = world.materialize scope name :=
  meets_member? (lenient.keeps entered_materialize)

theorem lenient_hasMember :
    Meets guarantee (hasMember scope name) world fun _ after => after = world.materialize scope name :=
  meets_hasMember (lenient.keeps entered_materialize)

theorem lenient_unregister : Meets guarantee (unregister scope name) world fun taken after =>
    (world.members scope).find? name = some taken ∧
      after = (world.changeMembers scope (·.erase name)).setParent taken none := by
  refine .look ?_
  split
  next => exact .look .raise
  next taken found => exact .update_bind (lenient.keeps (entered_leave found)) (.pure ⟨found, rfl⟩)

theorem lenient_clear (isScope : (world.kindOf scope).isScope = true) (allowed : cleared scope) :
    Meets guarantee (clear scope) world fun _ _ => True :=
  .look (.update_bind (lenient.keeps (entered_clearMembers isScope allowed)) lenient_releaseAll)

theorem lenient_importScope {imported : Ref} : Meets guarantee (importScope scope imported) world fun _ _ => True := by
  apply Meets.requireKind.bind
  rintro _ after - ⟨rfl, -⟩
  refine .look ?_
  split
  next => exact .look (.look .raise_bind)
  next => exact (Meets.alter entered_setImports).forget

theorem lenient_unimport {imported : Ref} : Meets guarantee (unimport scope imported) world fun _ _ => True := by
  refine .look ?_
  split
  next => exact (Meets.alter entered_setImports).forget
  next => exact .look .raise_bind

end Lenient

/-- An object moves into a scope that may be constant. -/
private theorem enters_adopt (isScope : (world.kindOf scope).isScope = true) (live : world.isLive object = true) :
    Meets (enters object cleared) (adopt scope object) world fun _ _ => True := by
  refine .look ?_
  apply lenient_hasMember.bind
  rintro present after - rfl
  split
  next => exact .look .raise_bind
  next =>
    refine .look ?_
    split
    next => exact .look .raise_bind
    next =>
      refine .update (entered_move ?_ (isLive_materialize live)) trivial
      rwa [kindOf_materialize (isLive_of_isScope isScope)]

theorem enters_register (isScope : (world.kindOf scope).isScope = true) (live : world.isLive object = true) :
    Meets (enters object cleared) (register scope object) world fun _ _ => True := by
  apply Meets.requireChangeable.bind
  rintro _ after - ⟨rfl, -⟩
  exact enters_adopt isScope live

/-- A member leaves its scope and enters it again under another name. -/
private theorem enters_reenter {taken : Ref} {next : String} (live : world.isLive taken = true)
    (found : (world.members scope).find? name = some taken) :
    Meets (enters taken cleared) (do
      let taken ← unregister scope name
      update (·.setName taken next)
      adopt scope taken) world fun _ _ => True := by
  apply lenient_unregister.bind
  rintro other after - ⟨same, left⟩
  obtain rfl : taken = other := Option.some.inj (found.symm.trans same)
  have edits : Edits _ world after := left ▸ edits_leave (isScope_of_members found)
  have unowned := edits.owner?_eq taken (if taken = taken then none else ·) (fun _ => rfl) (by simp)
  rw [if_pos rfl] at unowned
  refine .update_bind (entered_setName (isRegistered_of_unowned unowned)) (enters_adopt ?_ ?_)
  · rw [edits_setName.kindOf scope fun _ _ => rfl, edits.kindOf scope fun _ _ => rfl]
    exact isScope_of_members found
  · rwa [edits_setName.isLive, edits.isLive]

/-- What is renamed and had an owner keeps it. -/
theorem filling_rename [filling : Filling guarantee cleared ready fits] (isReady : ready world) :
    Meets guarantee (rename object name) world fun _ _ => True := by
  apply Meets.requireChangeable.bind
  rintro _ after - ⟨rfl, -⟩
  refine .look ?_
  split
  next => exact .pure trivial
  next =>
    refine .look ?_
    split
    next top =>
      have free : after.isRegistered object = false := by rw [isRegistered, top]; rfl
      exact (Meets.alter (entered_setName free)).forget
    next scope _ =>
      apply lenient_hasMember.bind
      intro _ before kept _
      split
      next => exact .look .raise_bind
      next =>
        cases found : (before.members scope).find? (after.nameOf object) with
        | none =>
          apply lenient_unregister.bind
          rintro taken _ - ⟨there, -⟩
          rw [found] at there
          cases there
        | some taken =>
          have readied := filling.readies kept isReady
          have enrolled : before.Enrolled := filling.enrolled readied
          have registered := enrolled.isRegistered found
          refine (enters_reenter ?_ found).relax (filling.registered readied registered) fun _ => filling.allows
          exact isLive_of_owner? (enrolled found).2

section Lenient

variable [lenient : Lenient guarantee cleared]

include lenient

theorem lenient_tryResolve {id : Identifier} : Meets guarantee (tryResolve scope id) world fun _ _ => True :=
  meets_tryResolve (fun _ _ _ => lenient.keeps entered_materialize) lenient.allows

theorem lenient_resolve {id : Identifier} : Meets guarantee (resolve scope id) world fun _ _ => True :=
  meets_resolve (fun _ _ _ => lenient.keeps entered_materialize) lenient.allows

theorem lenient_resolves {text : String} : Meets guarantee (resolves scope text) world fun _ _ => True :=
  meets_resolves (fun _ _ _ => lenient.keeps entered_materialize) lenient.allows

end Lenient

end Act

end Dialogue
