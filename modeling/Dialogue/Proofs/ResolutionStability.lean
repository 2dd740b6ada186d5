import Dialogue.Proofs.SuppliedReadings

/-! Resolving again what was resolved before. Searches of two worlds that have been supplied from one, side by side,
take the same way: where the earlier world had settled a name, both find the member that it had or none, and where it
had not, both find the built-in member, which leads no further. -/

namespace Dialogue

open World

namespace World

variable {names also : String → Prop} {base left right : World} {scope member other : Ref} {name : String}

/-- What is found in two worlds that come from one: an object that was there, or the built-in member that a scope has
got in each of them. -/
inductive Counterpart (base left right : World) : Ref → Ref → Prop where
  | same {ref} (old : ref < base.heap.size) : Counterpart base left right ref ref
  | made {scope builtin member other} (here : Supplies (fun _ => True) base left scope builtin member)
      (there : Supplies (fun _ => True) base right scope builtin other) : Counterpart base left right member other

/-- Two worlds that have been supplied from one. -/
structure Beside (base left right : World) : Prop where
  soundHere : left.Sound
  soundThere : right.Sound
  here : Supplied (fun _ => True) base left
  there : Supplied (fun _ => True) base right

namespace Beside

variable (beside : Beside base left right)

include beside

theorem symm : Beside base right left := ⟨beside.soundThere, beside.soundHere, beside.there, beside.here⟩

theorem look (scope : Ref) (name : String) :
    Beside base (left.materialize scope name) (right.materialize scope name) where
  soundHere := beside.soundHere.materialize _ _
  soundThere := beside.soundThere.materialize _ _
  here := beside.here.trans (supplied_materialize beside.soundHere.forest scope trivial)
  there := beside.there.trans (supplied_materialize beside.soundThere.forest scope trivial)

theorem imports (scope : Ref) : right.imports scope = left.imports scope :=
  (beside.there.imports scope).trans (beside.here.imports scope).symm

theorem isLive {ref : Ref} (old : ref < base.heap.size) : right.isLive ref = left.isLive ref :=
  (beside.there.isLive old).trans (beside.here.isLive old).symm

theorem isScope (counterpart : Counterpart base left right member other) :
    (right.kindOf other).isScope = (left.kindOf member).isScope := by
  rw [beside.here.isScope, beside.there.isScope]
  cases counterpart with
  | same => rfl
  | made here there => rw [kindOf_of_size_le here.new, kindOf_of_size_le there.new]

/-- Nothing that is new leads further. -/
private theorem eq_of_isScope (counterpart : Counterpart base left right member other)
    (isScope : (left.kindOf member).isScope = true) : other = member := by
  cases counterpart with
  | same => rfl
  | made here => exact absurd (beside.here.old_of_isScope isScope) (Nat.not_lt.mpr here.new)

/-- What one world has under a name, the other one has as well once the name is settled there. -/
theorem find? (forest : base.Forest) (settled : right.Settled scope name)
    (found : (left.members scope).find? name = some member) :
    ∃ other, (right.members scope).find? name = some other ∧ Counterpart base left right member other := by
  rcases beside.here.added found with former | ⟨builtin, rfl, here⟩
  · have live := isLive_of_owner? (forest.members former).2
    exact ⟨member, beside.there.kept former, .same (lt_size_of_isLive live)⟩
  · have named := (beside.there.ofName? scope builtin.memberName).mpr (Builtin.ofName?_memberName here.applies)
    rcases beside.there.claimed (settled builtin named) with before | ⟨other, there⟩
    · exact absurd before here.unclaimed
    · exact ⟨other, there.found, .made here there⟩

private theorem find?_eq_none (forest : base.Forest) (settled : left.Settled scope name)
    (absent : (left.members scope).find? name = none) : (right.members scope).find? name = none := by
  cases found : (right.members scope).find? name with
  | none => rfl
  | some other =>
    obtain ⟨member, present, -⟩ := beside.symm.find? forest settled found
    exact nomatch absent.symm.trans present

end Beside

end World

/-- Imports that are left are older than a world. -/
def Goal.Old (base : World) : Goal → Prop
  | .scope _ => True
  | .imports list => ∀ imported ∈ list, imported < base.heap.size

/-- Beside any search, a search of the other world comes to the counterpart of its answer. -/
theorem PlainSearch.beside {base left right after : World} {path : Path} {goal : Goal} {segments : List String}
    {answer : Option Ref} (search : PlainSearch path left goal segments answer after) (forest : base.Forest)
    (beside : Beside base left right) (old : goal.Old base) :
    ∃ found last, PlainSearch path right goal segments found last ∧ Beside base after last ∧
      Option.Rel (Counterpart base after last) answer found := by
  induction search generalizing right with
  | ended => exact ⟨none, right, .ended, beside, .none⟩
  | unnamed => exact ⟨none, right, .unnamed, beside, .none⟩
  | exhausted => exact ⟨none, right, .exhausted, beside, .none⟩
  | @answered _ _ scope head _ named found =>
    have looked := beside.look scope head
    obtain ⟨other, present, counterpart⟩ := looked.find? forest settled_materialize found
    exact ⟨some other, _, .answered named present, looked, .some counterpart⟩
  | @descended _ _ scope head _ _ _ _ _ named found inner _ ih =>
    have looked := beside.look scope head
    obtain ⟨other, present, counterpart⟩ := looked.find? forest settled_materialize found
    obtain rfl := looked.eq_of_isScope counterpart inner
    have leads := (looked.isScope counterpart).trans inner
    obtain ⟨answer, last, beyond, rest⟩ := ih looked trivial
    exact ⟨answer, last, .descended named present leads beyond, rest⟩
  | @blocked _ _ scope head _ _ _ named found solid =>
    have looked := beside.look scope head
    obtain ⟨other, present, counterpart⟩ := looked.find? forest settled_materialize found
    have still := (looked.isScope counterpart).trans solid
    exact ⟨none, _, .blocked named present still, looked, .none⟩
  | @passed _ _ scope head _ _ _ named absent _ ih =>
    have looked := beside.look scope head
    have nothing := looked.find?_eq_none forest settled_materialize absent
    have older : (Goal.imports ((World.materialize _ scope head).imports scope)).Old base := fun imported member =>
      forest.imports (looked.here.imports scope ▸ member)
    obtain ⟨answer, last, beyond, rest⟩ := ih looked older
    exact ⟨answer, last, .passed named nothing (looked.imports scope ▸ beyond), rest⟩
  | cut underway _ ih =>
    obtain ⟨answer, last, beyond, rest⟩ := ih beside (List.forall_mem_of_forall_mem_cons old)
    exact ⟨answer, last, .cut underway beyond, rest⟩
  | gone dead _ ih =>
    obtain ⟨answer, last, beyond, rest⟩ := ih beside (List.forall_mem_of_forall_mem_cons old)
    have still := (beside.isLive (old _ List.mem_cons_self)).trans dead
    exact ⟨answer, last, .gone still beyond, rest⟩
  | hit fresh live _ ih =>
    obtain ⟨answer, last, beyond, ended, counterpart⟩ := ih beside trivial
    have still := (beside.isLive (old _ List.mem_cons_self)).trans live
    cases counterpart with
    | some counterpart => exact ⟨some _, last, .hit fresh still beyond, ended, .some counterpart⟩
  | missed fresh live _ _ ihFirst ih =>
    obtain ⟨answer, middle, beyond, between, counterpart⟩ := ihFirst beside trivial
    have still := (beside.isLive (old _ List.mem_cons_self)).trans live
    cases counterpart with
    | none =>
      obtain ⟨answer, last, later, rest⟩ := ih between (List.forall_mem_of_forall_mem_cons old)
      exact ⟨answer, last, .missed fresh still beyond later, rest⟩

namespace World

variable {world after : World} {scope start top : Ref} {id : Identifier}

theorem Supplied.parent? {names : String → Prop} {ref : Ref} (supplied : Supplied names world after)
    (forest : world.Forest) (forestAfter : after.Forest) (old : ref < world.heap.size) :
    after.parent? ref = world.parent? ref := by
  rw [forestAfter.parent?_eq, forest.parent?_eq, supplied.owner? old]

/-- Roots are where they were. -/
theorem Supplied.isRoot {names : String → Prop} (supplied : Supplied names world after) (forest : world.Forest)
    (forestAfter : after.Forest) (root : world.IsRoot start top) (old : start < world.heap.size) :
    after.IsRoot start top ∧ top < world.heap.size := by
  obtain ⟨above, highest⟩ := root
  have parents {ref : Ref} (old : ref < world.heap.size) : after.parent? ref = world.parent? ref :=
    supplied.parent? forest forestAfter old
  induction above using Relation.ReflTransGen.head_induction_on with
  | refl => exact ⟨⟨.refl, (parents old).trans highest⟩, old⟩
  | head owned _ ih =>
    have owner := forest.isLive_of_owner? _ _ (forest.parent?_eq _ ▸ owned)
    obtain ⟨⟨higher, ends⟩, oldTop⟩ := ih (lt_size_of_isLive owner)
    exact ⟨⟨.head ((parents old).trans owned) higher, ends⟩, oldTop⟩

/-- What an identifier is resolved to, its counterpart is found in a world that has been supplied. -/
theorem Resolves.beside {names : String → Prop} {last : World} {answer : Option Ref}
    (resolves : world.Resolves start id answer last) (supplied : Supplied names world after) (sound : world.Sound)
    (soundAfter : after.Sound) (old : start < world.heap.size) :
    ∃ found final, after.Resolves start id found final ∧ Option.Rel (Counterpart world last final) answer found := by
  have any : Supplied (fun _ => True) world after := supplied.mono fun _ _ => trivial
  have beside : Beside world world after := ⟨sound, soundAfter, .refl, any⟩
  cases resolves with
  | fromRoot absolute root isScope search =>
    obtain ⟨still, oldTop⟩ := any.isRoot sound.forest soundAfter.forest root old
    obtain ⟨found, final, again, -, counterpart⟩ := search.beside sound.forest beside trivial
    exact ⟨found, final, .fromRoot absolute still ((any.isScope _).trans isScope) again, counterpart⟩
  | rootless absolute root solid =>
    obtain ⟨still, oldTop⟩ := any.isRoot sound.forest soundAfter.forest root old
    exact ⟨none, after, .rootless absolute still ((any.isScope _).trans solid), .none⟩
  | fromScope relative search =>
    obtain ⟨found, final, again, -, counterpart⟩ := search.beside sound.forest beside trivial
    exact ⟨found, final, .fromScope relative again, counterpart⟩

theorem Sound.tryResolve (sound : world.Sound) (scope : Ref) (id : Identifier) :
    ∃ answer after, Act.tryResolve scope id world = .ok answer after ∧ world.Resolves scope id answer after := by
  obtain ⟨found, ended, resolves⟩ := sound.resolves scope id
  exact ⟨found.answer, found.world, by rw [Act.tryResolve, ended], resolves⟩

/-- What resolving an identifier from a scope leaves, whether to see what it refers to, to go on with that, or to see
whether it refers to anything. -/
inductive Tries (world : World) (scope : Ref) (id : Identifier) : World → Prop
  | tryResolve : Tries world scope id (Act.leaves (Act.tryResolve scope id) world)
  | resolve : Tries world scope id (Act.leaves (Act.resolve scope id) world)
  | resolves {text : String} (parsed : .parse text = id) : Tries world scope id (Act.leaves (Act.resolves scope text) world)

theorem Resolves.sound {answer : Option Ref} (resolves : world.Resolves scope id answer after) (sound : world.Sound) :
    after.Sound := by
  cases resolves with
  | fromRoot _ _ _ search => exact (search.alike sound).1
  | rootless => exact sound
  | fromScope _ search => exact (search.alike sound).1

theorem Tries.supplied (tries : world.Tries scope id after) (sound : world.Sound) :
    Supplied (· ∈ id.segments) world after ∧ after.Sound := by
  obtain ⟨answer, last, ran, resolves⟩ := sound.tryResolve scope id
  have done : Supplied (· ∈ id.segments) world last ∧ last.Sound := ⟨resolves.supplied sound, resolves.sound sound⟩
  cases tries with
  | tryResolve => rwa [Act.leaves, ran]
  | resolve =>
    unfold Act.resolve
    rw [Act.leaves, Act.bind_of_ok ran]
    cases answer <;> exact done
  | @resolves text parsed =>
    subst parsed
    unfold Act.resolves
    split
    · exact ⟨.refl, sound⟩
    · rw [Act.leaves, Act.bind_of_ok ran]
      exact done

/-- Resolution changes nothing but built-in members. Scopes get at most those that segments of the identifier name,
under names that were free, and whatever was there keeps its name, owner, imports, mark of constness and value. Whatever
is resolved afterwards, from anywhere, is what it would have been before. -/
theorem resolution_stable (ongoing : world.Ongoing) (tries : world.Tries scope id after) :
    Supplied (· ∈ id.segments) world after ∧
      (∀ ref < world.heap.size, after.nameOf ref = world.nameOf ref ∧ after.parent? ref = world.parent? ref ∧
        after.imports ref = world.imports ref ∧ after.isConstant ref = world.isConstant ref) ∧
      (∀ config ref value, world.isLive ref = true → world.HasValue config ref value → after.HasValue config ref value) ∧
      ∀ start < world.heap.size, ∀ other, ∃ answer last found final,
        Act.tryResolve start other world = .ok answer last ∧ Act.tryResolve start other after = .ok found final ∧
        Option.Rel (Counterpart world last final) answer found := by
  have sound := ongoing.sound
  obtain ⟨supplied, soundAfter⟩ := tries.supplied sound
  refine ⟨supplied, fun ref old => ?_, fun config ref value live has => ?_, fun start old other => ?_⟩
  · exact ⟨supplied.nameOf old, supplied.parent? sound.forest soundAfter.forest old, supplied.imports ref,
      supplied.isConstant old⟩
  · exact has.supplied supplied sound soundAfter live
  · obtain ⟨answer, last, ran, resolves⟩ := sound.tryResolve start other
    obtain ⟨found, final, again, counterpart⟩ := resolves.beside supplied sound soundAfter old
    obtain ⟨_, _, went, unique⟩ := soundAfter.tryResolve start other
    obtain ⟨rfl, rfl⟩ := unique.unique again
    exact ⟨answer, last, _, _, ran, went, counterpart⟩

/-- An operator that imports a block. -/
def importedBlock : World :=
  (World.runAll {} [
    { action := .create (.operator "door" .echo), name := some "d" },
    { action := .create (.block "talk" .host none none), name := some "t" },
    { action := .scope (.importScope (.handle "t")), target := some "d" }]).2

/-- The world after the operator has been asked for a member that only blocks have. -/
def askedBlock : World := Act.leaves (Act.tryResolve 0 (.parse "next")) importedBlock

/-- The block gets the member, and the operator leads to it before and afterwards. -/
theorem resolution_stable_through_import :
    importedBlock.Ongoing ∧ importedBlock.Tries 0 (.parse "next") askedBlock ∧
      Supplies (· ∈ ["next"]) importedBlock askedBlock 1 .next 2 ∧
      (importedBlock.resolve 0 (.parse "next")).map (·.answer) = some (some 2) ∧
      (askedBlock.resolve 0 (.parse "next")).map (·.answer) = some (some 2) := by
  have ongoing : importedBlock.Ongoing := Reachable.ongoing (.runAll (.start {}) _)
  have tries : importedBlock.Tries 0 (.parse "next") askedBlock := .tryResolve
  obtain ⟨supplied, -⟩ := resolution_stable ongoing tries
  refine ⟨ongoing, tries, ?_, by decide +kernel, by decide +kernel⟩
  have found : (askedBlock.members 1).find? "next" = some 2 := by decide +kernel
  have absent : (importedBlock.members 1).find? "next" = none := by decide +kernel
  rcases supplied.added found with present | ⟨builtin, called, supplies⟩
  · exact nomatch absent.symm.trans present
  · obtain rfl : builtin = .next := Builtin.memberName_inj called
    exact supplies

end World

end Dialogue
