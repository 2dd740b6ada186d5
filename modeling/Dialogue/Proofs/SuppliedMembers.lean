import Dialogue.Proofs.ImportOrder
import Dialogue.Proofs.LookupFootprint

/-! Worlds that differ in built-in members alone. A search makes built-in members in the middle of its way, in scopes
that it comes through in vain as well. Whatever it makes is a new object under a name that was free, and nothing else
becomes of the world. -/

namespace Dialogue

open World

namespace World

variable {names : String → Prop} {world middle after : World} {scope ref member : Ref} {name : String} {builtin : Builtin}

/-- A scope has got a built-in member of one of some names since an earlier world: a new object that it had not made
yet, where it had no member. -/
structure Supplies (names : String → Prop) (world after : World) (scope : Ref) (builtin : Builtin) (member : Ref) :
    Prop where
  among : names builtin.memberName
  applies : builtin.appliesTo (world.kindOf scope) = true
  unclaimed : builtin ∉ world.claimed scope
  free : (world.members scope).find? builtin.memberName = none
  new : world.heap.size ≤ member
  found : (after.members scope).find? builtin.memberName = some member
  made : after.object? member = some { builtin.object scope with parent := some scope }

/-- A world in which scopes have got built-in members of some names, and in which nothing else has happened. -/
structure Supplied (names : String → Prop) (world after : World) : Prop where
  /-- What was there differs at most in its table of members and the built-in ones made. -/
  objects : ∀ ref < world.heap.size, after.object? ref =
    (world.object? ref).map (·.withMembers (after.members ref) (after.claimed ref))
  kept : ∀ {scope name member}, (world.members scope).find? name = some member →
    (after.members scope).find? name = some member
  added : ∀ {scope name member}, (after.members scope).find? name = some member →
    (world.members scope).find? name = some member ∨
      ∃ builtin, builtin.memberName = name ∧ Supplies names world after scope builtin member
  remembered : ∀ {scope builtin}, builtin ∈ world.claimed scope → builtin ∈ after.claimed scope
  claimed : ∀ {scope builtin}, builtin ∈ after.claimed scope →
    builtin ∈ world.claimed scope ∨ ∃ member, Supplies names world after scope builtin member
  new : ∀ {ref}, world.heap.size ≤ ref → ref < after.heap.size →
    ∃ scope builtin, Supplies names world after scope builtin ref
  size : world.heap.size ≤ after.heap.size
  rest : after = { world with heap := after.heap }

theorem Supplies.mono {more : String → Prop} (supplies : Supplies names world after scope builtin member)
    (wider : ∀ name, names name → more name) : Supplies more world after scope builtin member :=
  { supplies with among := wider _ supplies.among }

theorem Supplied.mono {more : String → Prop} (supplied : Supplied names world after)
    (wider : ∀ name, names name → more name) : Supplied more world after where
  objects := supplied.objects
  kept := supplied.kept
  added found := (supplied.added found).imp_right fun ⟨builtin, called, supplies⟩ => ⟨builtin, called, supplies.mono wider⟩
  remembered := supplied.remembered
  claimed claims := (supplied.claimed claims).imp_right fun ⟨member, supplies⟩ => ⟨member, supplies.mono wider⟩
  new beyond old :=
    have ⟨scope, builtin, supplies⟩ := supplied.new beyond old
    ⟨scope, builtin, supplies.mono wider⟩
  size := supplied.size
  rest := supplied.rest

theorem Supplied.refl : Supplied names world world where
  objects _ _ := map_withMembers_self.symm
  kept := id
  added := .inl
  remembered := id
  claimed := .inl
  new beyond old := absurd old (Nat.not_lt.mpr beyond)
  size := Nat.le_refl _
  rest := rfl

/-! What stays. -/

/-- An object with other members has just these members. -/
theorem object?_withMembers {members : Table Ref} {claimed : List Builtin}
    (same : after.object? ref = (world.object? ref).map (·.withMembers members claimed)) :
    after.object? ref = (world.object? ref).map (·.withMembers (after.members ref) (after.claimed ref)) := by
  rw [same]
  cases found : world.object? ref with
  | none => rfl
  | some object =>
    obtain ⟨name, body, constant, parent⟩ := object
    cases body with
    | scope data =>
      rw [found] at same
      simp [World.members, World.claimed, scope?, body?, same, Object.withMembers]
    | _ => rfl

theorem Object.withMembers_object {owner : Option Ref} {members : Table Ref} {claimed : List Builtin} :
    Object.withMembers { builtin.object scope with parent := owner } members claimed =
      { builtin.object scope with parent := owner } := by
  cases builtin <;> rfl

namespace Supplied

variable (supplied : Supplied names world after)

include supplied

/-- What the table of members has no part in is the same for everything that was there. -/
theorem view {α : Type} (read : Option Object → α)
    (blind : ∀ object members claimed, read (some (Object.withMembers object members claimed)) = read (some object))
    (old : ref < world.heap.size) : read (after.object? ref) = read (world.object? ref) := by
  rw [supplied.objects ref old]
  cases world.object? ref with
  | none => rfl
  | some object => exact blind ..

theorem isLive (old : ref < world.heap.size) : after.isLive ref = world.isLive ref :=
  supplied.view Option.isSome (fun _ _ _ => rfl) old

theorem nameOf (old : ref < world.heap.size) : after.nameOf ref = world.nameOf ref :=
  supplied.view (fun object => object.elim "" (·.name)) (fun object _ _ => by unfold Object.withMembers; split <;> rfl) old

theorem isConstant (old : ref < world.heap.size) : after.isConstant ref = world.isConstant ref :=
  supplied.view (fun object => object.any Object.constant) (fun object _ _ => by unfold Object.withMembers; split <;> rfl) old

theorem owner? (old : ref < world.heap.size) : after.owner? ref = world.owner? ref :=
  supplied.view (fun object => object.bind (·.parent)) (fun object _ _ => by unfold Object.withMembers; split <;> rfl) old

theorem kindOf (old : ref < world.heap.size) : after.kindOf ref = world.kindOf ref := by
  refine supplied.view (fun object => object.elim .plain Object.kind) (fun object members claimed => ?_) old
  obtain ⟨name, body, constant, parent⟩ := object
  cases body <;> rfl

/-- What is new is no scope. -/
theorem isScope (ref : Ref) : (after.kindOf ref).isScope = (world.kindOf ref).isScope := by
  rcases Nat.lt_or_ge ref world.heap.size with old | beyond
  · rw [supplied.kindOf old]
  · rw [kindOf_of_size_le beyond]
    rcases Nat.lt_or_ge ref after.heap.size with made | further
    · obtain ⟨scope, builtin, supplies⟩ := supplied.new beyond made
      rw [World.kindOf, supplies.made]
      exact builtin.isScope_kind_object scope
    · rw [kindOf_of_size_le further]

/-- Scopes import what they did, and what is new imports nothing. -/
theorem imports (ref : Ref) : after.imports ref = world.imports ref := by
  have nothing {world : World} (solid : (world.kindOf ref).isScope = false) : world.imports ref = [] := by
    rw [isScope_kindOf, Option.isSome_eq_false_iff, Option.isNone_iff_eq_none] at solid
    rw [World.imports, solid, Option.elim_none]
  rcases Nat.lt_or_ge ref world.heap.size with old | beyond
  · have read (world : World) : world.imports ref = (world.object? ref).elim [] (·.shape.imports) := by
      rw [imports_eq, shape?]
      cases world.object? ref <;> rfl
    rw [read, read]
    refine supplied.view (fun object => object.elim [] (·.shape.imports)) (fun object members claimed => ?_) old
    obtain ⟨name, body, constant, parent⟩ := object
    cases body <;> rfl
  · have solid : (world.kindOf ref).isScope = false := by
      rw [kindOf_of_size_le beyond]
      rfl
    rw [nothing solid, nothing ((supplied.isScope ref).trans solid)]

theorem old_of_isScope (isScope : (after.kindOf ref).isScope = true) : ref < world.heap.size := by
  rw [supplied.isScope] at isScope
  exact lt_size_of_isLive (isLive_of_isScope isScope)

/-- Scopes apply the same names. -/
theorem ofName? (scope : Ref) (name : String) :
    Builtin.ofName? name (after.kindOf scope) = some builtin ↔ Builtin.ofName? name (world.kindOf scope) = some builtin := by
  constructor
  · intro named
    rwa [supplied.kindOf (supplied.old_of_isScope (Builtin.isScope_of_ofName? named))] at named
  · intro named
    rwa [supplied.kindOf (lt_size_of_isLive (isLive_of_isScope (Builtin.isScope_of_ofName? named)))]

/-- What was got earlier is still there. -/
theorem still (supplies : Supplies names middle world scope builtin member) :
    Supplies names middle after scope builtin member := by
  refine { supplies with found := supplied.kept supplies.found, made := ?_ }
  have made : member < world.heap.size := lt_size_of_isLive (by rw [World.isLive, supplies.made]; rfl)
  rw [supplied.objects member made, supplies.made, Option.map_some, Object.withMembers_object]

/-- What is got later was not there before. -/
theorem later {last : World} (supplies : Supplies names after last scope builtin member) :
    Supplies names world last scope builtin member := by
  have isScope := Builtin.isScope_of_appliesTo supplies.applies
  have free : (world.members scope).find? builtin.memberName = none := by
    cases found : (world.members scope).find? builtin.memberName with
    | none => rfl
    | some other => cases supplies.free.symm.trans (supplied.kept found)
  exact { supplies with
    applies := supplied.kindOf (supplied.old_of_isScope isScope) ▸ supplies.applies
    unclaimed := fun claimed => supplies.unclaimed (supplied.remembered claimed)
    free := free
    new := supplied.size.trans supplies.new }

theorem trans {last : World} (again : Supplied names after last) : Supplied names world last where
  objects ref old := by
    have both : last.object? ref = (world.object? ref).map (·.withMembers (last.members ref) (last.claimed ref)) := by
      rw [again.objects ref (old.trans_le supplied.size), supplied.objects ref old, Option.map_map]
      exact congrArg (Option.map · _) (funext fun _ => Object.withMembers_withMembers)
    exact object?_withMembers both
  kept found := again.kept (supplied.kept found)
  added found := by
    rcases again.added found with former | ⟨builtin, called, supplies⟩
    · rcases supplied.added former with first | ⟨builtin, called, supplies⟩
      · exact .inl first
      · exact .inr ⟨builtin, called, again.still supplies⟩
    · exact .inr ⟨builtin, called, supplied.later supplies⟩
  remembered before := again.remembered (supplied.remembered before)
  claimed claims := by
    rcases again.claimed claims with former | ⟨member, supplies⟩
    · exact (supplied.claimed former).imp_right (.imp fun _ => again.still)
    · exact .inr ⟨member, supplied.later supplies⟩
  new {ref} beyond old := by
    rcases Nat.lt_or_ge ref after.heap.size with between | new
    · obtain ⟨scope, builtin, supplies⟩ := supplied.new beyond between
      exact ⟨scope, builtin, again.still supplies⟩
    · obtain ⟨scope, builtin, supplies⟩ := again.new new old
      exact ⟨scope, builtin, supplied.later supplies⟩
  size := supplied.size.trans again.size
  rest := by rw [again.rest, supplied.rest]

end Supplied

/-! One name that is looked up. -/

/-- A scope that has made a built-in member has been supplied with it. -/
theorem MadeMember.supplied (made : world.MadeMember scope builtin after)
    (applies : builtin.appliesTo (world.kindOf scope) = true) (among : names builtin.memberName)
    (unclaimed : builtin ∉ world.claimed scope) (free : (world.members scope).find? builtin.memberName = none)
    (members : ∀ ref key, (after.members ref).find? key =
      if scope = ref ∧ key = builtin.memberName then some world.heap.size else (world.members ref).find? key)
    (claimed : ∀ ref, after.claimed ref = if scope = ref then builtin :: world.claimed ref else world.claimed ref) :
    Supplied names world after := by
  have supplies : Supplies names world after scope builtin world.heap.size :=
    ⟨among, applies, unclaimed, free, Nat.le_refl _, (members ..).trans (if_pos ⟨rfl, rfl⟩), made.made⟩
  exact {
    objects := by
      intro ref old
      by_cases here : ref = scope
      · subst here
        exact object?_withMembers made.entered
      · exact object?_withMembers ((made.others ref here old.ne).trans map_withMembers_self.symm)
    kept := by
      intro other key member found
      rw [members, if_neg]
      · exact found
      · rintro ⟨rfl, rfl⟩
        cases free.symm.trans found
    added := by
      intro other key member found
      rw [members] at found
      split at found
      next here =>
        obtain ⟨rfl, rfl⟩ := here
        obtain rfl := Option.some.inj found
        exact .inr ⟨builtin, rfl, supplies⟩
      next => exact .inl found
    remembered := by
      intro other claim before
      rw [claimed]
      split
      · exact List.mem_cons_of_mem _ before
      · exact before
    claimed := by
      intro other claim claims
      rw [claimed] at claims
      split at claims
      next here =>
        subst here
        rcases List.mem_cons.mp claims with rfl | before
        · exact .inr ⟨_, supplies⟩
        · exact .inl before
      next => exact .inl claims
    new := by
      intro ref beyond old
      rw [made.size] at old
      obtain rfl : ref = world.heap.size := by omega
      exact ⟨scope, builtin, supplies⟩
    size := made.size ▸ Nat.le_succ _
    rest := made.rest }

theorem supplied_materialize (forest : world.Forest) (scope : Ref) (among : names name) :
    Supplied names world (world.materialize scope name) := by
  rcases materialize_cases world scope name with ⟨-, same⟩ | ⟨builtin, named, unclaimed, same⟩
  · rw [same]
    exact .refl
  · have free := free_of_unclaimed named forest unclaimed
    obtain ⟨rfl, applies⟩ := Builtin.ofName?_eq_some named
    rw [same]
    exact (madeMember_made named).supplied applies among unclaimed free (find?_made named) (claimed_made named)

end World

/-! Searches. -/

theorem PlainSearch.supplied {names : String → Prop} {path : Path} {world after : World} {goal : Goal}
    {segments : List String} {answer : Option Ref} (search : PlainSearch path world goal segments answer after)
    (sound : world.Sound) (among : ∀ name ∈ segments, names name) : Supplied names world after := by
  induction search with
  | ended | unnamed | exhausted => exact .refl
  | answered | blocked => exact supplied_materialize sound.forest _ (among _ List.mem_cons_self)
  | descended _ _ _ _ ih =>
    have below := ih (sound.materialize _ _) fun name member => among name (List.mem_cons_of_mem _ member)
    exact (supplied_materialize sound.forest _ (among _ List.mem_cons_self)).trans below
  | passed _ _ _ ih =>
    exact (supplied_materialize sound.forest _ (among _ List.mem_cons_self)).trans (ih (sound.materialize _ _) among)
  | cut _ _ ih | gone _ _ ih | hit _ _ _ ih => exact ih sound among
  | missed _ _ first _ ihFirst ih => exact (ihFirst sound among).trans (ih (first.alike sound).1 among)

theorem Identifier.relative_subset (id : Identifier) : id.relative ⊆ id.segments := by
  unfold relative
  split
  · exact List.tail_subset _
  · exact List.Subset.refl _

theorem World.Resolves.supplied {world after : World} {scope : Ref} {id : Identifier} {answer : Option Ref}
    (resolves : world.Resolves scope id answer after) (sound : world.Sound) :
    Supplied (· ∈ id.segments) world after := by
  cases resolves with
  | fromRoot _ _ _ search => exact search.supplied sound fun name member => id.relative_subset member
  | rootless => exact .refl
  | fromScope _ search => exact search.supplied sound fun name member => member

end Dialogue
