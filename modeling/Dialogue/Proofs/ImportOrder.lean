import Dialogue.Proofs.ResolutionAgreement

/-! Whether an identifier resolves, and the order of imports. A search has an answer just if some way leads to one,
down members that it is committed to and across imports in any order. The ways stay the same when names are looked
up and when imports change places, so the order decides only which object is found. -/

namespace Dialogue

open World

namespace World

variable {world other after : World} {scope : Ref} {name : String} {segments : List String}

/-- Whether a scope has a member of the name or would make a built-in one. -/
def Answers (world : World) (scope : Ref) (name : String) : Prop :=
  (∃ member, (world.members scope).find? name = some member) ∨
    ∃ builtin, Builtin.ofName? name (world.kindOf scope) = some builtin ∧ builtin ∉ world.claimed scope

/-- Whether a scope has a member of the name that has members in turn. -/
def Opens (world : World) (scope : Ref) (name : String) (member : Ref) : Prop :=
  (world.members scope).find? name = some member ∧ (world.kindOf member).isScope = true

/-- Some way leads from a scope to an answer. A member for the first segment is the only way on, and imports are
ways on just where there is none. -/
inductive Leads (world : World) : Ref → List String → Prop where
  | hit {scope head} (named : head ≠ "") (answers : world.Answers scope head) : Leads world scope [head]
  | descent {scope head next rest member} (named : head ≠ "") (opens : world.Opens scope head member)
      (below : Leads world member (next :: rest)) : Leads world scope (head :: next :: rest)
  | detour {scope head rest imported} (named : head ≠ "") (absent : ¬world.Answers scope head)
      (imports : imported ∈ world.imports scope) (beyond : Leads world imported (head :: rest)) :
      Leads world scope (head :: rest)

/-- Only scopes lead anywhere, so what is gone leads nowhere. -/
theorem Leads.isScope (leads : world.Leads scope segments) :
    (world.kindOf scope).isScope = true := by
  cases leads with
  | hit _ answers =>
    rcases answers with ⟨member, found⟩ | ⟨builtin, named, -⟩
    · exact isScope_of_members found
    · exact Builtin.isScope_of_ofName? named
  | descent _ opens => exact isScope_of_members opens.1
  | detour _ _ imports =>
    rw [isScope_kindOf]
    rw [World.imports] at imports
    cases data : world.scope? scope with
    | none =>
      rw [data] at imports
      cases imports
    | some _ => rfl

/-- Two worlds with the same ways, whatever order they are tried in. -/
structure Alike (world other : World) : Prop where
  answers : ∀ scope name, world.Answers scope name ↔ other.Answers scope name
  opens : ∀ scope name member, world.Opens scope name member ↔ other.Opens scope name member
  imports : ∀ scope imported, imported ∈ world.imports scope ↔ imported ∈ other.imports scope

namespace Alike

theorem refl : world.Alike world := ⟨fun _ _ => .rfl, fun _ _ _ => .rfl, fun _ _ => .rfl⟩

theorem symm (alike : world.Alike other) : other.Alike world :=
  ⟨fun scope name => (alike.answers scope name).symm, fun scope name member => (alike.opens scope name member).symm,
    fun scope imported => (alike.imports scope imported).symm⟩

theorem trans (alike : world.Alike other) (again : other.Alike after) : world.Alike after :=
  ⟨fun scope name => (alike.answers scope name).trans (again.answers scope name),
    fun scope name member => (alike.opens scope name member).trans (again.opens scope name member),
    fun scope imported => (alike.imports scope imported).trans (again.imports scope imported)⟩

theorem leads (alike : world.Alike other) (leads : world.Leads scope segments) : other.Leads scope segments := by
  induction leads with
  | hit named answers => exact .hit named ((alike.answers _ _).mp answers)
  | descent named opens _ ih => exact .descent named ((alike.opens _ _ _).mp opens) ih
  | detour named absent imports _ ih =>
    exact .detour named (fun answers => absent ((alike.answers _ _).mpr answers)) ((alike.imports _ _).mp imports) ih

end Alike

/-! Looking up a name makes a member that would have answered before, and leads no further. -/

section Made

variable {builtin : Builtin} (named : Builtin.ofName? name (world.kindOf scope) = some builtin)

include named

private theorem ofName?_made (ref : Ref) (key : String) :
    Builtin.ofName? key ((world.made scope builtin).kindOf ref) = Builtin.ofName? key (world.kindOf ref) := by
  rcases Nat.lt_or_ge ref world.heap.size with old | beyond
  · rw [kindOf_made named old]
  · have none {kind : Kind} (solid : kind.isScope = false) : Builtin.ofName? key kind = none := by
      cases found : Builtin.ofName? key kind with
      | none => rfl
      | some other =>
        rw [Builtin.isScope_of_ofName? found] at solid
        cases solid
    have solid : (world.kindOf ref).isScope = false := by rw [kindOf_of_size_le beyond]; rfl
    rw [none solid, none ((isScope_made named ref).trans solid)]

private theorem answers_made (unclaimed : builtin ∉ world.claimed scope) (ref : Ref) (key : String) :
    world.Answers ref key ↔ (world.made scope builtin).Answers ref key := by
  unfold Answers
  rw [find?_made named, ofName?_made named, claimed_made named]
  by_cases here : scope = ref
  · subst here
    by_cases same : key = name
    · subst same
      rw [if_pos ⟨rfl, rfl⟩]
      exact iff_of_true (.inr ⟨builtin, named, unclaimed⟩) (.inl ⟨_, rfl⟩)
    · rw [if_neg fun both => same both.2, if_pos rfl]
      refine or_congr .rfl (exists_congr fun other => and_congr_right fun found => ?_)
      -- A built-in member of another name is another one.
      have different : other ≠ builtin := by
        rintro rfl
        exact same ((Builtin.ofName?_eq_some found).1.symm.trans (Builtin.ofName?_eq_some named).1)
      simp [different]
  · rw [if_neg fun both => here both.1, if_neg here]

private theorem opens_made (free : (world.members scope).find? name = none) (ref : Ref) (key : String) (member : Ref) :
    world.Opens ref key member ↔ (world.made scope builtin).Opens ref key member := by
  unfold Opens
  rw [find?_made named, isScope_made named]
  split
  next both =>
    obtain ⟨rfl, rfl⟩ := both
    rw [free]
    refine iff_of_false (fun opens => nomatch opens.1) fun ⟨same, isScope⟩ => ?_
    obtain rfl := Option.some.inj same
    rw [kindOf_of_size_le (Nat.le_refl _)] at isScope
    cases isScope
  next => exact .rfl

end Made

theorem Sound.alike_materialize (sound : world.Sound) (scope : Ref) (name : String) :
    world.Alike (world.materialize scope name) := by
  rcases materialize_cases world scope name with ⟨-, same⟩ | ⟨builtin, named, unclaimed, made⟩
  · rw [same]
    exact .refl
  · rw [made]
    refine ⟨answers_made named unclaimed, opens_made named (free_of_unclaimed named sound.forest unclaimed), ?_⟩
    intro ref imported
    rw [imports_made named]

theorem Sound.materialize (sound : world.Sound) (scope : Ref) (name : String) :
    (world.materialize scope name).Sound :=
  (evolves_materialize sound).sound sound

end World

/-! The plain search finds an answer only where a way leads to one. -/

/-- A scope leads on for some segments, or one of several imported scopes does. -/
def Goal.Leads (world : World) (segments : List String) : Goal → Prop
  | .scope start => world.Leads start segments
  | .imports list => ∃ imported ∈ list, world.Leads imported segments

section Search

variable {world after : World} {path : Path} {goal : Goal} {segments : List String} {answer : Option Ref}

theorem PlainSearch.alike (search : PlainSearch path world goal segments answer after) (sound : world.Sound) :
    after.Sound ∧ world.Alike after := by
  induction search with
  | ended | unnamed | exhausted => exact ⟨sound, .refl⟩
  | answered | blocked => exact ⟨sound.materialize _ _, sound.alike_materialize _ _⟩
  | descended _ _ _ _ ih | passed _ _ _ ih =>
    obtain ⟨soundAfter, alike⟩ := ih (sound.materialize _ _)
    exact ⟨soundAfter, (sound.alike_materialize _ _).trans alike⟩
  | cut _ _ ih | gone _ _ ih | hit _ _ _ ih => exact ih sound
  | missed _ _ _ _ ihFirst ih =>
    obtain ⟨soundBetween, alike⟩ := ihFirst sound
    obtain ⟨soundAfter, alikeAfter⟩ := ih soundBetween
    exact ⟨soundAfter, alike.trans alikeAfter⟩

theorem PlainSearch.leads (search : PlainSearch path world goal segments answer after) (sound : world.Sound)
    (found : answer.isSome = true) : goal.Leads world segments := by
  induction search with
  | ended | unnamed | blocked | exhausted => cases found
  | answered named present => exact (sound.alike_materialize _ _).symm.leads (.hit named (.inl ⟨_, present⟩))
  | descended named present inner _ ih =>
    have below := ih (sound.materialize _ _) found
    exact (sound.alike_materialize _ _).symm.leads (.descent named ⟨present, inner⟩ below)
  | @passed _ world scope head rest _ _ named absent _ ih =>
    obtain ⟨imported, member, beyond⟩ := ih (sound.materialize _ _) found
    refine (sound.alike_materialize _ _).symm.leads (.detour named ?_ member beyond)
    rintro (⟨other, present⟩ | ⟨builtin, known, unclaimed⟩)
    · rw [absent] at present
      cases present
    · exact unclaimed (settled_materialize builtin known)
  | cut _ _ ih | gone _ _ ih =>
    obtain ⟨imported, member, beyond⟩ := ih sound found
    exact ⟨imported, List.mem_cons_of_mem _ member, beyond⟩
  | hit _ _ _ ih => exact ⟨_, List.mem_cons_self, ih sound found⟩
  | missed _ _ first _ _ ih =>
    obtain ⟨soundBetween, alike⟩ := first.alike sound
    obtain ⟨imported, member, beyond⟩ := ih soundBetween found
    exact ⟨imported, List.mem_cons_of_mem _ member, alike.symm.leads beyond⟩

/-- Where a search with a trail gives up with nothing under way, no way leads on. Each step of a way would have
been taken: a scope on the trail is spent. -/
theorem World.Leads.not_inVain {trail : Trail} {all : List String} {scope : Ref} (leads : world.Leads scope segments)
    (spent : trail.Spent world [] all) (suffix : segments <:+ all) : ¬InVain world trail scope segments := by
  induction leads with
  | hit named answers =>
    rintro (member | _)
    · obtain ⟨⟨head, rest, same, -, settled, absent⟩, -⟩ := spent _ _ suffix member List.not_mem_nil
      obtain ⟨rfl, -⟩ := List.cons.inj same
      rcases answers with ⟨found, present⟩ | ⟨builtin, known, unclaimed⟩
      · rw [absent] at present
        cases present
      · exact unclaimed (settled builtin known)
    · exact named rfl
  | descent named opens _ ih =>
    obtain ⟨present, inner⟩ := opens
    intro vain
    cases vain with
    | searched member =>
      obtain ⟨⟨head, rest, same, -, -, absent⟩, -⟩ := spent _ _ suffix member List.not_mem_nil
      obtain ⟨rfl, -⟩ := List.cons.inj same
      rw [absent] at present
      cases present
    | unnamed => exact named rfl
    | blocked _ _ found solid =>
      obtain rfl := Option.some.inj (present.symm.trans found)
      rw [inner] at solid
      cases solid
    | descended _ _ found _ below =>
      obtain rfl := Option.some.inj (present.symm.trans found)
      exact ih ((List.suffix_cons ..).trans suffix) below
  | detour named absent imports beyond ih =>
    intro vain
    cases vain with
    | searched member =>
      obtain ⟨-, vain⟩ := spent _ _ suffix member List.not_mem_nil
      exact ih suffix (vain _ imports (isLive_of_isScope beyond.isScope))
    | unnamed => exact named rfl
    | blocked _ _ found | descended _ _ found => exact absent (.inl ⟨_, found⟩)

end Search

namespace World

variable {world other : World} {scope : Ref}

/-- A search has an answer just if some way leads to one. -/
theorem Sound.search_isSome_iff (sound : world.Sound) (scope : Ref) (segments : List String) :
    ∃ found, world.search scope segments = some found ∧
      (found.answer.isSome = true ↔ world.Leads scope segments) := by
  have underway := sound.underway segments
  have long : ∀ mark ∈ ([] : Path), segments.length ≤ mark.2 := fun _ member => by cases member
  obtain ⟨found, ended⟩ := ends_searchWithin scope (world.searchFuel segments) List.suffix_rfl long underway
    (Nat.lt_succ_of_le entries_le)
  have agrees := agrees_searchWithin _ List.suffix_rfl long underway ended
  refine ⟨found, ended, agrees.plain.leads sound, fun leads => ?_⟩
  cases nothing : found.answer with
  | some _ => rfl
  | none =>
    obtain ⟨-, left, vain⟩ := agrees.missed nothing
    have leadsAfter := (agrees.plain.alike sound).2.leads leads
    exact absurd vain (leadsAfter.not_inVain left.spent List.suffix_rfl)

/-- Some way leads to an answer, from the root if the identifier is absolute and from the scope otherwise. -/
def Finds (world : World) (scope : Ref) (id : Identifier) : Prop :=
  if id.isAbsolute then ∃ top, world.IsRoot scope top ∧ world.Leads top id.relative
  else world.Leads scope id.segments

theorem Sound.resolve_isSome_iff (sound : world.Sound) (scope : Ref) (id : Identifier) :
    ∃ found, world.resolve scope id = some found ∧ (found.answer.isSome = true ↔ world.Finds scope id) := by
  unfold resolve Finds
  cases absolute : id.isAbsolute with
  | false => exact sound.search_isSome_iff scope id.segments
  | true =>
    have root := sound.forest.isRoot_root scope
    have finds : (∃ top, world.IsRoot scope top ∧ world.Leads top id.relative) ↔
        world.Leads (world.root scope) id.relative :=
      ⟨fun ⟨top, highest, leads⟩ => highest.unique root ▸ leads, fun leads => ⟨_, root, leads⟩⟩
    rw [if_pos rfl, if_pos rfl, finds]
    split
    next => exact sound.search_isSome_iff (world.root scope) id.relative
    next solid => exact ⟨_, rfl, iff_of_false Bool.false_ne_true fun leads => solid leads.isScope⟩

end World

/-! Worlds that differ in the order of imports alone. -/

deriving instance DecidableEq for Table
deriving instance DecidableEq for ScopeData
deriving instance DecidableEq for Body
deriving instance DecidableEq for Object
deriving instance DecidableEq for Heap
deriving instance DecidableEq for World

def Object.withoutImports (object : Object) : Object :=
  match object.body with
  | .scope data => { object with body := .scope { data with imports := [] } }
  | _ => object

theorem Object.shape_withoutImports (object : Object) :
    object.withoutImports.shape = { object.shape with imports := [] } := by
  unfold withoutImports
  split
  next body => simp [shape, kind, scope?, body]
  next other =>
    have none : object.scope? = none := by
      unfold scope?
      split
      next data body => exact absurd body (other data)
      next => rfl
    simp [shape, none]

namespace World

variable {world other : World} {scope : Ref}

/-- The world with nothing imported. -/
def withoutImports (world : World) : World :=
  { world with heap := ⟨world.heap.cells.map (·.map Object.withoutImports)⟩ }

private theorem shape?_withoutImports (ref : Ref) :
    world.withoutImports.shape? ref = (world.shape? ref).map ({ · with imports := [] }) := by
  simp only [shape?, object?, Heap.get?, withoutImports, Array.getElem?_map]
  cases world.heap.cells[ref]? with
  | none => rfl
  | some cell => cases cell <;> simp [Object.shape_withoutImports]

/-- Two worlds that differ in the order of the entries of import lists and in nothing else. -/
structure Reordered (world other : World) : Prop where
  same : world.withoutImports = other.withoutImports
  imports : ∀ scope, (world.imports scope).Perm (other.imports scope)

namespace Reordered

variable (reordered : world.Reordered other)

include reordered

/-- What is read from a shape without a look at its imports is the same in both worlds. -/
theorem view {α : Type} (read : Shape → α) (default : α)
    (blind : ∀ shape : Shape, read { shape with imports := [] } = read shape) (ref : Ref) :
    (world.shape? ref).elim default read = (other.shape? ref).elim default read := by
  have hidden (world : World) : (world.shape? ref).elim default read =
      (world.withoutImports.shape? ref).elim default read := by
    rw [shape?_withoutImports]
    cases world.shape? ref with
    | none => rfl
    | some shape => exact (blind shape).symm
  rw [hidden world, reordered.same, ← hidden]

theorem members (ref : Ref) : world.members ref = other.members ref := by
  rw [members_eq, members_eq, reordered.view _ _ fun _ => rfl]

theorem kindOf (ref : Ref) : world.kindOf ref = other.kindOf ref := by
  rw [kindOf_eq, kindOf_eq, reordered.view _ _ fun _ => rfl]

theorem claimed (ref : Ref) : world.claimed ref = other.claimed ref := by
  rw [claimed_eq, claimed_eq, reordered.view _ _ fun _ => rfl]

theorem owner? (ref : Ref) : world.owner? ref = other.owner? ref := by
  have owned (world : World) : world.owner? ref = (world.shape? ref).elim none (·.owner) := by
    rw [owner?_eq]
    cases world.shape? ref <;> rfl
  rw [owned, owned, reordered.view _ _ fun _ => rfl]

theorem alike : world.Alike other := by
  refine ⟨fun scope name => ?_, fun scope name member => ?_, fun scope imported => ?_⟩
  · rw [Answers, Answers, reordered.members, reordered.kindOf, reordered.claimed]
  · rw [Opens, Opens, reordered.members, reordered.kindOf]
  · exact (reordered.imports scope).mem_iff

private theorem finds_iff (forest : world.Forest) (forestOther : other.Forest) (id : Identifier) :
    world.Finds scope id ↔ other.Finds scope id := by
  have parents : world.parent? = other.parent? := by
    funext ref
    rw [forest.parent?_eq, forestOther.parent?_eq, reordered.owner?]
  have leads (ref : Ref) (segments : List String) : world.Leads ref segments ↔ other.Leads ref segments :=
    ⟨reordered.alike.leads, reordered.alike.symm.leads⟩
  simp only [Finds, IsRoot, parents, leads]

end Reordered

theorem Sound.resolves_iff (sound : world.Sound) (scope : Ref) (text : String) :
    ∃ answer after, Act.resolves scope text world = .ok answer after ∧
      (answer = true ↔ text ≠ "" ∧ world.Finds scope (.parse text)) := by
  by_cases empty : text = ""
  · subst empty
    exact ⟨false, world, rfl, iff_of_false Bool.false_ne_true fun both => both.1 rfl⟩
  · obtain ⟨found, ended, some⟩ := sound.resolve_isSome_iff scope (.parse text)
    have tried : Act.tryResolve scope (.parse text) world = .ok found.answer found.world := by
      rw [Act.tryResolve, ended]
    have answered : Act.resolves scope text world = .ok found.answer.isSome found.world := by
      unfold Act.resolves
      rw [if_neg (by simpa using empty)]
      change EStateM.bind _ _ _ = _
      rw [EStateM.bind, tried]
      rfl
    exact ⟨_, _, answered, some.trans (and_iff_right empty).symm⟩

/-- Whether a text resolves does not depend on the order of imports, though the object that is found may. It does
just if some way leads to an answer. -/
theorem resolves_in_any_order (reached : Reachable world) (again : Reachable other)
    (reordered : world.Reordered other) (scope : Ref) (text : String) :
    ∃ answer after afterOther, Act.resolves scope text world = .ok answer after ∧
      Act.resolves scope text other = .ok answer afterOther ∧
      (answer = true ↔ text ≠ "" ∧ world.Finds scope (.parse text)) := by
  obtain ⟨answer, after, first, finds⟩ := reached.sound.resolves_iff scope text
  obtain ⟨answerOther, afterOther, second, findsOther⟩ := again.sound.resolves_iff scope text
  have same : answer = answerOther := by
    rw [Bool.eq_iff_iff, finds, findsOther, reordered.finds_iff reached.sound.forest again.sound.forest]
  exact ⟨answer, after, afterOther, first, same ▸ second, finds⟩

/-- A scope that imports two others, each with a member of one name; the first of them imports it back. -/
def crossing (first second : String) : World :=
  (World.runAll {} [
    { action := .create (.scope "start"), name := some "s" },
    { action := .create (.scope "left"), name := some "l" },
    { action := .create (.scope "right"), name := some "r" },
    { action := .create (.scope "goal"), name := some "g" },
    { action := .create (.scope "goal"), name := some "h" },
    { action := .scope (.importScope (.handle "s")), target := some "l" },
    { action := .scope (.register (.handle "g")), target := some "l" },
    { action := .scope (.register (.handle "h")), target := some "r" },
    { action := .scope (.importScope (.handle first)), target := some "s" },
    { action := .scope (.importScope (.handle second)), target := some "s" }]).2

private theorem reordered_crossing : (crossing "l" "r").Reordered (crossing "r" "l") := by
  refine ⟨by decide +kernel, fun scope => ?_⟩
  have small : ∀ scope < 5, ((crossing "l" "r").imports scope).Perm ((crossing "r" "l").imports scope) := by
    decide +kernel
  rcases Nat.lt_or_ge scope 5 with old | beyond
  · exact small scope old
  · have sizes : (crossing "l" "r").heap.size = 5 ∧ (crossing "r" "l").heap.size = 5 := by decide +kernel
    rw [imports_eq, imports_eq, shape?_of_size_le (sizes.1.trans_le beyond), shape?_of_size_le (sizes.2.trans_le beyond)]

/-- Both orders come to a member, each to the one of the import that is searched first. -/
theorem resolves_in_any_order_of_crossing :
    Reachable (crossing "l" "r") ∧ Reachable (crossing "r" "l") ∧ (crossing "l" "r").Reordered (crossing "r" "l") ∧
      (∃ after afterOther, Act.resolves 0 "goal" (crossing "l" "r") = .ok true after ∧
        Act.resolves 0 "goal" (crossing "r" "l") = .ok true afterOther) ∧
      ((crossing "l" "r").resolve 0 (.parse "goal")).map (·.answer) = some (some 3) ∧
      ((crossing "r" "l").resolve 0 (.parse "goal")).map (·.answer) = some (some 4) := by
  have reached : Reachable (crossing "l" "r") := .runAll (.start {}) _
  have again : Reachable (crossing "r" "l") := .runAll (.start {}) _
  have absent : ¬(crossing "l" "r").Answers 0 "goal" := by
    have free : ((crossing "l" "r").members 0).find? "goal" = none := by decide +kernel
    have plain : Builtin.ofName? "goal" ((crossing "l" "r").kindOf 0) = none := by decide +kernel
    rintro (⟨member, found⟩ | ⟨builtin, named, -⟩)
    · exact nomatch free.symm.trans found
    · exact nomatch plain.symm.trans named
  have leads : (crossing "l" "r").Leads 0 ["goal"] :=
    .detour (by decide) absent (by decide +kernel : 1 ∈ _) (.hit (by decide) (.inl ⟨3, by decide +kernel⟩))
  obtain ⟨answer, after, afterOther, first, second, finds⟩ :=
    resolves_in_any_order reached again reordered_crossing 0 "goal"
  have yes : answer = true := finds.mpr ⟨by decide, leads⟩
  rw [yes] at first second
  exact ⟨reached, again, reordered_crossing, ⟨after, afterOther, first, second⟩, by decide +kernel, by decide +kernel⟩

end World

end Dialogue
