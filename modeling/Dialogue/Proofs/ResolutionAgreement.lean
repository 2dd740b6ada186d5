import Dialogue.Proofs.OwnershipTree
import Dialogue.Proofs.SearchAgreement

/-! Identifiers resolve as the plain search says. The trail saves work and changes no answer: a scope that
it leaves out could not have had one. -/

namespace Dialogue

open World

namespace World

variable {world : World} {scope : Ref}

/-- The last owner above a scope, or the scope itself. -/
def IsRoot (world : World) (scope top : Ref) : Prop :=
  Relation.ReflTransGen (fun lower upper => world.parent? lower = some upper) scope top ∧ world.parent? top = none

theorem Forest.isRoot_root (forest : world.Forest) (scope : Ref) : world.IsRoot scope (world.root scope) := by
  refine ⟨?_, forest.parent?_root scope⟩
  have climbs {line : List Ref} (walk : world.Lineage scope line) : ∃ top, line.getLast? = some top ∧
      Relation.ReflTransGen (fun lower upper => world.parent? lower = some upper) scope top := by
    induction walk with
    | top => exact ⟨_, rfl, .refl⟩
    | owned found rest ih =>
      obtain ⟨top, ends, above⟩ := ih
      rw [← forest.parent?_eq] at found
      exact ⟨top, by rw [List.getLast?_cons, ends]; rfl, .head found above⟩
  obtain ⟨top, ends, above⟩ := climbs (forest.lineage scope)
  rwa [root, ends]

/-- Owners are unique, so there is only one way up. -/
theorem IsRoot.unique {top other : Ref} (first : world.IsRoot scope top) (second : world.IsRoot scope other) :
    top = other := by
  obtain ⟨above, highest⟩ := first
  obtain ⟨otherAbove, otherHighest⟩ := second
  have deterministic : Relator.RightUnique fun lower upper => world.parent? lower = some upper :=
    fun _ _ _ one another => Option.some.inj (one.symm.trans another)
  rcases Relation.ReflTransGen.total_of_right_unique deterministic above otherAbove with up | up
  · rcases Relation.ReflTransGen.cases_head up with same | ⟨next, owned, -⟩
    · exact same
    · rw [highest] at owned
      cases owned
  · rcases Relation.ReflTransGen.cases_head up with same | ⟨next, owned, -⟩
    · exact same.symm
    · rw [otherHighest] at owned
      cases owned

/-- Resolution by the plain search. Absolute identifiers start at the root, if that is a scope. -/
inductive Resolves (world : World) (scope : Ref) (id : Identifier) : Option Ref → World → Prop where
  | fromRoot {top answer after} (absolute : id.isAbsolute = true) (root : world.IsRoot scope top)
      (isScope : (world.kindOf top).isScope = true)
      (search : PlainSearch [] world (.scope top) id.relative answer after) : Resolves world scope id answer after
  | rootless {top} (absolute : id.isAbsolute = true) (root : world.IsRoot scope top)
      (solid : (world.kindOf top).isScope = false) : Resolves world scope id none world
  | fromScope {answer after} (relative : id.isAbsolute = false)
      (search : PlainSearch [] world (.scope scope) id.segments answer after) : Resolves world scope id answer after

theorem Resolves.unique {id : Identifier} {answer other : Option Ref} {first second : World}
    (resolves : world.Resolves scope id answer first) (again : world.Resolves scope id other second) :
    answer = other ∧ first = second := by
  cases resolves with
  | fromRoot absolute root isScope search =>
    cases again with
    | fromRoot _ sameRoot _ rest =>
      obtain rfl := root.unique sameRoot
      exact search.unique rest
    | rootless _ sameRoot solid =>
      obtain rfl := root.unique sameRoot
      rw [isScope] at solid
      cases solid
    | fromScope relative => rw [absolute] at relative; cases relative
  | rootless absolute root solid =>
    cases again with
    | fromRoot _ sameRoot isScope =>
      obtain rfl := root.unique sameRoot
      rw [isScope] at solid
      cases solid
    | rootless => exact ⟨rfl, rfl⟩
    | fromScope relative => rw [absolute] at relative; cases relative
  | fromScope relative search =>
    cases again with
    | fromRoot absolute | rootless absolute => rw [relative] at absolute; cases absolute
    | fromScope _ rest => exact search.unique rest

end World

/-! Where a search with a trail comes along. -/

/-- The steps of a search for some segments from a scope: the world, the trail and the path that it has come to,
what it searches there, and the segments that are left. -/
inductive Visited (world : World) (scope : Ref) (segments : List String) :
    World → Trail → Path → Goal → List String → Prop where
  | start : Visited world scope segments world [] [] (.scope scope) segments
  | descended {here trail path above head next rest member}
      (visited : Visited world scope segments here trail path (.scope above) (head :: next :: rest)) (named : head ≠ "")
      (found : ((here.materialize above head).members above).find? head = some member)
      (inner : ((here.materialize above head).kindOf member).isScope = true) :
      Visited world scope segments (here.materialize above head) trail path (.scope member) (next :: rest)
  | passed {here trail path above head rest}
      (visited : Visited world scope segments here trail path (.scope above) (head :: rest)) (named : head ≠ "")
      (absent : ((here.materialize above head).members above).find? head = none) :
      Visited world scope segments (here.materialize above head) ((above, rest.length + 1) :: trail)
        ((above, rest.length + 1) :: path) (.imports ((here.materialize above head).imports above)) (head :: rest)
  | skipped {here trail path imported rest left}
      (visited : Visited world scope segments here trail path (.imports (imported :: rest)) left)
      (skip : (imported, left.length) ∈ trail ∨ here.isLive imported = false) :
      Visited world scope segments here trail path (.imports rest) left
  | entered {here trail path imported rest left}
      (visited : Visited world scope segments here trail path (.imports (imported :: rest)) left)
      (fresh : (imported, left.length) ∉ trail) (live : here.isLive imported = true) :
      Visited world scope segments here trail path (.scope imported) left
  | missed {here trail path imported rest left fuel found}
      (visited : Visited world scope segments here trail path (.imports (imported :: rest)) left)
      (fresh : (imported, left.length) ∉ trail) (live : here.isLive imported = true)
      (searched : searchWithin fuel here trail imported left = some found) (nothing : found.answer = none) :
      Visited world scope segments found.world found.trail path (.imports rest) left

section Search

variable {world here : World} {scope : Ref} {segments left : List String} {trail : Trail} {path : Path} {goal : Goal}

theorem World.Sound.underway (sound : world.Sound) (segments : List String) :
    Underway world.heap.size segments [] world [] where
  spent _ _ _ member := by cases member
  inside := List.Subset.refl _
  fits := Nat.le_refl _
  imports := sound.forest.imports

theorem World.Sound.agrees_search (sound : world.Sound) (scope : Ref) (segments : List String) :
    ∃ found, world.search scope segments = some found ∧
      PlainSearch [] world (.scope scope) segments found.answer found.world := by
  have underway := sound.underway segments
  have long : ∀ mark ∈ ([] : Path), segments.length ≤ mark.2 := fun _ member => by cases member
  obtain ⟨found, ended⟩ := ends_searchWithin scope (world.searchFuel segments) List.suffix_rfl long underway
    (Nat.lt_succ_of_le entries_le)
  exact ⟨found, ended, (agrees_searchWithin _ List.suffix_rfl long underway ended).plain⟩

theorem Visited.underway (sound : world.Sound)
    (visited : Visited world scope segments here trail path goal left) :
    Underway world.heap.size segments path here trail ∧ left <:+ segments ∧
      (∀ mark ∈ path, left.length ≤ mark.2) ∧
      ∀ list, goal = .imports list → ∀ imported ∈ list, imported < world.heap.size := by
  induction visited with
  | start => exact ⟨sound.underway segments, List.suffix_rfl, (fun _ member => by cases member), fun _ same => by cases same⟩
  | descended _ _ _ _ ih =>
    obtain ⟨underway, suffix, long, -⟩ := ih
    exact ⟨underway.grow (grows_materialize ..), (List.suffix_cons ..).trans suffix,
      fun mark member => Nat.le_of_succ_le (long mark member), fun _ same => by cases same⟩
  | @passed before _ _ above head _ _ _ _ ih =>
    obtain ⟨underway, suffix, long, -⟩ := ih
    have began := underway.grow (grows_materialize before above head)
    refine ⟨began.mark _, suffix, long_cons _ long, fun _ same imported member => ?_⟩
    cases same
    exact began.imports member
  | skipped _ _ ih =>
    obtain ⟨underway, suffix, long, old⟩ := ih
    refine ⟨underway, suffix, long, fun _ same imported member => ?_⟩
    cases same
    exact old _ rfl imported (List.mem_cons_of_mem _ member)
  | entered _ _ _ ih =>
    obtain ⟨underway, suffix, long, -⟩ := ih
    exact ⟨underway, suffix, long, fun _ same => by cases same⟩
  | missed _ _ _ searched nothing ih =>
    obtain ⟨underway, suffix, long, old⟩ := ih
    obtain ⟨-, underwayLater, -⟩ := (agrees_searchWithin _ suffix long underway searched).missed nothing
    refine ⟨underwayLater, suffix, long, fun _ same imported member => ?_⟩
    cases same
    exact old _ rfl imported (List.mem_cons_of_mem _ member)

end Search

namespace World

variable {world : World}

/-- Resolution has an end, and it comes to what the plain search comes to. -/
theorem Sound.resolves (sound : world.Sound) (scope : Ref) (id : Identifier) :
    ∃ found, world.resolve scope id = some found ∧ world.Resolves scope id found.answer found.world := by
  unfold resolve
  cases absolute : id.isAbsolute with
  | false =>
    obtain ⟨found, ended, search⟩ := sound.agrees_search scope id.segments
    exact ⟨found, ended, .fromScope absolute search⟩
  | true =>
    have root := sound.forest.isRoot_root scope
    cases isScope : (world.kindOf (world.root scope)).isScope with
    | false => exact ⟨_, rfl, .rootless absolute root isScope⟩
    | true =>
      obtain ⟨found, ended, search⟩ := sound.agrees_search (world.root scope) id.relative
      exact ⟨found, ended, .fromRoot absolute root isScope search⟩

/-- In every world that a session reaches resolution has an end, and its answer is the one of the plain search.
A living scope that the search leaves out, although it is not being searched, would not have led to an answer. -/
theorem resolve_agrees (reached : Reachable world) :
    (∀ scope id, ∃ found, world.resolve scope id = some found ∧ ∀ answer after,
      world.Resolves scope id answer after ↔ answer = found.answer ∧ after = found.world) ∧
    (∀ scope segments here trail path imported rest left,
      Visited world scope segments here trail path (.imports (imported :: rest)) left →
      (imported, left.length) ∈ trail → (imported, left.length) ∉ path →
      PlainSearch path here (.scope imported) left none here) := by
  have sound := reached.sound
  constructor
  · intro scope id
    obtain ⟨found, ended, resolves⟩ := sound.resolves scope id
    refine ⟨found, ended, fun answer after => ⟨fun again => again.unique resolves, ?_⟩⟩
    rintro ⟨rfl, rfl⟩
    exact resolves
  · intro scope segments here trail path imported rest left visited marked fresh
    obtain ⟨underway, suffix, long, -⟩ := visited.underway sound
    exact (InVain.searched marked).plain underway.spent (List.Subset.refl _) suffix long fresh

/-- Three imports of one scope, the first of which imports the second and that one the start again. -/
def circle : World :=
  (World.runAll {} [
    { action := .create (.scope "start"), name := some "s" },
    { action := .create (.scope "first"), name := some "a" },
    { action := .create (.scope "second"), name := some "b" },
    { action := .create (.scope "third"), name := some "c" },
    { action := .create (.scope "goal"), name := some "g" },
    { action := .scope (.importScope (.handle "a")), target := some "s" },
    { action := .scope (.importScope (.handle "b")), target := some "s" },
    { action := .scope (.importScope (.handle "c")), target := some "s" },
    { action := .scope (.importScope (.handle "b")), target := some "a" },
    { action := .scope (.importScope (.handle "s")), target := some "b" },
    { action := .scope (.register (.handle "g")), target := some "c" }]).2

/-- The third import has the answer, after the second one was left out. -/
theorem resolve_agrees_in_a_circle :
    Reachable circle ∧ (∃ after, circle.Resolves 0 (.parse "goal") (some 4) after) ∧
      ∃ here trail, Visited circle 0 ["goal"] here trail [(0, 1)] (.imports [2, 3]) ["goal"] ∧ (2, 1) ∈ trail ∧
        PlainSearch [(0, 1)] here (.scope 2) ["goal"] none here := by
  have reached : Reachable circle := .runAll (.start {}) _
  obtain ⟨answers, skips⟩ := resolve_agrees reached
  refine ⟨reached, ?_, ?_⟩
  · obtain ⟨found, ended, resolves⟩ := answers 0 (.parse "goal")
    have answer : (circle.resolve 0 (.parse "goal")).map (·.answer) = some (some 4) := by decide +kernel
    rw [ended] at answer
    exact ⟨found.world, (resolves _ _).mpr ⟨(Option.some.inj answer).symm, rfl⟩⟩
  · have imports : (circle.materialize 0 "goal").imports 0 = [1, 2, 3] := by decide +kernel
    have began : Visited circle 0 ["goal"] circle [] [] (.scope 0) ["goal"] := .start
    have passed := began.passed (by decide) (by decide +kernel)
    rw [imports] at passed
    have outcome : (searchWithin 4 (circle.materialize 0 "goal") [(0, 1)] 1 ["goal"]).map
        (fun found => (found.answer, found.trail)) = some (none, [(2, 1), (1, 1), (0, 1)]) := by decide +kernel
    obtain ⟨found, searched, same⟩ := Option.map_eq_some_iff.mp outcome
    obtain ⟨nothing, trail⟩ := Prod.mk.injEq .. ▸ same
    have visited := passed.missed (by decide) (by decide +kernel) searched nothing
    have marked : (2, 1) ∈ found.trail := by rw [trail]; decide
    exact ⟨_, _, visited, marked, skips _ _ _ _ _ _ _ _ visited marked (by decide)⟩

end World

end Dialogue
