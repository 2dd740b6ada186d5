import Dialogue.Proofs.OwnershipTree
import Dialogue.Scopes.Tour

/-! Tours of everything below a scope. Accepting a visitor makes it visit an object as one of its kind, and a visitor
that has nothing to do for that kind visits it as one of a more general kind; scopes are left to their members. No bound
is set to this, but since members have one owner and no one is above itself, it ends, and it meets every object below
the scope once. -/

namespace Dialogue

/-- What a visitor does: it is shown an object, or it goes on to the members of a scope. -/
inductive Visit where
  | object (ref : Ref)
  | members (scope : Ref)
deriving DecidableEq

namespace Visit

def ref : Visit → Ref
  | object ref => ref
  | members scope => scope

def object? : Visit → Option Ref
  | object ref => some ref
  | members _ => none

def scope? : Visit → Option Ref
  | object _ => none
  | members scope => some scope

end Visit

/-- What accepts a visitor: an object as one of a kind, or objects one after the other. -/
inductive Accepted where
  | one (kind : Kind) (ref : Ref)
  | all (refs : List Ref)

namespace World

/-- The visits of a visitor that has something to do for objects alone. -/
inductive Visits (world : World) : Accepted → List Visit → Prop where
  | plain {ref} : Visits world (.one .plain ref) [.object ref]
  | var {ref calls} (general : Visits world (.one .plain ref) calls) : Visits world (.one .var ref) calls
  | list {ref calls} (general : Visits world (.one .plain ref) calls) : Visits world (.one .list ref) calls
  | scope {ref calls} (walk : Visits world (.all (world.members ref).values) calls) :
      Visits world (.one .scope ref) (.members ref :: calls)
  | operator {ref calls} (general : Visits world (.one .scope ref) calls) : Visits world (.one .operator ref) calls
  | block {ref calls} (general : Visits world (.one .operator ref) calls) : Visits world (.one .block ref) calls
  | done : Visits world (.all []) []
  | next {ref rest here later} (first : Visits world (.one (world.kindOf ref) ref) here)
      (others : Visits world (.all rest) later) : Visits world (.all (ref :: rest)) (here ++ later)

/-- An object that accepts the visitor is visited as what it is. -/
def Accepts (world : World) (ref : Ref) (calls : List Visit) : Prop := world.Visits (.one (world.kindOf ref) ref) calls

/-- Whether an object is a member of a scope, or of one of its members and so on. -/
def Descendant (world : World) (top ref : Ref) : Prop :=
  Relation.TransGen (fun lower upper => world.parent? lower = some upper) ref top

/-- The names that lead from a scope down to an object. -/
def route (world : World) (top ref : Ref) : List String :=
  ((world.lineage ref).takeWhile (· != top)).reverse.map world.nameOf

/-- The visit that an object is met by on a tour. -/
def visit (world : World) (ref : Ref) : Visit :=
  if (world.kindOf ref).isScope then .members ref else .object ref

variable {world : World} {top ref other member : Ref} {calls : List Visit}

theorem Visits.unique {accepted : Accepted} {again : List Visit} (first : world.Visits accepted calls)
    (second : world.Visits accepted again) : again = calls := by
  induction first generalizing again with
  | plain => cases second; rfl
  | var _ ih =>
    cases second with
    | var general => exact ih general
  | list _ ih =>
    cases second with
    | list general => exact ih general
  | operator _ ih =>
    cases second with
    | operator general => exact ih general
  | block _ ih =>
    cases second with
    | block general => exact ih general
  | scope _ ih =>
    cases second with
    | scope walk => rw [ih walk]
  | done => cases second; rfl
  | next _ _ ihFirst ih =>
    cases second with
    | next first others => rw [ihFirst first, ih others]

theorem Visits.accepts_scope (walk : world.Visits (.all (world.members ref).values) calls)
    (isScope : (world.kindOf ref).isScope = true) : world.Accepts ref (.members ref :: calls) := by
  unfold Accepts
  cases kind : world.kindOf ref with
  | scope => exact .scope walk
  | operator => exact .operator (.scope walk)
  | block => exact .block (.operator (.scope walk))
  | plain | var | list => rw [kind] at isScope; cases isScope

private theorem accepts_object (solid : (world.kindOf ref).isScope = false) : world.Accepts ref [.object ref] := by
  unfold Accepts
  cases kind : world.kindOf ref with
  | plain => exact .plain
  | var => exact .var .plain
  | list => exact .list .plain
  | scope | operator | block => rw [kind] at solid; cases solid

private theorem visits_all {refs : List Ref} {below : Ref → List Ref}
    (each : ∀ ref ∈ refs, world.Accepts ref ((below ref).map world.visit)) :
    world.Visits (.all refs) ((refs.flatMap below).map world.visit) := by
  induction refs with
  | nil => exact .done
  | cons first rest ih =>
    rw [List.flatMap_cons, List.map_append]
    exact .next (each first List.mem_cons_self) (ih fun ref member => each ref (List.mem_cons_of_mem _ member))

namespace Forest

variable (forest : world.Forest)

include forest

private theorem members_of_solid (solid : (world.kindOf ref).isScope = false) : (world.members ref).values = [] := by
  refine List.eq_nil_iff_forall_not_mem.mpr fun member inside => ?_
  rw [forest.isScope_of_owner? (forest.mem_members_iff.mp inside)] at solid
  cases solid

private theorem lineage_of_member (inside : member ∈ (world.members ref).values) :
    world.lineage member = member :: world.lineage ref := by
  rw [forest.lineage_eq member, forest.parent?_eq, forest.mem_members_iff.mp inside, Option.elim_some]

/-- Fuel for everything that may be above or below an object is fuel for its members. -/
theorem enough_below {fuel : Nat} (enough : world.heap.size + 1 < fuel + 1 + (world.lineage ref).length)
    (inside : member ∈ (world.members ref).values) : world.heap.size + 1 < fuel + (world.lineage member).length := by
  rw [forest.lineage_of_member inside, List.length_cons]
  omega

theorem not_enough (ref : Ref) : ¬world.heap.size + 1 < 0 + (world.lineage ref).length := by
  have short := (forest.lineage ref).length_le forest.isLive_of_owner?
  omega

private theorem accepts_descendWithin (fuel : Nat) (enough : world.heap.size + 1 < fuel + (world.lineage ref).length) :
    world.Accepts ref ((descendWithin fuel world ref).map world.visit) := by
  induction fuel generalizing ref with
  | zero => exact absurd enough (forest.not_enough ref)
  | succ fuel ih =>
    rw [descendWithin, List.map_cons]
    cases isScope : (world.kindOf ref).isScope with
    | true =>
      have walk := visits_all fun member inside => ih (forest.enough_below enough inside)
      rw [visit, if_pos isScope]
      exact walk.accepts_scope isScope
    | false =>
      rw [forest.members_of_solid isScope, visit, if_neg (by simp [isScope])]
      exact accepts_object isScope

private theorem mem_descendWithin (fuel : Nat) (enough : world.heap.size + 1 < fuel + (world.lineage ref).length) :
    other ∈ descendWithin fuel world ref ↔
      Relation.ReflTransGen (fun lower upper => world.parent? lower = some upper) other ref := by
  induction fuel generalizing ref with
  | zero => exact absurd enough (forest.not_enough ref)
  | succ fuel ih =>
    rw [descendWithin, List.mem_cons, List.mem_flatMap]
    constructor
    · rintro (rfl | ⟨member, inside, below⟩)
      · exact .refl
      · have owned := (forest.parent?_eq member).trans (forest.mem_members_iff.mp inside)
        exact .tail ((ih (forest.enough_below enough inside)).mp below) owned
    · intro below
      rcases below.cases_tail with same | ⟨member, above, owned⟩
      · exact .inl same.symm
      · rw [forest.parent?_eq] at owned
        have inside := forest.mem_members_iff.mpr owned
        exact .inr ⟨member, inside, (ih (forest.enough_below enough inside)).mpr above⟩

/-! Routes. -/

theorem route_eq {above : List Ref} (split : world.lineage other = above ++ world.lineage ref) :
    world.route ref other = above.reverse.map world.nameOf := by
  have distinct := (forest.lineage other).nodup
  rw [split, forest.lineage_eq ref] at distinct
  -- What stands above in the lineage is not met below.
  have apart : ∀ step ∈ above, (step != ref) = true := by
    intro step inside
    simpa using (List.nodup_append.mp distinct).2.2 step inside ref List.mem_cons_self
  rw [route, split, List.takeWhile_append_of_pos apart, forest.lineage_eq ref]
  simp

private theorem route_self (ref : Ref) : world.route ref ref = [] := forest.route_eq (List.nil_append _).symm

private theorem lineage_of_below
    (below : Relation.ReflTransGen (fun lower upper => world.parent? lower = some upper) other ref) :
    ∃ above, world.lineage other = above ++ world.lineage ref := by
  induction below with
  | refl => exact ⟨[], rfl⟩
  | @tail lower upper _ owned ih =>
    obtain ⟨above, split⟩ := ih
    rw [forest.lineage_eq lower, owned, Option.elim_some] at split
    exact ⟨above ++ [lower], by rw [split, List.append_assoc, List.singleton_append]⟩

/-- The way to what is below a member begins with the name of the member. -/
private theorem route_below (inside : member ∈ (world.members ref).values)
    (below : Relation.ReflTransGen (fun lower upper => world.parent? lower = some upper) other member) :
    world.route ref other = world.nameOf member :: world.route member other := by
  obtain ⟨above, split⟩ := forest.lineage_of_below below
  rw [forest.route_eq split]
  rw [forest.lineage_of_member inside] at split
  have longer : world.lineage other = (above ++ [member]) ++ world.lineage ref := by simpa using split
  rw [forest.route_eq longer]
  simp

/-- Members stand in the order of their names. -/
private theorem pairwise_members (scope : Ref) :
    (world.members scope).values.Pairwise fun first second => world.nameOf first < world.nameOf second := by
  refine List.pairwise_map.mpr ((world.members scope).ordered.imp_of_mem ?_)
  intro first second here there before
  have named (entry : String × Ref) (inside : entry ∈ (world.members scope).entries) : world.nameOf entry.2 = entry.1 :=
    (forest.members (Table.find?_eq_some_iff.mpr inside)).1
  rwa [named first here, named second there]

/-- On a tour the routes ascend: a scope comes before what is below it, and that before what is below a later member. -/
private theorem pairwise_descendWithin (fuel : Nat) (enough : world.heap.size + 1 < fuel + (world.lineage ref).length) :
    (descendWithin fuel world ref).Pairwise fun first second => world.route ref first < world.route ref second := by
  induction fuel generalizing ref with
  | zero => exact absurd enough (forest.not_enough ref)
  | succ fuel ih =>
    have route {member : Ref} (inside : member ∈ (world.members ref).values) {other : Ref}
        (below : other ∈ descendWithin fuel world member) :
        world.route ref other = world.nameOf member :: world.route member other :=
      forest.route_below inside ((forest.mem_descendWithin fuel (forest.enough_below enough inside)).mp below)
    rw [descendWithin]
    refine List.pairwise_cons.mpr ⟨fun other below => ?_, List.pairwise_flatMap.mpr ⟨fun member inside => ?_, ?_⟩⟩
    · obtain ⟨member, inside, below⟩ := List.mem_flatMap.mp below
      rw [forest.route_self, route inside below]
      exact List.nil_lt_cons ..
    · refine (ih (forest.enough_below enough inside)).imp_of_mem fun here there before => ?_
      rw [route inside here, route inside there]
      exact List.cons_lt_cons_iff.mpr (.inr ⟨rfl, before⟩)
    · refine (forest.pairwise_members ref).imp_of_mem fun first second before one here other there => ?_
      rw [route first here, route second there]
      exact List.cons_lt_cons_iff.mpr (.inl before)

end Forest

private theorem object?_visit (ref : Ref) :
    (world.visit ref).object? = if (world.kindOf ref).isScope then none else some ref := by
  unfold visit
  split <;> rfl

private theorem scope?_visit (ref : Ref) :
    (world.visit ref).scope? = if (world.kindOf ref).isScope then some ref else none := by
  unfold visit
  split <;> rfl

private theorem ref_visit (ref : Ref) : (world.visit ref).ref = ref := by
  unfold visit
  split <;> rfl

private theorem tag?_leaves (kind : Kind) : Tour.leaves.tag? kind = if kind.isScope then none else some "object" := by
  cases kind <;> rfl

/-- Accepting a visitor that has something to do for objects alone comes to an end in one way. The visitor is shown each
object below the scope that is no scope itself, once and nothing else, it goes on to the members of the scope and of
every scope below it, once each, and it does all this in the order of the routes from the scope. -/
theorem tour_visits_each_once (ongoing : world.Ongoing) (isScope : (world.kindOf top).isScope = true) :
    ∃ calls, (∀ other, world.Accepts top other ↔ other = calls) ∧
      (calls.filterMap Visit.object?).Nodup ∧
      (∀ ref, ref ∈ calls.filterMap Visit.object? ↔ world.Descendant top ref ∧ (world.kindOf ref).isScope = false) ∧
      (calls.filterMap Visit.scope?).Nodup ∧
      (∀ ref, ref ∈ calls.filterMap Visit.scope? ↔
        (ref = top ∨ world.Descendant top ref) ∧ (world.kindOf ref).isScope = true) ∧
      calls.Pairwise (fun first second => world.route top first.ref < world.route top second.ref) ∧
      calls = (world.descend top).map world.visit ∧
      world.tour .leaves top = (calls.filterMap Visit.object?).map fun ref => ("object", world.fullName ref) := by
  have forest := ongoing.sound.forest
  have enough : world.heap.size + 1 < world.heap.size + 1 + (world.lineage top).length := by
    rw [forest.lineage_eq top, List.length_cons]
    omega
  have accepts : world.Accepts top ((world.descend top).map world.visit) := forest.accepts_descendWithin _ enough
  have ascends : (world.descend top).Pairwise fun first second => world.route top first < world.route top second :=
    forest.pairwise_descendWithin _ enough
  have distinct : (world.descend top).Nodup := by
    refine ascends.imp fun before same => ?_
    rw [same] at before
    exact List.lt_irrefl _ before
  have met (ref : Ref) : ref ∈ world.descend top ↔ ref = top ∨ world.Descendant top ref := by
    rw [descend, forest.mem_descendWithin _ enough, Relation.reflTransGen_iff_eq_or_transGen, eq_comm]
    rfl
  have objects : ((world.descend top).map world.visit).filterMap Visit.object? =
      (world.descend top).filter fun ref => !(world.kindOf ref).isScope := by
    rw [List.filterMap_map, ← List.filterMap_eq_filter]
    refine List.filterMap_congr fun ref _ => ?_
    cases kind : (world.kindOf ref).isScope <;> simp [object?_visit, Option.guard, kind]
  have scopes : ((world.descend top).map world.visit).filterMap Visit.scope? =
      (world.descend top).filter fun ref => (world.kindOf ref).isScope := by
    rw [List.filterMap_map, ← List.filterMap_eq_filter]
    refine List.filterMap_congr fun ref _ => ?_
    cases kind : (world.kindOf ref).isScope <;> simp [scope?_visit, Option.guard, kind]
  refine ⟨_, fun other => ⟨accepts.unique, fun same => same ▸ accepts⟩, ?_, fun ref => ?_, ?_, fun ref => ?_, ?_, rfl, ?_⟩
  · rw [objects]
    exact distinct.filter _
  · rw [objects, List.mem_filter, met, Bool.not_eq_true']
    refine and_congr_left fun solid => or_iff_right ?_
    rintro rfl
    rw [isScope] at solid
    cases solid
  · rw [scopes]
    exact distinct.filter _
  · rw [scopes, List.mem_filter, met]
  · refine List.pairwise_map.mpr (ascends.imp fun before => ?_)
    rwa [ref_visit, ref_visit]
  · rw [objects, tour, ← List.filterMap_eq_map, List.filterMap_filter]
    refine List.filterMap_congr fun ref _ => ?_
    rw [tag?_leaves]
    cases (world.kindOf ref).isScope <;> rfl

/-- A scope with an operator, which has made its built-in name, between two variables. -/
def withOperator : World :=
  (World.runAll {} [
    { action := .create (.scope "top"), name := some "t" },
    { action := .create (.value "z" (.text "last")), name := some "v" },
    { action := .scope (.register (.handle "v")), target := some "t" },
    { action := .create (.plain "a"), name := some "w" },
    { action := .scope (.register (.handle "w")), target := some "t" },
    { action := .create (.operator "middle" .echo), name := some "m" },
    { action := .scope (.register (.handle "m")), target := some "t" },
    { action := .scope (.member "name"), target := some "m", name := some "n" }]).2

theorem tour_visits_each_once_around_operator :
    withOperator.Ongoing ∧ (withOperator.kindOf 0).isScope = true ∧
      withOperator.Accepts 0 [.members 0, .object 2, .members 3, .object 4, .object 1] := by
  have ongoing : withOperator.Ongoing := Reachable.ongoing (.runAll (.start {}) _)
  have isScope : (withOperator.kindOf 0).isScope = true := by decide +kernel
  obtain ⟨calls, accepts, _, _, _, _, _, same, _⟩ := tour_visits_each_once ongoing isScope
  have met : (withOperator.descend 0).map withOperator.visit =
      [.members 0, .object 2, .members 3, .object 4, .object 1] := by decide +kernel
  exact ⟨ongoing, isScope, (accepts _).mpr (met.symm.trans same.symm)⟩

end World

end Dialogue
