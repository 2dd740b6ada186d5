import Dialogue.Proofs.ResolutionAgreement
import Dialogue.Proofs.SearchRelation

/-! The search ends because every call makes smaller ones. A call either searches for fewer segments or enters a
scope by an import, for as many segments as before, that has not been searched for so many. There are only so many
scopes to enter, and the trail forgets none of them. -/

namespace Dialogue

open World

/-- A call of the search: the world and the trail that it starts with, the scope and the segments. -/
structure Call where
  world : World
  trail : Trail
  scope : Ref
  segments : List String

/-- How far the loop over imports has come: the world, the trail and the imports that are left. -/
inductive Passes (segments : List String) (world : World) (trail : Trail) (imports : List Ref) :
    World → Trail → List Ref → Prop where
  | start : Passes segments world trail imports world trail imports
  | skipped {here now imported rest} (passes : Passes segments world trail imports here now (imported :: rest))
      (skip : (imported, segments.length) ∈ now ∨ here.isLive imported = false) :
      Passes segments world trail imports here now rest
  | missed {here now imported rest found} (passes : Passes segments world trail imports here now (imported :: rest))
      (fresh : (imported, segments.length) ∉ now) (live : here.isLive imported = true)
      (search : Searched now here (.scope imported) segments found) (nothing : found.answer = none) :
      Passes segments world trail imports found.world found.trail rest

/-- The calls that a call makes: one for a member, and one for each import that the loop comes to. -/
inductive Makes : Call → Call → Prop where
  | descends {world trail scope head next rest member} (named : head ≠ "")
      (found : ((world.materialize scope head).members scope).find? head = some member)
      (inner : ((world.materialize scope head).kindOf member).isScope = true) :
      Makes ⟨world, trail, scope, head :: next :: rest⟩ ⟨world.materialize scope head, trail, member, next :: rest⟩
  | enters {world trail scope head rest here now imported more} (named : head ≠ "")
      (absent : ((world.materialize scope head).members scope).find? head = none)
      (passes : Passes (head :: rest) (world.materialize scope head) ((scope, rest.length + 1) :: trail)
        ((world.materialize scope head).imports scope) here now (imported :: more))
      (fresh : (imported, rest.length + 1) ∉ now) (live : here.isLive imported = true) :
      Makes ⟨world, trail, scope, head :: rest⟩ ⟨here, now, imported, head :: rest⟩

namespace Passes

variable {segments : List String} {world here : World} {trail now : Trail} {imports left : List Ref}

private theorem trail_suffix (passes : Passes segments world trail imports here now left) : trail <:+ now := by
  induction passes with
  | start => exact List.suffix_rfl
  | skipped _ _ ih => exact ih
  | missed _ _ _ search _ ih => exact ih.trans search.suffix

private theorem left_suffix (passes : Passes segments world trail imports here now left) : left <:+ imports := by
  induction passes with
  | start => exact List.suffix_rfl
  | skipped _ _ ih | missed _ _ _ _ _ ih => exact (List.suffix_cons ..).trans ih

theorem grows (passes : Passes segments world trail imports here now left) : world.Grows here := by
  induction passes with
  | start => exact .refl
  | skipped _ _ ih => exact ih
  | missed _ _ _ search _ ih => exact ih.trans search.grows

/-- The loop ends if all calls that it comes to do. -/
theorem ends (passes : Passes segments world trail imports here now left)
    (each : ∀ {here now imported more}, Passes segments world trail imports here now (imported :: more) →
      (imported, segments.length) ∉ now → here.isLive imported = true →
      ∃ found, Searched now here (.scope imported) segments found) :
    ∃ found, Searched now here (.imports left) segments found := by
  induction left generalizing here now with
  | nil => exact ⟨_, .exhausted⟩
  | cons imported rest ih =>
    by_cases skip : (imported, segments.length) ∈ now ∨ here.isLive imported = false
    · obtain ⟨found, search⟩ := ih (.skipped passes skip)
      exact ⟨found, .skipped skip search⟩
    · rw [not_or, Bool.not_eq_false] at skip
      obtain ⟨fresh, live⟩ := skip
      obtain ⟨first, here⟩ := each passes fresh live
      -- The next import is searched in the world that this call leaves, with the trail it leaves.
      cases answer : first.answer with
      | some member => exact ⟨first, .hit fresh live here (by rw [answer]; rfl)⟩
      | none =>
        obtain ⟨found, search⟩ := ih (.missed passes fresh live here answer)
        exact ⟨found, .missed fresh live here answer search⟩

end Passes

namespace Call

variable {size : Nat} {call caller callee : Call}

/-- What a call puts on the trail when it has no member for its first segment. -/
def mark (call : Call) : Ref × Nat := (call.scope, call.segments.length)

/-- The call comes to a result. -/
def Returns (call : Call) (found : Search) : Prop :=
  Searched call.trail call.world (.scope call.scope) call.segments found

/-- A call ends if all the calls that it makes do. -/
private theorem returns_of_makes (each : ∀ callee, Makes call callee → ∃ found, callee.Returns found) :
    ∃ found, call.Returns found := by
  obtain ⟨world, trail, scope, segments⟩ := call
  unfold Returns at *
  cases segments with
  | nil => exact ⟨_, .ended⟩
  | cons head rest =>
    by_cases named : head = ""
    · rw [named]
      exact ⟨_, .unnamed⟩
    · cases found : ((world.materialize scope head).members scope).find? head with
      | some member =>
        cases rest with
        | nil => exact ⟨_, .answered named found⟩
        | cons next rest =>
          cases inner : ((world.materialize scope head).kindOf member).isScope with
          | false => exact ⟨_, .blocked named found inner⟩
          | true =>
            obtain ⟨result, search⟩ := each _ (.descends named found inner)
            exact ⟨result, .descended named found inner search⟩
      | none =>
        obtain ⟨result, search⟩ := Passes.start.ends fun passes fresh live => each _ (.enters named found passes fresh live)
        exact ⟨result, .passed named found search⟩

/-- A call for a member has fewer segments. A call for an import has as many, and what it could put on the trail is
not there yet, while what its caller puts there already is. -/
theorem step (makes : Makes caller callee) :
    callee.segments.length < caller.segments.length ∧ callee.trail = caller.trail ∨
      callee.segments = caller.segments ∧ callee.mark ∉ callee.trail ∧ caller.mark :: caller.trail <:+ callee.trail := by
  cases makes with
  | descends => exact .inl ⟨Nat.lt_succ_self _, rfl⟩
  | enters _ _ passes fresh => exact .inr ⟨rfl, fresh, passes.trail_suffix⟩

/-- All imports of the world go to the first identities. -/
def Bounded (size : Nat) (call : Call) : Prop :=
  ∀ {scope imported}, imported ∈ call.world.imports scope → imported < size

theorem Bounded.step (bounded : caller.Bounded size) (makes : Makes caller callee) : callee.Bounded size := by
  intro scope imported member
  cases makes with
  | @descends world _ start head =>
    rw [(grows_materialize world start head).imports] at member
    exact bounded member
  | @enters world _ start head _ _ _ _ _ _ _ passes =>
    rw [passes.grows.imports, (grows_materialize world start head).imports] at member
    exact bounded member

/-- How many calls for imports are left at most. -/
def rank (size : Nat) (call : Call) : Nat := entries size (call.mark :: call.trail) call.segments.length

private theorem rank_lt (bounded : caller.Bounded size) (makes : Makes caller callee) :
    callee.rank size < caller.rank size := by
  cases makes with
  | descends => exact entries_lt
  | @enters world trail scope head rest here now imported more _ _ passes fresh =>
    have entered : imported ∈ world.imports scope := by
      rw [← (grows_materialize world scope head).imports]
      exact passes.left_suffix.subset List.mem_cons_self
    exact (entries_cons_lt (bounded entered) fresh).trans_le (entries_mono passes.trail_suffix.subset)

/-- There is no endless chain of calls. -/
private theorem acc_of_bounded (bounded : call.Bounded size) : Acc (fun callee caller => Makes caller callee) call := by
  induction left : call.rank size using Nat.strong_induction_on generalizing call with
  | h left ih =>
    subst left
    exact .intro _ fun callee makes => ih _ (rank_lt bounded makes) (bounded.step makes) rfl

private theorem returns_of_acc (acc : Acc (fun callee caller => Makes caller callee) call) :
    ∃ found, call.Returns found := by
  induction acc with
  | intro call _ ih => exact returns_of_makes ih

end Call

namespace World

variable {world : World}

/-- More fuel than the search is given changes nothing. -/
theorem Sound.runs_search (sound : world.Sound) {scope : Ref} {segments : List String} {found : Search}
    (returns : Call.Returns ⟨world, [], scope, segments⟩ found) {fuel : Nat} (enough : world.searchFuel segments ≤ fuel) :
    searchWithin fuel world [] scope segments = some found := by
  have long : ∀ mark ∈ ([] : Path), segments.length ≤ mark.2 := fun _ member => nomatch member
  obtain ⟨other, ended⟩ := ends_searchWithin scope fuel List.suffix_rfl long (sound.underway segments)
    ((Nat.lt_succ_of_le entries_le).trans_le enough)
  rw [ended, (searched_searchWithin fuel ended).unique returns]

theorem Sound.resolve_ends (sound : world.Sound) (scope : Ref) (id : Identifier) :
    ∃ found, world.resolve scope id = some found := by
  have ends (start : Ref) (segments : List String) : ∃ found, world.search start segments = some found := by
    obtain ⟨found, ended, -⟩ := sound.agrees_search start segments
    exact ⟨found, ended⟩
  unfold resolve
  split
  · split
    · exact ends ..
    · exact ⟨_, rfl⟩
  · exact ends ..

/-- Every search in a world that a session reaches ends: no chain of calls is endless, each call is smaller than the
one that makes it, and a result is come to within the fuel, whoever asks for what. -/
theorem search_ends (reached : Reachable world) :
    (∀ scope segments, Acc (fun callee caller => Makes caller callee) ⟨world, [], scope, segments⟩) ∧
    (∀ caller callee, Makes caller callee →
      callee.segments.length < caller.segments.length ∧ callee.trail = caller.trail ∨
        callee.segments = caller.segments ∧ callee.mark ∉ callee.trail ∧
          caller.mark :: caller.trail <:+ callee.trail) ∧
    (∀ scope segments, ∃ found, Call.Returns ⟨world, [], scope, segments⟩ found ∧
      ∀ fuel, world.searchFuel segments ≤ fuel → searchWithin fuel world [] scope segments = some found) ∧
    (∀ scope id, ∃ found, world.resolve scope id = some found) := by
  have sound := reached.sound
  have ends (scope : Ref) (segments : List String) :
      Acc (fun callee caller => Makes caller callee) ⟨world, [], scope, segments⟩ :=
    Call.acc_of_bounded sound.forest.imports
  refine ⟨ends, fun _ _ => Call.step, fun scope segments => ?_, sound.resolve_ends⟩
  obtain ⟨found, returns⟩ := Call.returns_of_acc (ends scope segments)
  exact ⟨found, returns, fun _ => sound.runs_search returns⟩

/-- Two scopes that import each other, one of which is a member of the other. -/
def entangled : World :=
  (World.runAll {} [
    { action := .create (.scope "outer"), name := some "o" },
    { action := .create (.scope "inner"), name := some "i" },
    { action := .scope (.register (.handle "i")), target := some "o" },
    { action := .scope (.importScope (.handle "o")), target := some "i" },
    { action := .scope (.importScope (.handle "i")), target := some "o" }]).2

/-- The outer scope is searched for three segments, and by imports again for two and for one. -/
theorem search_ends_entangled :
    Reachable entangled ∧ ∃ found, entangled.resolve 0 (.parse "inner:inner:goal") = some found := by
  have reached : Reachable entangled := .runAll (.start {}) _
  exact ⟨reached, (search_ends reached).2.2.2 0 _⟩

end World

end Dialogue
