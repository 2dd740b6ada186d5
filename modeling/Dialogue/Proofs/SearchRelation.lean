import Dialogue.Proofs.TrailSearch

/-! The search with a trail as a relation, with a rule for each way that a call can go. It holds of the results
of calls and of nothing else, and it does not know how much fuel was spent. What is true of every search is shown
by induction on it. -/

namespace Dialogue

open World

inductive Searched : Trail → World → Goal → List String → Search → Prop where
  | ended {trail world scope} : Searched trail world (.scope scope) [] ⟨none, trail, world⟩
  | unnamed {trail world scope rest} : Searched trail world (.scope scope) ("" :: rest) ⟨none, trail, world⟩
  | answered {trail world scope head member} (named : head ≠ "")
      (found : ((world.materialize scope head).members scope).find? head = some member) :
      Searched trail world (.scope scope) [head] ⟨some member, trail, world.materialize scope head⟩
  | descended {trail world scope head next rest member result} (named : head ≠ "")
      (found : ((world.materialize scope head).members scope).find? head = some member)
      (inner : ((world.materialize scope head).kindOf member).isScope = true)
      (search : Searched trail (world.materialize scope head) (.scope member) (next :: rest) result) :
      Searched trail world (.scope scope) (head :: next :: rest) result
  | blocked {trail world scope head next rest member} (named : head ≠ "")
      (found : ((world.materialize scope head).members scope).find? head = some member)
      (solid : ((world.materialize scope head).kindOf member).isScope = false) :
      Searched trail world (.scope scope) (head :: next :: rest) ⟨none, trail, world.materialize scope head⟩
  | passed {trail world scope head rest result} (named : head ≠ "")
      (absent : ((world.materialize scope head).members scope).find? head = none)
      (search : Searched ((scope, rest.length + 1) :: trail) (world.materialize scope head)
        (.imports ((world.materialize scope head).imports scope)) (head :: rest) result) :
      Searched trail world (.scope scope) (head :: rest) result
  | exhausted {trail world segments} : Searched trail world (.imports []) segments ⟨none, trail, world⟩
  | skipped {trail world imported rest segments result}
      (skip : (imported, segments.length) ∈ trail ∨ world.isLive imported = false)
      (search : Searched trail world (.imports rest) segments result) :
      Searched trail world (.imports (imported :: rest)) segments result
  | hit {trail world imported rest segments result} (fresh : (imported, segments.length) ∉ trail)
      (live : world.isLive imported = true) (search : Searched trail world (.scope imported) segments result)
      (isSome : result.answer.isSome = true) : Searched trail world (.imports (imported :: rest)) segments result
  | missed {trail world imported rest segments first result} (fresh : (imported, segments.length) ∉ trail)
      (live : world.isLive imported = true) (here : Searched trail world (.scope imported) segments first)
      (nothing : first.answer = none) (search : Searched first.trail first.world (.imports rest) segments result) :
      Searched trail world (.imports (imported :: rest)) segments result

namespace Searched

variable {trail : Trail} {world : World} {goal : Goal} {scope : Ref} {segments : List String} {found : Search}

/-- The trail is only written on. -/
theorem suffix (search : Searched trail world goal segments found) : trail <:+ found.trail := by
  induction search with
  | ended | unnamed | answered | blocked | exhausted => exact List.suffix_rfl
  | descended _ _ _ _ ih | skipped _ _ ih | hit _ _ _ _ ih => exact ih
  | passed _ _ _ ih => exact (List.suffix_cons ..).trans ih
  | missed _ _ _ _ _ ihHere ih => exact ihHere.trans ih

/-- What holds from one world to the next while members are looked up holds over a search. -/
theorem preserves (relation : World → World → Prop) (refl : ∀ world, relation world world)
    (trans : ∀ {world middle last}, relation world middle → relation middle last → relation world last)
    (looks : ∀ world scope name, relation world (world.materialize scope name))
    (search : Searched trail world goal segments found) : relation world found.world := by
  induction search with
  | ended | unnamed | exhausted => exact refl _
  | answered | blocked => exact looks ..
  | descended _ _ _ _ ih | passed _ _ _ ih => exact trans (looks ..) ih
  | skipped _ _ ih | hit _ _ _ _ ih => exact ih
  | missed _ _ _ _ _ ihHere ih => exact trans ihHere ih

theorem grows (search : Searched trail world goal segments found) : world.Grows found.world :=
  search.preserves Grows (fun _ => .refl) .trans grows_materialize

/-- What a search finds is a member when the search is over. -/
theorem answer_is_member (search : Searched trail world goal segments found) {answer : Ref}
    (same : found.answer = some answer) : ∃ scope name, (found.world.members scope).find? name = some answer := by
  induction search with
  | ended | unnamed | blocked | exhausted => cases same
  | answered _ present =>
    cases same
    exact ⟨_, _, present⟩
  | descended _ _ _ _ ih | passed _ _ _ ih | skipped _ _ ih | hit _ _ _ _ ih | missed _ _ _ _ _ _ ih => exact ih same

end Searched

/-- What a call does with so much fuel, or the loop over imports with so much for each of them. -/
def Goal.run (fuel : Nat) (world : World) (trail : Trail) (segments : List String) : Goal → Option Search
  | .scope start => searchWithin fuel world trail start segments
  | .imports list => Search.through (fun world trail imported => searchWithin fuel world trail imported segments)
      segments.length list world trail

section Runs

variable {trail : Trail} {world : World} {goal : Goal} {scope : Ref} {segments : List String} {found : Search}

private theorem searched_through {inner : World → Trail → Ref → Option Search}
    (each : ∀ {world trail imported found}, inner world trail imported = some found →
      Searched trail world (.scope imported) segments found)
    (imports : List Ref) (ended : Search.through inner segments.length imports world trail = some found) :
    Searched trail world (.imports imports) segments found := by
  induction imports generalizing world trail with
  | nil =>
    cases ended
    exact .exhausted
  | cons imported rest ih =>
    unfold Search.through at ended
    split at ended
    next skip => exact .skipped (skipped_iff.mp skip) (ih ended)
    next entered =>
      rw [skipped_iff, not_or, Bool.not_eq_false] at entered
      obtain ⟨fresh, live⟩ := entered
      obtain ⟨first, searched, ended⟩ := Option.bind_eq_some_iff.mp ended
      split at ended
      next isSome =>
        cases ended
        exact .hit fresh live (each searched) isSome
      next isNone => exact .missed fresh live (each searched) (Option.not_isSome_iff_eq_none.mp isNone) (ih ended)

theorem searched_searchWithin (fuel : Nat) (ended : searchWithin fuel world trail scope segments = some found) :
    Searched trail world (.scope scope) segments found := by
  induction fuel generalizing world trail scope segments found with
  | zero => cases ended
  | succ fuel ih =>
    cases segments with
    | nil =>
      cases ended
      exact .ended
    | cons head rest =>
      unfold searchWithin at ended
      split at ended
      next empty =>
        cases ended
        obtain rfl := String.isEmpty_iff.mp empty
        exact .unnamed
      next nonempty =>
        have named : head ≠ "" := fun empty => nonempty (String.isEmpty_iff.mpr empty)
        dsimp only at ended
        split at ended
        next member present =>
          cases rest with
          | nil =>
            cases ended
            exact .answered named present
          | cons next rest =>
            rw [List.isEmpty_cons, if_neg Bool.false_ne_true] at ended
            split at ended
            next inner => exact .descended named present inner (ih ended)
            next solid =>
              cases ended
              exact .blocked named present (Bool.not_eq_true _ ▸ solid)
        next absent => exact .passed named absent (searched_through ih _ ended)

/-- A resolution is a search, from the root or from the scope, unless there is nothing to search. -/
theorem searched_resolve {id : Identifier} (ended : world.resolve scope id = some found) :
    found = ⟨none, [], world⟩ ∨ ∃ start segments, Searched [] world (.scope start) segments found := by
  unfold resolve at ended
  split at ended
  next =>
    split at ended
    next => exact .inr ⟨_, _, searched_searchWithin _ ended⟩
    next => exact .inl (Option.some.inj ended).symm
  next => exact .inr ⟨_, _, searched_searchWithin _ ended⟩

/-- A call needs fuel for itself and for what it calls. -/
theorem runs_of_succ {run : Nat → Prop} (enough : Nat) (runs : ∀ fuel, enough ≤ fuel → run (fuel + 1)) :
    ∃ enough, ∀ fuel, enough ≤ fuel → run fuel := by
  refine ⟨enough + 1, fun fuel more => ?_⟩
  obtain ⟨left, rfl⟩ := Nat.exists_eq_add_of_le' more
  exact runs (left + enough) (Nat.le_add_left ..)

/-- A result is come to with any fuel from some amount on. -/
theorem Searched.runs (search : Searched trail world goal segments found) :
    ∃ enough, ∀ fuel, enough ≤ fuel → goal.run fuel world trail segments = some found := by
  induction search with
  | ended => exact runs_of_succ 0 fun fuel _ => rfl
  | unnamed => exact runs_of_succ 0 fun fuel _ => rfl
  | answered named found =>
    refine runs_of_succ 0 fun fuel _ => ?_
    simp [Goal.run, searchWithin, named, found]
  | descended named found inner search ih =>
    obtain ⟨enough, runs⟩ := ih
    refine runs_of_succ enough fun fuel more => ?_
    simp only [Goal.run] at runs
    simp [Goal.run, searchWithin, named, found, inner, runs fuel more]
  | blocked named found solid =>
    refine runs_of_succ 0 fun fuel _ => ?_
    simp [Goal.run, searchWithin, named, found, solid]
  | passed named absent search ih =>
    obtain ⟨enough, runs⟩ := ih
    refine runs_of_succ enough fun fuel more => ?_
    simp only [Goal.run, List.length_cons] at runs
    simp [Goal.run, searchWithin, named, absent, runs fuel more]
  | exhausted => exact ⟨0, fun fuel _ => rfl⟩
  | skipped skip search ih =>
    obtain ⟨enough, runs⟩ := ih
    refine ⟨enough, fun fuel more => ?_⟩
    rw [Goal.run, Search.through, if_pos (skipped_iff.mpr skip)]
    exact runs fuel more
  | hit fresh live search isSome ih =>
    obtain ⟨enough, runs⟩ := ih
    refine ⟨enough, fun fuel more => ?_⟩
    have here := runs fuel more
    simp only [Goal.run] at here
    simp [Goal.run, Search.through, fresh, live, here, isSome]
  | missed fresh live here nothing search ihHere ih =>
    obtain ⟨enough, runs⟩ := ih
    obtain ⟨first, runsHere⟩ := ihHere
    refine ⟨max first enough, fun fuel more => ?_⟩
    have here := runsHere fuel (le_of_max_le_left more)
    have later := runs fuel (le_of_max_le_right more)
    simp only [Goal.run] at here later
    simp [Goal.run, Search.through, fresh, live, here, nothing, later]

/-- There is only one result. -/
theorem Searched.unique {other : Search} (search : Searched trail world goal segments found)
    (again : Searched trail world goal segments other) : found = other := by
  obtain ⟨enough, runs⟩ := search.runs
  obtain ⟨second, runsAgain⟩ := again.runs
  have first := runs (max enough second) (le_max_left ..)
  rw [runsAgain _ (le_max_right ..)] at first
  exact (Option.some.inj first).symm

end Runs

end Dialogue
