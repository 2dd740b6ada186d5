import Dialogue.Proofs.BuiltinMembers
import Dialogue.Scopes.Resolution

/-! Resolution without a memory. Only a scope that is being searched for as many segments further up is
left out; a scope that was searched in vain before is searched again. Looking up a name may make a
built-in member, so the search leads from one world to another. -/

namespace Dialogue

/-- The scopes that are being searched, each with the number of segments that are left. -/
abbrev Path := List (Ref × Nat)

/-- What is searched: a scope, or imported scopes until one has the answer. -/
inductive Goal where
  | scope (scope : Ref)
  | imports (imported : List Ref)

inductive PlainSearch : Path → World → Goal → List String → Option Ref → World → Prop where
  | ended {path world scope} : PlainSearch path world (.scope scope) [] none world
  | unnamed {path world scope rest} : PlainSearch path world (.scope scope) ("" :: rest) none world
  /-- A member for the last segment is the answer. -/
  | answered {path world scope head member} (named : head ≠ "")
      (found : ((world.materialize scope head).members scope).find? head = some member) :
      PlainSearch path world (.scope scope) [head] (some member) (world.materialize scope head)
  /-- A member for another segment is searched for the rest, and nothing else is. -/
  | descended {path world scope head next rest member answer after} (named : head ≠ "")
      (found : ((world.materialize scope head).members scope).find? head = some member)
      (inner : ((world.materialize scope head).kindOf member).isScope = true)
      (search : PlainSearch path (world.materialize scope head) (.scope member) (next :: rest) answer after) :
      PlainSearch path world (.scope scope) (head :: next :: rest) answer after
  | blocked {path world scope head next rest member} (named : head ≠ "")
      (found : ((world.materialize scope head).members scope).find? head = some member)
      (solid : ((world.materialize scope head).kindOf member).isScope = false) :
      PlainSearch path world (.scope scope) (head :: next :: rest) none (world.materialize scope head)
  /-- Without a member the imports are searched for all segments. -/
  | passed {path world scope head rest answer after} (named : head ≠ "")
      (absent : ((world.materialize scope head).members scope).find? head = none)
      (search : PlainSearch ((scope, rest.length + 1) :: path) (world.materialize scope head)
        (.imports ((world.materialize scope head).imports scope)) (head :: rest) answer after) :
      PlainSearch path world (.scope scope) (head :: rest) answer after
  | exhausted {path world segments} : PlainSearch path world (.imports []) segments none world
  | cut {path world imported rest segments answer after} (underway : (imported, segments.length) ∈ path)
      (search : PlainSearch path world (.imports rest) segments answer after) :
      PlainSearch path world (.imports (imported :: rest)) segments answer after
  | gone {path world imported rest segments answer after} (dead : world.isLive imported = false)
      (search : PlainSearch path world (.imports rest) segments answer after) :
      PlainSearch path world (.imports (imported :: rest)) segments answer after
  | hit {path world imported rest segments answer after} (fresh : (imported, segments.length) ∉ path)
      (live : world.isLive imported = true)
      (search : PlainSearch path world (.scope imported) segments (some answer) after) :
      PlainSearch path world (.imports (imported :: rest)) segments (some answer) after
  | missed {path world imported rest segments answer middle after} (fresh : (imported, segments.length) ∉ path)
      (live : world.isLive imported = true)
      (first : PlainSearch path world (.scope imported) segments none middle)
      (search : PlainSearch path middle (.imports rest) segments answer after) :
      PlainSearch path world (.imports (imported :: rest)) segments answer after

/-- The plain search comes to one result at most. -/
theorem PlainSearch.unique {path : Path} {world first second : World} {goal : Goal} {segments : List String}
    {answer other : Option Ref} (search : PlainSearch path world goal segments answer first)
    (again : PlainSearch path world goal segments other second) : answer = other ∧ first = second := by
  induction search generalizing other second with
  | ended => cases again; exact ⟨rfl, rfl⟩
  | unnamed =>
    cases again with
    | unnamed => exact ⟨rfl, rfl⟩
    | answered named | descended named | blocked named | passed named => exact absurd rfl named
  | answered named found =>
    cases again with
    | unnamed => exact absurd rfl named
    | answered _ same => exact ⟨found.symm.trans same, rfl⟩
    | passed _ absent => rw [found] at absent; cases absent
  | descended named found inner search ih =>
    cases again with
    | unnamed => exact absurd rfl named
    | descended _ same _ rest =>
      rw [found] at same
      cases same
      exact ih rest
    | blocked _ same solid =>
      rw [found] at same
      cases same
      rw [inner] at solid
      cases solid
    | passed _ absent => rw [found] at absent; cases absent
  | blocked named found solid =>
    cases again with
    | unnamed => exact absurd rfl named
    | descended _ same inner =>
      rw [found] at same
      cases same
      rw [inner] at solid
      cases solid
    | blocked => exact ⟨rfl, rfl⟩
    | passed _ absent => rw [found] at absent; cases absent
  | passed named absent search ih =>
    cases again with
    | unnamed => exact absurd rfl named
    | answered _ found | descended _ found | blocked _ found => rw [found] at absent; cases absent
    | passed _ _ rest => exact ih rest
  | exhausted => cases again; exact ⟨rfl, rfl⟩
  | cut underway search ih =>
    cases again with
    | cut _ rest | gone _ rest => exact ih rest
    | hit fresh | missed fresh => exact absurd underway fresh
  | gone dead search ih =>
    cases again with
    | cut _ rest | gone _ rest => exact ih rest
    | hit _ live | missed _ live => rw [live] at dead; cases dead
  | hit fresh live search ih =>
    cases again with
    | cut underway => exact absurd underway fresh
    | gone dead => rw [live] at dead; cases dead
    | hit _ _ rest => exact ih rest
    | missed _ _ failed => cases (ih failed).1
  | missed fresh live first search ihFirst ih =>
    cases again with
    | cut underway => exact absurd underway fresh
    | gone dead => rw [live] at dead; cases dead
    | hit _ _ found => cases (ihFirst found).1
    | missed _ _ failed rest =>
      obtain ⟨-, rfl⟩ := ihFirst failed
      exact ih rest

end Dialogue
