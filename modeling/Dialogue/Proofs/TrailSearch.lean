import Dialogue.Proofs.PlainSearch
import Mathlib.Data.Finset.Card

/-! The search with a trail comes to the result of the plain search. What stands on the trail and is no
longer being searched has no member for its segment, and all its imports were searched in vain, through
the trail or by a member that led nowhere. Such a scope yields nothing to the plain search either, and
makes no member on the way, because it has settled the name. -/

namespace Dialogue

namespace World

variable {world after : World}

theorem materialize_of_settled {scope : Ref} {name : String} (settled : world.Settled scope name) :
    world.materialize scope name = world := by
  rcases materialize_cases world scope name with ⟨-, same⟩ | ⟨builtin, named, unclaimed, -⟩
  · exact same
  · exact absurd (settled builtin named) unclaimed

/-- A world in which names have been looked up. -/
structure Grows (world after : World) : Prop where
  settled : ∀ {scope name}, world.Settled scope name → after.Settled scope name
  members : ∀ {scope name}, world.Settled scope name →
    (after.members scope).find? name = (world.members scope).find? name
  imports : ∀ scope, after.imports scope = world.imports scope
  isScope : ∀ ref, (after.kindOf ref).isScope = (world.kindOf ref).isScope
  size : world.heap.size ≤ after.heap.size
  isLive : ∀ ref < world.heap.size, after.isLive ref = world.isLive ref

namespace Grows

theorem refl : world.Grows world := ⟨id, fun _ => rfl, fun _ => rfl, fun _ => rfl, Nat.le_refl _, fun _ _ => rfl⟩

theorem trans {last : World} (first : world.Grows after) (second : after.Grows last) : world.Grows last where
  settled settled := second.settled (first.settled settled)
  members settled := (second.members (first.settled settled)).trans (first.members settled)
  imports scope := (second.imports scope).trans (first.imports scope)
  isScope ref := (second.isScope ref).trans (first.isScope ref)
  size := first.size.trans second.size
  isLive ref old := (second.isLive ref (old.trans_le first.size)).trans (first.isLive ref old)

end Grows

theorem kindOf_of_size_le {ref : Ref} (beyond : world.heap.size ≤ ref) : world.kindOf ref = .plain := by
  rw [kindOf_eq, shape?_of_size_le beyond]
  rfl

private theorem lt_size_of_imports {scope imported : Ref} (member : imported ∈ world.imports scope) :
    scope < world.heap.size := by
  rcases Nat.lt_or_ge scope world.heap.size with old | beyond
  · exact old
  · rw [imports_eq, shape?_of_size_le beyond] at member
    cases member

theorem isScope_made {scope : Ref} {name : String} {builtin : Builtin}
    (named : Builtin.ofName? name (world.kindOf scope) = some builtin) (ref : Ref) :
    ((world.made scope builtin).kindOf ref).isScope = (world.kindOf ref).isScope := by
  rcases Nat.lt_trichotomy ref world.heap.size with old | rfl | beyond
  · rw [kindOf_made named old]
  · rw [isScope_kindOf_made named, kindOf_of_size_le (Nat.le_refl _)]
    rfl
  · rw [kindOf_of_size_le (heap_size_made.trans_le beyond), kindOf_of_size_le (Nat.le_of_lt beyond)]

theorem grows_materialize (world : World) (scope : Ref) (name : String) :
    world.Grows (world.materialize scope name) := by
  rcases materialize_cases world scope name with ⟨-, same⟩ | ⟨builtin, named, unclaimed, made⟩
  · rw [same]
    exact .refl
  · rw [made]
    refine ⟨?_, ?_, imports_made named, isScope_made named, by rw [heap_size_made]; exact Nat.le_succ _, ?_⟩
    · intro other key settled member found
      have old : other < world.heap.size := by
        have isScope := Builtin.isScope_of_ofName? found
        rw [isScope_made named] at isScope
        exact lt_size_of_isLive (isLive_of_isScope isScope)
      rw [kindOf_made named old] at found
      rw [claimed_made named]
      split
      · exact List.mem_cons_of_mem _ (settled member found)
      · exact settled member found
    · intro other key settled
      rw [find?_made named, if_neg]
      rintro ⟨rfl, rfl⟩
      exact unclaimed (settled builtin named)
    · intro ref old
      rw [isLive_made named, beq_eq_false_iff_ne.mpr (Nat.ne_of_lt old), Bool.false_or]

end World

open World

/-- What the loop over imports leaves out. -/
theorem skipped_iff {trail : Trail} {world : World} {imported : Ref} {length : Nat} :
    (trail.contains (imported, length) || !world.isLive imported) = true ↔
      (imported, length) ∈ trail ∨ world.isLive imported = false := by
  simp

/-! Scopes that were searched in vain. -/

/-- A search from the scope for the segments comes to nothing, for one of the reasons that a search with
a trail has to give up. -/
inductive InVain (world : World) (trail : Trail) : Ref → List String → Prop where
  | searched {scope segments} (member : (scope, segments.length) ∈ trail) : InVain world trail scope segments
  | ended {scope} : InVain world trail scope []
  | unnamed {scope rest} : InVain world trail scope ("" :: rest)
  | blocked {scope head next rest member} (named : head ≠ "") (settled : world.Settled scope head)
      (found : (world.members scope).find? head = some member)
      (solid : (world.kindOf member).isScope = false) : InVain world trail scope (head :: next :: rest)
  | descended {scope head next rest member} (named : head ≠ "") (settled : world.Settled scope head)
      (found : (world.members scope).find? head = some member)
      (inner : (world.kindOf member).isScope = true) (below : InVain world trail member (next :: rest)) :
      InVain world trail scope (head :: next :: rest)

/-- A scope that has no member for the first segment and no import that could lead further. -/
structure Spent (world : World) (trail : Trail) (scope : Ref) (segments : List String) : Prop where
  head : ∃ head rest, segments = head :: rest ∧ head ≠ "" ∧ world.Settled scope head ∧
    (world.members scope).find? head = none
  imports : ∀ imported ∈ world.imports scope, world.isLive imported = true → InVain world trail imported segments

/-- Everything on the trail that is not being searched any more is spent. -/
def Trail.Spent (trail : Trail) (world : World) (path : Path) (all : List String) : Prop :=
  ∀ scope segments, segments <:+ all → (scope, segments.length) ∈ trail → (scope, segments.length) ∉ path →
    Dialogue.Spent world trail scope segments

section Growth

variable {world after : World} {trail longer : Trail} (grows : world.Grows after) (more : trail ⊆ longer)

include grows more

theorem InVain.grow {scope : Ref} {segments : List String} (vain : InVain world trail scope segments) :
    InVain after longer scope segments := by
  induction vain with
  | searched member => exact .searched (more member)
  | ended => exact .ended
  | unnamed => exact .unnamed
  | blocked named settled found solid =>
    exact .blocked named (grows.settled settled) ((grows.members settled).trans found)
      ((grows.isScope _).trans solid)
  | descended named settled found inner below ih =>
    exact .descended named (grows.settled settled) ((grows.members settled).trans found)
      ((grows.isScope _).trans inner) ih

theorem Spent.grow {scope : Ref} {segments : List String} (spent : Spent world trail scope segments)
    (old : ∀ imported ∈ world.imports scope, imported < world.heap.size) :
    Spent after longer scope segments := by
  obtain ⟨⟨head, rest, same, named, settled, absent⟩, imports⟩ := spent
  refine ⟨⟨head, rest, same, named, grows.settled settled, (grows.members settled).trans absent⟩, ?_⟩
  intro imported member live
  rw [grows.imports] at member
  rw [grows.isLive imported (old imported member)] at live
  exact (imports imported member live).grow grows more

end Growth

/-! Counting what can still be entered by an import. -/

/-- How many of the first identities are not marked with a number of segments. -/
def unmarked (size : Nat) (marks : List (Ref × Nat)) (length : Nat) : Nat :=
  ((Finset.range size).filter fun ref => (ref, length) ∉ marks).card

private theorem unmarked_le {size length : Nat} {marks : List (Ref × Nat)} : unmarked size marks length ≤ size := by
  refine (Finset.card_filter_le _ _).trans ?_
  rw [Finset.card_range]

private theorem unmarked_mono {size length : Nat} {marks more : List (Ref × Nat)} (subset : marks ⊆ more) :
    unmarked size more length ≤ unmarked size marks length := by
  apply Finset.card_le_card
  intro ref member
  rw [Finset.mem_filter] at member ⊢
  exact ⟨member.1, fun marked => member.2 (subset marked)⟩

private theorem unmarked_cons_lt {size length ref : Nat} {marks : List (Ref × Nat)} (inside : ref < size)
    (fresh : (ref, length) ∉ marks) : unmarked size ((ref, length) :: marks) length < unmarked size marks length := by
  refine Finset.card_lt_card (Finset.ssubset_iff_of_subset ?_ |>.mpr ⟨ref, ?_, ?_⟩)
  · intro other member
    rw [Finset.mem_filter] at member ⊢
    exact ⟨member.1, fun marked => member.2 (List.mem_cons_of_mem _ marked)⟩
  · exact Finset.mem_filter.mpr ⟨Finset.mem_range.mpr inside, fresh⟩
  · intro member
    exact (Finset.mem_filter.mp member).2 List.mem_cons_self

/-- How often an import can still be entered. The segments after the first may be searched for from
every scope, the first one only from those that are not marked. -/
def entries (size : Nat) (marks : List (Ref × Nat)) : Nat → Nat
  | 0 => 0
  | length + 1 => length * (size + 1) + unmarked size marks (length + 1)

section Entries

variable {size length ref : Nat} {marks more : List (Ref × Nat)}

theorem entries_mono (subset : marks ⊆ more) : entries size more length ≤ entries size marks length := by
  cases length with
  | zero => exact Nat.le_refl _
  | succ rest => exact Nat.add_le_add_left (unmarked_mono subset) _

theorem entries_cons_lt (inside : ref < size) (fresh : (ref, length + 1) ∉ marks) :
    entries size ((ref, length + 1) :: marks) (length + 1) < entries size marks (length + 1) :=
  Nat.add_lt_add_left (unmarked_cons_lt inside fresh) _

theorem entries_lt : entries size marks (length + 1) < entries size more (length + 2) := by
  have few : unmarked size marks (length + 1) < size + 1 := Nat.lt_succ_of_le unmarked_le
  calc entries size marks (length + 1) < length * (size + 1) + (size + 1) := Nat.add_lt_add_left few _
    _ = (length + 1) * (size + 1) := (Nat.succ_mul ..).symm
    _ ≤ entries size more (length + 2) := Nat.le_add_right ..

theorem entries_le : entries size marks length ≤ length * (size + 1) := by
  cases length with
  | zero => exact Nat.zero_le _
  | succ rest =>
    rw [Nat.succ_mul]
    exact Nat.add_le_add_left (unmarked_le.trans (Nat.le_succ _)) _

end Entries

/-! What is spent leads nowhere. -/

theorem long_cons {path : Path} {length : Nat} (scope : Ref) (long : ∀ mark ∈ path, length ≤ mark.2) :
    ∀ mark ∈ (scope, length) :: path, length ≤ mark.2 := by
  intro mark member
  rcases List.mem_cons.mp member with rfl | member
  · exact Nat.le_refl _
  · exact long mark member


theorem PlainSearch.imports_none {path : Path} {world : World} {segments : List String} {imports : List Ref}
    (each : ∀ imported ∈ imports, world.isLive imported = true → (imported, segments.length) ∉ path →
      PlainSearch path world (.scope imported) segments none world) :
    PlainSearch path world (.imports imports) segments none world := by
  induction imports with
  | nil => exact .exhausted
  | cons imported rest ih =>
    have later := ih fun other member => each other (List.mem_cons_of_mem _ member)
    by_cases underway : (imported, segments.length) ∈ path
    · exact .cut underway later
    · cases live : world.isLive imported with
      | false => exact .gone live later
      | true => exact .missed underway live (each imported List.mem_cons_self live underway) later

/-- The plain search finds nothing where a search with a trail gave up, whatever it has under way. It
enters a scope that is not on its path only once for each number of segments. -/
theorem InVain.plain {world : World} {trail : Trail} {before path : Path} {all segments : List String}
    {scope : Ref} (vain : InVain world trail scope segments) (spent : trail.Spent world before all)
    (inside : before ⊆ path) (suffix : segments <:+ all) (long : ∀ mark ∈ path, segments.length ≤ mark.2)
    (fresh : (scope, segments.length) ∉ path) : PlainSearch path world (.scope scope) segments none world := by
  induction left : entries world.heap.size path segments.length using Nat.strong_induction_on
    generalizing path scope segments with
  | h left ih =>
    subst left
    cases vain with
    | ended => exact .ended
    | unnamed => exact .unnamed
    | @blocked _ head next rest member named settled found solid =>
      have same := materialize_of_settled settled
      have search : PlainSearch path world (.scope scope) (head :: next :: rest) none
          (world.materialize scope head) := .blocked named (by rwa [same]) (by rwa [same])
      rwa [same] at search
    | descended named settled found inner below =>
      have same := materialize_of_settled settled
      refine .descended named (by rwa [same]) (by rwa [same]) ?_
      rw [same]
      refine ih _ entries_lt below inside ((List.suffix_cons ..).trans suffix)
        (fun mark member => Nat.le_of_succ_le (long mark member)) (fun member => ?_) rfl
      exact Nat.not_succ_le_self _ (long _ member)
    | searched member =>
      obtain ⟨⟨head, rest, rfl, named, settled, absent⟩, imports⟩ :=
        spent scope segments suffix member fun member => fresh (inside member)
      have same := materialize_of_settled settled
      refine .passed named (by rwa [same]) ?_
      rw [same]
      refine .imports_none fun imported member live entered => ?_
      exact ih _ (entries_cons_lt (lt_size_of_imports member) fresh) (imports imported member live)
        (List.subset_cons_of_subset _ inside) suffix (long_cons scope long) entered rfl
end Dialogue
