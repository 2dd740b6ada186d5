import Dialogue.Proofs.SearchRelation

/-! The search with a trail step by step. It answers as the plain search does, and where it comes to
nothing everything that it has put on the trail and left again is spent. -/

namespace Dialogue

open World

variable {size : Nat} {all segments : List String} {path : Path} {world after : World} {trail : Trail}
  {scope : Ref} {found : Search}

/-- What holds while a search is on its way through imports of the first identities. -/
structure Underway (size : Nat) (all : List String) (path : Path) (world : World) (trail : Trail) : Prop where
  spent : trail.Spent world path all
  inside : path ⊆ trail
  fits : size ≤ world.heap.size
  imports : ∀ {scope imported}, imported ∈ world.imports scope → imported < size

namespace Underway

theorem grow (underway : Underway size all path world trail) (grows : world.Grows after) :
    Underway size all path after trail where
  spent other segments suffix member left :=
    (underway.spent other segments suffix member left).grow grows (List.Subset.refl _)
      fun _ member => (underway.imports member).trans_le underway.fits
  inside := underway.inside
  fits := underway.fits.trans grows.size
  imports member := underway.imports (grows.imports _ ▸ member)

/-- What is put on the trail is being searched. -/
theorem mark (underway : Underway size all path world trail) (mark : Ref × Nat) :
    Underway size all (mark :: path) world (mark :: trail) where
  spent other segments suffix member left := by
    rw [List.mem_cons, not_or] at left
    have older := (List.mem_cons.mp member).resolve_left left.1
    exact (underway.spent other segments suffix older left.2).grow .refl (List.subset_cons_self ..)
      fun _ member => (underway.imports member).trans_le underway.fits
  inside := List.cons_subset_cons _ underway.inside
  fits := underway.fits
  imports := underway.imports

/-- A scope that is spent need not be on the path any more. -/
theorem leave (underway : Underway size all ((scope, segments.length) :: path) world trail)
    (suffix : segments <:+ all) (spent : Spent world trail scope segments) :
    Underway size all path world trail where
  spent other left suffixLeft member fresh := by
    by_cases here : (other, left.length) = (scope, segments.length)
    · -- Segments that are left are known by their number.
      obtain ⟨rfl, same⟩ := Prod.ext_iff.mp here
      have equal := (List.suffix_of_suffix_length_le suffixLeft suffix same.le).eq_of_length same
      rwa [equal]
    · exact underway.spent other left suffixLeft member fun member => (List.mem_cons.mp member).elim here fresh
  inside := fun _ member => underway.inside (List.mem_cons_of_mem _ member)
  fits := underway.fits
  imports := underway.imports

end Underway

def Goal.InVain (world : World) (trail : Trail) (segments : List String) : Goal → Prop
  | .scope scope => Dialogue.InVain world trail scope segments
  | .imports list => ∀ imported ∈ list, world.isLive imported = true →
    Dialogue.InVain world trail imported segments

/-- The outcome of a search with a trail is the one of the plain search. -/
structure Agrees (size : Nat) (all : List String) (path : Path) (world : World) (trail : Trail) (goal : Goal)
    (segments : List String) (found : Search) : Prop where
  plain : PlainSearch path world goal segments found.answer found.world
  grows : world.Grows found.world
  missed : found.answer = none → trail ⊆ found.trail ∧ Underway size all path found.world found.trail ∧
    goal.InVain found.world found.trail segments

theorem Underway.agrees_vain {goal : Goal} (underway : Underway size all path world trail)
    (plain : PlainSearch path world goal segments none world) (vain : goal.InVain world trail segments) :
    Agrees size all path world trail goal segments ⟨none, trail, world⟩ :=
  ⟨plain, .refl, fun _ => ⟨List.Subset.refl _, underway, vain⟩⟩

/-! Imports one by one. -/

namespace Agrees

variable {imported : Ref} {rest : List Ref}

/-- What the trail leaves out would have been searched in vain, or is cut or gone. -/
theorem skip (underway : Underway size all path world trail) (suffix : segments <:+ all)
    (long : ∀ mark ∈ path, segments.length ≤ mark.2) (old : imported < size)
    (skipped : (imported, segments.length) ∈ trail ∨ world.isLive imported = false)
    (later : Agrees size all path world trail (.imports rest) segments found) :
    Agrees size all path world trail (.imports (imported :: rest)) segments found := by
  refine ⟨?_, later.grows, fun none => ?_⟩
  · by_cases entered : (imported, segments.length) ∈ path
    · exact .cut entered later.plain
    · cases live : world.isLive imported with
      | false => exact .gone live later.plain
      | true =>
        have marked := skipped.resolve_right (by rw [live]; exact Bool.noConfusion)
        have nothing := (InVain.searched marked).plain underway.spent (List.Subset.refl _) suffix long entered
        exact .missed entered live nothing later.plain
  · obtain ⟨more, left, vain⟩ := later.missed none
    refine ⟨more, left, fun other member live => ?_⟩
    rcases List.mem_cons.mp member with rfl | member
    · rw [later.grows.isLive _ (old.trans_le underway.fits)] at live
      have marked := skipped.resolve_right (by rw [live]; exact Bool.noConfusion)
      exact .searched (more marked)
    · exact vain other member live

theorem hit {answer : Ref} (fresh : (imported, segments.length) ∉ path) (live : world.isLive imported = true)
    (first : Agrees size all path world trail (.scope imported) segments found) (same : found.answer = some answer) :
    Agrees size all path world trail (.imports (imported :: rest)) segments found := by
  refine ⟨?_, first.grows, fun none => ?_⟩
  · have plain := first.plain
    rw [same] at plain ⊢
    exact .hit fresh live plain
  · rw [none] at same
    cases same

private theorem miss {first : Search} (fresh : (imported, segments.length) ∉ path) (live : world.isLive imported = true)
    (here : Agrees size all path world trail (.scope imported) segments first) (none : first.answer = none)
    (later : Agrees size all path first.world first.trail (.imports rest) segments found) :
    Agrees size all path world trail (.imports (imported :: rest)) segments found := by
  obtain ⟨more, -, vain⟩ := here.missed none
  refine ⟨.missed fresh live (none ▸ here.plain) later.plain, here.grows.trans later.grows, fun none => ?_⟩
  obtain ⟨moreLater, left, vainLater⟩ := later.missed none
  refine ⟨List.Subset.trans more moreLater, left, fun other member live => ?_⟩
  rcases List.mem_cons.mp member with rfl | member
  · exact vain.grow later.grows moreLater
  · exact vainLater other member live

end Agrees

/-- The scopes that a goal lists to be searched one after the other. -/
def Goal.listed : Goal → List Ref
  | .scope _ => []
  | .imports list => list

theorem Searched.agrees {goal : Goal} (search : Searched trail world goal segments found) (suffix : segments <:+ all)
    (long : ∀ mark ∈ path, segments.length ≤ mark.2) (underway : Underway size all path world trail)
    (old : ∀ imported ∈ goal.listed, imported < size) : Agrees size all path world trail goal segments found := by
  induction search generalizing path with
  | ended => exact underway.agrees_vain .ended .ended
  | unnamed => exact underway.agrees_vain .unnamed .unnamed
  | answered named present => exact ⟨.answered named present, grows_materialize .., nofun⟩
  | @descended _ world scope head _ _ _ _ named present inner _ ih =>
    have grows := grows_materialize world scope head
    have settled : (world.materialize scope head).Settled scope head := settled_materialize
    have shorter : ∀ mark ∈ path, _ ≤ mark.2 := fun mark member => Nat.le_of_succ_le (long mark member)
    have below := ih ((List.suffix_cons ..).trans suffix) shorter (underway.grow grows) (List.forall_mem_nil _)
    refine ⟨.descended named present inner below.plain, grows.trans below.grows, fun none => ?_⟩
    obtain ⟨more, left, vain⟩ := below.missed none
    exact ⟨more, left, .descended named (below.grows.settled settled)
      ((below.grows.members settled).trans present) ((below.grows.isScope _).trans inner) vain⟩
  | @blocked _ world scope head _ _ _ named present solid =>
    have grows := grows_materialize world scope head
    exact ⟨.blocked named present solid, grows, fun _ =>
      ⟨List.Subset.refl _, underway.grow grows, .blocked named settled_materialize present solid⟩⟩
  | @passed _ world scope head rest result named absent _ ih =>
    have grows := grows_materialize world scope head
    have settled : (world.materialize scope head).Settled scope head := settled_materialize
    have began := underway.grow grows
    have through := ih suffix (long_cons scope long) (began.mark (scope, rest.length + 1)) fun _ => began.imports
    refine ⟨.passed named absent through.plain, grows.trans through.grows, fun none => ?_⟩
    obtain ⟨more, left, vain⟩ := through.missed none
    have spent : Spent result.world result.trail scope (head :: rest) := by
      refine ⟨⟨head, rest, rfl, named, through.grows.settled settled,
        (through.grows.members settled).trans absent⟩, fun imported member => vain imported ?_⟩
      rwa [through.grows.imports] at member
    exact ⟨fun _ member => more (List.mem_cons_of_mem _ member), left.leave suffix spent,
      .searched (more List.mem_cons_self)⟩
  | exhausted => exact underway.agrees_vain .exhausted fun _ member => by cases member
  | skipped skip _ ih =>
    obtain ⟨here, later⟩ := List.forall_mem_cons.mp old
    exact .skip underway suffix long here skip (ih suffix long underway later)
  | hit fresh live _ isSome ih =>
    obtain ⟨answer, same⟩ := Option.isSome_iff_exists.mp isSome
    have here := ih suffix long underway (List.forall_mem_nil _)
    exact .hit (fun member => fresh (underway.inside member)) live here same
  | missed fresh live _ none _ ihHere ih =>
    have here := ihHere suffix long underway (List.forall_mem_nil _)
    obtain ⟨-, left, -⟩ := here.missed none
    exact .miss (fun member => fresh (underway.inside member)) live here none
      (ih suffix long left (List.forall_mem_of_forall_mem_cons old))

theorem agrees_searchWithin (fuel : Nat) (suffix : segments <:+ all)
    (long : ∀ mark ∈ path, segments.length ≤ mark.2) (underway : Underway size all path world trail)
    (ended : searchWithin fuel world trail scope segments = some found) :
    Agrees size all path world trail (.scope scope) segments found :=
  (searched_searchWithin fuel ended).agrees suffix long underway (List.forall_mem_nil _)

/-! The search ends. -/

private theorem ends_through (segments : List String) {inner : World → Trail → Ref → Option Search} {start : Trail}
    (each : ∀ {world trail imported}, Underway size all path world trail → start ⊆ trail → imported < size →
      (imported, segments.length) ∉ trail → ∃ found, inner world trail imported = some found ∧
        Agrees size all path world trail (.scope imported) segments found)
    (imports : List Ref) (old : ∀ imported ∈ imports, imported < size)
    (underway : Underway size all path world trail) (started : start ⊆ trail) :
    ∃ found, Search.through inner segments.length imports world trail = some found := by
  induction imports generalizing world trail with
  | nil => exact ⟨_, rfl⟩
  | cons imported rest ih =>
    obtain ⟨oldHere, oldRest⟩ := List.forall_mem_cons.mp old
    unfold Search.through
    split
    next => exact ih oldRest underway started
    next entered =>
      have fresh : (imported, segments.length) ∉ trail := fun member => entered (skipped_iff.mpr (.inl member))
      obtain ⟨first, searched, agrees⟩ := each underway started oldHere fresh
      rw [searched]
      dsimp only [Option.bind_eq_bind, Option.bind_some]
      split
      next => exact ⟨_, rfl⟩
      next isNone =>
        obtain ⟨more, left, -⟩ := agrees.missed (Option.not_isSome_iff_eq_none.mp isNone)
        exact ih oldRest left (List.Subset.trans started more)

/-- Fuel for every entry that is left is enough. -/
theorem ends_searchWithin (scope : Ref) (fuel : Nat) (suffix : segments <:+ all)
    (long : ∀ mark ∈ path, segments.length ≤ mark.2) (underway : Underway size all path world trail)
    (enough : entries size ((scope, segments.length) :: trail) segments.length < fuel) :
    ∃ found, searchWithin fuel world trail scope segments = some found := by
  induction fuel generalizing world trail path scope segments with
  | zero => cases enough
  | succ fuel ih =>
    cases segments with
    | nil => exact ⟨_, rfl⟩
    | cons head rest =>
      have began := underway.grow (grows_materialize world scope head)
      unfold searchWithin
      split
      next => exact ⟨_, rfl⟩
      next =>
        dsimp only
        split
        next member present =>
          cases rest with
          | nil => exact ⟨_, rfl⟩
          | cons next rest =>
            rw [List.isEmpty_cons, if_neg Bool.false_ne_true]
            split
            next =>
              refine ih member ((List.suffix_cons ..).trans suffix) (fun mark member => Nat.le_of_succ_le (long mark member))
                began ?_
              exact entries_lt.trans_le (Nat.le_of_lt_succ enough)
            next => exact ⟨_, rfl⟩
        next absent =>
          have marked := began.mark (scope, rest.length + 1)
          have longHere := long_cons scope long
          refine ends_through (head :: rest) (fun underway started old fresh => ?_) _ (fun _ => began.imports) marked
            (List.Subset.refl _)
          have fewer := (entries_cons_lt old fresh).trans_le (entries_mono started)
          obtain ⟨found, ended⟩ := ih _ suffix longHere underway (fewer.trans_le (Nat.le_of_lt_succ enough))
          exact ⟨found, ended, agrees_searchWithin fuel suffix longHere underway ended⟩

end Dialogue
