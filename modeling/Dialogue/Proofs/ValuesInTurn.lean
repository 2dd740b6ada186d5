import Dialogue.Proofs.StoredValues

/-! Values that are read and written in turn. Each variable of a source is read when its turn comes, and what it shows
is written to a variable of the destination before the next one is read. The values that come of it are those of the
start just if no variable of the source shows another one once those before it have been written. -/

namespace Dialogue.World

variable {world : World} {ref : Ref} {config : Config} {region : Ref → Prop}

/-- What the variables of a source show, each when those before it have been written to the destination. -/
inductive ReadInTurn (config : Config) : World → List Slot → List Slot → List Scalar → Prop where
  | nil {world : World} : ReadInTurn config world [] [] []
  | cons {world : World} {current given : Slot} {value : Scalar} {rest others : List Slot} {values : List Scalar}
      (shows : world.HasValue config given.target value)
      (later : ReadInTurn config (world.setStorage current.target (.stored value)) rest others values) :
      ReadInTurn config world (current :: rest) (given :: others) (value :: values)

theorem ReadInTurn.length {currents givens : List Slot} {values : List Scalar}
    (reads : world.ReadInTurn config currents givens values) : currents.length = values.length := by
  induction reads with
  | nil => rfl
  | cons _ _ ih => exact congrArg Nat.succ ih

/-- Running code that holds other objects reads the same. -/
theorem readInTurn_withInUse {inUse : List Ref} {currents givens : List Slot} {values : List Scalar}
    (reads : world.ReadInTurn config currents givens values) (within : ∀ given ∈ givens, region given.target)
    (legible : Legible config region world) (ordered : world.Ordered) :
    ReadInTurn config { world with inUse } currents givens values := by
  induction reads with
  | nil => exact .nil
  | @cons world current given value rest others values shows later ih =>
    obtain ⟨here, beyond⟩ := List.forall_mem_cons.mp within
    have alike : Mirrors config region world { world with inUse } :=
      mirrors_of_bodies rfl rfl (fun _ => rfl) (fun _ => rfl) fun _ _ => rfl
    exact .cons (shows.mirrors here legible alike ordered) (ih beyond (Legible.setStorage legible) (Ordered.setStorage ordered))

/-- A value that has been written is read later on. -/
private theorem value_eq_of_readInTurn {currents givens : List Slot} {values : List Scalar} {former : Scalar}
    (reads : world.ReadInTurn config currents givens values) (found : world.storage? ref = some (.stored former))
    (apart : ∀ slot ∈ currents, slot.target ≠ ref) :
    ∀ pair ∈ givens.zip values, pair.1.target = ref → pair.2 = former := by
  induction reads with
  | nil => exact fun _ => nofun
  | @cons world current given value rest others values shows later ih =>
    obtain ⟨here, beyond⟩ := List.forall_mem_cons.mp apart
    have kept : (world.setStorage current.target (.stored value)).storage? ref = some (.stored former) := by
      rw [storage?_setStorage, if_neg here, found]
    refine List.forall_mem_cons.mpr ⟨fun same => ?_, ih kept beyond⟩
    exact (hasValue_stored (show world.storage? given.target = _ from same ▸ found)).mp shows

/-- What is stored when a variable is written is what was stored before, if whoever shows that variable is to show
what is written. -/
private theorem stored_after_write {target : Ref} {former value : Scalar} {others : List Slot} {values : List Scalar}
    (found : world.storage? target = some (.stored former))
    (before : List.Forall₂ (fun given read => world.storage? given.target = some (.stored read)) others values)
    (same : ∀ pair ∈ others.zip values, pair.1.target = target → pair.2 = value) :
    List.Forall₂ (fun given read => (world.setStorage target (.stored value)).storage? given.target = some (.stored read))
      others values := by
  obtain ⟨many, all⟩ := List.forall₂_iff_zip.mp before
  refine List.forall₂_iff_zip.mpr ⟨many, fun {other read} inside => ?_⟩
  by_cases here : target = other.target
  · obtain rfl : read = value := same (other, read) inside here.symm
    exact here ▸ storage?_setStorage_self found
  · rw [storage?_setStorage, if_neg here]
    exact all inside

/-- Stored values are those of the start where no variable of the source is overwritten by another value before
its turn comes. -/
theorem readInTurn_iff_of_stored {currents givens : List Slot} {values : List Scalar}
    (length : currents.length = givens.length) (distinct : (currents.map Slot.target).Nodup)
    (stored : ∀ slot ∈ currents, ∃ former, world.storage? slot.target = some (.stored former))
    (before : List.Forall₂ (fun given value => world.storage? given.target = some (.stored value)) givens values) :
    world.ReadInTurn config currents givens values ↔ (currents.zip (givens.zip values)).Pairwise fun earlier later =>
      later.2.1.target = earlier.1.target → earlier.2.2 = later.2.2 := by
  induction currents generalizing world givens values with
  | nil =>
    obtain rfl := List.length_eq_zero_iff.mp length.symm
    cases before
    exact iff_of_true .nil .nil
  | cons current rest ih =>
    cases before with
    | nil => cases length
    | @cons given value others values here later =>
      obtain ⟨fresh, distinct⟩ := List.nodup_cons.mp distinct
      obtain ⟨⟨former, found⟩, stored⟩ := List.forall_mem_cons.mp stored
      have apart : ∀ slot ∈ rest, slot.target ≠ current.target := fun slot inside same =>
        fresh (List.mem_map.mpr ⟨slot, inside, same⟩)
      have kept : ∀ slot ∈ rest, ∃ former,
          (world.setStorage current.target (.stored value)).storage? slot.target = some (.stored former) := by
        intro slot inside
        rw [storage?_setStorage, if_neg (apart slot inside).symm]
        exact stored slot inside
      have many : (others.zip values).length ≤ rest.length := by
        rw [List.length_zip, ← later.length_eq, Nat.min_self]
        exact (Nat.succ.inj length).ge
      rw [List.zip_cons_cons, List.zip_cons_cons, List.pairwise_cons]
      constructor
      · rintro (_ | ⟨shows, reads⟩)
        have same := value_eq_of_readInTurn reads (storage?_setStorage_self found) apart
        refine ⟨fun triple inside read => (same triple.2 (List.of_mem_zip inside).2 read).symm, ?_⟩
        exact (ih (Nat.succ.inj length) distinct kept (stored_after_write found later same)).mp reads
      · rintro ⟨first, pairs⟩
        refine .cons ((hasValue_stored here).mpr rfl)
          ((ih (Nat.succ.inj length) distinct kept (stored_after_write found later ?_)).mpr pairs)
        intro pair inside read
        rw [← List.map_snd_zip many] at inside
        obtain ⟨triple, among, rfl⟩ := List.mem_map.mp inside
        exact (first triple among read).symm

/-- A list that is assigned to itself keeps its values. -/
theorem readInTurn_self {currents : List Slot} {values : List Scalar} (distinct : (currents.map Slot.target).Nodup)
    (stored : ∀ slot ∈ currents, ∃ former, world.storage? slot.target = some (.stored former)) :
    world.ReadInTurn config currents currents values ↔
      List.Forall₂ (fun slot value => world.storage? slot.target = some (.stored value)) currents values := by
  induction currents generalizing world values with
  | nil => exact ⟨fun reads => by cases reads; exact .nil, fun none => by cases none; exact .nil⟩
  | cons current rest ih =>
    obtain ⟨fresh, distinct⟩ := List.nodup_cons.mp distinct
    obtain ⟨⟨former, found⟩, stored⟩ := List.forall_mem_cons.mp stored
    have apart : ∀ slot ∈ rest, slot.target ≠ current.target := fun slot inside same =>
      fresh (List.mem_map.mpr ⟨slot, inside, same⟩)
    have kept (value : Scalar) : ∀ slot ∈ rest,
        (world.setStorage current.target (.stored value)).storage? slot.target = world.storage? slot.target :=
      fun slot inside => by rw [storage?_setStorage, if_neg (apart slot inside).symm]
    have same (value : Scalar) (values : List Scalar) : List.Forall₂ (fun slot value' =>
          (world.setStorage current.target (.stored value)).storage? slot.target = some (.stored value')) rest values ↔
        List.Forall₂ (fun slot value => world.storage? slot.target = some (.stored value)) rest values := by
      rw [List.forall₂_iff_zip, List.forall₂_iff_zip]
      refine and_congr_right fun _ => ⟨fun all slot value inside => ?_, fun all slot value inside => ?_⟩
      · exact (kept _ slot (List.of_mem_zip inside).1).symm.trans (all inside)
      · exact (kept _ slot (List.of_mem_zip inside).1).trans (all inside)
    have reads (value : Scalar) (values : List Scalar) : World.ReadInTurn config _ rest rest values ↔ _ :=
      ih distinct fun slot inside => (stored slot inside).imp fun _ found => (kept value slot inside).trans found
    constructor
    · rintro (_ | ⟨shows, later⟩)
      obtain rfl := (hasValue_stored found).mp shows
      exact .cons found ((same _ _).mp ((reads _ _).mp later))
    · rintro (_ | ⟨here, later⟩)
      exact .cons ((hasValue_stored here).mpr rfl) ((reads _ _).mpr ((same _ _).mpr later))

/-- What depends on nothing that is written shows what it showed at the start. -/
theorem readInTurn_of_apart {currents givens : List Slot} {values : List Scalar}
    (length : currents.length = givens.length) (within : ∀ slot ∈ givens, region slot.target)
    (apart : ∀ slot ∈ currents, ¬ region slot.target) (legible : Legible config region world) (ordered : world.Ordered)
    (before : List.Forall₂ (fun given value => world.HasValue config given.target value) givens values) :
    world.ReadInTurn config currents givens values := by
  induction currents generalizing world givens values with
  | nil =>
    obtain rfl := List.length_eq_zero_iff.mp length.symm
    cases before
    exact .nil
  | cons current rest ih =>
    cases before with
    | nil => cases length
    | @cons given value others values here later =>
      obtain ⟨outside, apart⟩ := List.forall_mem_cons.mp apart
      obtain ⟨inside, within⟩ := List.forall_mem_cons.mp within
      have alike : Mirrors config region world (world.setStorage current.target (.stored value)) := mirrors_setStorage outside
      refine .cons here (ih (Nat.succ.inj length) within apart (Legible.setStorage legible) (Ordered.setStorage ordered) ?_)
      obtain ⟨many, all⟩ := List.forall₂_iff_zip.mp later
      refine List.forall₂_iff_zip.mpr ⟨many, fun {other read} member => ?_⟩
      exact (all member).mirrors (within other (List.of_mem_zip member).1) legible alike (Ordered.setStorage ordered)

end Dialogue.World
