import Dialogue.Proofs.ActLogic

/-! Letting go of objects. A release buries only what nothing holds, so whatever is in use, has a handle
or is kept alive by a survivor stays, with all that it keeps alive. -/

namespace Dialogue

namespace World

variable {world : World} {ref : Ref}

/-- What burials keep, as long as they are of objects of some sort that hold only the same sort. -/
private theorem releaseWithin_induction {holds : World → Prop} {sort : Ref → Prop}
    (buried : ∀ {world ref}, holds world → sort ref → world.isHeld ref = false → holds (world.bury ref))
    (passed : ∀ {world ref other}, holds world → sort ref → other ∈ world.holdsOf ref → sort other)
    (fuel : Nat) (start : holds world) (fits : sort ref) : holds (releaseWithin fuel world ref) := by
  induction fuel generalizing world ref with
  | zero => exact start
  | succ fuel ih =>
    unfold releaseWithin
    split
    next => exact start
    next object found =>
      split
      next => exact start
      next unheld =>
        have inside {refs : List Ref} {current : World} (kept : holds current) (sorted : ∀ other ∈ refs, sort other) :
            holds (refs.foldl (releaseWithin fuel) current) := by
          induction refs generalizing current with
          | nil => exact kept
          | cons first rest again =>
            obtain ⟨firstFits, restFits⟩ := List.forall_mem_cons.mp sorted
            exact again (ih kept firstFits) restFits
        apply inside (buried start fits (Bool.not_eq_true _ ▸ unheld))
        intro other member
        exact passed start fits (by rw [holdsOf, found]; exact member)

theorem releaseAll_induction (holds : World → Prop) (sort : Ref → Prop)
    (buried : ∀ {world ref}, holds world → sort ref → world.isHeld ref = false → holds (world.bury ref))
    (passed : ∀ {world ref other}, holds world → sort ref → other ∈ world.holdsOf ref → sort other)
    {refs : List Ref} (start : holds world) (fits : ∀ ref ∈ refs, sort ref) : holds (world.releaseAll refs) := by
  induction refs generalizing world with
  | nil => exact start
  | cons first rest ih =>
    obtain ⟨firstFits, restFits⟩ := List.forall_mem_cons.mp fits
    exact ih (releaseWithin_induction buried passed _ start firstFits) restFits

private theorem evolves_releaseAll (refs : List Ref) : World.Evolves .releasing world (world.releaseAll refs) :=
  releaseAll_induction _ (fun _ => True) (fun former _ unheld => former.tail (.bury rfl unheld))
    (fun _ _ _ => trivial) .refl fun _ _ => trivial

private theorem inUse_releaseAll (refs : List Ref) : (world.releaseAll refs).inUse = world.inUse :=
  releaseAll_induction (fun after => after.inUse = world.inUse) (fun _ => True)
    (fun same _ _ => inUse_bury.trans same) (fun _ _ _ => trivial) rfl fun _ _ => trivial

private theorem handles_releaseAll (refs : List Ref) : (world.releaseAll refs).handles = world.handles :=
  releaseAll_induction (fun after => after.handles = world.handles) (fun _ => True)
    (fun same _ _ => handles_bury.trans same) (fun _ _ _ => trivial) rfl fun _ _ => trivial

/-- The world once everything is released that was in use, apart from what is kept. -/
def settle (world : World) (kept : List Ref) : World := releaseAll { world with inUse := kept } world.inUse

theorem inUse_settle {kept : List Ref} : (world.settle kept).inUse = kept := inUse_releaseAll _

theorem handles_settle {kept : List Ref} : (world.settle kept).handles = world.handles := handles_releaseAll _

/-- A living object that nobody holds survives the release of others. -/
theorem isLive_releaseAll {refs : List Ref} (alive : world.isLive ref = true)
    (unheld : ∀ holder, ref ∉ world.holdsOf holder) (others : ref ∉ refs) :
    (world.releaseAll refs).isLive ref = true := by
  have kept : (world.releaseAll refs).isLive ref = true ∧ ∀ holder, ref ∉ (world.releaseAll refs).holdsOf holder := by
    refine releaseAll_induction (fun after => after.isLive ref = true ∧ ∀ holder, ref ∉ after.holdsOf holder)
      (· ≠ ref) ?_ ?_ ⟨alive, unheld⟩ fun other member same => others (same ▸ member)
    · intro before other ⟨lives, free⟩ different _
      refine ⟨?_, fun holder => ?_⟩
      · rw [isLive_bury, lives, bne_iff_ne.mpr different.symm]
        rfl
      · rw [holdsOf_bury]
        split
        · exact List.not_mem_nil
        · exact free holder
    · intro before holder other ⟨_, free⟩ _ member same
      exact free holder (same ▸ member)
  exact kept.1

end World

namespace Act

open World

variable {α : Type} {world : World}

private theorem follows_releaseAll (refs : List Ref) : Follows .releasing world (world.releaseAll refs) :=
  ⟨evolves_releaseAll refs, inUse_releaseAll refs ▸ List.suffix_rfl⟩

theorem safe_releaseAll (refs : List Ref) :
    Safe .releasing (releaseAll refs) world fun _ after => after = world.releaseAll refs :=
  .update (follows_releaseAll refs) rfl

theorem safe_release (ref : Ref) : Safe .releasing (release ref) world fun _ _ => True :=
  .update (follows_releaseAll [ref]) trivial

/-- Objects that are used from now on. -/
theorem follows_use (sound : world.Sound) {refs : List Ref} (alive : ∀ ref ∈ refs, world.isLive ref = true) :
    Follows .gentle world { world with inUse := refs ++ world.inUse } := by
  refine ⟨.single (.outside rfl ?_ (fun _ => sound.handles) (.inr rfl)), List.suffix_append ..⟩
  intro ref member
  exact (List.mem_append.mp member).elim (alive ref) sound.inUse

theorem safe_keep {ref : Ref} (alive : world.isLive ref = true) :
    Safe .gentle (keep ref) world fun result after => result = ref ∧
      after = { world with inUse := ref :: world.inUse } := by
  refine .with_sound fun sound => ?_
  have used : Follows .gentle world { world with inUse := [ref] ++ world.inUse } :=
    follows_use sound fun other member => by rwa [List.mem_singleton.mp member]
  exact Safe.update_bind used fun after _ _ same => .pure ⟨rfl, same⟩

/-- What an act kept is released, except for what was in use before and what is still needed. -/
theorem evolves_settle (sound : world.Sound) {kept before : List Ref} (lives : ∀ ref ∈ kept, world.isLive ref = true)
    (used : before <:+ world.inUse) : World.Evolves .releasing world (world.settle (kept ++ before)) := by
  have outside : World.Change .releasing world { world with inUse := kept ++ before } := by
    refine .outside rfl ?_ (fun _ => sound.handles) (.inr rfl)
    intro ref member
    rcases List.mem_append.mp member with inKept | inBefore
    · exact lives ref inKept
    · exact sound.inUse (used.subset inBefore)
  exact Relation.ReflTransGen.head outside (World.evolves_releaseAll _)

/-- An act that keeps nothing releases what it used from the world that it would leave. -/
theorem leaves_lettingGo (act : Act α) :
    leaves (lettingGo (fun _ => []) act) world = (leaves act world).settle world.inUse := by
  unfold leaves lettingGo
  cases act world <;> rfl

namespace Safe

variable {freedom less : Freedom} {act : Act α} {refs : α → List Ref} {mid post : α → World → Prop}

/-- Once an act has let go, exactly what its result refers to is in use besides what was in use. -/
theorem lettingGo [Gentler less freedom] [Gentler .releasing freedom] (mid : α → World → Prop)
    (safe : Safe less act world mid)
    (alive : ∀ value after, after.Sound → mid value after → ∀ ref ∈ refs value, after.isLive ref = true)
    (done : ∀ value after, after.Sound → Follows less world after → mid value after →
      post value (after.settle (refs value ++ world.inUse))) :
    Safe freedom (lettingGo refs act) world post := by
  intro sound
  have settled {after : World} (kept : List Ref) (began : Follows less world after)
      (lives : ∀ ref ∈ kept, after.isLive ref = true) :
      Follows freedom world (after.settle (kept ++ world.inUse)) := by
    refine ⟨began.evolves.weaken.trans (evolves_settle (began.sound sound) lives began.inUse).weaken, ?_⟩
    rw [World.inUse_settle]
    exact List.suffix_append ..
  have ran := safe sound
  unfold Act.lettingGo
  cases went : act world with
  | error stop after =>
    rw [went] at ran
    exact settled [] ran fun _ member => by cases member
  | ok value after =>
    rw [went] at ran
    have soundAfter := ran.1.sound sound
    exact ⟨settled _ ran.1 (alive value after soundAfter ran.2), done value after soundAfter ran.1 ran.2⟩

/-- An act that runs while some objects are held, if what it comes to does not depend on their release. -/
theorem holding [Gentler .releasing freedom] {refs : List Ref} (alive : ∀ ref ∈ refs, world.isLive ref = true)
    (safe : ∀ before, before.Sound → Follows .gentle world before → (∀ ref ∈ refs, ref ∈ before.inUse) →
      Safe freedom act before post)
    (stable : ∀ value {before after}, World.Evolves .releasing before after → post value before → post value after) :
    Safe freedom (holding refs act) world post := by
  refine .with_sound fun sound => ?_
  have use := follows_use sound alive
  have inner : Safe freedom (Act.update (fun world : World => { world with inUse := refs ++ world.inUse }) >>=
      fun _ => act) world post := by
    refine Safe.update_bind use fun before soundBefore began same => safe before soundBefore began fun ref member => ?_
    subst same
    exact List.mem_append_left _ member
  refine inner.lettingGo _ (fun _ _ _ _ _ member => by cases member) fun value after soundAfter began done => ?_
  exact stable value (evolves_settle soundAfter (fun _ none => by cases none) began.inUse) done

end Safe

end Act

end Dialogue
