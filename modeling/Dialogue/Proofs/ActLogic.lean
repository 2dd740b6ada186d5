import Dialogue.Proofs.Results
import Dialogue.Proofs.WorldChanges
import Dialogue.Lists.Assignment

/-! Rules for acts that run in sound worlds. A safe act is a run of changes, whether it has a result or
stops, and keeps in use what was in use. One that is free to do more may stand for one that does less. -/

namespace Dialogue.Act

variable {α β : Type} {world after : World} {freedom less : Freedom}

structure Follows (freedom : Freedom) (world after : World) : Prop where
  evolves : World.Evolves freedom world after
  inUse : world.inUse <:+ after.inUse

namespace Follows

theorem refl : Follows freedom world world := ⟨.refl, List.suffix_rfl⟩

theorem trans {last : World} (first : Follows freedom world after) (second : Follows freedom after last) :
    Follows freedom world last :=
  ⟨Relation.ReflTransGen.trans first.evolves second.evolves, first.inUse.trans second.inUse⟩

theorem of_change (change : World.Change freedom world after) (inUse : after.inUse = world.inUse) :
    Follows freedom world after :=
  ⟨.single change, inUse ▸ List.suffix_rfl⟩

theorem weaken [Gentler less freedom] (follows : Follows less world after) : Follows freedom world after :=
  ⟨follows.evolves.weaken, follows.inUse⟩

theorem sound (follows : Follows freedom world after) (sound : world.Sound) : after.Sound :=
  follows.evolves.sound sound

theorem mem_inUse (follows : Follows freedom world after) {ref : Ref} (used : ref ∈ world.inUse) :
    ref ∈ after.inUse :=
  follows.inUse.subset used

theorem isLive [Gentler freedom .filling] (follows : Follows freedom world after) {ref : Ref}
    (live : world.isLive ref = true) : after.isLive ref = true :=
  follows.evolves.alive live

theorem knows [Gentler freedom .filling] (follows : Follows freedom world after) {slot : Slot}
    (knows : world.Knows slot) : after.Knows slot :=
  ⟨fun element holds => follows.isLive (knows.held element holds), knows.target.trans_le follows.evolves.size_le⟩

private theorem isScope_of_isLive (follows : Follows freedom world after) {ref : Ref}
    (isScope : (world.kindOf ref).isScope = true) (live : after.isLive ref = true) :
    (after.kindOf ref).isScope = true := by
  have old := World.lt_size_of_isLive (World.isLive_of_isScope isScope)
  rwa [(follows.evolves.before old live).2]

theorem isScope [Gentler freedom .filling] (follows : Follows freedom world after) {ref : Ref}
    (isScope : (world.kindOf ref).isScope = true) : (after.kindOf ref).isScope = true :=
  follows.isScope_of_isLive isScope (follows.isLive (World.isLive_of_isScope isScope))

end Follows

/-- What an act does in a sound world. -/
def Safe (freedom : Freedom) (act : Act α) (world : World) (post : α → World → Prop) : Prop :=
  world.Sound →
    match act world with
    | .ok result after => Follows freedom world after ∧ post result after
    | .error _ after => Follows freedom world after

/-- The world that an act leaves, whether it has a result or stops. -/
def leaves (act : Act α) (world : World) : World :=
  match act world with
  | .ok _ after => after
  | .error _ after => after

section Bind

variable {act : Act α} {next : α → Act β} {value : α} {stop : Stop}

/-! Acts whose first part is known. -/

theorem see_bind {view : World → α} : (see view >>= next) world = next (view world) world := rfl

theorem update_bind {rule : World → World} {next : Unit → Act β} :
    (update rule >>= next) world = next () (rule world) :=
  rfl

theorem bind_of_ok (ran : act world = .ok value after) : (act >>= next) world = next value after := by
  change EStateM.bind act next world = _
  unfold EStateM.bind
  rw [ran]

theorem bind_of_error (ran : act world = .error stop after) : (act >>= next) world = .error stop after := by
  change EStateM.bind act next world = _
  unfold EStateM.bind
  rw [ran]

theorem bind_ok_iff {answer : β} {last : World} : (act >>= next) world = .ok answer last ↔
    ∃ value after, act world = .ok value after ∧ next value after = .ok answer last := by
  constructor
  · intro went
    cases ran : act world with
    | ok value after => exact ⟨value, after, rfl, (bind_of_ok ran).symm.trans went⟩
    | error stop after => cases (bind_of_error ran).symm.trans went
  · rintro ⟨value, after, ran, went⟩
    exact (bind_of_ok ran).trans went

theorem leaves_bind (ran : act world = .ok value after) : leaves (act >>= next) world = leaves (next value) after := by
  unfold leaves
  rw [bind_of_ok ran]

end Bind

namespace Safe

variable {act : Act α} {next : α → Act β} {mid : α → World → Prop} {post : β → World → Prop}
  {result : α → World → Prop}

theorem follows_leaves (safe : Safe freedom act world result) (sound : world.Sound) :
    Follows freedom world (leaves act world) := by
  have ran := safe sound
  unfold leaves
  cases went : act world with
  | ok value after =>
    rw [went] at ran
    exact ran.1
  | error stop after =>
    rw [went] at ran
    exact ran

theorem of_ok {value : α} (safe : Safe freedom act world result) (sound : world.Sound)
    (ran : act world = .ok value after) :
    Follows freedom world after ∧ result value after := by
  have done := safe sound
  rwa [ran] at done

theorem with_sound (safe : world.Sound → Safe freedom act world result) : Safe freedom act world result :=
  fun sound => safe sound sound

theorem pure {value : α} (done : result value world) : Safe freedom (pure value) world result :=
  fun _ => ⟨.refl, done⟩

theorem bind [Gentler less freedom] (first : Safe less act world mid)
    (rest : ∀ value after, after.Sound → Follows less world after → mid value after →
      Safe freedom (next value) after post) :
    Safe freedom (act >>= next) world post := by
  intro sound
  have began := first sound
  change match EStateM.bind act next world with
    | .ok result after => Follows freedom world after ∧ post result after
    | .error _ after => Follows freedom world after
  unfold EStateM.bind
  cases ran : act world with
  | error stop after =>
    rw [ran] at began
    exact began.weaken
  | ok value after =>
    rw [ran] at began
    have ended := rest value after (began.1.sound sound) began.1 began.2 (began.1.sound sound)
    dsimp only
    cases went : next value after with
    | error stop last =>
      rw [went] at ended
      exact (began.1.weaken).trans ended
    | ok answer last =>
      rw [went] at ended
      exact ⟨(began.1.weaken).trans ended.1, ended.2⟩

theorem weaken [Gentler less freedom] (safe : Safe less act world mid) (implies : ∀ value after, after.Sound →
      Follows less world after → mid value after → result value after) :
    Safe freedom act world result := by
  intro sound
  have ran := safe sound
  split
  next value after ended =>
    rw [ended] at ran
    exact ⟨ran.1.weaken, implies value after (ran.1.sound sound) ran.1 ran.2⟩
  next stop after ended =>
    rw [ended] at ran
    exact ran.weaken

/-- An act is safe wherever more is allowed than it does. -/
theorem relax [Gentler less freedom] (safe : Safe less act world result) : Safe freedom act world result :=
  safe.weaken fun _ _ _ _ => id

theorem forget [Gentler less freedom] (safe : Safe less act world result) :
    Safe freedom act world fun _ _ => True :=
  safe.weaken fun _ _ _ _ _ => trivial

theorem map {rule : α → β} (safe : Safe freedom act world fun value after => post (rule value) after) :
    Safe freedom (rule <$> act) world post :=
  safe.bind fun _ _ _ _ done => .pure done

theorem see {view : World → α} (done : result (view world) world) : Safe freedom (see view) world result :=
  fun _ => ⟨.refl, done⟩

/-- Looking at the world first changes nothing. -/
theorem look {view : World → α} (rest : Safe freedom (next (view world)) world post) :
    Safe freedom (Act.see view >>= next) world post := rest

theorem throw {stop : Stop} : Safe freedom (throw stop) world result := fun _ => .refl

theorem raise {cause : Cause} : Safe freedom (raise cause) world result := throw

theorem lift {value : Except Cause α} (done : ∀ found, value = .ok found → result found world) :
    Safe freedom (lift value) world result := by
  cases value with
  | ok found => exact .pure (done found rfl)
  | error cause => exact .raise

theorem liftStop {value : Except Stop α} (done : ∀ found, value = .ok found → result found world) :
    Safe freedom (liftStop value) world result := by
  cases value with
  | ok found => exact .pure (done found rfl)
  | error stop => exact .throw

theorem compute {value : Except (Failure Cause) α} (done : ∀ found, value = .ok found → result found world) :
    Safe freedom (compute value) world result :=
  .liftStop fun found read => done found (Results.mapError_eq_ok.mp read)

theorem update {rule : World → World} {result : Unit → World → Prop} (follows : Follows freedom world (rule world))
    (done : result () (rule world)) : Safe freedom (update rule) world result :=
  fun _ => ⟨follows, done⟩

theorem update_bind [Gentler less freedom] {rule : World → World} {next : Unit → Act β}
    (follows : Follows less world (rule world))
    (rest : ∀ after, after.Sound → Follows less world after → after = rule world → Safe freedom (next ()) after post) :
    Safe freedom (Act.update rule >>= next) world post := by
  have updates : Safe less (Act.update rule) world fun _ after => after = rule world := update follows rfl
  exact updates.bind fun _ => rest

/-- A stop ends what would follow. -/
theorem throw_bind {stop : Stop} : Safe freedom ((MonadExcept.throw stop : Act α) >>= next) world post := by
  have stops : Safe freedom (MonadExcept.throw stop : Act α) world fun _ _ => False := throw
  exact stops.bind fun _ _ _ _ => False.elim

theorem raise_bind {cause : Cause} : Safe freedom (Act.raise cause >>= next) world post := throw_bind

theorem lift_bind {value : Except Cause α} (rest : ∀ found, value = .ok found → Safe freedom (next found) world post) :
    Safe freedom (Act.lift value >>= next) world post := by
  cases value with
  | ok found => exact rest found rfl
  | error cause => exact .raise_bind

theorem liftStop_bind {value : Except Stop α}
    (rest : ∀ found, value = .ok found → Safe freedom (next found) world post) :
    Safe freedom (Act.liftStop value >>= next) world post := by
  cases value with
  | ok found => exact rest found rfl
  | error stop => exact .throw_bind

theorem compute_bind {value : Except (Failure Cause) α}
    (rest : ∀ found, value = .ok found → Safe freedom (next found) world post) :
    Safe freedom (Act.compute value >>= next) world post :=
  .liftStop_bind fun found read => rest found (Results.mapError_eq_ok.mp read)

/-! Lists of acts. Each is safe wherever the former ones lead. -/

theorem forM {items : List β} {act : β → Act PUnit}
    (each : ∀ item ∈ items, ∀ after, Follows freedom world after → Safe freedom (act item) after fun _ _ => True) :
    Safe freedom (items.forM act) world fun _ _ => True := by
  induction items generalizing world with
  | nil => exact .pure trivial
  | cons item rest ih =>
    apply (each item List.mem_cons_self world .refl).bind
    intro _ middle _ began _
    exact ih fun other member after later => each other (List.mem_cons_of_mem _ member) after (began.trans later)

theorem mapM (result : α → World → Prop) {items : List β} {act : β → Act α}
    (each : ∀ item ∈ items, ∀ after, Follows freedom world after → Safe freedom (act item) after result)
    (stable : ∀ value {before after}, Follows freedom before after → result value before → result value after) :
    Safe freedom (items.mapM act) world fun values after =>
      values.length = items.length ∧ ∀ value ∈ values, result value after := by
  induction items generalizing world with
  | nil =>
    rw [List.mapM_nil]
    exact .pure ⟨rfl, fun _ member => by cases member⟩
  | cons item rest ih =>
    rw [List.mapM_cons]
    apply (each item List.mem_cons_self world .refl).bind
    intro first middle _ began found
    have later := ih fun other member after later =>
      each other (List.mem_cons_of_mem _ member) after (began.trans later)
    refine later.bind fun others last _ went ⟨counted, all⟩ => .pure ⟨congrArg Nat.succ counted, fun value member => ?_⟩
    rcases List.mem_cons.mp member with rfl | inRest
    · exact stable _ went found
    · exact all value inRest

theorem foldlM {items : List β} {act : α → β → Act α} {start : α} (initial : result start world)
    (each : ∀ item ∈ items, ∀ value after, Follows freedom world after → result value after →
      Safe freedom (act value item) after result) :
    Safe freedom (items.foldlM act start) world result := by
  induction items generalizing world start with
  | nil => exact .pure initial
  | cons item rest ih =>
    rw [List.foldlM_cons]
    apply (each item List.mem_cons_self start world .refl initial).bind
    intro value middle _ began found
    exact ih found fun other member value after later =>
      each other (List.mem_cons_of_mem _ member) value after (began.trans later)

end Safe

end Dialogue.Act
