import Dialogue.Proofs.ListGrowth
import Dialogue.Proofs.WorldMirrors

/-! Readings of two worlds side by side. Where a region that readings do not leave looks alike in both worlds, and
nothing in it counts how often it is read, what can be read in the first one has the same value in the second, and
the region still looks alike. -/

namespace Dialogue

namespace Act

open World

variable {α β : Type} {world beside : World} {ref list : Ref} {config : Config} {region : Ref → Prop}
  {alike ended : World → World → Prop} {fuel more : Nat}

/-- What has a result in one world has the same in the other, unless its fuel does not last there. -/
def Agrees (alike : World → World → Prop) (act : Act α) (world : World) (other : Act α) (beside : World) : Prop :=
  ∀ value after, act world = .ok value after →
    match other beside with
    | .ok found last => found = value ∧ alike after last
    | .error stop _ => stop = .fault .exhausted

namespace Agrees

variable {act other : Act α} {next following : α → Act β}

theorem pure {value : α} (same : alike world beside) : Agrees alike (pure value) world (pure value) beside := by
  rintro _ _ ⟨⟩
  exact ⟨rfl, same⟩

/-- An act that stops agrees with everything. -/
theorem of_error {stop : Stop} {after : World} (stopped : act world = .error stop after) :
    Agrees alike act world other beside := by
  intro value last ran
  cases stopped.symm.trans ran

theorem exhausted {after : World} (stopped : other beside = .error (.fault .exhausted) after) :
    Agrees alike act world other beside := by
  intro value last _
  rw [stopped]

/-- Looking at both worlds, which need not be the same. -/
theorem look_both {view : World → α}
    (rest : Agrees ended (next (view world)) world (following (view beside)) beside) :
    Agrees ended (see view >>= next) world (see view >>= following) beside := rest

theorem look {view : World → α} {seen : α} (same : view beside = seen)
    (rest : Agrees ended (next (view world)) world (following seen) beside) :
    Agrees ended (see view >>= next) world (see view >>= following) beside :=
  .look_both (same ▸ rest)

theorem bind (first : Agrees alike act world other beside)
    (rest : ∀ value after last, alike after last → Agrees ended (next value) after (following value) last) :
    Agrees ended (act >>= next) world (other >>= following) beside := by
  intro answer final went
  cases ran : act world with
  | error stop after => cases (bind_of_error ran).symm.trans went
  | ok value after =>
    have done := first value after ran
    rw [bind_of_ok ran] at went
    cases there : other beside with
    | error stop last =>
      rw [there] at done
      rw [bind_of_error there]
      exact done
    | ok found last =>
      rw [there] at done
      obtain ⟨rfl, same⟩ := done
      rw [bind_of_ok there]
      exact rest found after last same answer final went

/-- What can be worked out is the same in both worlds. -/
theorem compute_bind {value : Except (Failure Cause) α}
    (rest : ∀ found, value = .ok found → Agrees ended (next found) world (following found) beside) :
    Agrees ended (compute value >>= next) world (compute value >>= following) beside := by
  rcases value with (_ | _) | found
  · exact .of_error rfl
  · exact .of_error rfl
  · exact rest found rfl

theorem foldlM {γ : Type} {items : List γ} {step another : β → γ → Act β} {start : β} (same : alike world beside)
    (each : ∀ item ∈ items, ∀ value after last, alike after last →
      Agrees alike (step value item) after (another value item) last) :
    Agrees alike (items.foldlM step start) world (items.foldlM another start) beside := by
  induction items generalizing world beside start with
  | nil => exact .pure same
  | cons item rest ih =>
    rw [List.foldlM_cons, List.foldlM_cons]
    refine (each item List.mem_cons_self start world beside same).bind fun value after last same => ih same ?_
    exact fun other member => each other (List.mem_cons_of_mem _ member)

theorem whileBusy (agrees : Agrees alike act (world.setBusy list true) other (beside.setBusy list true))
    (same : ∀ {after last}, alike after last → ended (after.setBusy list false) (last.setBusy list false)) :
    Agrees ended (whileBusy list act) world (whileBusy list other) beside := by
  intro value final went
  unfold Act.whileBusy at went ⊢
  cases ran : act (world.setBusy list true) with
  | error stop after => simp [ran] at went
  | ok result after =>
    have done := agrees result after ran
    simp only [ran] at went
    obtain ⟨rfl, rfl⟩ := EStateM.Result.ok.inj went
    cases there : other (beside.setBusy list true) with
    | error stop last =>
      rw [there] at done
      exact done
    | ok found last =>
      rw [there] at done
      exact ⟨done.1, same done.2⟩

theorem demand {name : String} {next following : Ref → Act β}
    (stays : world.isLive ref = true → beside.isLive ref = true)
    (rest : world.isLive ref = true → Agrees ended (next ref) world (following ref) beside) :
    Agrees ended (demand ref name >>= next) world (demand ref name >>= following) beside := by
  by_cases live : world.isLive ref = true
  · unfold Agrees
    rw [bind_of_ok (demand_of_live live), bind_of_ok (demand_of_live (stays live))]
    exact rest live
  · exact .of_error (bind_of_error (demand_of_gone (Bool.not_eq_true _ ▸ live)))

theorem element {slot : Slot} {next following : Ref → Act β}
    (stays : world.isLive slot.target = true → beside.isLive slot.target = true)
    (rest : Agrees ended (next slot.target) world (following slot.target) beside) :
    Agrees ended (element slot >>= next) world (element slot >>= following) beside := by
  rcases slot with element | ⟨target, name⟩
  · exact rest
  · exact .demand stays fun _ => rest

end Agrees

/-- What a reading leaves looks as it did, and alike in both worlds. -/
structure Tracks (config : Config) (region : Ref → Prop) (world after last : World) : Prop where
  kept : Twins config region world after
  mirrors : Mirrors config region after last

theorem Tracks.trans {middle between after last : World} (first : Tracks config region world middle between)
    (second : Tracks config region middle after last) : Tracks config region world after last :=
  ⟨first.kept.trans second.kept, second.mirrors⟩

/-- What is read alike in all worlds that look alike. -/
def ReadsAlike (config : Config) (region : Ref → Prop) (read other : Ref → Act Scalar) : Prop :=
  ∀ ref world beside, region ref → Legible config region world → Mirrors config region world beside →
    Agrees (Tracks config region world) (read ref) world (other ref) beside

/-- Reads the text of an element after that of the elements before it. -/
def joined (read : Ref → Act Scalar) (config : Config) (text : String) (slot : Slot) : Act String := do
  return text ++ (← compute ((← read (← element slot)).asText config))

variable {read other : Ref → Act Scalar}

/-- Elements are read alike one after the other. -/
theorem ReadsAlike.texts (reads : ReadsAlike config region read other) {slots : List Slot} {text : String}
    (within : ∀ slot ∈ slots, region slot.target) (legible : Legible config region world)
    (mirrors : Mirrors config region world beside) :
    Agrees (Tracks config region world)
      (slots.foldlM (joined read config) text) world (slots.foldlM (joined other config) text) beside := by
  refine .foldlM ⟨.refl, mirrors⟩ fun slot member text after last same => ?_
  refine .element (same.mirrors.isLive (within slot member)).trans ?_
  apply (reads _ _ _ (within slot member) (same.kept.forth.legible legible) same.mirrors).bind
  intro _ _ _ went
  exact .compute_bind fun _ _ => .pure (same.trans went)

theorem ReadsAlike.flattenWith (reads : ReadsAlike config region read other) (inside : region list)
    (legible : Legible config region world) (mirrors : Mirrors config region world beside) :
    Agrees (Tracks config region world) (flattenWith read config list) world (flattenWith other config list) beside := by
  refine .look (mirrors.isBusy inside) ?_
  split
  next => exact .pure ⟨.refl, mirrors⟩
  next free =>
    have entered : Mirrors config region (world.setBusy list true) (beside.setBusy list true) := mirrors.setBusy
    have within : ∀ slot ∈ (world.setBusy list true).slots list, region slot.target := fun _ =>
      legible.setBusy.slots inside
    refine .whileBusy (.look (entered.slots inside) (reads.texts within legible.setBusy entered)) fun same => ?_
    exact ⟨same.kept.whileBusy (Bool.not_eq_true _ ▸ free), same.mirrors.setBusy⟩

/-- Bindings are read alike. -/
theorem ReadsAlike.readBinding (reads : ReadsAlike config region read other) {binding : Binding} (inside : region ref)
    (found : world.storage? ref = some (.bound binding)) (legible : Legible config region world)
    (mirrors : Mirrors config region world beside) :
    Agrees (Tracks config region world) (readBinding read config binding) world (readBinding other config binding)
      beside := by
  have done : Tracks config region world world beside := ⟨.refl, mirrors⟩
  cases binding with
  | cell => exact .pure done
  | length list name => exact .demand mirrors.stays fun _ => .look (mirrors.lengths inside found) (.pure done)
  | precision target name =>
    refine .demand mirrors.stays fun _ => ?_
    exact (reads target _ _ (legible.shown inside found rfl) legible mirrors).bind fun _ _ _ same => .pure same
  | ownerName owner => exact .demand mirrors.stays fun live => .look (mirrors.nameOf live) (.pure done)
  | beenSaid block => exact .demand mirrors.stays fun live => .look (mirrors.block? live) (.pure done)
  | setting which => cases which <;> exact .look mirrors.settings (.pure done)

/-- Values that no one keeps are worked out alike. -/
theorem ReadsAlike.readFormula (reads : ReadsAlike config region read other) {formula : Formula} {memo : Memo}
    (inside : region ref) (found : world.storage? ref = some (.derived formula memo))
    (worked : ∀ value, (Storage.derived formula memo).seen config ≠ .stored value)
    (legible : Legible config region world) (mirrors : Mirrors config region world beside) :
    Agrees (Tracks config region world) (readFormula read config formula) world (readFormula other config formula)
      beside := by
  obtain ⟨-, ⟨owner, rfl⟩ | ⟨list, rfl⟩⟩ := (legible.pure inside found).worked worked
  · exact .demand mirrors.stays fun live => .look (mirrors.outside owner live).2 (.pure ⟨.refl, mirrors⟩)
  · exact (reads.flattenWith (legible.shown inside found rfl) legible mirrors).bind fun _ _ _ same => .pure same

/-- A value that is seen is read. -/
theorem gives_valueWith_of_seen {storage : Storage} {value : Scalar} (found : world.storage? ref = some storage)
    (seen : storage.seen config = .stored value) :
    Gives (valueWith read config ref) world fun read after =>
      read = value ∧ Twins config region world after := by
  refine .look ?_
  rw [storage?_eq_some.mp found]
  rcases storage with stored | binding | ⟨formula, memo⟩
  · obtain rfl := Storage.stored.inj seen
    exact .pure ⟨rfl, .refl⟩
  · cases seen
  · rcases Storage.seen_derived seen with recalled | ⟨recalled, rfl, rfl⟩
    · dsimp only
      rw [recalled]
      exact .pure ⟨rfl, .refl⟩
    · dsimp only
      rw [recalled]
      -- Once the value is kept, it is the one that is recalled.
      have same : ((Storage.derived .pi memo).evaluated
          (.number (.rounded (.pi config.precision) config.precision config.rounding)) config).seen config =
            (Storage.derived .pi memo).seen config := by
        rw [seen]
        cases memo <;> simp [Storage.evaluated, Memo.remember, Storage.seen, Memo.recalled?]
      exact ⟨_, _, rfl, rfl, .evaluate found same⟩

theorem Agrees.of_gives {act other : Act α} {value : α} {first second : World → Prop}
    (here : Gives act world fun found after => found = value ∧ first after)
    (there : Gives other beside fun found last => found = value ∧ second last)
    (same : ∀ after last, first after → second last → alike after last) : Agrees alike act world other beside := by
  obtain ⟨_, after, ran, rfl, began⟩ := here
  obtain ⟨_, last, went, rfl, ended⟩ := there
  rintro value final again
  obtain ⟨rfl, rfl⟩ := EStateM.Result.ok.inj (ran.symm.trans again)
  rw [went]
  exact ⟨rfl, same _ _ began ended⟩

/-- What is worked out each time is worked out alike, and changes nothing. -/
theorem ReadsAlike.derived (reads : ReadsAlike config region read other) {formula : Formula} {memo : Memo}
    (inside : region ref) (found : world.storage? ref = some (.derived formula memo))
    (worked : ∀ value, (Storage.derived formula memo).seen config ≠ .stored value) (legible : Legible config region world)
    (mirrors : Mirrors config region world beside) :
    Agrees (Tracks config region world)
      (match memo.recalled? config with
      | some value => return value
      | none => do
        let value ← Act.readFormula read config formula
        update (·.evaluate ref value config)
        return value) world
      (match memo.recalled? config with
      | some value => return value
      | none => do
        let value ← Act.readFormula other config formula
        update (·.evaluate ref value config)
        return value) beside := by
  obtain ⟨rfl, plain⟩ := (legible.pure inside found).worked worked
  refine (reads.readFormula inside found worked legible mirrors).bind fun value after last went => ?_
  have same {world : World} (there : world.storage? ref = some (.derived formula .never)) :
      Twins config region world (world.evaluate ref value config) := by
    refine .evaluate there ?_
    rcases plain with ⟨_, rfl⟩ | ⟨_, rfl⟩ <;> rfl
  have still := went.kept.forth.storage?_eq inside found worked
  have done : Tracks config region world (after.evaluate ref value config) (last.evaluate ref value config) :=
    ⟨went.kept.trans (same still),
      ((same still).back.trans went.mirrors).trans (same (went.mirrors.storage?_eq inside still worked)).forth⟩
  exact .pure done

theorem ReadsAlike.valueWith (reads : ReadsAlike config region read other) :
    ReadsAlike config region (valueWith read config) (valueWith other config) := by
  intro ref world beside inside legible mirrors
  by_cases shown : ∃ storage value, world.storage? ref = some storage ∧ storage.seen config = .stored value
  · obtain ⟨storage, value, found, seen⟩ := shown
    have twin := mirrors.storage? inside
    rw [found, Option.map_some, seen] at twin
    obtain ⟨beyond, there, also⟩ := Option.map_eq_some_iff.mp twin
    have gives {world : World} {storage : Storage} {read : Ref → Act Scalar} (found : world.storage? ref = some storage)
        (seen : storage.seen config = .stored value) : Gives (Act.valueWith read config ref) world fun shown after =>
          shown = value ∧ Twins config region world after :=
      gives_valueWith_of_seen found seen
    refine .of_gives (gives found seen) (gives there also) fun after last began went => ?_
    exact ⟨began, (began.back.trans mirrors).trans went.forth⟩
  · have worked {storage : Storage} (found : world.storage? ref = some storage) (value : Scalar) :
        storage.seen config ≠ .stored value := fun seen => shown ⟨storage, value, found, seen⟩
    have named : Agrees (Tracks config region world) (do return Scalar.text (← see (·.fullName ref))) world
        (do return Scalar.text (← see (·.fullName ref))) beside := .look (mirrors.fullName inside) (.pure ⟨.refl, mirrors⟩)
    refine .look_both ?_
    have bodies := mirrors.bodies ref inside
    cases here : world.body? ref with
    | none =>
      rw [here] at bodies
      rw [Option.map_eq_none_iff.mp bodies]
      exact named
    | some body =>
      rw [here] at bodies
      obtain ⟨twin, there, same⟩ := Option.map_eq_some_iff.mp bodies
      rw [there]
      cases body with
      | var storage =>
        have found := storage?_eq_some.mpr here
        obtain rfl : twin = .var storage := Option.some.inj
          (there.symm.trans (storage?_eq_some.mp (mirrors.storage?_eq inside found (worked found))))
        cases storage with
        | stored value => exact absurd rfl (worked found value)
        | bound binding => exact reads.readBinding inside found legible mirrors
        | derived formula memo => exact reads.derived inside found (worked found) legible mirrors
      | list data =>
        cases twin with
        | list => exact (reads.flattenWith inside legible mirrors).bind fun _ _ _ went => .pure went
        | _ => cases same
      | plain =>
        cases twin with
        | plain => exact named
        | _ => cases same
      | scope data =>
        cases twin with
        | scope => exact named
        | _ => cases same

theorem readsAlike_valueWithin (fuel more : Nat) :
    ReadsAlike config region (valueWithin fuel config) (valueWithin more config) := by
  induction fuel generalizing more with
  | zero => exact fun ref world _ _ _ _ => .of_error rfl
  | succ fuel ih =>
    cases more with
    | zero => exact fun ref world _ _ _ _ => .exhausted rfl
    | succ more => exact (ih more).valueWith

/-- What does not stop for want of fuel has the result that it has in the other world. -/
theorem Agrees.gives {act other : Act α} {value : α} {after : World} (agrees : Agrees alike act world other beside)
    (ran : act world = .ok value after) (lasts : Meets quiet other beside fun _ _ => True) :
    Gives other beside fun found last => found = value ∧ alike after last := by
  have same := agrees value after ran
  cases there : other beside with
  | ok found last =>
    rw [there] at same
    exact ⟨found, last, there, same⟩
  | error stop last =>
    rw [there] at same
    rcases (lasts.of_error there).2 with ⟨anomaly, also⟩ | also
    · cases same.symm.trans also
    · cases same.symm.trans also

/-- What can be read in one world has the same value in one that looks alike. -/
private theorem gives_value {value : Scalar} {after : World} (ran : Act.value config ref world = .ok value after)
    (inside : region ref) (legible : Legible config region world) (mirrors : Mirrors config region world beside)
    (ordered : beside.Ordered) :
    Gives (Act.value config ref) beside fun found last => found = value ∧ Tracks config region world after last :=
  (readsAlike_valueWithin _ _ ref world beside inside legible mirrors).gives ran (meets_value ordered)

end Act

namespace World

variable {world after beside : World} {ref : Ref} {config : Config} {region : Ref → Prop} {value : Scalar}

/-- Whether an object shows a value. -/
def HasValue (config : Config) (world : World) (ref : Ref) (value : Scalar) : Prop :=
  ∃ after, Act.value config ref world = .ok value after

theorem HasValue.mirrors (has : world.HasValue config ref value) (inside : region ref)
    (legible : Legible config region world) (mirrors : Mirrors config region world beside) (ordered : beside.Ordered) :
    beside.HasValue config ref value := by
  obtain ⟨after, ran⟩ := has
  obtain ⟨_, last, went, rfl, -⟩ := Act.gives_value ran inside legible mirrors ordered
  exact ⟨last, went⟩

theorem Twins.read (twins : Twins config region world after) (ordered : world.Ordered)
    (legible : Legible config region world) (inside : region ref) {last : World}
    (ran : Act.value config ref after = .ok value last) :
    world.HasValue config ref value ∧ Twins config region world last := by
  have still := twins.undisturbed.ordered ordered
  have readable := twins.forth.legible legible
  obtain ⟨_, again, there, -, tracks⟩ := Act.gives_value ran inside readable .refl still
  exact ⟨HasValue.mirrors ⟨last, ran⟩ inside readable twins.back ordered, twins.trans tracks.kept⟩

theorem hasValue_stored {former : Scalar} (found : world.storage? ref = some (.stored former)) :
    world.HasValue config ref value ↔ value = former := by
  have reads : Act.Gives (Act.value config ref) world fun shown after =>
      shown = former ∧ Twins config (fun _ => False) world after := Act.gives_valueWith_of_seen found rfl
  obtain ⟨_, last, ran, rfl, -⟩ := reads
  constructor
  · rintro ⟨after, again⟩
    exact ((EStateM.Result.ok.inj (ran.symm.trans again)).1).symm
  · rintro rfl
    exact ⟨last, ran⟩

end World

end Dialogue
