import Dialogue.Proofs.CopyPlans
import Dialogue.Proofs.NumberText
import Dialogue.Proofs.TakenElements

/-! What can be read can be copied. Reading an object and planning its copy come through the same lists and stop for the
same aliases, though a copy leaves those of objects that are gone as they are. Lists that have got new variables in the
meantime keep nothing from being read: other texts and other lengths are read then, and those have texts. -/

namespace Dialogue

/-- A value has texts wherever another one has, and it counts with the same precision. -/
structure Scalar.Covered (value other : Scalar) : Prop where
  texts : ∀ {config text}, value.asText config = .ok text → ∃ another, other.asText config = .ok another
  precision : ∀ config, other.precision config = value.precision config

namespace Scalar.Covered

theorem refl (value : Scalar) : value.Covered value := ⟨fun shown => ⟨_, shown⟩, fun _ => rfl⟩

theorem text (value other : String) : (Scalar.text value).Covered (.text other) :=
  ⟨fun _ => ⟨other, rfl⟩, fun _ => rfl⟩

/-- Lengths are integers of 64 bits. -/
theorem length (fewer : Nat) {count : Nat} (holds : count < Limits.integerBound) (config : Config) :
    (number (.integer fewer config)).Covered (.number (.integer count config)) where
  texts _ := by
    unfold Limits.integerBound at holds
    exact Number.text_integer (by omega) (by omega) config _
  precision _ := rfl

end Scalar.Covered

/-! What of a variable decides whether it can be read. -/

inductive Memo.Covered : Memo → Memo → Prop where
  | never : Covered .never .never
  | empty : Covered .empty .empty
  | kept {precision rounding value other} (covered : value.Covered other) :
      Covered (.kept precision rounding value) (.kept precision rounding other)

inductive Storage.Covered : Storage → Storage → Prop where
  | stored {value other} (covered : value.Covered other) : Covered (.stored value) (.stored other)
  | bound {binding} : Covered (.bound binding) (.bound binding)
  | derived {formula memo other} (memos : memo.Covered other) : Covered (.derived formula memo) (.derived formula other)

theorem Memo.Covered.refl (memo : Memo) : memo.Covered memo := by
  cases memo with
  | never => exact .never
  | empty => exact .empty
  | kept => exact .kept (.refl _)

theorem Storage.Covered.refl (storage : Storage) : storage.Covered storage := by
  cases storage with
  | stored => exact .stored (.refl _)
  | bound => exact .bound
  | derived => exact .derived (.refl _)

theorem Memo.Covered.remember {memo other : Memo} (memos : memo.Covered other) {value found : Scalar}
    (covered : value.Covered found) (config : Config) :
    (memo.remember value config).Covered (other.remember found config) := by
  cases memos with
  | never => exact .never
  | empty | kept => exact .kept covered

theorem Storage.Covered.evaluated {storage other : Storage} (covers : storage.Covered other) {value found : Scalar}
    (covered : value.Covered found) (config : Config) :
    (storage.evaluated value config).Covered (other.evaluated found config) := by
  cases covers with
  | stored same => exact .stored same
  | bound => exact .bound
  | @derived formula _ _ memos => cases formula <;> exact .derived (memos.remember covered config)

/-- What can be read of one body can be read of another one, which may be a list with new elements. -/
inductive Body.Covered (new : Ref → Prop) : Body → Body → Prop where
  | plain : Covered new .plain .plain
  | scope {data other} : Covered new (.scope data) (.scope other)
  | var {storage other : Storage} (covered : storage.Covered other) : Covered new (.var storage) (.var other)
  | list {slots busy} {more : List Ref} (each : ∀ ref ∈ more, new ref)
      (holds : more ≠ [] → ((slots ++ more.map .held).length : Int) < Limits.integerBound) :
      Covered new (.list { slots, busy }) (.list { slots := slots ++ more.map .held, busy })

theorem Body.Covered.refl (new : Ref → Prop) (body : Body) : Covered new body body := by
  cases body with
  | plain => exact .plain
  | scope => exact .scope
  | var => exact .var (.refl _)
  | list data =>
    simpa using @Covered.list new data.slots data.busy [] (List.forall_mem_nil _) fun none => absurd rfl none

namespace Act

open World

variable {α β γ δ : Type} {mid : α → World → β → World → Prop} {alike : γ → World → δ → World → Prop}
  {world beside : World} {list : Ref}

/-- An act comes to some result and a world, unless its fuel does not last. -/
def Finishes (post : α → World → Prop) (act : Act α) (world : World) : Prop :=
  match act world with
  | .ok value after => post value after
  | .error stop _ => stop = .fault .exhausted

theorem Finishes.of_eq_ok {post : α → World → Prop} {act : Act α} {value : α} {after : World}
    (ran : act world = .ok value after) (done : post value after) : Finishes post act world := by
  unfold Finishes
  rwa [ran]

theorem Finishes.look {view : World → β} {post : α → World → Prop} {next : β → Act α}
    (rest : Finishes post (next (view world)) world) : Finishes post (see view >>= next) world := rest

theorem Finishes.bind {first : α → World → Prop} {post : β → World → Prop} {act : Act α} {next : α → Act β}
    (ends : Finishes first act world) (rest : ∀ value after, first value after → Finishes post (next value) after) :
    Finishes post (act >>= next) world := by
  unfold Finishes at ends ⊢
  cases ran : act world with
  | error stop after =>
    rw [ran] at ends
    rw [bind_of_error ran]
    exact ends
  | ok value after =>
    rw [ran] at ends
    rw [bind_of_ok ran]
    exact rest value after ends

/-- Where one act has a result, the other one has a result in another world. -/
def Succeeds (alike : α → World → β → World → Prop) (act : Act α) (world : World) (other : Act β) (beside : World) :
    Prop :=
  ∀ value after, act world = .ok value after → Finishes (alike value after) other beside

namespace Succeeds

variable {act : Act α} {other : Act β} {next : α → Act γ} {following : β → Act δ}

theorem pure {value : α} {found : β} (same : mid value world found beside) :
    Succeeds mid (pure value) world (pure found) beside := by
  rintro _ _ ⟨⟩
  exact same

theorem of_error {stop : Stop} {after : World} (stopped : act world = .error stop after) :
    Succeeds mid act world other beside := by
  intro value last ran
  cases stopped.symm.trans ran

/-- Only what acts come to matters. -/
theorem of_eq {act' : Act α} {other' : Act β} {world' beside' : World} (here : act world = act' world')
    (there : other beside = other' beside') (rest : Succeeds mid act' world' other' beside') :
    Succeeds mid act world other beside := by
  unfold Succeeds Finishes at rest ⊢
  rwa [here, there]

theorem exhausted {after : World} (stopped : other beside = .error (.fault .exhausted) after) :
    Succeeds mid act world other beside := by
  intro value last _
  unfold Finishes
  rw [stopped]

theorem bind (first : Succeeds mid act world other beside)
    (rest : ∀ value found after last, mid value after found last → Succeeds alike (next value) after (following found) last) :
    Succeeds alike (act >>= next) world (other >>= following) beside := by
  intro answer final went
  cases ran : act world with
  | error stop after => cases (bind_of_error ran).symm.trans went
  | ok value after =>
    rw [bind_of_ok ran] at went
    exact (first value after ran).bind fun found last same => rest value found after last same answer final went

/-- The other act may go on where the first one is done. -/
theorem follow {alike : α → World → δ → World → Prop} (first : Succeeds mid act world other beside)
    (rest : ∀ value found after last, mid value after found last → Finishes (alike value after) (following found) last) :
    Succeeds alike act world (other >>= following) beside :=
  fun value after ran => (first value after ran).bind fun found last same => rest value found after last same

/-- The first act may go on where the other one is done. -/
private theorem precede {alike : γ → World → β → World → Prop} (first : Succeeds mid act world other beside)
    (rest : ∀ value found after last, mid value after found last →
      ∀ answer final, next value after = .ok answer final → alike answer final found last) :
    Succeeds alike (act >>= next) world other beside := by
  have done : Succeeds alike (act >>= next) world (other >>= Pure.pure) beside := first.bind rest
  rwa [bind_pure] at done

/-- Looking at both worlds, which need not be the same. -/
theorem look_both {ε ζ : Type} {view : World → ε} {another : World → ζ} {next : ε → Act γ} {following : ζ → Act δ}
    (rest : Succeeds alike (next (view world)) world (following (another beside)) beside) :
    Succeeds alike (see view >>= next) world (see another >>= following) beside := rest

theorem look_here {ε : Type} {view : World → ε} {next : ε → Act α}
    (rest : Succeeds mid (next (view world)) world other beside) :
    Succeeds mid (see view >>= next) world other beside := rest

theorem look_there {ε : Type} {view : World → ε} {following : ε → Act β}
    (rest : Succeeds mid act world (following (view beside)) beside) :
    Succeeds mid act world (see view >>= following) beside := rest

theorem whileBusy {final : α → World → β → World → Prop}
    (succeeds : Succeeds mid act (world.setBusy list true) other (beside.setBusy list true))
    (same : ∀ {value after found last}, mid value after found last →
      final value (after.setBusy list false) found (last.setBusy list false)) :
    Succeeds final (whileBusy list act) world (whileBusy list other) beside := by
  rintro value final went
  obtain ⟨after, ran, rfl⟩ := whileBusy_ok_iff.mp went
  have done := succeeds value after ran
  unfold Finishes Act.whileBusy at *
  cases there : other (beside.setBusy list true) with
  | error stop last =>
    rw [there] at done
    exact done
  | ok found last =>
    rw [there] at done
    exact same done

theorem demand {ref : Ref} {name : String} {next : Ref → Act γ} {following : Ref → Act δ}
    (stays : world.isLive ref = true → beside.isLive ref = true)
    (rest : world.isLive ref = true → Succeeds alike (next ref) world (following ref) beside) :
    Succeeds alike (demand ref name >>= next) world (demand ref name >>= following) beside := by
  by_cases live : world.isLive ref = true
  · exact .of_eq (bind_of_ok (demand_of_live live)) (bind_of_ok (demand_of_live (stays live))) (rest live)
  · exact .of_error (bind_of_error (demand_of_gone (Bool.not_eq_true _ ▸ live)))

end Succeeds

end Act

namespace World

variable {known new : Ref → Prop} {world beside : World} {ref other list : Ref} {config : Config}

/-- Another world lets whatever is known be read that one world lets be read. What is new there stores a value that has
texts. -/
structure Covers (known new : Ref → Prop) (world beside : World) : Prop where
  settings : beside.config = world.config
  live : ∀ {ref}, world.isLive ref = true ↔ known ref
  bodies : ∀ {ref body}, world.body? ref = some body → ∃ twin, beside.body? ref = some twin ∧ Body.Covered new body twin
  holds : ∀ {holder held}, held ∈ world.holdsOf holder → known held
  stores : ∀ {ref}, new ref → ∃ value, beside.storage? ref = some (.stored value) ∧
    ∀ config, ∃ text, value.asText config = .ok text

theorem isLive_iff_body? : world.isLive ref = true ↔ ∃ body, world.body? ref = some body := by
  rw [isLive, body?, ← Option.isSome_iff_exists, Option.isSome_map]

namespace Covers

variable (covers : Covers known new world beside)

include covers

theorem stays (live : world.isLive ref = true) : beside.isLive ref = true := by
  obtain ⟨body, found⟩ := isLive_iff_body?.mp live
  obtain ⟨twin, there, -⟩ := covers.bodies found
  exact isLive_iff_body?.mpr ⟨twin, there⟩

theorem setBusy {busy : Bool} : Covers known new (world.setBusy list busy) (beside.setBusy list busy) where
  settings := covers.settings
  live := by
    intro ref
    rw [← covers.live, World.setBusy, changeList, isLive_change]
  bodies := by
    intro ref body found
    rw [body?_setBusy] at found ⊢
    split at found
    next here =>
      obtain ⟨former, before, rfl⟩ := Option.map_eq_some_iff.mp found
      obtain ⟨twin, there, covered⟩ := covers.bodies before
      refine ⟨twin.setBusy busy, by rw [if_pos here, there]; rfl, ?_⟩
      cases covered with
      | plain => exact .plain
      | scope => exact .scope
      | var covered => exact .var covered
      | list each holds => exact .list each holds
    next here =>
      rw [if_neg here]
      exact covers.bodies found
  holds member := covers.holds (holdsOf_setBusy ▸ member)
  stores inside := storage?_changeList.symm ▸ covers.stores inside

theorem evaluate {value found : Scalar} (inside : known ref) (covered : value.Covered found) :
    Covers known new (world.evaluate ref value config) (beside.evaluate ref found config) := by
  obtain ⟨body, here⟩ := isLive_iff_body?.mp (covers.live.mpr inside)
  obtain ⟨twin, there, bodies⟩ := covers.bodies here
  cases bodies with
  | @var storage another stored =>
    replace here := storage?_eq_some.mpr here
    replace there := storage?_eq_some.mpr there
    refine ⟨?_, fun {other} => ?_, fun {other body} before => ?_, fun member => ?_, fun {other} fresh => ?_⟩
    · rw [World.evaluate, World.evaluate, here, there]
      exact covers.settings
    · rw [← covers.live, isLive_iff_body?, isLive_iff_body?, body?_evaluate here]
      split
      next same =>
        subst same
        simp [storage?_eq_some.mp here]
      next => rfl
    · rw [body?_evaluate here] at before
      rw [body?_evaluate there]
      split at before
      next same =>
        rw [if_pos same]
        obtain rfl := Option.some.inj before
        exact ⟨_, rfl, .var (stored.evaluated covered _)⟩
      next apart =>
        rw [if_neg apart]
        exact covers.bodies before
    · exact covers.holds (Undisturbed.evaluate.holdsOf ▸ member)
    · obtain ⟨former, stored, shown⟩ := covers.stores fresh
      refine ⟨former, storage?_eq_some.mpr ?_, shown⟩
      rw [body?_evaluate there]
      split
      next same =>
        -- What stores its value is not worked out.
        obtain rfl := Option.some.inj (there.symm.trans (same ▸ stored))
        rfl
      next => exact storage?_eq_some.mp stored
  | plain | scope | list =>
    have same {world : World} (none : world.storage? ref = none) (value : Scalar) :
        world.evaluate ref value config = world := by
      rw [World.evaluate, none]
    rw [same (by rw [World.storage?, here]), same (by rw [World.storage?, there])]
    exact covers

/-- Lists have the same elements and new ones, and they are busy at the same time. -/
theorem list? (inside : known list) : beside.isBusy list = world.isBusy list ∧
    ∃ more : List Ref, beside.slots list = world.slots list ++ more.map .held ∧ (∀ ref ∈ more, new ref) ∧
      (more ≠ [] → (beside.length list : Int) < Limits.integerBound) := by
  obtain ⟨body, found⟩ := isLive_iff_body?.mp (covers.live.mpr inside)
  obtain ⟨twin, there, covered⟩ := covers.bodies found
  have bare {world : World} (none : world.list? list = none) : world.isBusy list = false ∧ world.slots list = [] := by
    rw [World.isBusy, World.slots, none]
    exact ⟨rfl, rfl⟩
  cases covered with
  | @list slots busy more each holds =>
    simp only [World.length, World.isBusy, World.slots, World.list?, found, there]
    exact ⟨rfl, more, rfl, each, holds⟩
  | plain | scope | var =>
    obtain ⟨idle, empty⟩ := bare (by rw [World.list?, found])
    obtain ⟨idleThere, emptyThere⟩ := bare (by rw [World.list?, there])
    exact ⟨idleThere.trans idle.symm, [], by rw [empty, emptyThere]; rfl, by simp, fun none => absurd rfl none⟩

theorem length (inside : known list) : (Scalar.number (.integer (world.length list) config)).Covered
    (.number (.integer (beside.length list) config)) := by
  obtain ⟨-, more, slots, -, holds⟩ := covers.list? inside
  by_cases none : more = []
  · subst none
    rw [World.length, World.length, slots, List.map_nil, List.append_nil]
    exact .refl _
  · exact .length _ (holds none) config

end Covers

theorem Sound.covers (sound : world.Sound) : Covers (world.isLive · = true) (fun _ => False) world world :=
  ⟨rfl, .rfl, fun {_ body} found => ⟨body, found, .refl _ _⟩, sound.held, False.elim⟩

end World

namespace Act

open World

variable {α β : Type} {known new : Ref → Prop} {world beside : World} {ref list : Ref} {config : Config}
  {read : Ref → Act Scalar} {other : Ref → Act α}

/-- What is read in one world is covered by what is read in another one, as is what the reading leaves. -/
structure ReadsAs (known new : Ref → Prop) (value : Scalar) (after : World) (found : Scalar) (last : World) : Prop where
  covered : value.Covered found
  covers : Covers known new after last

/-- What one act leaves is covered by what another one leaves. -/
def LeavesCovered (known new : Ref → Prop) (_ : α) (after : World) (_ : β) (last : World) : Prop :=
  Covers known new after last

/-- Whether what is read in one world can be read in any that covers it, what is new there included. -/
structure ReadsCovered (config : Config) (known new : Ref → Prop) (read other : Ref → Act Scalar) : Prop where
  shared : ∀ ref world beside, known ref → Covers known new world beside →
    Succeeds (ReadsAs known new) (read ref) world (other ref) beside
  fresh : ∀ ref world beside, new ref → Covers known new world beside →
    Finishes (fun found last => (∃ text, found.asText config = .ok text) ∧ Covers known new world last) (other ref) beside

/-- Whether what is read in one world can be gone through in any that covers it, what is new there included. -/
structure PlansCovered (known new : Ref → Prop) (read : Ref → Act Scalar) (plan : Ref → Act Copy) : Prop where
  shared : ∀ ref world beside, known ref → Covers known new world beside →
    Succeeds (LeavesCovered known new) (read ref) world (plan ref) beside
  fresh : ∀ ref world beside, new ref → Covers known new world beside →
    Finishes (fun _ last => Covers known new world last) (plan ref) beside

variable {other : Ref → Act Scalar} {plan : Ref → Act Copy} {alike : α → World → β → World → Prop}

private theorem succeeds_element {slot : Slot} {next : Ref → Act α} {following : Ref → Act β}
    (covers : Covers known new world beside) (held : ∀ element ∈ slot.held?, known element)
    (rest : known slot.target → Succeeds alike (next slot.target) world (following slot.target) beside) :
    Succeeds alike (element slot >>= next) world (element slot >>= following) beside := by
  rcases slot with element | ⟨target, name⟩
  · exact rest (held element rfl)
  · exact .demand covers.stays fun live => rest (covers.live.mp live)

private theorem succeeds_planSlot {alike : α → World → Copy → World → Prop} {slot : Slot} {next : Ref → Act α}
    (covers : Covers known new world beside) (held : ∀ element ∈ slot.held?, known element)
    (rest : known slot.target → Succeeds alike (next slot.target) world (plan slot.target) beside) :
    Succeeds alike (element slot >>= next) world (planSlot plan slot) beside := by
  rcases slot with element | ⟨target, name⟩
  · exact rest (held element rfl)
  · by_cases live : world.isLive target = true
    · have planned : planSlot plan (.link target name) beside = plan target beside := by
        change (if beside.isLive target = true then plan target else return .keep (.link target name)) beside = _
        rw [if_pos (covers.stays live)]
      exact .of_eq (bind_of_ok (demand_of_live live)) planned (rest (covers.live.mp live))
    · exact .of_error (bind_of_error (demand_of_gone (Bool.not_eq_true _ ▸ live)))

/-- Where one text can be worked out, so can the other one. -/
private theorem succeeds_append {value found : Scalar} {text other : String} (covered : value.Covered found)
    (covers : Covers known new world beside) :
    Succeeds (LeavesCovered known new) (do return text ++ (← compute (value.asText config)) : Act String) world
      (do return other ++ (← compute (found.asText config)) : Act String) beside := by
  cases shown : value.asText config with
  | error failure => cases failure <;> exact .of_error rfl
  | ok text =>
    obtain ⟨another, written⟩ := covered.texts shown
    rw [written]
    exact .pure covers

section Elements

variable {slots : List Slot} {more : List Ref} (held : ∀ slot ∈ slots, ∀ element ∈ slot.held?, known element)
  (each : ∀ ref ∈ more, new ref) (covers : Covers known new world beside)

include held each covers

theorem ReadsCovered.texts (reads : ReadsCovered config known new read other) (text found : String) :
    Succeeds (LeavesCovered known new) (slots.foldlM (joined read config) text) world
      ((slots ++ more.map Slot.held).foldlM (joined other config) found) beside := by
  induction slots generalizing world beside text found with
  | nil =>
    rintro _ _ ⟨⟩
    induction more generalizing beside found with
    | nil => exact covers
    | cons first rest ih =>
      obtain ⟨here, later⟩ := List.forall_mem_cons.mp each
      have goes : Finishes (fun _ last => Covers known new world last) (joined other config found (.held first)) beside := by
        refine (reads.fresh first world beside here covers).bind fun value last ⟨⟨shown, written⟩, same⟩ => ?_
        rw [written]
        exact same
      exact goes.bind fun text last same => ih later same text
  | cons slot rest ih =>
    obtain ⟨here, later⟩ := List.forall_mem_cons.mp held
    rw [List.cons_append, List.foldlM_cons, List.foldlM_cons]
    refine Succeeds.bind (?_ : Succeeds (LeavesCovered known new) _ world _ beside) fun text found _ _ same =>
      ih later same text found
    refine succeeds_element covers here fun inside => ?_
    exact (reads.shared slot.target world beside inside covers).bind fun _ _ _ _ same => succeeds_append same.covered same.covers

theorem PlansCovered.plans (passes : PlansCovered known new read plan) (text : String) :
    Succeeds (LeavesCovered known new) (slots.foldlM (joined read config) text) world
      ((slots ++ more.map Slot.held).mapM (planSlot plan)) beside := by
  induction slots generalizing world beside text with
  | nil =>
    rintro _ _ ⟨⟩
    induction more generalizing beside with
    | nil => exact covers
    | cons first rest ih =>
      obtain ⟨here, later⟩ := List.forall_mem_cons.mp each
      have goes : Finishes (fun _ last => Covers known new world last) (planSlot plan (.held first)) beside :=
        passes.fresh first world beside here covers
      rw [List.nil_append, List.map_cons, List.mapM_cons]
      exact goes.bind fun _ last same => (ih later same).bind fun _ _ same => same
  | cons slot rest ih =>
    obtain ⟨here, later⟩ := List.forall_mem_cons.mp held
    rw [List.cons_append, List.foldlM_cons, List.mapM_cons]
    refine Succeeds.bind (?_ : Succeeds (LeavesCovered known new) _ world _ beside) fun text _ _ _ same =>
      (ih later same text).follow fun _ _ _ _ same => same
    refine succeeds_planSlot covers here fun inside => ?_
    refine (passes.shared slot.target world beside inside covers).precede fun value _ _ _ same _ _ went => ?_
    cases shown : value.asText config with
    | error failure =>
      rw [shown] at went
      cases failure <;> cases went
    | ok text =>
      rw [shown] at went
      cases went
      exact same

end Elements

/-- A list is read. -/
theorem ReadsCovered.flattenWith (reads : ReadsCovered config known new read other) (inside : known list)
    (covers : Covers known new world beside) :
    Succeeds (LeavesCovered known new) (flattenWith read config list) world (flattenWith other config list) beside := by
  have busy := (covers.list? inside).1
  refine .look_both ?_
  rw [busy]
  split
  next => exact .pure covers
  next =>
    have entered : Covers known new (world.setBusy list true) (beside.setBusy list true) := covers.setBusy
    obtain ⟨-, more, slots, each, -⟩ := entered.list? inside
    refine .whileBusy (.look_both ?_) fun same => Covers.setBusy same
    rw [slots]
    exact reads.texts (fun slot member element holds => entered.holds (mem_holdsOf_of_slot member holds)) each entered "" ""

theorem ReadsCovered.text (reads : ReadsCovered config known new read other) (inside : known list)
    (covers : Covers known new world beside) :
    Succeeds (ReadsAs known new) (do return .text (← Act.flattenWith read config list)) world
      (do return .text (← Act.flattenWith other config list)) beside :=
  (reads.flattenWith inside covers).bind fun _ _ _ _ same => .pure ⟨.text .., same⟩

theorem ReadsCovered.readBinding (reads : ReadsCovered config known new read other) {binding : Binding}
    (covers : Covers known new world beside) :
    Succeeds (ReadsAs known new) (readBinding read config binding) world (readBinding other config binding) beside := by
  have text (value found : String) : Succeeds (ReadsAs known new) (return .text value : Act Scalar) world
      (return .text found : Act Scalar) beside := .pure ⟨.text .., covers⟩
  have same (value : Scalar) : Succeeds (ReadsAs known new) (return value : Act Scalar) world
      (return value : Act Scalar) beside := .pure ⟨.refl _, covers⟩
  cases binding with
  | cell kept => exact same kept
  | length list name =>
    refine .demand covers.stays fun live => .look_both (.pure ⟨?_, covers⟩)
    exact covers.length (covers.live.mp live)
  | precision target name =>
    refine .demand covers.stays fun live => ?_
    refine (reads.shared target world beside (covers.live.mp live) covers).bind fun _ _ _ _ same => ?_
    rw [same.covered.precision]
    exact .pure ⟨.refl _, same.covers⟩
  | ownerName owner => exact .demand covers.stays fun live => .look_both (text _ _)
  | beenSaid block => exact .demand covers.stays fun live => .look_both (.pure ⟨⟨fun _ => ⟨_, rfl⟩, fun _ => rfl⟩, covers⟩)
  | setting which =>
    have settings := covers.settings
    cases which <;> exact .look_both (settings ▸ same _)

theorem ReadsCovered.readFormula (reads : ReadsCovered config known new read other) {formula : Formula} {memo : Memo}
    (found : world.storage? ref = some (.derived formula memo)) (covers : Covers known new world beside) :
    Succeeds (ReadsAs known new) (readFormula read config formula) world (readFormula other config formula) beside := by
  cases formula with
  | fullName owner => exact .demand covers.stays fun live => .look_both (.pure ⟨.text .., covers⟩)
  | text list => exact reads.text (covers.holds (mem_holdsOf_of_text found)) covers
  | calls | pi => exact .pure ⟨.refl _, covers⟩

/-- What stores its value is read at once. -/
theorem finishes_valueWithin (more : Nat) (inside : new ref) (covers : Covers known new world beside) :
    Finishes (fun found last => (∃ text, found.asText config = .ok text) ∧ Covers known new world last)
      (valueWithin more config ref) beside := by
  cases more with
  | zero => rfl
  | succ more =>
    obtain ⟨value, stored, shown⟩ := covers.stores inside
    have ran : valueWithin (more + 1) config ref beside = .ok value beside := by
      unfold valueWithin Act.valueWith
      rw [see_bind, storage?_eq_some.mp stored]
      rfl
    exact .of_eq_ok ran ⟨shown config, covers⟩

theorem ReadsCovered.valueWith (reads : ReadsCovered config known new read other) (inside : known ref)
    (covers : Covers known new world beside) :
    Succeeds (ReadsAs known new) (valueWith read config ref) world (valueWith other config ref) beside := by
  refine .look_both ?_
  obtain ⟨body, found⟩ := isLive_iff_body?.mp (covers.live.mpr inside)
  obtain ⟨twin, there, covered⟩ := covers.bodies found
  rw [found, there]
  cases covered with
  | plain => exact .look_both (.pure ⟨.text .., covers⟩)
  | scope => exact .look_both (.pure ⟨.text .., covers⟩)
  | list each => exact reads.text inside covers
  | var storages =>
    have here := storage?_eq_some.mpr found
    cases storages with
    | stored same => exact .pure ⟨same, covers⟩
    | bound => exact reads.readBinding covers
    | derived memos =>
      have worksOut {formula : Formula} {memo : Memo} (found : world.storage? ref = some (.derived formula memo)) :
          Succeeds (ReadsAs known new)
            (do let value ← Act.readFormula read config formula
                update (·.evaluate ref value config)
                return value) world
            (do let value ← Act.readFormula other config formula
                update (·.evaluate ref value config)
                return value) beside := by
        refine (reads.readFormula found covers).bind fun value other after last same => ?_
        have done : Succeeds (ReadsAs known new) (return value : Act Scalar) (after.evaluate ref value config)
            (return other : Act Scalar) (last.evaluate ref other config) :=
          .pure ⟨same.covered, same.covers.evaluate inside same.covered⟩
        exact done
      dsimp only
      cases memos with
      | never => exact worksOut here
      | empty => exact worksOut here
      | @kept precision rounding value other covered =>
        by_cases current : precision = config.precision ∧ rounding = config.rounding
        · simp only [Memo.recalled?, if_pos current]
          exact .pure ⟨covered, covers⟩
        · simp only [Memo.recalled?, if_neg current]
          exact worksOut here

private theorem covered_valueWithin (fuel more : Nat) :
    ReadsCovered config known new (valueWithin fuel config) (valueWithin more config) where
  fresh _ _ _ := finishes_valueWithin more
  shared := by
    induction fuel generalizing more with
    | zero => exact fun _ _ _ _ _ => .of_error rfl
    | succ fuel ih =>
      cases more with
      | zero => exact fun _ _ _ _ _ => .exhausted rfl
      | succ more => exact fun _ _ _ => ReadsCovered.valueWith ⟨ih more, fun _ _ _ => finishes_valueWithin more⟩

/-! Plans. -/

theorem PlansCovered.planSlots (passes : PlansCovered known new read plan) (inside : known list)
    (covers : Covers known new world beside) :
    Succeeds (LeavesCovered known new) (Act.flattenWith read config list) world (planSlots plan list) beside := by
  obtain ⟨busy, more, slots, each, -⟩ := covers.list? inside
  refine .look_there (.look_both ?_)
  rw [busy]
  split
  next => exact .pure covers
  next =>
    have entered : Covers known new (world.setBusy list true) (beside.setBusy list true) := covers.setBusy
    refine .whileBusy (.look_here ?_) fun same => Covers.setBusy same
    have kept : (world.setBusy list true).slots list = world.slots list := slots_setBusy
    rw [slots, ← kept]
    exact passes.plans (fun slot member element holds => entered.holds (mem_holdsOf_of_slot member holds)) each entered ""

/-- An object that is not copied is referred to. -/
private theorem finishes_reference {post : World → Prop} (done : post beside) :
    Finishes (fun _ => post) (do return Copy.keep (← reference ref)) beside := by
  have refers : ∃ slot, reference ref beside = .ok slot beside := by
    unfold reference
    rw [see_bind]
    split <;> exact ⟨_, rfl⟩
  obtain ⟨slot, ran⟩ := refers
  unfold Finishes
  rw [bind_of_ok ran]
  exact done

/-- A variable is read and a list is gone through, while anything else shows its full name and is referred to. -/
theorem PlansCovered.planWith {fuel : Nat} (passes : PlansCovered known new (valueWithin fuel config) plan)
    (inside : known ref) (covers : Covers known new world beside) :
    Succeeds (LeavesCovered known new) (valueWithin (fuel + 1) config ref) world (planWith plan config ref) beside := by
  obtain ⟨body, found⟩ := isLive_iff_body?.mp (covers.live.mpr inside)
  obtain ⟨twin, there, covered⟩ := covers.bodies found
  refine .look_there ?_
  rw [kindOf_eq_body?, there]
  cases covered with
  | var =>
    have reads : Succeeds (ReadsAs known new) (valueWithin (fuel + 1) config ref) world (Act.value config ref) beside :=
      (covered_valueWithin (fuel + 1) beside.readingFuel).shared ref world beside inside covers
    exact (Succeeds.look_there reads).follow fun _ _ _ _ same => same.covers
  | list =>
    have busy := (covers.list? inside).1
    refine .look_here ?_
    rw [found]
    refine .look_there ?_
    rw [busy]
    cases inUse : world.isBusy ref with
    | true =>
      have ran : Act.flattenWith (valueWithin fuel config) config ref world = .ok "" world := by
        unfold Act.flattenWith
        rw [see_bind, if_pos inUse]
        rfl
      refine .of_eq (bind_of_ok ran) rfl ?_
      rintro _ _ ⟨⟩
      exact covers
    | false => exact (passes.planSlots inside covers).bind fun _ _ _ _ same => .pure same
  | plain =>
    refine .look_here ?_
    rw [found]
    rintro _ _ ⟨⟩
    exact finishes_reference covers
  | @scope _ other =>
    refine .look_here ?_
    rw [found]
    rintro _ _ ⟨⟩
    obtain ⟨role, _, _, _⟩ := other
    cases role <;> exact finishes_reference covers

private theorem finishes_planWithin (more : Nat) (inside : new ref) (covers : Covers known new world beside) :
    Finishes (fun _ last => Covers known new world last) (planWithin more config ref) beside := by
  cases more with
  | zero => rfl
  | succ more =>
    obtain ⟨former, stored, -⟩ := covers.stores inside
    have reads : Finishes (fun found last => (∃ text, found.asText config = .ok text) ∧ Covers known new world last)
        (value config ref) beside := finishes_valueWithin beside.readingFuel inside covers
    have kind : beside.kindOf ref = .var := by
      rw [kindOf_eq_body?, storage?_eq_some.mp stored]
      rfl
    refine .look ?_
    rw [kind]
    exact reads.bind fun _ _ same => same.2

private theorem plansCovered_planWithin (fuel more : Nat) :
    PlansCovered known new (valueWithin fuel config) (planWithin more config) where
  fresh _ _ _ := finishes_planWithin more
  shared := by
    induction fuel generalizing more with
    | zero => exact fun _ _ _ _ _ => .of_error rfl
    | succ fuel ih =>
      cases more with
      | zero => exact fun _ _ _ _ _ => .exhausted rfl
      | succ more => exact fun _ _ _ => PlansCovered.planWith ⟨ih more, fun _ _ _ => finishes_planWithin more⟩

end Act

namespace World

open Act

variable {known new : Ref → Prop} {world beside : World} {object : Ref} {config : Config} {value : Scalar}

/-- What can be read in one world can be copied in one that covers it. -/
theorem HasValue.copy (has : world.HasValue config object value) (covers : Covers known new world beside)
    (inside : known object) (ordered : beside.Ordered) : Gives (Act.copy config object) beside fun _ _ => True := by
  obtain ⟨after, ran⟩ := has
  have planned : Act.Finishes (fun _ last => Covers known new after last) (plan config object) beside :=
    (plansCovered_planWithin _ beside.copyingFuel).shared object world beside inside covers value after ran
  have lasts : Meets quiet (plan config object) beside _ := meets_plan ordered closed_everything fun _ => trivial
  unfold Act.Finishes at planned
  cases there : plan config object beside with
  | error stop last =>
    rw [there] at planned
    rcases (lasts.of_error there).2 with ⟨anomaly, rfl⟩ | rfl <;> cases planned
  | ok copy last =>
    obtain ⟨slot, final, made, -⟩ := gives_make copy last
    exact ⟨slot, final, (bind_of_ok there).trans made, trivial⟩

end World

end Dialogue
