import Dialogue.Machine
import Mathlib.Tactic.Common

/-! Taking results apart. A chain of steps that may fail has a result exactly when each step has one. -/

namespace Dialogue.Results

variable {ε α β : Type}

theorem bind_eq_ok {first : Except ε α} {next : α → Except ε β} {result : β} :
    (first >>= next) = .ok result ↔ ∃ value, first = .ok value ∧ next value = .ok result := by
  cases first with
  | error failure => exact ⟨fun same => (nomatch same), fun ⟨_, same, _⟩ => nomatch same⟩
  | ok value => exact ⟨fun same => ⟨value, rfl, same⟩, fun ⟨_, same, after⟩ => Except.ok.inj same ▸ after⟩

theorem ok_bind (value : α) (next : α → Except ε β) : (Except.ok value >>= next) = next value := rfl

theorem map_eq_ok {change : α → β} {first : Except ε α} {result : β} :
    (change <$> first) = .ok result ↔ ∃ value, first = .ok value ∧ change value = result := by
  cases first with
  | error failure => exact ⟨fun same => (nomatch same), fun ⟨_, same, _⟩ => nomatch same⟩
  | ok value =>
    refine ⟨fun same => ⟨value, rfl, Except.ok.inj same⟩, fun ⟨_, same, after⟩ => ?_⟩
    exact congrArg Except.ok (Except.ok.inj same ▸ after)

theorem map_eq_error {change : α → β} {first : Except ε α} {failure : ε} :
    (change <$> first) = .error failure ↔ first = .error failure := by
  cases first with
  | error cause =>
    exact ⟨fun same => congrArg Except.error (Except.error.inj same),
      fun same => congrArg Except.error (Except.error.inj same)⟩
  | ok value => exact ⟨fun same => (nomatch same), fun same => (nomatch same)⟩

/-- A step after a check is reached where the check fails to find fault. -/
theorem check_eq_ok {fault : Prop} [Decidable fault] {failure : ε} {next : Except ε α} {result : α} :
    (if fault then do let _ ← (throw failure : Except ε PUnit); next else next) = .ok result ↔
      ¬fault ∧ next = .ok result := by
  split
  next found => exact iff_of_false (fun same => nomatch same) fun passed => passed.1 found
  next none => simp [none]

theorem bind_eq_error {first : Except ε α} {next : α → Except ε β} {failure : ε} :
    (first >>= next) = .error failure ↔
      first = .error failure ∨ ∃ value, first = .ok value ∧ next value = .error failure := by
  cases first with
  | error cause =>
    refine ⟨fun same => .inl (congrArg _ (Except.error.inj same)), ?_⟩
    rintro (same | ⟨_, same, _⟩)
    · exact congrArg _ (Except.error.inj same)
    · cases same
  | ok value =>
    refine ⟨fun same => .inr ⟨value, rfl, same⟩, ?_⟩
    rintro (same | ⟨_, same, after⟩)
    · cases same
    · exact Except.ok.inj same ▸ after

theorem mapError_eq_ok {δ : Type} {change : ε → δ} {outcome : Except ε α} {result : α} :
    outcome.mapError change = .ok result ↔ outcome = .ok result := by
  cases outcome <;> simp [Except.mapError]

private theorem mapError_eq_error {δ : Type} {change : ε → δ} {outcome : Except ε α} {failure : δ} :
    outcome.mapError change = .error failure ↔ ∃ cause, outcome = .error cause ∧ failure = change cause := by
  cases outcome <;> simp [Except.mapError, eq_comm]

end Dialogue.Results

namespace Dialogue

variable {ε α : Type}

theorem Failure.refusing_eq_ok {outcome : Except ε α} {value : α} :
    refusing outcome = .ok value ↔ outcome = .ok value :=
  Results.mapError_eq_ok

theorem Failure.refusing_eq_error {outcome : Except ε α} {failure : Failure ε} :
    refusing outcome = .error failure ↔ ∃ reason, outcome = .error reason ∧ failure = .refused reason :=
  Results.mapError_eq_error

theorem Machine.integer_eq {n : Int} (held : Holds n) : integer n = (.ok n : Except (Failure ε) Int) := if_pos held

theorem Machine.eq_of_integer {n result : Int} (found : integer n = (.ok result : Except (Failure ε) Int)) :
    result = n := by
  unfold integer at found
  split at found
  · exact (Except.ok.inj found).symm
  · cases found

theorem Machine.integer_eq_error {n : Int} {failure : Failure ε} (failed : integer n = .error failure) :
    ¬Holds n ∧ failure = .overflow := by
  unfold integer at failed
  split at failed
  · cases failed
  next out => exact ⟨out, (Except.error.inj failed).symm⟩

theorem Machine.integer_eq_overflow {n : Int} (out : ¬Holds n) :
    integer n = (.error .overflow : Except (Failure ε) Int) := if_neg out

end Dialogue
