import ScriptLedger.Failure

namespace ScriptLedger

/-- A computation on a state; what it did before a failure stays done. -/
abbrev Stateful (σ : Type) := EStateM Failure σ

namespace Stateful

variable {σ α β : Type} {x : Stateful σ α} {f : α → Stateful σ β} {s t u : σ} {a : α} {b : β}
  {e : Failure}

theorem pure_apply (a : α) (s : σ) : (pure a : Stateful σ α) s = .ok a s := rfl

theorem bind_ok (h : x s = .ok a t) : (x >>= f) s = f a t := by
  simp [bind, EStateM.bind, h]

theorem bind_error (h : x s = .error e t) : (x >>= f) s = .error e t := by
  simp [bind, EStateM.bind, h]

theorem bind_congr {y : Stateful σ α} (h : x s = y t) : (x >>= f) s = (y >>= f) t := by
  simp only [bind, EStateM.bind, h]

theorem bind_eq_ok_iff :
    (x >>= f) s = .ok b u ↔ ∃ a t, x s = .ok a t ∧ f a t = .ok b u := by
  cases h : x s with
  | ok a t => simp [bind_ok h, and_assoc]
  | error e t => simp [bind_error h]

theorem bind_eq_error_iff :
    (x >>= f) s = .error e u ↔
      x s = .error e u ∨ ∃ a t, x s = .ok a t ∧ f a t = .error e u := by
  cases h : x s with
  | ok a t => simp [bind_ok h, and_assoc]
  | error e t => simp [bind_error h]

/-- How a computation ends, without the state that it leaves. -/
def outcome (x : Stateful σ α) (s : σ) : Except Failure α :=
  match x s with
  | .ok a _ => .ok a
  | .error e _ => .error e

/-- The state that a computation leaves, whether it ends well or fails. -/
def after (x : Stateful σ α) (s : σ) : σ :=
  match x s with
  | .ok _ t => t
  | .error _ t => t

theorem outcome_ok (h : x s = .ok a t) : outcome x s = .ok a := by
  rw [outcome, h]

theorem outcome_error (h : x s = .error e t) : outcome x s = .error e := by
  rw [outcome, h]

theorem after_ok (h : x s = .ok a t) : after x s = t := by
  rw [after, h]

theorem after_error (h : x s = .error e t) : after x s = t := by
  rw [after, h]

theorem outcome_congr {y : Stateful σ α} (h : x s = y t) : outcome x s = outcome y t := by
  rw [outcome, outcome, h]

theorem after_congr {y : Stateful σ α} (h : x s = y t) : after x s = after y t := by
  rw [after, after, h]

theorem outcome_ofExcept (r : Except Failure α) (s : σ) :
    outcome (MonadExcept.ofExcept r : Stateful σ α) s = r := by
  cases r <;> rfl

theorem after_ofExcept (r : Except Failure α) (s : σ) :
    after (MonadExcept.ofExcept r : Stateful σ α) s = s := by
  cases r <;> rfl

end Stateful

end ScriptLedger
