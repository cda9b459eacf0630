import ScriptLedger.Script.Stack

namespace ScriptLedger.Script

/-- The two stacks that a script works on. -/
structure Stacks where
  main : Stack
  alt : Stack
  deriving DecidableEq, Repr

/-- A computation on both stacks; what it did before a failure stays done. -/
abbrev StacksM := Stateful Stacks

def onMain {α : Type} (x : StackM α) : StacksM α := fun s =>
  match x s.main with
  | .ok a t => .ok a { s with main := t }
  | .error e t => .error e { s with main := t }

def onAlt {α : Type} (x : StackM α) : StacksM α := fun s =>
  match x s.alt with
  | .ok a t => .ok a { s with alt := t }
  | .error e t => .error e { s with alt := t }

section

variable {α : Type} {x : StackM α} {s : Stacks} {t : Stack} {a : α} {e : Failure}

theorem onMain_ok (h : x s.main = .ok a t) : onMain x s = .ok a { s with main := t } := by
  simp only [onMain, h]

theorem onMain_error (h : x s.main = .error e t) : onMain x s = .error e { s with main := t } := by
  simp only [onMain, h]

theorem onMain_congr {y : StackM α} (h : x s.main = y s.main) : onMain x s = onMain y s := by
  simp only [onMain, h]

theorem onAlt_ok (h : x s.alt = .ok a t) : onAlt x s = .ok a { s with alt := t } := by
  simp only [onAlt, h]

theorem onAlt_error (h : x s.alt = .error e t) : onAlt x s = .error e { s with alt := t } := by
  simp only [onAlt, h]

theorem onMain_eq_ok_iff {s' : Stacks} :
    onMain x s = .ok a s' ↔ ∃ t, x s.main = .ok a t ∧ { s with main := t } = s' := by
  cases h : x s.main with
  | ok a t => simp [onMain_ok h, and_assoc]
  | error e t => simp [onMain_error h]

theorem onMain_eq_error_iff {s' : Stacks} :
    onMain x s = .error e s' ↔ ∃ t, x s.main = .error e t ∧ { s with main := t } = s' := by
  cases h : x s.main with
  | ok a t => simp [onMain_ok h]
  | error e t => simp [onMain_error h, and_assoc]

theorem onAlt_eq_ok_iff {s' : Stacks} :
    onAlt x s = .ok a s' ↔ ∃ t, x s.alt = .ok a t ∧ { s with alt := t } = s' := by
  cases h : x s.alt with
  | ok a t => simp [onAlt_ok h, and_assoc]
  | error e t => simp [onAlt_error h]

theorem onAlt_eq_error_iff {s' : Stacks} :
    onAlt x s = .error e s' ↔ ∃ t, x s.alt = .error e t ∧ { s with alt := t } = s' := by
  cases h : x s.alt with
  | ok a t => simp [onAlt_ok h]
  | error e t => simp [onAlt_error h, and_assoc]

end

namespace Stack

/-- Pops an item and reads it as a number no wider than the limit. -/
def popNumber (width : Nat) : StackM Int := do
  ofExcept (Number.decode width (← pop))

/-- Pops an index and checks it against the items below. -/
def popIndex (width : Nat) : StackM Nat := do
  let n ← popNumber width
  if n < 0 ∨ ((← get).size : Int) ≤ n then throw (.invalidStackIndex n)
  else pure n.toNat

theorem popNumber_of_ok {width capacity : Nat} {item : Bytes} {items : List Bytes} {n : Int}
    (h : Number.decode width item = .ok n) :
    popNumber width ⟨item :: items, capacity⟩ = .ok n ⟨items, capacity⟩ := by
  rw [popNumber, Stateful.bind_ok (pop_cons item items capacity), h]
  rfl

theorem popNumber_of_error {width capacity : Nat} {item : Bytes} {items : List Bytes} {e : Failure}
    (h : Number.decode width item = .error e) :
    popNumber width ⟨item :: items, capacity⟩ = .error e ⟨items, capacity⟩ := by
  rw [popNumber, Stateful.bind_ok (pop_cons item items capacity), h]
  rfl

def pushNumber (n : Int) : StackM Unit :=
  push (Number.encode n)

/-- Pushes a number that was computed, unless it overflowed. -/
def pushResult (n : Except Failure Int) : StackM Unit := do
  pushNumber (← ofExcept n)

end Stack

end ScriptLedger.Script
