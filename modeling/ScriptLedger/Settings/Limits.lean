namespace ScriptLedger

/-- The limits that a script runs under. Each of the two stacks is bounded by `stackSize`. -/
structure ScriptLimits where
  scriptSize : Nat := 10000
  stackSize : Nat := 1000
  elementSize : Nat := 520
  operations : Nat := 201
  numberWidth : Nat := 8
  deriving DecidableEq, Repr

/-- The limits of scripts and the largest block record that is decoded. -/
structure Settings where
  script : ScriptLimits := {}
  recordSize : Nat := 33554432
  deriving DecidableEq, Repr

/-- The names of the limits. -/
inductive Limit where
  | scriptSize
  | stackSize
  | elementSize
  | operations
  | numberWidth
  | recordSize
  deriving DecidableEq, Repr

namespace Limit

/-- The order in which limits are checked and overridden. -/
def all : List Limit :=
  [.scriptSize, .stackSize, .elementSize, .operations, .numberWidth, .recordSize]

theorem mem_all (l : Limit) : l ∈ all := by
  cases l <;> decide

/-- The name of a limit in a document. -/
def key : Limit → String
  | .scriptSize => "max_script_size"
  | .stackSize => "max_stack_size"
  | .elementSize => "max_element_size"
  | .operations => "max_ops"
  | .numberWidth => "max_num_len"
  | .recordSize => "max_record_size"

/-- The end of the name of the variable that overrides a limit. -/
def variableEnd : Limit → String
  | .scriptSize => "MAX_SCRIPT_SIZE"
  | .stackSize => "MAX_STACK_SIZE"
  | .elementSize => "MAX_ELEMENT_SIZE"
  | .operations => "MAX_OPS"
  | .numberWidth => "MAX_NUM_LEN"
  | .recordSize => "MAX_RECORD_SIZE"

end Limit

namespace Settings

def get (s : Settings) : Limit → Nat
  | .scriptSize => s.script.scriptSize
  | .stackSize => s.script.stackSize
  | .elementSize => s.script.elementSize
  | .operations => s.script.operations
  | .numberWidth => s.script.numberWidth
  | .recordSize => s.recordSize

def set (s : Settings) (n : Nat) : Limit → Settings
  | .scriptSize => { s with script := { s.script with scriptSize := n } }
  | .stackSize => { s with script := { s.script with stackSize := n } }
  | .elementSize => { s with script := { s.script with elementSize := n } }
  | .operations => { s with script := { s.script with operations := n } }
  | .numberWidth => { s with script := { s.script with numberWidth := n } }
  | .recordSize => { s with recordSize := n }

theorem get_set (s : Settings) (n : Nat) (l k : Limit) :
    (s.set n l).get k = if k = l then n else s.get k := by
  cases l <;> cases k <;> rfl

theorem ext_get {s t : Settings} (h : ∀ l, s.get l = t.get l) : s = t := by
  obtain ⟨⟨a, b, c, d, e⟩, f⟩ := s
  obtain ⟨⟨a', b', c', d', e'⟩, f'⟩ := t
  have h₁ := h .scriptSize
  have h₂ := h .stackSize
  have h₃ := h .elementSize
  have h₄ := h .operations
  have h₅ := h .numberWidth
  have h₆ := h .recordSize
  simp only [get] at h₁ h₂ h₃ h₄ h₅ h₆
  simp only [h₁, h₂, h₃, h₄, h₅, h₆]

end Settings

end ScriptLedger
