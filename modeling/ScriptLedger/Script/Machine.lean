import ScriptLedger.Script.Operation.Arithmetic
import ScriptLedger.Script.Operation.Bitwise
import ScriptLedger.Script.Operation.Constant
import ScriptLedger.Script.Operation.Crypto
import ScriptLedger.Script.Operation.Flow
import ScriptLedger.Script.Operation.Shuffle
import ScriptLedger.Script.Operation.Splice
import ScriptLedger.Settings.Limits

namespace ScriptLedger.Script

open Operation in
/-- Runs one instruction by the category of its opcode and answers how many of the bytes behind
the opcode it took. -/
def runInstruction (limits : ScriptLimits) (op : UInt8) (rest : Bytes) : StacksM Nat :=
  match Opcode.category op with
  | .constant => onMain (runConstant op rest limits.elementSize)
  | .flow => onMain (runFlow op) *> pure 0
  | .stack => runStack op limits.numberWidth *> pure 0
  | .splice => onMain (runSplice op) *> pure 0
  | .bitwise => onMain (runBitwise op) *> pure 0
  | .arithmetic => onMain (runArithmetic op limits.numberWidth) *> pure 0
  | .crypto => onMain (runCrypto op) *> pure 0
  | .unimplemented => throw (.notImplemented op)
  | .disabled => throw (.disabledOpcode op)
  | .reserved => throw (.unrecognizedOpcode op .reserved)
  | .unassigned => throw (.unrecognizedOpcode op .unassigned)

/-- An opcode about to run: where it stands and how many items the main stack holds. -/
structure Fetch where
  position : Nat
  opcode : UInt8
  depth : Nat
  deriving DecidableEq, Repr

/-- How a script ended, what it left and which opcodes it came to. -/
structure Run where
  outcome : Except Failure Unit
  state : Stacks
  fetches : List Fetch

/-- The number of operations started once an opcode is met. Pushes are free. -/
def countOperation (op : UInt8) (operations : Nat) : Nat :=
  if Opcode.isPush op then operations else operations + 1

/-- Runs what is left of a script. `operations` counts the operations started before and
`fetched` holds the opcodes met before, newest first. -/
def runFrom (limits : ScriptLimits) (position operations : Nat) (fetched : List Fetch)
    (script : Bytes) (state : Stacks) : Run :=
  match script with
  | [] => ⟨.ok (), state, fetched.reverse⟩
  | op :: rest =>
    let fetched := ⟨position, op, state.main.size⟩ :: fetched
    let operations := countOperation op operations
    if limits.operations < operations then
      ⟨.error (.limitExceeded (.operations limits.operations)), state, fetched.reverse⟩
    else match runInstruction limits op rest state with
      | .error e state => ⟨.error e, state, fetched.reverse⟩
      | .ok taken state =>
        runFrom limits (position + 1 + taken) operations fetched (rest.drop taken) state
termination_by script.length
decreasing_by simp only [List.length_drop, List.length_cons]; omega

/-- The opcodes met before only stand in front of those met now. -/
theorem runFrom_append (limits : ScriptLimits) (position operations : Nat)
    (before fetched : List Fetch) (script : Bytes) (state : Stacks) :
    runFrom limits position operations (fetched ++ before) script state =
      let r := runFrom limits position operations fetched script state
      ⟨r.outcome, r.state, before.reverse ++ r.fetches⟩ := by
  fun_induction runFrom limits position operations fetched script state with
  | case1 position operations fetched state => simp [runFrom]
  | case2 position operations fetched state op rest fetched' operations' h =>
    rw [runFrom]
    simp only
    rw [if_pos h]
    simp [fetched']
  | case3 position operations fetched state op rest fetched' operations' h e t hs =>
    rw [runFrom]
    simp only
    rw [if_neg h]
    simp [hs, fetched']
  | case4 position operations fetched state op rest fetched' operations' h taken t hs ih =>
    rw [runFrom]
    simp only
    rw [if_neg h]
    simp only [hs]
    exact ih

/-- Two stacks and the limits that scripts run under. The main stack outlives a script, so that
one script can leave items for the next. -/
structure Machine where
  state : Stacks
  limits : ScriptLimits
  deriving DecidableEq, Repr

namespace Machine

def new (limits : ScriptLimits) : Machine :=
  ⟨⟨.empty limits.stackSize, .empty limits.stackSize⟩, limits⟩

def main (m : Machine) : Stack :=
  m.state.main

def alt (m : Machine) : Stack :=
  m.state.alt

/-- Empties both stacks. -/
def reset (m : Machine) : Machine :=
  { m with state := ⟨m.main.cleared, m.alt.cleared⟩ }

def topIsTrue (m : Machine) : Bool :=
  m.main.topIsTrue

/-- Runs a script to its end or to the first opcode that fails, from an empty alt stack. -/
def run (m : Machine) (script : Bytes) : Run :=
  let state := { m.state with alt := m.alt.cleared }
  if m.limits.scriptSize < script.length then
    ⟨.error (.limitExceeded (.script script.length m.limits.scriptSize)), state, []⟩
  else runFrom m.limits 0 0 [] script state

/-- The machine that a run of a script leaves. -/
def after (m : Machine) (r : Run) : Machine :=
  { m with state := r.state }

def execute (m : Machine) (script : Bytes) : Except Failure Unit × Machine :=
  let r := m.run script
  (r.outcome, m.after r)

end Machine

/-- Runs one script on fresh stacks and answers the machine that it leaves. -/
def eval (limits : ScriptLimits) (script : Bytes) : Except Failure Machine :=
  match (Machine.new limits).execute script with
  | (.ok (), m) => .ok m
  | (.error e, _) => .error e

end ScriptLedger.Script
