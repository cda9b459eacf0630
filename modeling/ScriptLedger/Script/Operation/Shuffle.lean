import ScriptLedger.Script.Operation.Basic

namespace ScriptLedger.Script.Operation

open Stack

/-- Moving, copying and dropping items. -/
inductive StackOp where
  | toAlt
  | fromAlt
  | drop2
  | dup2
  | dup3
  | over2
  | rot2
  | swap2
  | ifDup
  | depth
  | drop1
  | dup1
  | nip
  | over1
  | pick
  | roll
  | rot1
  | swap1
  | tuck
  deriving DecidableEq, Repr

def StackOp.ofByte? : UInt8 → Option StackOp
  | 0x6b => some .toAlt
  | 0x6c => some .fromAlt
  | 0x6d => some .drop2
  | 0x6e => some .dup2
  | 0x6f => some .dup3
  | 0x70 => some .over2
  | 0x71 => some .rot2
  | 0x72 => some .swap2
  | 0x73 => some .ifDup
  | 0x74 => some .depth
  | 0x75 => some .drop1
  | 0x76 => some .dup1
  | 0x77 => some .nip
  | 0x78 => some .over1
  | 0x79 => some .pick
  | 0x7a => some .roll
  | 0x7b => some .rot1
  | 0x7c => some .swap1
  | 0x7d => some .tuck
  | _ => none

/-- The operations that move an item between the stacks. -/
def moveToAlt : StacksM Unit := do
  let item ← onMain pop
  onAlt (push item)

def moveFromAlt : StacksM Unit := do
  let item ← onAlt pop
  onMain (push item)

def drop2 : StackM Unit := do
  require 2
  let _ ← pop
  let _ ← pop

def dup2 : StackM Unit := do
  require 2
  let x₁ ← peek 1
  let x₂ ← peek 0
  push x₁
  push x₂

def dup3 : StackM Unit := do
  require 3
  let x₁ ← peek 2
  let x₂ ← peek 1
  let x₃ ← peek 0
  push x₁
  push x₂
  push x₃

def over2 : StackM Unit := do
  require 4
  let x₁ ← peek 3
  let x₂ ← peek 2
  push x₁
  push x₂

/-- Turns `x₁ x₂ x₃ x₄ x₅ x₆` into `x₃ x₄ x₅ x₆ x₁ x₂`. -/
def rot2 : StackM Unit := do
  require 6
  let x₁ ← remove 5
  let x₂ ← remove 4
  push x₁
  push x₂

/-- Turns `x₁ x₂ x₃ x₄` into `x₃ x₄ x₁ x₂`. -/
def swap2 : StackM Unit := do
  require 4
  let x₁ ← remove 3
  let x₂ ← remove 2
  push x₁
  push x₂

def ifDup : StackM Unit := do
  let item ← top
  if Number.truth item then push item

def depth : StackM Unit := do
  pushNumber (← get).size

def drop1 : StackM Unit := do
  let _ ← pop

def dup1 : StackM Unit := do
  push (← top)

def nip : StackM Unit := do
  let _ ← remove 1

def over1 : StackM Unit := do
  require 2
  let x₂ ← pop
  let x₁ ← top
  push x₂
  push x₁

def pick (width : Nat) : StackM Unit := do
  let n ← popIndex width
  push (← peek n)

def roll (width : Nat) : StackM Unit := do
  let n ← popIndex width
  push (← remove n)

/-- Turns `x₁ x₂ x₃` into `x₂ x₃ x₁`. -/
def rot1 : StackM Unit := do
  require 3
  push (← remove 2)

def swap1 : StackM Unit := do
  require 2
  push (← remove 1)

/-- Turns `x₁ x₂` into `x₂ x₁ x₂`. -/
def tuck : StackM Unit := do
  require 2
  let x₂ ← pop
  let x₁ ← pop
  push x₂
  push x₁
  push x₂

def StackOp.run (width : Nat) : StackOp → StacksM Unit
  | .toAlt => moveToAlt
  | .fromAlt => moveFromAlt
  | .drop2 => onMain Operation.drop2
  | .dup2 => onMain Operation.dup2
  | .dup3 => onMain Operation.dup3
  | .over2 => onMain Operation.over2
  | .rot2 => onMain Operation.rot2
  | .swap2 => onMain Operation.swap2
  | .ifDup => onMain Operation.ifDup
  | .depth => onMain Operation.depth
  | .drop1 => onMain Operation.drop1
  | .dup1 => onMain Operation.dup1
  | .nip => onMain Operation.nip
  | .over1 => onMain Operation.over1
  | .pick => onMain (Operation.pick width)
  | .roll => onMain (Operation.roll width)
  | .rot1 => onMain Operation.rot1
  | .swap1 => onMain Operation.swap1
  | .tuck => onMain Operation.tuck

def runStack (op : UInt8) (width : Nat) : StacksM Unit :=
  match StackOp.ofByte? op with
  | some o => o.run width
  | none => throw (.unrecognizedOpcode op .stack)

end ScriptLedger.Script.Operation
