import ScriptLedger.Script.Operation.Basic
import ScriptLedger.Script.Push

namespace ScriptLedger.Script.Operation

open Stack

/-- The item that a push opcode without data stands for: the empty one, minus one, or one of the
numbers from one to sixteen. -/
def smallItem? (op : UInt8) : Option Bytes :=
  if op = 0x00 then some []
  else if op = 0x4f then some [0x81]
  else if 0x51 ≤ op ∧ op ≤ 0x60 then some [op - 0x50]
  else none

/-- Pushes data that follows the opcode or a small number, and answers how many bytes of what
follows were taken. -/
def runConstant (op : UInt8) (rest : Bytes) (elementSize : Nat) : StackM Nat := do
  match ← ofExcept (Push.read? op rest) with
  | some p =>
    if elementSize < p.data.length then
      throw (.limitExceeded (.element p.data.length elementSize))
    else
      push p.data
      pure p.size
  | none =>
    match smallItem? op with
    | some item =>
      push item
      pure 0
    | none => throw (.unrecognizedOpcode op .constant)

end ScriptLedger.Script.Operation
