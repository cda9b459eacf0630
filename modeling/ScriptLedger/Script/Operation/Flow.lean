import ScriptLedger.Script.Operation.Basic

namespace ScriptLedger.Script.Operation

open Stack

/-- Doing nothing, checking the top item and giving up. -/
inductive FlowOp where
  | nop
  | verify
  | giveUp
  deriving DecidableEq, Repr

def FlowOp.ofByte? (op : UInt8) : Option FlowOp :=
  if op = 0x61 ∨ op = 0xb0 ∨ (0xb3 ≤ op ∧ op ≤ 0xb9) then some .nop
  else if op = 0x69 then some .verify
  else if op = 0x6a then some .giveUp
  else none

def FlowOp.run : FlowOp → StackM Unit
  | .nop => pure ()
  | .verify => do
    if Number.truth (← pop) then pure () else throw (.scriptInvalid .verify)
  | .giveUp => throw (.scriptInvalid .returned)

def runFlow (op : UInt8) : StackM Unit :=
  match FlowOp.ofByte? op with
  | some o => o.run
  | none => throw (.unrecognizedOpcode op .flow)

end ScriptLedger.Script.Operation
