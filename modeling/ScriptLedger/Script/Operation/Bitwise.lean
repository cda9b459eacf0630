import ScriptLedger.Script.Operation.Basic

namespace ScriptLedger.Script.Operation

open Stack

/-- Comparing items byte by byte. -/
inductive BitwiseOp where
  | equal
  | equalVerify
  deriving DecidableEq, Repr

def BitwiseOp.ofByte? : UInt8 → Option BitwiseOp
  | 0x87 => some .equal
  | 0x88 => some .equalVerify
  | _ => none

def BitwiseOp.run (o : BitwiseOp) : StackM Unit := do
  require 2
  let b ← pop
  let a ← pop
  match o with
  | .equal => pushBool (a == b)
  | .equalVerify => if a = b then pure () else throw (.scriptInvalid (.equalVerify a b))

def runBitwise (op : UInt8) : StackM Unit :=
  match BitwiseOp.ofByte? op with
  | some o => o.run
  | none => throw (.unrecognizedOpcode op .bitwise)

end ScriptLedger.Script.Operation
