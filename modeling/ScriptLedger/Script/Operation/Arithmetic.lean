import ScriptLedger.Script.Operation.Basic

namespace ScriptLedger.Script.Operation

open Stack

/-- Operations that keep the bytes of their operand and touch only its sign bit. -/
inductive SignOp where
  | negate
  | abs
  deriving DecidableEq, Repr

/-- Operations on one number. -/
inductive UnaryOp where
  | add1
  | sub1
  | not
  | notZero
  deriving DecidableEq, Repr

/-- Operations on two truth values. -/
inductive LogicOp where
  | and
  | or
  deriving DecidableEq, Repr

/-- Operations on two numbers, the second on top. -/
inductive BinaryOp where
  | add
  | sub
  | equal
  | equalVerify
  | notEqual
  | less
  | greater
  | lessOrEqual
  | greaterOrEqual
  | min
  | max
  deriving DecidableEq, Repr

inductive ArithmeticOp where
  | sign (o : SignOp)
  | unary (o : UnaryOp)
  | logic (o : LogicOp)
  | binary (o : BinaryOp)
  | within
  deriving DecidableEq, Repr

def ArithmeticOp.ofByte? : UInt8 → Option ArithmeticOp
  | 0x8b => some (.unary .add1)
  | 0x8c => some (.unary .sub1)
  | 0x8f => some (.sign .negate)
  | 0x90 => some (.sign .abs)
  | 0x91 => some (.unary .not)
  | 0x92 => some (.unary .notZero)
  | 0x93 => some (.binary .add)
  | 0x94 => some (.binary .sub)
  | 0x9a => some (.logic .and)
  | 0x9b => some (.logic .or)
  | 0x9c => some (.binary .equal)
  | 0x9d => some (.binary .equalVerify)
  | 0x9e => some (.binary .notEqual)
  | 0x9f => some (.binary .less)
  | 0xa0 => some (.binary .greater)
  | 0xa1 => some (.binary .lessOrEqual)
  | 0xa2 => some (.binary .greaterOrEqual)
  | 0xa3 => some (.binary .min)
  | 0xa4 => some (.binary .max)
  | 0xa5 => some .within
  | _ => none

def SignOp.apply : SignOp → Bytes → Bytes
  | .negate => Number.negate
  | .abs => Number.abs

def SignOp.run (o : SignOp) (width : Nat) : StackM Unit := do
  let item ← pop
  let _ ← ofExcept (Number.decode width item)
  push (o.apply item)

def UnaryOp.pushResult (n : Int) : UnaryOp → StackM Unit
  | .add1 => Stack.pushResult (Number.add n 1)
  | .sub1 => Stack.pushResult (Number.sub n 1)
  | .not => pushBool (n == 0)
  | .notZero => pushBool (n != 0)

def UnaryOp.run (o : UnaryOp) (width : Nat) : StackM Unit := do
  o.pushResult (← popNumber width)

def LogicOp.apply : LogicOp → Bool → Bool → Bool
  | .and => (· && ·)
  | .or => (· || ·)

def LogicOp.run (o : LogicOp) : StackM Unit := do
  require 2
  let b ← pop
  let a ← pop
  pushBool (o.apply (Number.truth a) (Number.truth b))

def BinaryOp.pushResult (a b : Int) : BinaryOp → StackM Unit
  | .add => Stack.pushResult (Number.add a b)
  | .sub => Stack.pushResult (Number.sub a b)
  | .equal => pushBool (a == b)
  | .equalVerify => if a = b then pure () else throw (.scriptInvalid (.numEqualVerify a b))
  | .notEqual => pushBool (a != b)
  | .less => pushBool (a < b)
  | .greater => pushBool (a > b)
  | .lessOrEqual => pushBool (a ≤ b)
  | .greaterOrEqual => pushBool (a ≥ b)
  | .min => pushNumber (Min.min a b)
  | .max => pushNumber (Max.max a b)

def BinaryOp.run (o : BinaryOp) (width : Nat) : StackM Unit := do
  require 2
  let b ← popNumber width
  let a ← popNumber width
  o.pushResult a b

/-- Whether a number lies between a lower bound, included, and an upper bound on top. -/
def within (width : Nat) : StackM Unit := do
  require 3
  let upper ← popNumber width
  let lower ← popNumber width
  let n ← popNumber width
  pushBool (lower ≤ n && n < upper)

def ArithmeticOp.run (width : Nat) : ArithmeticOp → StackM Unit
  | .sign o => o.run width
  | .unary o => o.run width
  | .logic o => o.run
  | .binary o => o.run width
  | .within => Operation.within width

def runArithmetic (op : UInt8) (width : Nat) : StackM Unit :=
  match ArithmeticOp.ofByte? op with
  | some o => o.run width
  | none => throw (.unrecognizedOpcode op .arithmetic)

end ScriptLedger.Script.Operation
