namespace ScriptLedger.Script

/-- The families that the byte values of a script fall into. -/
inductive Category where
  | constant
  | flow
  | stack
  | splice
  | bitwise
  | arithmetic
  | crypto
  | unimplemented
  | disabled
  | reserved
  | unassigned
  deriving DecidableEq, Repr

def Category.label : Category → String
  | .constant => "Constants"
  | .flow => "Flow control"
  | .stack => "Stack"
  | .splice => "Splice"
  | .bitwise => "Bitwise logic"
  | .arithmetic => "Arithmetic"
  | .crypto => "Crypto"
  | .unimplemented => "Unimplemented"
  | .disabled => "Disabled"
  | .reserved => "Reserved"
  | .unassigned => "Unassigned"

end ScriptLedger.Script
