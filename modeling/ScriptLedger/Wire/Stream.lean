import ScriptLedger.Bytes

namespace ScriptLedger.Wire

/-- What a source gives behind its bytes: nothing, zeros for ever, or an error of its own. -/
inductive Ending where
  | finished
  | zeros
  | failing (message : String)
  deriving DecidableEq, Repr

/-- A source of bytes that are read once and in order. -/
structure Stream where
  remaining : Bytes
  ending : Ending
  deriving DecidableEq, Repr

def Stream.ofBytes (data : Bytes) : Stream :=
  ⟨data, .finished⟩

end ScriptLedger.Wire
