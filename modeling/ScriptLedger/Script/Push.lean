import ScriptLedger.Bytes.LittleEndian
import ScriptLedger.Failure

namespace ScriptLedger.Script

/-- The data of a push and the width of the length field before it. -/
structure Push where
  lengthWidth : Nat
  data : Bytes
  deriving DecidableEq, Repr

namespace Push

/-- The bytes that a push takes after its opcode. -/
def size (p : Push) : Nat :=
  p.lengthWidth + p.data.length

/-- The width of the length field of the three opcodes that have one. -/
def lengthWidth? : UInt8 → Option Nat
  | 0x4c => some 1
  | 0x4d => some 2
  | 0x4e => some 4
  | _ => none

/-- Takes the announced data from behind the length field. -/
def readData (op : UInt8) (rest : Bytes) (lengthWidth length : Nat) : Except Failure Push :=
  let data := (rest.drop lengthWidth).take length
  if data.length < length then
    .error (.truncated (.pushData op length (rest.length - lengthWidth)))
  else .ok ⟨lengthWidth, data⟩

/-- Reads the push that an opcode starts, from the script behind it; an opcode that carries no
data is none. -/
def read? (op : UInt8) (rest : Bytes) : Except Failure (Option Push) :=
  if Opcode.isDirectPush op then some <$> readData op rest 0 op.toNat
  else match lengthWidth? op with
    | none => .ok none
    | some width =>
      let field := rest.take width
      if field.length < width then .error (.truncated (.pushLength width rest.length))
      else some <$> readData op rest width (LittleEndian.decode field)

end Push

end ScriptLedger.Script
