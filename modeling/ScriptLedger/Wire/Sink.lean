import ScriptLedger.Bytes.LittleEndian
import ScriptLedger.Stateful

namespace ScriptLedger.Wire

/-- A receiver of bytes: what it holds, newest first, and how much more it takes if that is
bounded. -/
structure Sink where
  held : Bytes
  room : Option Nat
  deriving DecidableEq, Repr

def Sink.empty (room : Option Nat) : Sink :=
  ⟨[], room⟩

def Sink.contents (s : Sink) : Bytes :=
  s.held.reverse

/-- A writer of values to a sink; what it wrote before a failure stays written. -/
abbrev Writer := Stateful Sink

/-- Writes a chunk. One that does not fit leaves the part that does. -/
def Writer.put (chunk : Bytes) : Writer Unit := fun s =>
  match s.room with
  | none => .ok () ⟨chunk.reverse ++ s.held, none⟩
  | some room =>
    if chunk.length ≤ room then .ok () ⟨chunk.reverse ++ s.held, some (room - chunk.length)⟩
    else .error (.io "failed to write whole buffer") ⟨(chunk.take room).reverse ++ s.held, some 0⟩

end ScriptLedger.Wire
