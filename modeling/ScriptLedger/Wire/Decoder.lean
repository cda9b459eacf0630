import ScriptLedger.Bytes.LittleEndian
import ScriptLedger.Stateful
import ScriptLedger.Wire.Stream

namespace ScriptLedger.Wire

/-- A reader of values from a stream; what it took before a failure stays taken. -/
abbrev Decoder := Stateful Stream

namespace Decoder

variable {α : Type}

/-- Takes `n` bytes. At the end of the stream the number of bytes found names the shortage. -/
def take (n : Nat) (short : Nat → Shortage) : Decoder Bytes := fun s =>
  let head := s.remaining.take n
  if head.length = n then .ok head { s with remaining := s.remaining.drop n }
  else match s.ending with
    | .finished => .error (.truncated (short head.length)) { s with remaining := [] }
    | .zeros => .ok (head ++ List.replicate (n - head.length) 0) { s with remaining := [] }
    | .failing message => .error (.io message) { s with remaining := [] }

/-- Takes a field of fixed size. -/
def field (n : Nat) : Decoder Bytes :=
  take n fun _ => .field

/-- Takes a byte string of announced size. -/
def bytes (n : Nat) : Decoder Bytes :=
  take n (.bytes n)

/-- Reads a little-endian number of fixed width. -/
def number (width : Nat) : Decoder Nat := do
  return LittleEndian.decode (← field width)

/-- Reads one byte. -/
def byte : Decoder UInt8 := do
  return (← field 1).headD 0

/-- Reads `n` items behind those already read, newest first. -/
def timesOnto (item : Decoder α) (done : List α) : Nat → Decoder (List α)
  | 0 => pure done.reverse
  | n + 1 => do
    let a ← item
    timesOnto item (a :: done) n

/-- Reads `n` items in order. -/
def times (n : Nat) (item : Decoder α) : Decoder (List α) :=
  timesOnto item [] n

/-- Reads a value that takes up a whole byte string. -/
def decodeAll (d : Decoder α) (data : Bytes) : Except Failure α :=
  match d (.ofBytes data) with
  | .error e _ => .error e
  | .ok a s =>
    if s.remaining.isEmpty then .ok a
    else .error (.frameMismatch data.length (data.length - s.remaining.length))

theorem take_append {n : Nat} {short : Nat → Shortage} {head : Bytes} (h : head.length = n)
    (rest : Bytes) (e : Ending) : take n short ⟨head ++ rest, e⟩ = .ok head ⟨rest, e⟩ := by
  subst h
  simp [take]

theorem byte_cons (b : UInt8) (rest : Bytes) (e : Ending) :
    byte ⟨b :: rest, e⟩ = .ok b ⟨rest, e⟩ :=
  Stateful.bind_ok (@take_append 1 _ [b] rfl rest e)

/-- The items read before only stand in front of those read now. -/
theorem timesOnto_apply (item : Decoder α) (done : List α) (n : Nat) (s : Stream) :
    timesOnto item done n s =
      match times n item s with
      | .ok items t => .ok (done.reverse ++ items) t
      | .error e t => .error e t := by
  induction n generalizing done s with
  | zero => simp [timesOnto, times, Stateful.pure_apply]
  | succ n ih =>
    unfold times timesOnto
    cases h : item s with
    | error e t => simp only [Stateful.bind_error h]
    | ok a t =>
      simp only [Stateful.bind_ok h]
      rw [ih (a :: done), ih [a]]
      cases times n item t <;> simp

theorem times_succ (item : Decoder α) (n : Nat) :
    times (n + 1) item = (do
      let a ← item
      let rest ← times n item
      return a :: rest) := by
  funext s
  rw [times, timesOnto]
  cases h : item s with
  | error e t => rw [Stateful.bind_error h, Stateful.bind_error h]
  | ok a t =>
    rw [Stateful.bind_ok h, Stateful.bind_ok h, timesOnto_apply]
    cases hr : times n item t with
    | error e u => simp only [Stateful.bind_error hr]
    | ok items u => simp [Stateful.bind_ok hr, Stateful.pure_apply]

end Decoder

end ScriptLedger.Wire
