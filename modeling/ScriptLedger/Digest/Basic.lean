import ScriptLedger.Bytes.Hex

namespace ScriptLedger

/-- A byte string of a fixed size. -/
structure Digest (size : Nat) where
  bytes : Bytes
  length_bytes : bytes.length = size
  deriving DecidableEq, Repr

/-- The double SHA-256 identifier of a transaction or a block. -/
abbrev Hash256 := Digest 32

namespace Digest

variable {size : Nat}

theorem ext {a b : Digest size} (h : a.bytes = b.bytes) : a = b := by
  cases a
  cases b
  cases h
  rfl

def zero (size : Nat) : Digest size :=
  ⟨List.replicate size 0, List.length_replicate⟩

instance : Inhabited (Digest size) := ⟨zero size⟩

def isZero (d : Digest size) : Bool :=
  d == zero size

/-- Lexicographic order of the bytes as they are stored. -/
instance : Ord (Digest size) := ⟨fun a b => compare a.bytes b.bytes⟩

/-- The bytes as a digest, when their number fits. -/
def ofBytes? (size : Nat) (bs : Bytes) : Option (Digest size) :=
  if h : bs.length = size then some ⟨bs, h⟩ else none

theorem ofBytes?_bytes (d : Digest size) : ofBytes? size d.bytes = some d := by
  simp [ofBytes?, d.length_bytes]

/-- Lowercase digits in stored order. -/
def toHex (d : Digest size) : String :=
  Hex.encode d.bytes

/-- Reads the digits of a digest, of either case. -/
def ofHex (size : Nat) (s : String) : Except Hex.Error (Digest size) :=
  match Hex.decodeSized size (Bytes.ofText s) with
  | .error e => .error e
  | .ok bs =>
    match ofBytes? size bs with
    | some d => .ok d
    | none => .error .wrongLength

theorem ofHex_toHex (d : Digest size) : ofHex size d.toHex = .ok d := by
  rw [ofHex, toHex, Hex.decodeSized_encode d.length_bytes]
  simp only [ofBytes?_bytes]

/-- An identifier under the name of its kind. -/
def describe (d : Hash256) : String :=
  "DoubleHash(" ++ d.toHex ++ ")"

end Digest

end ScriptLedger
