import ScriptLedger.Digest.Basic
import ScriptLedger.Wire.CompactSize

namespace ScriptLedger.Wire

/-- The binary form of a type: all its bytes at once, the same bytes written piece by piece with
the count of them, and the reader. -/
class Format (α : Type) where
  encode : α → Bytes
  write : α → Writer Nat
  read : Decoder α

variable {α : Type}

instance : Format UInt32 where
  encode n := LittleEndian.encode 4 n.toNat
  write n := do
    Writer.put (LittleEndian.encode 4 n.toNat)
    return 4
  read := UInt32.ofNat <$> Decoder.number 4

instance : Format UInt64 where
  encode n := LittleEndian.encode 8 n.toNat
  write n := do
    Writer.put (LittleEndian.encode 8 n.toNat)
    return 8
  read := UInt64.ofNat <$> Decoder.number 8

/-- Reads a field of as many bytes as a digest has. -/
def readDigest (size : Nat) : Decoder (Digest size) := do
  match Digest.ofBytes? size (← Decoder.field size) with
  | some d => return d
  | none => throw (.truncated .field)

instance {size : Nat} : Format (Digest size) where
  encode d := d.bytes
  write d := do
    Writer.put d.bytes
    return size
  read := readDigest size

/-- Writes items one after the other and adds up their sizes. -/
def writeOnto [Format α] (written : Nat) : List α → Writer Nat
  | [] => pure written
  | a :: rest => do
    let n ← Format.write a
    writeOnto (written + n) rest

/-- Reads a number of items and then the items. -/
def readCounted (item : Decoder α) : Decoder (List α) := do
  let (count, _) ← CompactSize.read
  Decoder.times count item

/-- A list is the number of its items followed by them. -/
instance [Format α] : Format (List α) where
  encode xs := CompactSize.encode xs.length ++ xs.flatMap Format.encode
  write xs := do
    writeOnto (← CompactSize.write xs.length) xs
  read := readCounted Format.read

namespace VarBytes

/-- A byte string behind its size. -/
def encode (bs : Bytes) : Bytes :=
  CompactSize.encode bs.length ++ bs

def write (bs : Bytes) : Writer Nat := do
  let written ← CompactSize.write bs.length
  Writer.put bs
  return written + bs.length

/-- The largest byte string that is read by default. -/
def defaultCap : Nat := 33554432

/-- Reads a byte string behind its size; a size above the cap, if there is one, is refused before
any byte of the string is read. -/
def readWith (cap : Option Nat) : Decoder Bytes := do
  let (size, _) ← CompactSize.read
  match cap with
  | none => Decoder.bytes size
  | some cap =>
    if cap < size then throw (.limitExceeded (.byteString size cap)) else Decoder.bytes size

def read : Decoder Bytes :=
  readWith (some defaultCap)

end VarBytes

end ScriptLedger.Wire
