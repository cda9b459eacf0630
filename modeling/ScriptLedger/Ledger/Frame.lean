import ScriptLedger.Ledger.Block

namespace ScriptLedger

open Wire

namespace Frame

/-- The bytes that every frame starts with. -/
def magic : Bytes :=
  [0xf9, 0xbe, 0xb4, 0xd9]

/-- The magic and the size of the record. -/
def openingSize : Nat := 8

/-- The largest record that is read by default. -/
def defaultLimit : Nat := 33554432

def readMagic : Decoder Unit := do
  let found ← Decoder.field 4
  if found = magic then pure () else throw (.badMagic found)

/-- Reads the magic and answers the announced size of the record. -/
def readOpening : Decoder Nat := do
  readMagic
  Decoder.number 4

/-- Reads the record of a frame; a size above the limit is refused before the record is read. -/
def read (limit : Nat) : Decoder Bytes := do
  let size ← readOpening
  if limit < size then throw (.limitExceeded (.record size limit)) else Decoder.bytes size

/-- A record behind the magic and its size. -/
def encode (record : Bytes) : Bytes :=
  magic ++ LittleEndian.encode 4 record.length ++ record

/-- Writes a frame in three pieces, unless the record is too large to announce. -/
def write (record : Bytes) : Writer Nat := do
  if 0x100000000 ≤ record.length then throw (.limitExceeded (.frame record.length))
  else
    Writer.put magic
    Writer.put (LittleEndian.encode 4 record.length)
    Writer.put record
    return openingSize + record.length

end Frame

namespace Block

/-- Reads a framed block whose record is no larger than the limit. The record is taken whole before
any of it is looked at. -/
def readWithin (limit : Nat) : Decoder Block := do
  let record ← Frame.read limit
  ofExcept (decodeRecord record)

/-- The frame of a block, or nothing when the record is too large for one. -/
def encode (b : Block) : Bytes :=
  if 0x100000000 ≤ b.record.length then [] else Frame.encode b.record

instance : Format Block where
  encode := encode
  write b := Frame.write b.record
  read := readWithin Frame.defaultLimit

/-- The notices of a framed block that is read from a stream. -/
def frameNotices (limit : Nat) (s : Stream) : List Notice :=
  match Frame.read limit s with
  | .ok record _ => recordNotices record
  | .error _ _ => []

end Block

end ScriptLedger
