import ScriptLedger.Ledger.Transaction
import ScriptLedger.Notice

namespace ScriptLedger

open Wire

structure Header where
  version : UInt32
  prevBlock : Hash256
  merkleRoot : Hash256
  timestamp : UInt32
  bits : UInt32
  nonce : UInt32
  deriving DecidableEq, Repr

/-- A header, the identifier it was stamped with, and the transactions under it. -/
structure Block where
  header : Header
  hash : Hash256
  transactions : List Transaction
  deriving DecidableEq, Repr

namespace Header

def encode (h : Header) : Bytes :=
  Format.encode h.version ++ h.prevBlock.bytes ++ h.merkleRoot.bytes ++ Format.encode h.timestamp
    ++ Format.encode h.bits ++ Format.encode h.nonce

def write (h : Header) : Writer Nat := do
  let a ← Format.write h.version
  let b ← Format.write h.prevBlock
  let c ← Format.write h.merkleRoot
  let d ← Format.write h.timestamp
  let e ← Format.write h.bits
  let f ← Format.write h.nonce
  return a + b + c + d + e + f

def read : Decoder Header := do
  let version ← Format.read
  let prevBlock ← Format.read
  let merkleRoot ← Format.read
  let timestamp ← Format.read
  let bits ← Format.read
  let nonce ← Format.read
  return { version, prevBlock, merkleRoot, timestamp, bits, nonce }

instance : Format Header where
  encode := encode
  write := write
  read := read

/-- The size of the binary form of a header. -/
def size : Nat := 80

/-- The identifier of a block is the hash of its header. -/
def hash (h : Header) : Hash256 :=
  Digest.hash256 h.encode

end Header

namespace Block

/-- Stamps a block with its identifier and its transactions as members of it. -/
def make (header : Header) (transactions : List Transaction) : Block :=
  ⟨header, header.hash, transactions.map (.inBlock header.hash)⟩

def count (b : Block) : Nat :=
  b.transactions.length

def transaction? (b : Block) (index : Nat) : Option Transaction :=
  b.transactions[index]?

/-- The header and the counted transactions, without a frame. -/
def record (b : Block) : Bytes :=
  b.header.encode ++ Format.encode b.transactions

/-- The start of a record: the header and how many transactions follow. -/
def readOpening : Decoder (Header × Nat) := do
  let header ← Header.read
  let (count, _) ← CompactSize.read
  return (header, count)

/-- Reads a record of a block with the given identifier. -/
def readRecord (cap : Option Nat) (hash : Hash256) : Decoder Block := do
  let (header, count) ← readOpening
  let transactions ← Decoder.times count (Transaction.readWith cap)
  return ⟨header, hash, transactions.map (.inBlock hash)⟩

/-- Reads a record that takes up a whole byte string and starts with a header. -/
def decodeRecordWith (cap : Option Nat) (record : Bytes) : Except Failure Block :=
  if record.length < Header.size then .error (.truncated (.record record.length))
  else (readRecord cap (Digest.hash256 (record.take Header.size))).decodeAll record

def decodeRecord (record : Bytes) : Except Failure Block :=
  decodeRecordWith (some VarBytes.defaultCap) record

/-- The notice of a record whose opening can be read. -/
def recordNotices (record : Bytes) : List Notice :=
  if record.length < Header.size then []
  else match readOpening (.ofBytes record) with
    | .ok (_, count) _ => [.decodingBlock (Digest.hash256 (record.take Header.size)) count]
    | .error _ _ => []

end Block

end ScriptLedger
