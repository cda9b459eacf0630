import ScriptLedger.Digest.Sha256
import ScriptLedger.Wire.Format

namespace ScriptLedger

open Wire

/-- The output that a transaction spends and the script that entitles it to. -/
structure Input where
  prevTx : Hash256
  prevIndex : UInt32
  script : Bytes
  sequence : UInt32
  deriving DecidableEq, Repr

/-- An amount and the script that guards it. -/
structure Output where
  value : UInt64
  script : Bytes
  deriving DecidableEq, Repr

/-- A transaction. `hash` is stamped when it is read or made and does not follow later changes;
`block` names the block that holds it. -/
structure Transaction where
  version : UInt32
  inputs : List Input
  outputs : List Output
  lockTime : UInt32
  hash : Hash256
  block : Option Hash256
  deriving DecidableEq, Repr

namespace Input

/-- The sequence number of an input that is final. -/
def finalSequence : UInt32 := 0xffffffff

def encode (i : Input) : Bytes :=
  i.prevTx.bytes ++ Format.encode i.prevIndex ++ VarBytes.encode i.script
    ++ Format.encode i.sequence

def write (i : Input) : Writer Nat := do
  let a ← Format.write i.prevTx
  let b ← Format.write i.prevIndex
  let c ← VarBytes.write i.script
  let d ← Format.write i.sequence
  return a + b + c + d

def readWith (cap : Option Nat) : Decoder Input := do
  let prevTx ← Format.read
  let prevIndex ← Format.read
  let script ← VarBytes.readWith cap
  let sequence ← Format.read
  return { prevTx, prevIndex, script, sequence }

instance : Format Input where
  encode := encode
  write := write
  read := readWith (some VarBytes.defaultCap)

def size (i : Input) : Nat :=
  32 + 4 + CompactSize.size i.script.length + i.script.length + 4

end Input

namespace Output

def encode (o : Output) : Bytes :=
  Format.encode o.value ++ VarBytes.encode o.script

def write (o : Output) : Writer Nat := do
  let a ← Format.write o.value
  let b ← VarBytes.write o.script
  return a + b

def readWith (cap : Option Nat) : Decoder Output := do
  let value ← Format.read
  let script ← VarBytes.readWith cap
  return { value, script }

instance : Format Output where
  encode := encode
  write := write
  read := readWith (some VarBytes.defaultCap)

def size (o : Output) : Nat :=
  8 + CompactSize.size o.script.length + o.script.length

end Output

namespace Transaction

def encode (t : Transaction) : Bytes :=
  Format.encode t.version ++ Format.encode t.inputs ++ Format.encode t.outputs
    ++ Format.encode t.lockTime

def write (t : Transaction) : Writer Nat := do
  let a ← Format.write t.version
  let b ← Format.write t.inputs
  let c ← Format.write t.outputs
  let d ← Format.write t.lockTime
  return a + b + c + d

/-- The identifier of what the transaction now says. -/
def contentHash (t : Transaction) : Hash256 :=
  Digest.hash256 t.encode

/-- Stamps the transaction with the identifier of what it now says. -/
def refreshHash (t : Transaction) : Transaction :=
  { t with hash := t.contentHash }

/-- A transaction stamped with its identifier, outside any block. -/
def make (version : UInt32) (inputs : List Input) (outputs : List Output) (lockTime : UInt32) :
    Transaction :=
  refreshHash { version, inputs, outputs, lockTime, hash := Digest.zero 32, block := none }

def readWith (cap : Option Nat) : Decoder Transaction := do
  let version ← Format.read
  let inputs ← readCounted (Input.readWith cap)
  let outputs ← readCounted (Output.readWith cap)
  let lockTime ← Format.read
  return make version inputs outputs lockTime

instance : Format Transaction where
  encode := encode
  write := write
  read := readWith (some VarBytes.defaultCap)

/-- A coinbase has a single input, which spends nothing. -/
def isCoinbase (t : Transaction) : Bool :=
  match t.inputs with
  | [i] => i.prevTx.isZero
  | _ => false

/-- The size of the binary form, from the sizes of the parts. -/
def size (t : Transaction) : Nat :=
  4 + CompactSize.size t.inputs.length + t.inputs.foldr (·.size + ·) 0
    + CompactSize.size t.outputs.length + t.outputs.foldr (·.size + ·) 0 + 4

/-- A transaction as a member of a block. -/
def inBlock (hash : Hash256) (t : Transaction) : Transaction :=
  { t with block := some hash }

end Transaction

end ScriptLedger
