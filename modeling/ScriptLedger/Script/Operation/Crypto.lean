import ScriptLedger.Digest.Ripemd160
import ScriptLedger.Digest.Sha1
import ScriptLedger.Script.Operation.Basic

namespace ScriptLedger.Script.Operation

open Stack

/-- Hashing the top item, and a marker that does nothing. -/
inductive CryptoOp where
  | ripemd160
  | sha1
  | sha256
  | hash160
  | hash256
  | separator
  deriving DecidableEq, Repr

def CryptoOp.ofByte? : UInt8 → Option CryptoOp
  | 0xa6 => some .ripemd160
  | 0xa7 => some .sha1
  | 0xa8 => some .sha256
  | 0xa9 => some .hash160
  | 0xaa => some .hash256
  | 0xab => some .separator
  | _ => none

/-- Replaces the top item by a digest of it. -/
def hashTop {size : Nat} (digest : Bytes → Digest size) : StackM Unit := do
  push (digest (← pop)).bytes

def CryptoOp.run : CryptoOp → StackM Unit
  | .ripemd160 => hashTop Digest.ripemd160
  | .sha1 => hashTop Digest.sha1
  | .sha256 => hashTop Digest.sha256
  | .hash160 => hashTop Digest.hash160
  | .hash256 => hashTop Digest.hash256
  | .separator => pure ()

def runCrypto (op : UInt8) : StackM Unit :=
  match CryptoOp.ofByte? op with
  | some o => o.run
  | none => throw (.unrecognizedOpcode op .crypto)

end ScriptLedger.Script.Operation
