import ScriptLedger.Script.Opcode
import ScriptLedger.Text.Decimal
import ScriptLedger.Text.Quoted

namespace ScriptLedger

/-- Where the bytes ran out. -/
inductive Shortage where
  /-- Inside a field of fixed size. -/
  | field
  /-- Inside a byte string whose size was announced. -/
  | bytes (expected found : Nat)
  /-- A block record that cannot hold a header. -/
  | record (size : Nat)
  /-- The length field of a push. -/
  | pushLength (needed remaining : Nat)
  /-- The data of a push. -/
  | pushData (opcode : UInt8) (needed remaining : Nat)
  /-- A record that an archive announces and does not hold. -/
  | frame (offset size fileEnd : Nat)
  /-- A source that reported its own end. -/
  | source (message : String)
  deriving DecidableEq, Repr

def Shortage.message : Shortage → String
  | .field => "failed to fill whole buffer"
  | .bytes expected found => s!"expected {expected} bytes, got {found}"
  | .record size => s!"block record of {size} bytes is shorter than a header"
  | .pushLength needed remaining => s!"push length needs {needed} bytes, {remaining} remain"
  | .pushData opcode needed remaining =>
    s!"{Script.Opcode.display opcode} pushes {needed} bytes, {remaining} remain"
  | .frame offset size fileEnd =>
    s!"block at offset {offset} declares {size} bytes, file ends at {fileEnd}"
  | .source message => message

/-- Which limit was passed. -/
inductive Excess where
  | record (size limit : Nat)
  /-- A record whose size has no 4-byte form. -/
  | frame (size : Nat)
  | byteString (size limit : Nat)
  | element (size limit : Nat)
  | script (size limit : Nat)
  | operations (limit : Nat)
  deriving DecidableEq, Repr

def Excess.message : Excess → String
  | .record size limit => s!"block record of {size} bytes exceeds {limit} byte limit"
  | .frame size => s!"block record of {size} bytes"
  | .byteString size limit => s!"byte string of {size} bytes exceeds {limit} byte limit"
  | .element size limit => s!"push of {size} bytes exceeds {limit} byte element limit"
  | .script size limit => s!"script of {size} bytes exceeds {limit} byte limit"
  | .operations limit => s!"more than {limit} operations"

/-- Why a script that runs rejects. -/
inductive Rejection where
  | verify
  | returned
  | equalVerify (left right : Bytes)
  | numEqualVerify (left right : Int)
  deriving DecidableEq, Repr

def Rejection.message : Rejection → String
  | .verify => "OP_VERIFY failed"
  | .returned => "OP_RETURN executed"
  | .equalVerify left right => s!"OP_EQUALVERIFY failed: {Hex.encode left} != {Hex.encode right}"
  | .numEqualVerify left right => s!"OP_NUMEQUALVERIFY failed: {left} != {right}"

/-- Why settings are refused. -/
inductive BadSetting where
  | malformed
  | zero (key : String)
  | numberTooWide (size limit : Nat)
  | recordTooWide (size : Nat)
  | badVariable (name value : String) (cause : Text.Decimal.Error)
  | missingFile (path : String)
  | notText (path : String)
  deriving DecidableEq, Repr

def BadSetting.message : BadSetting → String
  | .malformed => "invalid JSON"
  | .zero key => s!"{key} must be non-zero"
  | .numberTooWide size limit => s!"max_num_len {size} exceeds {limit} bytes"
  | .recordTooWide size => s!"max_record_size {size} does not fit a 4-byte record length"
  | .badVariable name value cause => s!"{name}={Text.Quoted.text value}: {cause.message}"
  | .missingFile path => s!"{path}: No such file or directory (os error 2)"
  | .notText path => s!"{path}: stream did not contain valid UTF-8"

/-- Everything that can go wrong. -/
inductive Failure where
  | badMagic (found : Bytes)
  | truncated (cause : Shortage)
  | frameMismatch (declared consumed : Nat)
  | indexOutOfRange (index count : Nat)
  | stackUnderflow
  | stackOverflow (capacity : Nat)
  | invalidStackIndex (index : Int)
  | unrecognizedOpcode (opcode : UInt8) (category : Script.Category)
  | notImplemented (opcode : UInt8)
  | disabledOpcode (opcode : UInt8)
  | scriptInvalid (cause : Rejection)
  | numberTooLong (size limit : Nat)
  | arithmeticOverflow
  | limitExceeded (cause : Excess)
  | badSetting (cause : BadSetting)
  | io (message : String)
  deriving DecidableEq, Repr

namespace Failure

def message : Failure → String
  | .badMagic found =>
    "Bad block magic: found [" ++ ", ".intercalate (found.map fun b => Hex.encode [b]) ++ "]"
  | .truncated cause => s!"Truncated stream: {cause.message}"
  | .frameMismatch declared consumed =>
    s!"Block record length {declared} does not match {consumed} decoded bytes"
  | .indexOutOfRange index count => s!"Bad block index {index} (from {count} blocks)"
  | .stackUnderflow => "Stack underflow"
  | .stackOverflow capacity => s!"Stack overflow: capacity {capacity} exceeded"
  | .invalidStackIndex index => s!"Invalid stack index: {index}"
  | .unrecognizedOpcode opcode category =>
    s!"0x{Hex.encode [opcode]} not a Script {category.label} op"
  | .notImplemented opcode => s!"Opcode 0x{Hex.encode [opcode]} is not implemented"
  | .disabledOpcode opcode => s!"Opcode 0x{Hex.encode [opcode]} is disabled"
  | .scriptInvalid cause => s!"Script failed: {cause.message}"
  | .numberTooLong size limit => s!"Script number of {size} bytes exceeds {limit} byte limit"
  | .arithmeticOverflow => "Script arithmetic overflow"
  | .limitExceeded cause => s!"Limit exceeded: {cause.message}"
  | .badSetting cause => s!"Invalid configuration: {cause.message}"
  | .io text => s!"I/O error: {text}"

def isTruncated : Failure → Bool
  | .truncated _ => true
  | _ => false

/-- Whether a script ran and said no, as opposed to being unfit to run. -/
def isScriptFailure : Failure → Bool
  | .scriptInvalid _ => true
  | _ => false

end Failure

/-- An error that a source or a sink reports by itself. -/
inductive IoError where
  | unexpectedEnd (message : String)
  | other (message : String)
  deriving DecidableEq, Repr

/-- Running out of bytes is a truncation wherever it is noticed. -/
def IoError.toFailure : IoError → Failure
  | .unexpectedEnd message => .truncated (.source message)
  | .other message => .io message

end ScriptLedger
