import ScriptLedger.Digest.Basic
import ScriptLedger.Script.Verdict

namespace ScriptLedger

/-- What is worth a line in a log. -/
inductive Notice where
  | fetch (f : Script.Fetch)
  | scriptRejected (cause : Failure)
  | decodingBlock (hash : Hash256) (count : Nat)
  | blockIndexed (index offset size : Nat)
  | archiveIndexed (count : Nat) (name : String)
  | blockRefused (index : Nat) (cause : Failure)

namespace Notice

/-- The line of a notice behind its level. -/
def line : Notice → String
  | .fetch f =>
    s!"TRACE {Text.rightAligned 5 f.position}: {Script.Opcode.display f.opcode} (stack depth {f.depth})"
  | .scriptRejected cause => s!"DEBUG script rejected: {cause.message}"
  | .decodingBlock hash count => s!"TRACE decoding block {hash.toHex} with {count} transactions"
  | .blockIndexed index offset size => s!"TRACE block {index} at offset {offset} ({size} bytes)"
  | .archiveIndexed count name => s!"DEBUG indexed {count} blocks in {name}"
  | .blockRefused index cause => s!"WARN block {index} failed to decode: {cause.message}"

end Notice

namespace Script

def Run.notices (r : Run) : List Notice :=
  r.fetches.map .fetch

/-- The opcodes that a pair of scripts comes to, and the refusal if a script says no. -/
def verifyNotices (limits : ScriptLimits) (signature publicKey : Bytes) : List Notice :=
  let (last, fetches) := runPair limits signature publicKey
  fetches.map .fetch ++
    match last.outcome with
    | .ok () => []
    | .error e => if e.isScriptFailure then [.scriptRejected e] else []

end Script

end ScriptLedger
