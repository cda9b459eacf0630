import ScriptLedger.Archive.Access
import ScriptLedger.Ledger.Document
import ScriptLedger.Ledger.Edit
import ScriptLedger.Script.Instruction
import ScriptLedger.Settings.Document
import ScriptLedger.Settings.Override
import ScriptLedger.Proofs.Ledger.Canonical
import ScriptLedger.Proofs.Script.Append
import ScriptLedger.Proofs.Script.Frame
import ScriptLedger.Proofs.Script.Keeps
import ScriptLedger.Proofs.Script.Limits
import ScriptLedger.Proofs.Archive.Frames
import ScriptLedger.Proofs.Script.Capacity
import ScriptLedger.Proofs.Archive.Access
import ScriptLedger.Proofs.Script.Refusal
import ScriptLedger.Proofs.Ledger.Isolation
import ScriptLedger.Proofs.Ledger.Truncation
import ScriptLedger.Proofs.Ledger.Grammar
import ScriptLedger.Proofs.Script.Acceptance
import ScriptLedger.Proofs.Ledger.Writing
import ScriptLedger.Proofs.Archive.Concatenation
import ScriptLedger.Proofs.Json.Parse
import ScriptLedger.Proofs.Json.Form
import ScriptLedger.Proofs.Ledger.Document
import ScriptLedger.Proofs.Script.Turns
import ScriptLedger.Proofs.Script.Value
import ScriptLedger.Proofs.Script.Shuffle
import ScriptLedger.Proofs.Script.Fate
import ScriptLedger.Proofs.Script.Depth
import ScriptLedger.Proofs.Script.Arithmetic
import ScriptLedger.Proofs.Script.Minimal
import ScriptLedger.Proofs.Script.Index
import ScriptLedger.Proofs.Script.Overflow
import ScriptLedger.Proofs.Script.PushForm
import ScriptLedger.Proofs.Script.Compound
import ScriptLedger.Proofs.Script.Listing
import ScriptLedger.Proofs.Script.OperationLimit
import ScriptLedger.Proofs.Ledger.Identity
import ScriptLedger.Proofs.Script.Dispatch
import ScriptLedger.Proofs.Script.Restore
import ScriptLedger.Proofs.Ledger.Counts
import ScriptLedger.Proofs.Ledger.ScriptCap
import ScriptLedger.Proofs.Settings.Document
import ScriptLedger.Proofs.Settings.Override
import ScriptLedger.Proofs.Wire.CompactSize
import ScriptLedger.Proofs.Script.Stack
import ScriptLedger.Proofs.Guarded
import ScriptLedger.Proofs.Script.Bounds
