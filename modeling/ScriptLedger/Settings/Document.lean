import ScriptLedger.Json.Form
import ScriptLedger.Settings.Validation

namespace ScriptLedger

open Json

/-- A limit is a natural number of 64 bits. -/
def Limit.ofValue? (v : Value) : Option Nat :=
  v.natural? 0x10000000000000000

/-- A limit of a document, or the given one when the document has none. -/
def Limit.orElse (default : Nat) : Option Value → Option Nat
  | none => some default
  | some v => Limit.ofValue? v

/-- The limits that a document leaves out keep their defaults. -/
def ScriptLimits.ofValue? (v : Value) : Option ScriptLimits := do
  let default : ScriptLimits := {}
  match ← v.fields? ["max_script_size", "max_stack_size", "max_element_size", "max_ops",
      "max_num_len"] with
  | [scriptSize, stackSize, elementSize, operations, numberWidth] =>
    return {
      scriptSize := ← Limit.orElse default.scriptSize scriptSize
      stackSize := ← Limit.orElse default.stackSize stackSize
      elementSize := ← Limit.orElse default.elementSize elementSize
      operations := ← Limit.orElse default.operations operations
      numberWidth := ← Limit.orElse default.numberWidth numberWidth }
  | _ => none

namespace Settings

/-- The largest record size of the part of a document that is about blocks. -/
def recordSizeOfValue? (v : Value) : Option Nat := do
  match ← v.fields? ["max_record_size"] with
  | [recordSize] => Limit.orElse ({} : Settings).recordSize recordSize
  | _ => none

def ofValue? (v : Value) : Option Settings := do
  let default : Settings := {}
  match ← v.fields? ["script", "block"] with
  | [script, block] =>
    return {
      script := ← (script.map ScriptLimits.ofValue?).getD (some default.script)
      recordSize := ← (block.map recordSizeOfValue?).getD (some default.recordSize) }
  | _ => none

instance : Form Settings where
  document s := .object
    [("script", .object
      [("max_script_size", .natural s.script.scriptSize),
       ("max_stack_size", .natural s.script.stackSize),
       ("max_element_size", .natural s.script.elementSize),
       ("max_ops", .natural s.script.operations),
       ("max_num_len", .natural s.script.numberWidth)]),
     ("block", .object [("max_record_size", .natural s.recordSize)])]
  ofValue? := ofValue?

/-- Reads settings from a document and checks them. -/
def ofText (text : String) : Except Failure Settings :=
  match Json.read? text with
  | none => .error (.badSetting .malformed)
  | some s => (check s).map fun () => s

/-- Reads settings from the file of a path, given what it holds if it exists. -/
def ofFile (path : String) (contents : Option Bytes) : Except Failure Settings :=
  match contents with
  | none => .error (.badSetting (.missingFile path))
  | some data =>
    match data.toText? with
    | none => .error (.badSetting (.notText path))
    | some text => ofText text

end Settings

end ScriptLedger
