import ScriptLedger.Digest.Basic
import ScriptLedger.Json.Document
import ScriptLedger.Json.Value

namespace ScriptLedger.Json

/-- The JSON form of a type: what is written for a value and what is read as one. -/
class Form (α : Type) where
  document : α → Document
  ofValue? : Value → Option α

variable {α : Type}

/-- The JSON text of a value. -/
def write [Form α] (a : α) : String :=
  (Form.document a).render

/-- The value of a JSON text, if it is the text of one. -/
def read? [Form α] (text : String) : Option α :=
  (Value.parse? text).bind Form.ofValue?

instance : Form UInt32 where
  document n := .natural n.toNat
  ofValue? v := (v.natural? 0x100000000).map UInt32.ofNat

instance : Form UInt64 where
  document n := .natural n.toNat
  ofValue? v := (v.natural? 0x10000000000000000).map UInt64.ofNat

/-- A digest is a string of its digits. -/
instance {size : Nat} : Form (Digest size) where
  document d := .string d.toHex
  ofValue? v := v.text?.bind fun s => (Digest.ofHex size s).toOption

instance [Form α] : Form (List α) where
  document xs := .array (xs.map Form.document)
  ofValue? v := v.items?.bind fun items => items.mapM Form.ofValue?

/-- A byte string is a string of its digits. -/
def bytesDocument (bs : Bytes) : Document :=
  .string (Hex.encode bs)

def bytesOfValue? (v : Value) : Option Bytes :=
  v.text?.bind fun s => (Hex.decode (Bytes.ofText s)).toOption

end ScriptLedger.Json
