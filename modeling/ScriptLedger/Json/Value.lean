import ScriptLedger.Json.Token

namespace ScriptLedger.Json

/-- What a JSON text says. Numbers and strings keep what their words keep, and the fields of an
object stay in order with their repetitions. -/
inductive Value where
  | null
  | bool (b : Bool)
  | number (n : Option Nat)
  | string (text : Option String)
  | array (items : List Value)
  | object (fields : List (Option String × Value))
  deriving Repr

/-- An array or an object that is not closed yet: what it holds so far, newest first, and the key
of the field that is next. -/
inductive Open where
  | array (done : List Value)
  | object (done : List (Option String × Value)) (key : Option String)

namespace Value

/-- Reads the words of a text into the open arrays and objects around them, innermost first. The
value before the words, if there is one, still has to be put in its place. -/
def build (around : List Open) (before : Option Value) (words : List Token) : Option Value :=
  match before, around, words with
  | some v, [], [] => some v
  | some v, .array done :: around, .comma :: rest => build (.array (v :: done) :: around) none rest
  | some v, .array done :: around, .endArray :: rest =>
    build around (some (.array (v :: done).reverse)) rest
  | some v, .object done key :: around, .comma :: .string next :: .colon :: rest =>
    build (.object ((key, v) :: done) next :: around) none rest
  | some v, .object done key :: around, .endObject :: rest =>
    build around (some (.object ((key, v) :: done).reverse)) rest
  | none, around, .beginArray :: .endArray :: rest => build around (some (.array [])) rest
  | none, around, .beginArray :: rest => build (.array [] :: around) none rest
  | none, around, .beginObject :: .endObject :: rest => build around (some (.object [])) rest
  | none, around, .beginObject :: .string key :: .colon :: rest =>
    build (.object [] key :: around) none rest
  | none, around, .null :: rest => build around (some .null) rest
  | none, around, .bool b :: rest => build around (some (.bool b)) rest
  | none, around, .number n :: rest => build around (some (.number n)) rest
  | none, around, .string s :: rest => build around (some (.string s)) rest
  | _, _, _ => none

/-- Reads a text that is one value. -/
def parse? (text : String) : Option Value :=
  (Token.list? text.toList).bind (build [] none)

/-- The values of the named fields of a record, given as an object with its fields in any order or
as an array of the first fields in the given order. In an object every key has to be a text and no
named field may be repeated; other fields do not matter. -/
def fields? (names : List String) : Value → Option (List (Option Value))
  | .array items =>
    if items.length ≤ names.length then
      some (items.map some ++ List.replicate (names.length - items.length) none)
    else none
  | .object entries =>
    if entries.any fun entry => entry.1.isNone then none
    else if names.any fun name => 1 < entries.countP fun entry => entry.1 == some name then none
    else some (names.map fun name => entries.lookup (some name))
  | _ => none

/-- A natural number below the bound. -/
def natural? (bound : Nat) : Value → Option Nat
  | .number (some n) => if n < bound then some n else none
  | _ => none

def text? : Value → Option String
  | .string s => s
  | _ => none

def items? : Value → Option (List Value)
  | .array items => some items
  | _ => none

end Value

end ScriptLedger.Json
