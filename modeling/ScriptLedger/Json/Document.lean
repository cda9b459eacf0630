namespace ScriptLedger.Json

/-- A JSON text to be written. -/
inductive Document where
  | natural (n : Nat)
  | string (s : String)
  | array (items : List Document)
  | object (fields : List (String × Document))

namespace Document

/-- One character of a string. Quotes, backslashes and controls are escaped. -/
def escape (c : Char) : List Char :=
  if c = '"' ∨ c = '\\' then ['\\', c]
  else if c.toNat = 8 then ['\\', 'b']
  else if c.toNat = 12 then ['\\', 'f']
  else if c = '\n' then ['\\', 'n']
  else if c = '\r' then ['\\', 'r']
  else if c = '\t' then ['\\', 't']
  else if c.toNat < 0x20 then
    ['\\', 'u', '0', '0'] ++ [Nat.digitChar (c.toNat / 16), Nat.digitChar (c.toNat % 16)]
  else [c]

def quoted (s : String) : List Char :=
  '"' :: s.toList.flatMap escape ++ ['"']

mutual

/-- The text of a document, without any blank. -/
def chars : Document → List Char
  | .natural n => Nat.toDigits 10 n
  | .string s => quoted s
  | .array items => '[' :: itemChars items ++ [']']
  | .object fields => '{' :: fieldChars fields ++ ['}']

def itemChars : List Document → List Char
  | [] => []
  | [d] => d.chars
  | d :: ds => d.chars ++ ',' :: itemChars ds

def fieldChars : List (String × Document) → List Char
  | [] => []
  | [(key, d)] => quoted key ++ ':' :: d.chars
  | (key, d) :: fields => quoted key ++ ':' :: d.chars ++ ',' :: fieldChars fields

end

def render (d : Document) : String :=
  String.ofList d.chars

end Document

end ScriptLedger.Json
