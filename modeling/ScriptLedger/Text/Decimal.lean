namespace ScriptLedger.Text

/-- The characters of the Unicode property White_Space. -/
def isBlank (c : Char) : Bool :=
  let n := c.toNat
  (9 ≤ n && n ≤ 13) || n == 0x20 || n == 0x85 || n == 0xa0 || n == 0x1680
    || (0x2000 ≤ n && n ≤ 0x200a) || n == 0x2028 || n == 0x2029 || n == 0x202f
    || n == 0x205f || n == 0x3000

/-- Drops the blanks at both ends. -/
def trim (cs : List Char) : List Char :=
  ((cs.dropWhile isBlank).reverse.dropWhile isBlank).reverse

/-- The digits of a number behind as many spaces as bring them to the given width. -/
def rightAligned (width n : Nat) : String :=
  String.ofList ((Nat.toDigits 10 n).leftpad width ' ')

example : rightAligned 3 7 = "  7" := by decide +kernel

namespace Decimal

/-- Why a text is not an unsigned number of 64 bits. -/
inductive Error where
  | empty
  | invalidDigit
  | tooLarge
  deriving DecidableEq, Repr

def Error.message : Error → String
  | .empty => "cannot parse integer from empty string"
  | .invalidDigit => "invalid digit found in string"
  | .tooLarge => "number too large to fit in target type"

/-- The value of an ASCII digit. -/
def value? (c : Char) : Option Nat :=
  if '0' ≤ c ∧ c ≤ '9' then some (c.toNat - 48) else none

/-- Continues a number from its digits; the first character that fails decides the error. -/
def digits (n : Nat) : List Char → Except Error Nat
  | [] => .ok n
  | c :: cs =>
    match value? c with
    | none => .error .invalidDigit
    | some d => if 10 * n + d < 0x10000000000000000 then digits (10 * n + d) cs else .error .tooLarge

/-- Reads an unsigned number of 64 bits behind an optional plus sign. -/
def parse : List Char → Except Error Nat
  | [] => .error .empty
  | ['+'] => .error .invalidDigit
  | '+' :: cs => digits 0 cs
  | cs => digits 0 cs

end Decimal

end ScriptLedger.Text
