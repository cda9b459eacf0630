import ScriptLedger.Failure

namespace ScriptLedger.Script.Number

/-- The widest item that is read as a number. -/
def maxWidth : Nat := 8

/-- The absolute value of a sign-magnitude number: little-endian, without the top bit of the
last byte. -/
def magnitude : Bytes → Nat
  | [] => 0
  | [b] => b.toNat % 128
  | b :: bs => b.toNat + 256 * magnitude bs

/-- Whether the top bit of the last byte is set. -/
def isNegative (item : Bytes) : Bool :=
  match item.getLast? with
  | none => false
  | some b => 0x80 ≤ b

/-- The number that an item of any length stands for. -/
def value (item : Bytes) : Int :=
  if isNegative item then -(magnitude item : Int) else magnitude item

/-- The shortest form of a magnitude whose last byte also carries the sign bit. -/
def withSign (sign magnitude : Nat) : Bytes :=
  if magnitude < 128 then [UInt8.ofNat (magnitude + sign)]
  else UInt8.ofNat magnitude :: withSign sign (magnitude / 256)
termination_by magnitude
decreasing_by omega

/-- The shortest form of a number; zero is empty. -/
def encode (n : Int) : Bytes :=
  if n = 0 then [] else withSign (if n < 0 then 128 else 0) n.natAbs

/-- Reads an item that is no wider than the limit and never wider than eight bytes. -/
def decode (limit : Nat) (item : Bytes) : Except Failure Int :=
  if item.length ≤ min limit maxWidth then .ok (value item)
  else .error (.numberTooLong item.length (min limit maxWidth))

/-- Whether a number is a signed word of 64 bits. -/
def InRange (n : Int) : Prop :=
  -0x8000000000000000 ≤ n ∧ n < 0x8000000000000000

instance (n : Int) : Decidable (InRange n) :=
  inferInstanceAs (Decidable (_ ∧ _))

/-- Keeps a result that a signed word of 64 bits can hold. -/
def checked (n : Int) : Except Failure Int :=
  if InRange n then .ok n else .error .arithmeticOverflow

def add (a b : Int) : Except Failure Int :=
  checked (a + b)

def sub (a b : Int) : Except Failure Int :=
  checked (a - b)

/-- The truth of an item: some byte is not zero, other than a lone sign bit at the end. -/
def truth : Bytes → Bool
  | [] => false
  | [b] => b != 0 && b != 0x80
  | b :: bs => b != 0 || truth bs

/-- Flips the sign bit of an item. -/
def negate (item : Bytes) : Bytes :=
  item.mapLast (· ^^^ 0x80)

/-- Clears the sign bit of an item. -/
def abs (item : Bytes) : Bytes :=
  item.mapLast (· &&& 0x7f)

end ScriptLedger.Script.Number
