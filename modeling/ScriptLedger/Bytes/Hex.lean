import ScriptLedger.Bytes
import ScriptLedger.Text.Quoted

namespace ScriptLedger.Hex

/-- The lowercase digit of a value below sixteen. -/
def digit (n : Nat) : Char :=
  if n < 10 then Char.ofNat (48 + n) else Char.ofNat (87 + n)

/-- Two digits for every byte, the high half first. -/
def digits (bs : Bytes) : List Char :=
  bs.flatMap fun b => [digit (b.toNat / 16), digit (b.toNat % 16)]

def encode (bs : Bytes) : String :=
  String.ofList (digits bs)

/-- The value of an ASCII digit of either case. -/
def value? (b : UInt8) : Option Nat :=
  if 48 ≤ b ∧ b ≤ 57 then some (b.toNat - 48)
  else if 65 ≤ b ∧ b ≤ 70 then some (b.toNat - 55)
  else if 97 ≤ b ∧ b ≤ 102 then some (b.toNat - 87)
  else none

/-- Why a text is not the hexadecimal form of a byte string. -/
inductive Error where
  | oddLength
  | wrongLength
  | badDigit (found : UInt8) (index : Nat)
  deriving DecidableEq, Repr

/-- A byte that is no digit is shown as the Latin-1 character of its value. -/
def Error.message : Error → String
  | .oddLength => "Odd number of digits"
  | .wrongLength => "Invalid string length"
  | .badDigit found index =>
    let shown := Text.Quoted.character (Char.ofNat found.toNat)
    s!"Invalid character {shown} at position {index}"

/-- Joins digit values two by two in front of the bytes already read, newest first. -/
def joinOnto (done : Bytes) : List Nat → Bytes
  | high :: low :: rest => joinOnto (UInt8.ofNat (16 * high + low) :: done) rest
  | _ => done.reverse

/-- The first byte that is no digit, with its index. -/
def firstBad? (text : Bytes) : Option (UInt8 × Nat) :=
  text.zipIdx.find? fun entry => (value? entry.1).isNone

/-- Reads the ASCII digits of a byte string of any length. -/
def decode (text : Bytes) : Except Error Bytes :=
  if text.length % 2 = 1 then .error .oddLength
  else match firstBad? text with
    | some (found, index) => .error (.badDigit found index)
    | none => .ok (joinOnto [] (text.filterMap value?))

/-- Reads the ASCII digits of a byte string of `size` bytes; the parity of the text is judged
before its length and its length before its digits. -/
def decodeSized (size : Nat) (text : Bytes) : Except Error Bytes :=
  if text.length % 2 = 1 then .error .oddLength
  else if text.length ≠ 2 * size then .error .wrongLength
  else decode text

/-- A digit is one byte of text and reads back as its value. -/
theorem value?_digit {n : Nat} (h : n < 16) :
    ∃ b, String.utf8EncodeChar (digit n) = [b] ∧ value? b = some n := by
  have hall : ∀ n < 16, String.utf8EncodeChar (digit n) = [UInt8.ofNat (digit n).toNat] ∧
      value? (UInt8.ofNat (digit n).toNat) = some n := by decide
  exact ⟨_, hall n h⟩

/-- The halves of every byte, the high half first. -/
def halves (bs : Bytes) : List Nat :=
  bs.flatMap fun b => [b.toNat / 16, b.toNat % 16]

theorem joinOnto_halves (done bs : Bytes) : joinOnto done (halves bs) = done.reverse ++ bs := by
  induction bs generalizing done with
  | nil => simp [halves, joinOnto]
  | cons b bs ih =>
    have hb : UInt8.ofNat (16 * (b.toNat / 16) + b.toNat % 16) = b := by
      rw [Nat.div_add_mod, UInt8.ofNat_toNat]
    have hs : halves (b :: bs) = b.toNat / 16 :: b.toNat % 16 :: halves bs := rfl
    rw [hs, joinOnto, hb, ih]
    simp

/-- The text of a byte string: an even number of bytes, all of them digits, whose values are the
halves of the bytes. -/
theorem ofText_encode (bs : Bytes) :
    (Bytes.ofText (encode bs)).length = 2 * bs.length ∧
      (∀ b ∈ Bytes.ofText (encode bs), (value? b).isSome) ∧
      (Bytes.ofText (encode bs)).filterMap value? = halves bs := by
  rw [Bytes.ofText, encode, String.toList_ofList, digits]
  induction bs with
  | nil => exact ⟨rfl, by simp, rfl⟩
  | cons b bs ih =>
    obtain ⟨hl, hd, hv⟩ := ih
    have hb := b.toNat_lt
    obtain ⟨x, hx, hxv⟩ := @value?_digit (b.toNat / 16) (by omega)
    obtain ⟨y, hy, hyv⟩ := @value?_digit (b.toNat % 16) (by omega)
    simp only [List.flatMap_cons, hx, hy, List.cons_append, List.nil_append]
    refine ⟨?_, ?_, ?_⟩
    · simp only [List.length_cons, hl]
      omega
    · intro c hc
      rcases List.mem_cons.1 hc with rfl | hc
      · simp [hxv]
      rcases List.mem_cons.1 hc with rfl | hc
      · simp [hyv]
      · exact hd c hc
    · simp only [List.filterMap_cons, hxv, hyv, hv]
      rfl

theorem firstBad?_eq_none {text : Bytes} (h : ∀ b ∈ text, (value? b).isSome) :
    firstBad? text = none := by
  rw [firstBad?, List.find?_eq_none]
  intro entry he
  have hb := h entry.1 (List.fst_mem_of_mem_zipIdx he)
  simp [Option.isSome_iff_ne_none.1 hb]

/-- The digits of a byte string read back as it. -/
theorem decode_encode (bs : Bytes) : decode (Bytes.ofText (encode bs)) = .ok bs := by
  obtain ⟨hl, hd, hv⟩ := ofText_encode bs
  rw [decode, if_neg (by omega), firstBad?_eq_none hd, hv, joinOnto_halves]
  rfl

theorem decodeSized_encode {size : Nat} {bs : Bytes} (h : bs.length = size) :
    decodeSized size (Bytes.ofText (encode bs)) = .ok bs := by
  obtain ⟨hl, _, _⟩ := ofText_encode bs
  rw [decodeSized, if_neg (by omega), if_neg (by omega), decode_encode]

end ScriptLedger.Hex
