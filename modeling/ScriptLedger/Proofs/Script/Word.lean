import Mathlib.Algebra.GroupWithZero.Nat
import ScriptLedger.Bytes.LittleEndian
import ScriptLedger.Proofs.Script.Value

namespace ScriptLedger

variable {b : UInt8} {bs : Bytes}

theorem Bytes.mapLast_cons (f : UInt8 → UInt8) (h : bs ≠ []) :
    mapLast f (b :: bs) = b :: mapLast f bs := by
  obtain ⟨cs, c, rfl⟩ := (List.eq_nil_or_concat bs).resolve_left h
  rw [List.concat_eq_append, mapLast_concat, ← List.cons_append, mapLast_concat, List.cons_append]

namespace Script.Number

variable {item : Bytes} {n : Int64} {w : UInt64}

theorem magnitude_eq_decode (item : Bytes) : magnitude item = LittleEndian.decode (abs item) := by
  fun_induction magnitude item with
  | case1 => rfl
  | case2 b =>
    change b.toNat % 128 = (b &&& 0x7f).toNat + 256 * 0
    rw [toNat_and_low, Nat.mul_zero, Nat.add_zero]
  | case3 b bs h ih => rw [abs, Bytes.mapLast_cons _ h, LittleEndian.decode, ih, abs]

theorem magnitude_lt_two_pow (item : Bytes) : magnitude item < 2 ^ (8 * item.length - 1) := by
  fun_induction magnitude item with
  | case1 => decide
  | case2 b => exact Nat.mod_lt _ (by decide)
  | case3 b bs h ih =>
    have hb := b.toNat_lt
    have hlength : 8 * (b :: bs).length - 1 = 8 * bs.length - 1 + 8 := by
      have hpos := List.length_pos_iff.mpr h
      rw [List.length_cons]
      omega
    rw [hlength, Nat.pow_add]
    omega

/-- Puts bytes into a word, each eight bits above the one before. -/
def gather (shift : Nat) (w : UInt64) : Bytes → UInt64
  | [] => w
  | b :: bs => gather (shift + 8) (w ||| b.toUInt64 <<< UInt64.ofNat shift) bs

def wordMagnitude (item : Bytes) : UInt64 :=
  gather 0 0 (abs item)

def readWord (item : Bytes) : Int64 :=
  if isNegative item then -(wordMagnitude item).toInt64 else (wordMagnitude item).toInt64

/-- The bytes of a word, without the zero bytes at its end. -/
def splitWord (w : UInt64) : Bytes :=
  if w = 0 then [] else w.toUInt8 :: splitWord (w >>> 8)
termination_by w.toNat
decreasing_by
  have hpos : w.toNat ≠ 0 := fun h0 => ‹¬ w = 0› (UInt64.toNat_inj.mp h0)
  rw [UInt64.toNat_shiftRight]
  change w.toNat >>> 8 < w.toNat
  rw [Nat.shiftRight_eq_div_pow]
  omega

/-- Marks the sign in the last byte, or behind it if its top bit is taken. -/
def placeSign (negative : Bool) (bs : Bytes) : Bytes :=
  if isNegative bs then bs ++ [if negative then 0x80 else 0]
  else if negative then bs.mapLast (· ||| 0x80) else bs

/-- The absolute value of a signed word; that of the least one has no sign bit to spare. -/
def unsignedAbs (n : Int64) : UInt64 :=
  if n < 0 then (-n).toUInt64 else n.toUInt64

def writeWord (n : Int64) : Bytes :=
  if n = 0 then [] else placeSign (n < 0) (splitWord (unsignedAbs n))

theorem toNat_gather {shift : Nat} (hshift : shift + 8 * bs.length ≤ 64)
    (hw : w.toNat < 2 ^ shift) :
    (gather shift w bs).toNat = w.toNat + 2 ^ shift * LittleEndian.decode bs := by
  induction bs generalizing shift w with
  | nil => rfl
  | cons b bs ih =>
    rw [List.length_cons] at hshift
    have hb := b.toNat_lt
    have hplace : (b.toUInt64 <<< UInt64.ofNat shift).toNat = 2 ^ shift * b.toNat := by
      have hroom : 2 ^ shift * b.toNat < 2 ^ 64 := by
        calc 2 ^ shift * b.toNat < 2 ^ shift * 2 ^ 8 := by
              exact Nat.mul_lt_mul_of_pos_left hb (Nat.two_pow_pos shift)
          _ = 2 ^ (shift + 8) := (Nat.pow_add 2 shift 8).symm
          _ ≤ 2 ^ 64 := Nat.pow_le_pow_right (by decide) (by omega)
      rw [UInt64.toNat_shiftLeft, UInt64.toNat_ofNat', UInt8.toNat_toUInt64,
        Nat.mod_eq_of_lt (a := shift) (by omega), Nat.mod_eq_of_lt (a := shift) (by omega),
        Nat.shiftLeft_eq, Nat.mul_comm, Nat.mod_eq_of_lt hroom]
    have hor : (w ||| b.toUInt64 <<< UInt64.ofNat shift).toNat = w.toNat + 2 ^ shift * b.toNat := by
      rw [UInt64.toNat_or, hplace, Nat.or_comm, ← Nat.two_pow_add_eq_or_of_lt hw, Nat.add_comm]
    have hnext : (w ||| b.toUInt64 <<< UInt64.ofNat shift).toNat < 2 ^ (shift + 8) := by
      rw [hor, Nat.pow_add]
      have hmul : 2 ^ shift * b.toNat ≤ 2 ^ shift * 255 := Nat.mul_le_mul_left _ (by omega)
      omega
    rw [gather, ih (by omega) hnext, hor, LittleEndian.decode, Nat.pow_add, Nat.mul_add,
      Nat.add_assoc, Nat.mul_assoc]

theorem toNat_wordMagnitude (h : item.length ≤ 8) :
    (wordMagnitude item).toNat = magnitude item := by
  have hshift : 0 + 8 * (abs item).length ≤ 64 := by
    rw [abs, Bytes.length_mapLast]
    omega
  rw [wordMagnitude, toNat_gather hshift (by decide), magnitude_eq_decode]
  exact (Nat.zero_add _).trans (Nat.one_mul _)

theorem toInt_toInt64 (h : w.toNat < 2 ^ 63) : w.toInt64.toInt = w.toNat :=
  BitVec.toInt_eq_toNat_of_lt (x := w.toBitVec) (by change 2 * w.toNat < 2 ^ 64; omega)

theorem toInt_neg_of_lt {m : Nat} (h : n.toInt = m) : (-n).toInt = -(m : Int) := by
  have hm := n.toInt_lt
  rw [Int64.toInt_neg, h]
  exact Int.bmod_eq_of_le (by omega) (by omega)

/-- A word is wide enough for the number of any item of eight bytes: no bit is shifted out, the
magnitude leaves the sign bit alone, and its negation is a number too. -/
theorem toInt_readWord (h : item.length ≤ 8) : (readWord item).toInt = value item := by
  have hmagnitude := toNat_wordMagnitude h
  have hlt : magnitude item < 2 ^ 63 :=
    Nat.lt_of_lt_of_le (magnitude_lt_two_pow item) (Nat.pow_le_pow_right (by decide) (by omega))
  have hword : (wordMagnitude item).toInt64.toInt = magnitude item := by
    rw [toInt_toInt64 (by omega), hmagnitude]
  unfold readWord value
  split
  · exact toInt_neg_of_lt hword
  · exact hword

theorem toNat_unsignedAbs (n : Int64) : (unsignedAbs n).toNat = n.toInt.natAbs := by
  have hlt := n.toUInt64.toNat_lt
  have hcast : n.toInt = if 2 * n.toUInt64.toNat < 2 ^ 64 then (n.toUInt64.toNat : Int)
      else n.toUInt64.toNat - ((2 ^ 64 : Nat) : Int) :=
    BitVec.toInt_eq_toNat_cond n.toBitVec
  simp only [unsignedAbs, Int64.lt_iff_toInt_lt, Int64.toInt_zero]
  split
  case isTrue h =>
    have hneg : (-n).toUInt64.toNat = (2 ^ 64 - n.toUInt64.toNat) % 2 ^ 64 :=
      BitVec.toNat_neg n.toBitVec
    rw [hneg]
    split at hcast <;> omega
  case isFalse h => split at hcast <;> omega

theorem splitWord_zero : splitWord 0 = [] := by
  rw [splitWord, if_pos rfl]

theorem splitWord_ne_nil (hw : w ≠ 0) : splitWord w ≠ [] := by
  rw [splitWord, if_neg hw]
  exact List.cons_ne_nil _ _

theorem toNat_shiftRight_byte (w : UInt64) : (w >>> 8).toNat = w.toNat / 256 := by
  rw [UInt64.toNat_shiftRight]
  exact Nat.shiftRight_eq_div_pow w.toNat 8

theorem or_top_eq (h : b.toNat < 128) : b ||| 0x80 = UInt8.ofNat (b.toNat + 128) := by
  have hor : b.toNat ||| 2 ^ 7 * 1 = b.toNat + 128 := by
    rw [Nat.or_comm, ← Nat.two_pow_add_eq_or_of_lt h, Nat.add_comm]
  rw [← UInt8.toNat_inj, UInt8.toNat_or, UInt8.toNat_ofNat', Nat.mod_eq_of_lt (by omega)]
  exact hor

theorem withSign_of_lt {sign m : Nat} (h : m < 128) :
    withSign sign m = [UInt8.ofNat (m + sign)] := by
  rw [withSign, if_pos h]

theorem withSign_of_le {sign m : Nat} (h : 128 ≤ m) :
    withSign sign m = UInt8.ofNat m :: withSign sign (m / 256) := by
  rw [withSign, if_neg (Nat.not_lt.mpr h)]

theorem placeSign_singleton (negative : Bool) (b : UInt8) :
    placeSign negative [b] = withSign (if negative then 128 else 0) b.toNat := by
  have hb := b.toNat_lt
  rw [placeSign, isNegative_singleton]
  by_cases h : 128 ≤ b.toNat
  case pos =>
    rw [withSign_of_le h, Nat.div_eq_of_lt hb, withSign_of_lt (by decide), UInt8.ofNat_toNat,
      if_pos (decide_eq_true h)]
    cases negative <;> rfl
  case neg =>
    rw [withSign_of_lt (Nat.not_le.mp h), if_neg (mt of_decide_eq_true h)]
    cases negative with
    | true => exact congrArg (fun c => [c]) (or_top_eq (Nat.not_le.mp h))
    | false => exact congrArg (fun c => [c]) UInt8.ofNat_toNat.symm

theorem placeSign_cons (negative : Bool) (h : bs ≠ []) :
    placeSign negative (b :: bs) = b :: placeSign negative bs := by
  rw [placeSign, placeSign, isNegative_cons h, Bytes.mapLast_cons _ h]
  split
  · rfl
  · split <;> rfl

theorem placeSign_splitWord (negative : Bool) (hw : w ≠ 0) :
    placeSign negative (splitWord w) = withSign (if negative then 128 else 0) w.toNat := by
  fun_induction splitWord w with
  | case1 => exact absurd rfl hw
  | case2 w h ih =>
    have hquot := toNat_shiftRight_byte w
    by_cases hlast : w >>> 8 = 0
    case pos =>
      have hbyte : w.toUInt8.toNat = w.toNat := by
        have hzero : (w >>> 8).toNat = 0 := by rw [hlast]; rfl
        rw [UInt64.toNat_toUInt8]
        omega
      rw [hlast, splitWord_zero, placeSign_singleton, hbyte]
    case neg =>
      have hlarge : 128 ≤ w.toNat := by
        have hpos : (w >>> 8).toNat ≠ (0 : UInt64).toNat := mt UInt64.toNat_inj.mp hlast
        rw [hquot] at hpos
        change _ ≠ 0 at hpos
        omega
      rw [placeSign_cons negative (splitWord_ne_nil hlast), ih hlast, hquot, withSign_of_le hlarge]
      rfl

theorem writeWord_eq_encode (n : Int64) : writeWord n = encode n.toInt := by
  have hzero : n = 0 ↔ n.toInt = 0 := by
    rw [← Int64.toInt_inj, Int64.toInt_zero]
  unfold writeWord encode
  by_cases h : n = 0
  case pos => rw [if_pos h, if_pos (hzero.mp h)]
  case neg =>
    have habs := toNat_unsignedAbs n
    have hw : unsignedAbs n ≠ 0 := by
      rintro heq
      rw [heq] at habs
      exact h (hzero.mpr (Int.natAbs_eq_zero.mp habs.symm))
    rw [if_neg h, if_neg (mt hzero.mpr h), placeSign_splitWord _ hw, habs]
    simp only [decide_eq_true_eq, Int64.lt_iff_toInt_lt, Int64.toInt_zero]

end Script.Number
end ScriptLedger
