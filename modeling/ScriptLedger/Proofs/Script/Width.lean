import Mathlib.Algebra.GroupWithZero.Nat
import ScriptLedger.Script.Number

namespace ScriptLedger.Script.Number

variable {n : Int}

theorem length_withSign_le {sign m k : Nat} (h : m < 128 * 256 ^ k) :
    (withSign sign m).length ≤ k + 1 := by
  induction k generalizing m with
  | zero =>
    rw [Nat.pow_zero, Nat.mul_one] at h
    rw [withSign, if_pos h]
    exact Nat.le_refl 1
  | succ k ih =>
    rw [withSign]
    split
    · exact Nat.succ_le_succ (Nat.zero_le _)
    · have hm : m / 256 < 128 * 256 ^ k := by
        rw [Nat.pow_succ] at h
        omega
      exact Nat.succ_le_succ (ih hm)

theorem length_encode_le_of_lt {k : Nat} (h : n.natAbs < 128 * 256 ^ k) :
    (encode n).length ≤ k + 1 := by
  unfold encode
  split
  · exact Nat.zero_le _
  · exact length_withSign_le h

/-- Any word of 64 bits takes at most nine bytes, the last of them for the sign. -/
theorem length_encode_le (h : n.natAbs < 2 ^ 64) : (encode n).length ≤ 9 :=
  length_encode_le_of_lt (k := 8) (by omega)

theorem length_withSign_le_self (sign m : Nat) : (withSign sign m).length ≤ max m 1 := by
  fun_induction withSign sign m with
  | case1 m h => exact Nat.le_max_right m 1
  | case2 m h ih =>
    rw [List.length_cons]
    omega

/-- The size of an item, as a number, takes no more bytes than the item. -/
theorem length_encode_natCast_le (m : Nat) : (encode m).length ≤ m := by
  unfold encode
  split
  · exact Nat.zero_le m
  · have hm := length_withSign_le_self (if (m : Int) < 0 then 128 else 0) m
    rw [Int.natAbs_natCast]
    omega

theorem magnitude_lt (item : Bytes) : magnitude item < 256 ^ item.length := by
  fun_induction magnitude item with
  | case1 => decide
  | case2 b =>
    rw [List.length_singleton]
    omega
  | case3 b bs h ih =>
    have hb := b.toNat_lt
    rw [List.length_cons, Nat.pow_succ]
    omega

theorem natAbs_value (item : Bytes) : (value item).natAbs = magnitude item := by
  unfold value
  split
  · rw [Int.natAbs_neg, Int.natAbs_natCast]
  · rw [Int.natAbs_natCast]

theorem natAbs_value_lt {item : Bytes} {k : Nat} (h : item.length ≤ k) :
    (value item).natAbs < 256 ^ k := by
  rw [natAbs_value]
  exact Nat.lt_of_lt_of_le (magnitude_lt item) (Nat.pow_le_pow_right (by decide) h)

theorem decode_of_length_le {limit : Nat} {item : Bytes} (h : item.length ≤ min limit 8) :
    decode limit item = .ok (value item) :=
  if_pos h

theorem decode_of_lt_length {limit : Nat} {item : Bytes} (h : min limit 8 < item.length) :
    decode limit item = .error (.numberTooLong item.length (min limit 8)) :=
  if_neg (Nat.not_le.mpr h)

theorem le_width_of_not_inRange {width : Nat} (hn : n.natAbs < 2 * 256 ^ min width 8)
    (h : ¬ InRange n) : 8 ≤ width := by
  apply Nat.le_of_not_lt
  intro hwidth
  have hpow : 256 ^ min width 8 ≤ 256 ^ 7 := Nat.pow_le_pow_right (by decide) (by omega)
  unfold InRange at h
  omega

end ScriptLedger.Script.Number
