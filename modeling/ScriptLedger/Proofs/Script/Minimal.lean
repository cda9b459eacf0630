import ScriptLedger.Proofs.Script.Word

namespace ScriptLedger.Script.Number

variable {item : Bytes} {n : Int} {b : UInt8} {bs : Bytes}

/-- Whether an item has no byte to spare: it is empty, or its last byte holds more than the sign,
or the sign has a byte of its own because the top bit of the byte before is taken. -/
def isMinimal : Bytes → Bool
  | [] => true
  | [last] => last &&& 0x7f != 0
  | [previous, last] => last &&& 0x7f != 0 || previous &&& 0x80 != 0
  | _ :: rest => isMinimal rest

theorem and_low_ne_zero_iff : b &&& 0x7f ≠ 0 ↔ b.toNat % 128 ≠ 0 := by
  rw [ne_eq, ← UInt8.toNat_inj, toNat_and_low]
  rfl

theorem and_top_ne_zero_iff : b &&& 0x80 ≠ 0 ↔ 128 ≤ b.toNat := by
  have hall : ∀ v : BitVec 8, v &&& 0x80#8 ≠ 0#8 ↔ 128 ≤ v.toNat := by decide +kernel
  rw [ne_eq, ← UInt8.toBitVec_inj]
  exact hall b.toBitVec

/-- An item is minimal when its magnitude does not fit the next smaller width. -/
theorem isMinimal_iff (h : item ≠ []) :
    isMinimal item = true ↔ 2 ^ (8 * item.length - 9) ≤ magnitude item := by
  fun_induction isMinimal item with
  | case1 => exact absurd rfl h
  | case2 last =>
    rw [bne_iff_ne, and_low_ne_zero_iff]
    change _ ↔ 1 ≤ last.toNat % 128
    omega
  | case3 previous last =>
    rw [Bool.or_eq_true, bne_iff_ne, bne_iff_ne, and_low_ne_zero_iff, and_top_ne_zero_iff]
    change _ ↔ 128 ≤ previous.toNat + 256 * (last.toNat % 128)
    omega
  | case4 b rest hne hsingle ih =>
    have hb := b.toNat_lt
    have hlong : 2 ≤ rest.length := by
      match rest with
      | [] => exact absurd rfl hne
      | [last] => exact absurd rfl (hsingle last)
      | _ :: _ :: _ => exact Nat.le_add_left 2 _
    have hlength : 8 * (b :: rest).length - 9 = 8 * rest.length - 9 + 8 := by
      rw [List.length_cons]
      omega
    rw [ih hne, hlength, magnitude_cons hne, Nat.pow_add]
    omega

theorem lt_length_encode {k : Nat} (h : 2 ^ (8 * k - 1) ≤ n.natAbs) : k < (encode n).length := by
  have hhigh := magnitude_lt_two_pow (encode n)
  rw [← natAbs_value, value_encode] at hhigh
  have hwidth := (Nat.pow_lt_pow_iff_right (by decide)).mp (Nat.lt_of_le_of_lt h hhigh)
  omega

theorem length_le_length_encode (h : isMinimal item = true) :
    item.length ≤ (encode (value item)).length := by
  by_cases hitem : item = []
  case pos =>
    rw [hitem]
    exact Nat.zero_le _
  case neg =>
    have hlow : 2 ^ (8 * (item.length - 1) - 1) ≤ (value item).natAbs := by
      rw [natAbs_value, Nat.mul_sub, Nat.sub_sub]
      exact (isMinimal_iff hitem).mp h
    exact Nat.le_of_pred_lt (lt_length_encode hlow)

theorem isMinimal_withSign {sign m : Nat} (hsign : sign = 0 ∨ sign = 128) (hm : m ≠ 0) :
    isMinimal (withSign sign m) = true := by
  rw [isMinimal_iff (withSign_ne_nil sign m), magnitude_withSign hsign]
  obtain hshort | hlong := Nat.lt_or_ge (withSign sign m).length 2
  case inl =>
    have hone : 8 * (withSign sign m).length - 9 = 0 := by omega
    rw [hone]
    omega
  case inr =>
    obtain ⟨k, hk⟩ := Nat.exists_eq_add_of_le hlong
    have hlarge : 128 * 256 ^ k ≤ m := by
      apply Nat.le_of_not_lt
      intro hlt
      have hlength : (withSign sign m).length ≤ k + 1 := length_withSign_le hlt
      omega
    have hwidth : 8 * (withSign sign m).length - 9 = 7 + 8 * k := by omega
    rw [hwidth, Nat.pow_add, Nat.pow_mul]
    exact hlarge

theorem isMinimal_encode (n : Int) : isMinimal (encode n) = true := by
  unfold encode
  split
  case isTrue => rfl
  case isFalse h =>
    apply isMinimal_withSign
    · split
      · exact .inr rfl
      · exact .inl rfl
    · exact Int.natAbs_ne_zero.mpr h

theorem eq_encode_of_length_le (hvalue : value item = n)
    (hlength : item.length ≤ (encode n).length) : item = encode n :=
  ((shortest_encode n).eq_or_lt item hvalue).resolve_right (Nat.not_lt.mpr hlength)

theorem Shortest.eq_encode (h : Shortest n item) : item = encode n := by
  obtain heq | hlt := h.eq_or_lt (encode n) (value_encode n)
  · exact heq.symm
  · exact eq_encode_of_length_le h.value_eq (Nat.le_of_lt hlt)

theorem encode_value_eq_iff : encode (value item) = item ↔ isMinimal item = true := by
  constructor
  · intro h
    rw [← h]
    exact isMinimal_encode _
  · intro h
    exact (eq_encode_of_length_le rfl (length_le_length_encode h)).symm

theorem negate_negate (item : Bytes) : negate (negate item) = item := by
  obtain rfl | ⟨bs, b, rfl⟩ := List.eq_nil_or_concat item
  case inl => rfl
  case inr =>
    rw [List.concat_eq_append, negate, negate, Bytes.mapLast_concat, Bytes.mapLast_concat,
      UInt8.xor_assoc, UInt8.xor_self, UInt8.xor_zero]

theorem abs_abs (item : Bytes) : abs (abs item) = abs item := by
  obtain rfl | ⟨bs, b, rfl⟩ := List.eq_nil_or_concat item
  case inl => rfl
  case inr =>
    rw [List.concat_eq_append, abs, abs, Bytes.mapLast_concat, Bytes.mapLast_concat,
      UInt8.and_assoc, UInt8.and_self]

theorem length_negate (item : Bytes) : (negate item).length = item.length :=
  Bytes.length_mapLast _ item

theorem length_abs (item : Bytes) : (abs item).length = item.length :=
  Bytes.length_mapLast _ item

theorem length_encode_neg_le (n : Int) : (encode (-n)).length ≤ (encode n).length := by
  have hvalue : value (negate (encode n)) = -n := by rw [value_negate, value_encode]
  obtain heq | hlt := (shortest_encode (-n)).eq_or_lt _ hvalue
  · exact Nat.le_of_eq ((congrArg List.length heq).symm.trans (length_negate _))
  · rw [length_negate] at hlt
    exact Nat.le_of_lt hlt

theorem length_encode_neg (n : Int) : (encode (-n)).length = (encode n).length := by
  apply Nat.le_antisymm (length_encode_neg_le n)
  have h := length_encode_neg_le (-n)
  rwa [Int.neg_neg] at h

theorem length_encode_natAbs (n : Int) : (encode n.natAbs).length = (encode n).length := by
  have h : n = (n.natAbs : Int) ∨ -n = (n.natAbs : Int) := by omega
  obtain h | h := h
  · rw [← h]
  · rw [← h, length_encode_neg]

theorem negate_encode (n : Int) : negate (encode n) = encode (-n) := by
  apply eq_encode_of_length_le
  · rw [value_negate, value_encode]
  · exact Nat.le_of_eq ((length_negate _).trans (length_encode_neg n).symm)

theorem abs_encode (n : Int) : abs (encode n) = encode n.natAbs := by
  apply eq_encode_of_length_le
  · rw [value_abs, value_encode]
  · exact Nat.le_of_eq ((length_abs _).trans (length_encode_natAbs n).symm)

theorem isMinimal_negate (item : Bytes) : isMinimal (negate item) = isMinimal item := by
  rw [Bool.eq_iff_iff, ← encode_value_eq_iff, ← encode_value_eq_iff, value_negate, ← negate_encode]
  constructor
  · intro h
    rw [← negate_negate (encode (value item)), h, negate_negate]
  · exact congrArg negate

theorem isMinimal_abs (item : Bytes) : isMinimal (abs item) = isMinimal item := by
  rw [Bool.eq_iff_iff, ← encode_value_eq_iff, ← encode_value_eq_iff, value_abs, ← abs_encode]
  constructor
  · intro h
    have hlength := congrArg List.length h
    rw [length_abs, length_abs] at hlength
    exact (eq_encode_of_length_le rfl (Nat.le_of_eq hlength.symm)).symm
  · exact congrArg abs

theorem truth_negate (item : Bytes) : truth (negate item) = truth item := by
  rw [Bool.eq_iff_iff, truth_iff, truth_iff, value_negate, ne_eq, Int.neg_eq_zero]

theorem length_encode_of_inRange (h : InRange n) (hne : n ≠ -0x8000000000000000) :
    (encode n).length ≤ 8 := by
  obtain ⟨hlow, hhigh⟩ := h
  exact length_encode_le_of_lt (k := 7) (by omega)

theorem inRange_of_length_encode (h : (encode n).length ≤ 8) : InRange n := by
  have hlt : n.natAbs < 2 ^ 63 := by
    apply Nat.lt_of_not_le
    intro hle
    exact absurd (lt_length_encode (k := 8) hle) (Nat.not_lt.2 h)
  unfold InRange
  omega

theorem length_encode_word {w : Int64} (h : w ≠ Int64.minValue) : (encode w.toInt).length ≤ 8 := by
  have hlow := w.le_toInt
  have hhigh := w.toInt_lt
  have hne : w.toInt ≠ -2 ^ 63 := mt (Int64.toInt_inj (y := Int64.minValue)).mp h
  exact length_encode_of_inRange ⟨hlow, hhigh⟩ hne

theorem length_encode_minValue : (encode Int64.minValue.toInt).length = 9 := by
  rw [Int64.toInt_minValue]
  apply Nat.le_antisymm
  · exact length_encode_le (by decide)
  · exact lt_length_encode (k := 8) (by decide)

/-- Numbers and items stand for each other. The words of the machine compute the shortest form of
every number and the number of every item of eight bytes. Every number but the least has one
shortest item, of eight bytes at most; the least has nine bytes, which are not read back. Reading
and writing give an item back exactly when it has no byte to spare, and a limit on the width does
nothing but refuse wider items. -/
theorem decode_encode_shortest :
    (∀ n : Int64, writeWord n = encode n.toInt) ∧
    (∀ n : Int64, n ≠ Int64.minValue →
      (encode n.toInt).length ≤ 8 ∧ decode maxWidth (encode n.toInt) = .ok n.toInt ∧
        ∀ item, decode maxWidth item = .ok n.toInt → item ≠ encode n.toInt →
          (encode n.toInt).length < item.length) ∧
    ((encode Int64.minValue.toInt).length = 9 ∧
      decode maxWidth (encode Int64.minValue.toInt) = .error (.numberTooLong 9 8)) ∧
    (∀ item : Bytes, item.length ≤ 8 →
      decode maxWidth item = .ok (readWord item).toInt ∧ (readWord item).toInt = value item ∧
        (wordMagnitude item).toNat = magnitude item ∧
        (readWord item).toInt.natAbs < 2 ^ (8 * item.length - 1) ∧
        (item = [] → readWord item = 0) ∧
        (encode (readWord item).toInt = item ↔ isMinimal item = true)) ∧
    (∀ limit item, decode limit item =
      if item.length ≤ min limit 8 then decode maxWidth item
      else .error (.numberTooLong item.length (min limit 8))) := by
  refine ⟨writeWord_eq_encode, ?numbers, ?least, ?items, ?limits⟩
  case numbers =>
    intro n hn
    have hlength := length_encode_word hn
    refine ⟨hlength, decode_eq_ok_iff.mpr ⟨hlength, value_encode _⟩, ?_⟩
    intro item hitem hne
    obtain ⟨-, hvalue⟩ := decode_eq_ok_iff.mp hitem
    exact ((shortest_encode _).eq_or_lt item hvalue).resolve_left hne
  case least =>
    refine ⟨length_encode_minValue, ?_⟩
    rw [decode_of_lt_length (by rw [length_encode_minValue]; decide), length_encode_minValue]
    rfl
  case items =>
    intro item hitem
    have hword := toInt_readWord hitem
    refine ⟨?_, hword, toNat_wordMagnitude hitem, ?_, ?_, ?_⟩
    · exact decode_eq_ok_iff.mpr ⟨hitem, hword.symm⟩
    · rw [hword, natAbs_value]
      exact magnitude_lt_two_pow item
    · rintro rfl
      rfl
    · rw [hword]
      exact encode_value_eq_iff
  case limits =>
    intro limit item
    split
    case isTrue h =>
      rw [decode_of_length_le h, decode_of_length_le (Nat.le_trans h (Nat.min_le_right limit 8))]
    case isFalse h => exact decode_of_lt_length (Nat.not_le.mp h)

/-- The greatest word, the least and a number that is padded. -/
theorem decode_encode_shortest_extremes :
    writeWord Int64.maxValue = encode 0x7fffffffffffffff ∧
      decode maxWidth (encode 0x7fffffffffffffff) = .ok 0x7fffffffffffffff ∧
      decode maxWidth (encode (-0x8000000000000000)) = .error (.numberTooLong 9 8) ∧
      decode maxWidth [0, 0, 0, 0, 0, 0, 0, 128] = .ok 0 ∧
      (encode 0).length < ([0, 0, 0, 0, 0, 0, 0, 128] : Bytes).length ∧
      encode (readWord [128, 0]).toInt = [128, 0] ∧
      decode 1 [128, 0] = .error (.numberTooLong 2 1) := by
  obtain ⟨hword, hnumbers, ⟨-, hleast⟩, hitems, hlimits⟩ := decode_encode_shortest
  obtain ⟨-, hgreatest, -⟩ := hnumbers Int64.maxValue (by decide)
  obtain ⟨-, -, hzero⟩ := hnumbers 0 (by decide)
  have hpadded : decode maxWidth [0, 0, 0, 0, 0, 0, 0, 128] = .ok 0 := rfl
  obtain ⟨-, -, -, -, -, hminimal⟩ := hitems [128, 0] (by decide)
  exact ⟨hword _, hgreatest, hleast, hpadded, hzero _ hpadded nofun, hminimal.mpr rfl,
    hlimits 1 [128, 0]⟩

/-- The operations that look at bytes alone agree with the number that these stand for, at any
width: truth is not being zero, and the sign can be flipped and cleared in place, so that a minimal
item stays minimal. -/
theorem truth_negate_abs (item : Bytes) :
    (truth item = true ↔ value item ≠ 0) ∧
    ((negate item).length = item.length ∧ negate (negate item) = item ∧
      value (negate item) = -value item ∧ truth (negate item) = truth item) ∧
    ((abs item).length = item.length ∧ abs (abs item) = abs item ∧
      value (abs item) = (value item).natAbs) ∧
    (∀ n : Int, negate (encode n) = encode (-n) ∧ abs (encode n) = encode n.natAbs) ∧
    isMinimal (negate item) = isMinimal item ∧ isMinimal (abs item) = isMinimal item := by
  refine ⟨truth_iff, ⟨?negate, ?abs, ?numbers, ?minimal⟩⟩
  case negate =>
    exact ⟨length_negate item, negate_negate item, value_negate item, truth_negate item⟩
  case abs => exact ⟨length_abs item, abs_abs item, value_abs item⟩
  case numbers => exact fun n => ⟨negate_encode n, abs_encode n⟩
  case minimal => exact ⟨isMinimal_negate item, isMinimal_abs item⟩

end ScriptLedger.Script.Number
