import ScriptLedger.Proofs.Script.Width

namespace ScriptLedger.Script.Number

variable {n : Int} {item other : Bytes} {b : UInt8} {bs : Bytes}

theorem magnitude_cons (h : bs ≠ []) : magnitude (b :: bs) = b.toNat + 256 * magnitude bs := by
  cases bs with
  | nil => exact absurd rfl h
  | cons c cs => rfl

theorem isNegative_cons (h : bs ≠ []) : isNegative (b :: bs) = isNegative bs := by
  cases bs with
  | nil => exact absurd rfl h
  | cons c cs =>
    rw [isNegative, isNegative, List.getLast?_cons_cons]

theorem isNegative_singleton : isNegative [b] = decide (128 ≤ b.toNat) :=
  rfl

theorem isNegative_concat : isNegative (bs ++ [b]) = isNegative [b] := by
  rw [isNegative, isNegative, List.getLast?_concat, List.getLast?_singleton]

theorem withSign_ne_nil (sign m : Nat) : withSign sign m ≠ [] := by
  rw [withSign]
  split
  · exact List.cons_ne_nil _ _
  · exact List.cons_ne_nil _ _

theorem magnitude_withSign {sign : Nat} (hsign : sign = 0 ∨ sign = 128) (m : Nat) :
    magnitude (withSign sign m) = m := by
  fun_induction withSign sign m with
  | case1 m h =>
    rw [magnitude, UInt8.toNat_ofNat']
    omega
  | case2 m h ih =>
    rw [magnitude_cons (withSign_ne_nil sign _), ih, UInt8.toNat_ofNat']
    omega

theorem isNegative_withSign {sign : Nat} (hsign : sign = 0 ∨ sign = 128) (m : Nat) :
    isNegative (withSign sign m) = decide (sign = 128) := by
  fun_induction withSign sign m with
  | case1 m h =>
    rw [isNegative_singleton, UInt8.toNat_ofNat', decide_eq_decide]
    omega
  | case2 m h ih => rw [isNegative_cons (withSign_ne_nil sign _), ih]

/-- Any item with a given sign and magnitude is the shortest form of them or longer. -/
theorem withSign_shortest {sign : Nat} (hsign : sign = 0 ∨ sign = 128) (hitem : item ≠ [])
    (hnegative : isNegative item = decide (sign = 128)) :
    item = withSign sign (magnitude item) ∨
      (withSign sign (magnitude item)).length < item.length := by
  induction item with
  | nil => exact absurd rfl hitem
  | cons b bs ih =>
    have hb := b.toNat_lt
    cases bs with
    | nil =>
      left
      rw [isNegative_singleton, decide_eq_decide] at hnegative
      have hbyte : b.toNat % 128 + sign = b.toNat := by omega
      rw [magnitude, withSign, if_pos (Nat.mod_lt _ (by decide)), hbyte, UInt8.ofNat_toNat]
    | cons c cs =>
      have hne := List.cons_ne_nil c cs
      rw [isNegative_cons hne] at hnegative
      rw [magnitude_cons hne, withSign]
      split
      case isTrue => exact .inr (Nat.succ_lt_succ (Nat.succ_pos _))
      case isFalse =>
        have hlow : UInt8.ofNat (b.toNat + 256 * magnitude (c :: cs)) = b := by
          rw [← UInt8.toNat_inj, UInt8.toNat_ofNat']
          omega
        have hhigh : (b.toNat + 256 * magnitude (c :: cs)) / 256 = magnitude (c :: cs) := by omega
        rw [hlow, hhigh]
        obtain heq | hlt := ih hne hnegative
        · exact .inl (congrArg (b :: ·) heq)
        · exact .inr (Nat.succ_lt_succ hlt)

theorem decode_eq_ok_iff {limit : Nat} :
    decode limit item = .ok n ↔ item.length ≤ min limit 8 ∧ value item = n := by
  by_cases h : item.length ≤ min limit 8
  case pos =>
    rw [decode_of_length_le h, Except.ok.injEq]
    exact (and_iff_right h).symm
  case neg =>
    rw [decode_of_lt_length (Nat.not_le.mp h)]
    exact iff_of_false nofun fun hn => h hn.1

theorem value_eq_zero_iff : value item = 0 ↔ magnitude item = 0 := by
  rw [← natAbs_value, Int.natAbs_eq_zero]

theorem isNegative_of_value_ne_zero (h : value item ≠ 0) :
    isNegative item = decide (value item < 0) := by
  have hpos : magnitude item ≠ 0 := mt value_eq_zero_iff.mpr h
  unfold value
  cases isNegative item with
  | false =>
    symm
    rw [decide_eq_false_iff_not]
    simp only [Bool.false_eq_true, if_false]
    omega
  | true =>
    symm
    rw [decide_eq_true_eq]
    simp only [if_true]
    omega

theorem value_encode (n : Int) : value (encode n) = n := by
  unfold encode
  split
  case isTrue h => exact h.symm
  case isFalse h =>
    split
    case isTrue hneg =>
      rw [value, isNegative_withSign (.inr rfl), magnitude_withSign (.inr rfl)]
      simp only [decide_true, if_true]
      omega
    case isFalse hpos =>
      rw [value, isNegative_withSign (.inl rfl), magnitude_withSign (.inl rfl)]
      simp only [Nat.zero_ne_add_one, decide_false, Bool.false_eq_true, if_false]
      omega

/-- The item that stands for a number and is shorter than all others that do. -/
structure Shortest (n : Int) (item : Bytes) : Prop where
  value_eq : value item = n
  eq_or_lt : ∀ other, value other = n → other = item ∨ item.length < other.length

theorem shortest_encode (n : Int) : Shortest n (encode n) where
  value_eq := value_encode n
  eq_or_lt := by
    rintro other rfl
    unfold encode
    split
    case isTrue h =>
      cases other with
      | nil => exact .inl rfl
      | cons b bs => exact .inr (Nat.succ_pos _)
    case isFalse h =>
      have hne : other ≠ [] := by
        rintro rfl
        exact h rfl
      have hnegative := isNegative_of_value_ne_zero h
      rw [natAbs_value]
      split
      case isTrue hneg =>
        apply withSign_shortest (.inr rfl) hne
        rw [hnegative, decide_eq_decide]
        exact iff_of_true hneg rfl
      case isFalse hpos =>
        apply withSign_shortest (.inl rfl) hne
        rw [hnegative, decide_eq_decide]
        exact iff_of_false hpos (by decide)

theorem truth_iff : truth item = true ↔ value item ≠ 0 := by
  rw [ne_eq, value_eq_zero_iff]
  fun_induction truth item with
  | case1 => exact iff_of_false Bool.false_ne_true (fun h => h rfl)
  | case2 b =>
    have hb := b.toNat_lt
    rw [magnitude, Bool.and_eq_true, bne_iff_ne, bne_iff_ne, ne_eq, ne_eq, ← UInt8.toNat_inj,
      ← UInt8.toNat_inj]
    change ¬ b.toNat = 0 ∧ ¬ b.toNat = 128 ↔ _
    omega
  | case3 b bs h ih =>
    rw [magnitude_cons h, Bool.or_eq_true, ih, bne_iff_ne, ne_eq, ← UInt8.toNat_inj]
    change ¬ b.toNat = 0 ∨ _ ↔ _
    omega

theorem magnitude_concat_congr {c : UInt8} (h : b.toNat % 128 = c.toNat % 128) (bs : Bytes) :
    magnitude (bs ++ [b]) = magnitude (bs ++ [c]) := by
  induction bs with
  | nil => exact h
  | cons d ds ih =>
    rw [List.cons_append, List.cons_append, magnitude_cons (List.concat_ne_nil b ds),
      magnitude_cons (List.concat_ne_nil c ds), ih]

theorem toNat_xor_top (b : UInt8) : (b ^^^ 0x80).toNat = (b.toNat + 128) % 256 := by
  have hall : ∀ v : BitVec 8, (v ^^^ 0x80#8).toNat = (v.toNat + 128) % 256 := by decide +kernel
  exact hall b.toBitVec

theorem toNat_and_low (b : UInt8) : (b &&& 0x7f).toNat = b.toNat % 128 := by
  rw [UInt8.toNat_and]
  exact Nat.and_two_pow_sub_one_eq_mod b.toNat 7

theorem value_negate (item : Bytes) : value (negate item) = -value item := by
  obtain rfl | ⟨bs, b, rfl⟩ := List.eq_nil_or_concat item
  case inl => rfl
  case inr =>
    have hflip := toNat_xor_top b
    have hb := b.toNat_lt
    have hmagnitude : magnitude (bs ++ [b ^^^ 0x80]) = magnitude (bs ++ [b]) :=
      magnitude_concat_congr (by omega) bs
    rw [List.concat_eq_append, negate, Bytes.mapLast_concat, value, value, hmagnitude,
      isNegative_concat, isNegative_concat, isNegative_singleton, isNegative_singleton, hflip]
    by_cases hneg : 128 ≤ b.toNat
    case pos =>
      have hpos : ¬ 128 ≤ (b.toNat + 128) % 256 := by omega
      simp only [hneg, hpos, decide_true, decide_false, Bool.false_eq_true, if_true, if_false,
        Int.neg_neg]
    case neg =>
      have hneg' : 128 ≤ (b.toNat + 128) % 256 := by omega
      simp only [hneg, hneg', decide_true, decide_false, Bool.false_eq_true, if_true, if_false]

theorem value_abs (item : Bytes) : value (abs item) = (value item).natAbs := by
  rw [natAbs_value]
  obtain rfl | ⟨bs, b, rfl⟩ := List.eq_nil_or_concat item
  case inl => rfl
  case inr =>
    have hclear := toNat_and_low b
    have hmagnitude : magnitude (bs ++ [b &&& 0x7f]) = magnitude (bs ++ [b]) :=
      magnitude_concat_congr (by omega) bs
    have hpos : ¬ 128 ≤ b.toNat % 128 := by omega
    rw [List.concat_eq_append, abs, Bytes.mapLast_concat, value, hmagnitude, isNegative_concat,
      isNegative_singleton, hclear]
    simp only [hpos, decide_false, Bool.false_eq_true, if_false]

end ScriptLedger.Script.Number
