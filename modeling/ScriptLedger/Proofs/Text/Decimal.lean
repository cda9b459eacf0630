import ScriptLedger.Text.Decimal

namespace ScriptLedger.Text

variable {front cs back text : List Char}

theorem dropWhile_between (hfront : ∀ c ∈ front, isBlank c = true)
    (hcs : ∀ c ∈ cs, isBlank c = false) (hne : cs ≠ []) :
    (front ++ (cs ++ back)).dropWhile isBlank = cs ++ back := by
  obtain ⟨c, cs, rfl⟩ := List.exists_cons_of_ne_nil hne
  have hc := hcs c List.mem_cons_self
  rw [List.dropWhile_append_of_pos hfront, List.cons_append, List.dropWhile_cons_of_neg]
  rw [hc]
  exact Bool.false_ne_true

theorem trim_between (hfront : ∀ c ∈ front, isBlank c = true)
    (hback : ∀ c ∈ back, isBlank c = true) (hcs : ∀ c ∈ cs, isBlank c = false) (hne : cs ≠ []) :
    trim (front ++ (cs ++ back)) = cs := by
  have hback' : ∀ c ∈ back.reverse, isBlank c = true := fun c hc =>
    hback c (List.mem_reverse.mp hc)
  have hcs' : ∀ c ∈ cs.reverse, isBlank c = false := fun c hc => hcs c (List.mem_reverse.mp hc)
  have hdrop : (back.reverse ++ (cs.reverse ++ [])).dropWhile isBlank = cs.reverse ++ [] :=
    dropWhile_between hback' hcs' (mt List.reverse_eq_nil_iff.mp hne)
  rw [List.append_nil] at hdrop
  rw [trim, dropWhile_between hfront hcs hne, List.reverse_append, hdrop, List.reverse_reverse]

theorem exists_trim (text : List Char) : ∃ front back, text = front ++ (trim text ++ back) ∧
    (∀ c ∈ front, isBlank c = true) ∧ ∀ c ∈ back, isBlank c = true := by
  have hblank (cs : List Char) : ∀ c ∈ cs.takeWhile isBlank, isBlank c = true :=
    List.all_eq_true.mp List.all_takeWhile
  let rest := text.dropWhile isBlank
  refine ⟨text.takeWhile isBlank, (rest.reverse.takeWhile isBlank).reverse, ?_, hblank text,
    fun c hc => hblank _ c (List.mem_reverse.mp hc)⟩
  have hrest : trim text ++ (rest.reverse.takeWhile isBlank).reverse = rest := by
    rw [trim, ← List.reverse_append, List.takeWhile_append_dropWhile, List.reverse_reverse]
  rw [hrest, List.takeWhile_append_dropWhile]

namespace Decimal

variable {c : Char} {n m : Nat}

/-- The digits of a number of 64 bits; there can be zeros in front. -/
structure IsDigits (cs : List Char) (n : Nat) : Prop where
  ne_nil : cs ≠ []
  isDigit : ∀ c ∈ cs, c.isDigit = true
  value : Nat.ofDigitChars 10 cs 0 = n
  lt : n < 0x10000000000000000

/-- The digits of a number of 64 bits, behind an optional plus sign. -/
inductive IsNumeral : List Char → Nat → Prop where
  | plain {cs : List Char} {n : Nat} (h : IsDigits cs n) : IsNumeral cs n
  | signed {cs : List Char} {n : Nat} (h : IsDigits cs n) : IsNumeral ('+' :: cs) n

theorem value?_of_isDigit (h : c.isDigit = true) : value? c = some (c.toNat - '0'.toNat) := by
  simp only [Char.isDigit, ge_iff_le, Bool.and_eq_true, decide_eq_true_eq] at h
  exact if_pos h

theorem value?_of_not_isDigit (h : ¬ c.isDigit = true) : value? c = none := by
  simp only [Char.isDigit, ge_iff_le, Bool.and_eq_true, decide_eq_true_eq] at h
  exact if_neg h

theorem le_ofDigitChars (n : Nat) (cs : List Char) : n ≤ Nat.ofDigitChars 10 cs n := by
  induction cs generalizing n with
  | nil => exact Nat.le_refl n
  | cons c cs ih =>
    rw [Nat.ofDigitChars_cons]
    have := ih (10 * n + (c.toNat - '0'.toNat))
    omega

/-- The bound holds of every number on the way, as it holds of the last. -/
theorem digits_eq_ok_iff (hn : n < 0x10000000000000000) :
    digits n cs = .ok m ↔ (∀ c ∈ cs, c.isDigit = true) ∧ Nat.ofDigitChars 10 cs n = m ∧
      m < 0x10000000000000000 := by
  induction cs generalizing n with
  | nil =>
    rw [digits, Except.ok.injEq, Nat.ofDigitChars_nil]
    constructor
    · rintro rfl
      exact ⟨nofun, rfl, hn⟩
    · exact fun h => h.2.1
  | cons c cs ih =>
    by_cases hc : c.isDigit = true
    · have hle := le_ofDigitChars (10 * n + (c.toNat - '0'.toNat)) cs
      rw [digits, value?_of_isDigit hc, Nat.ofDigitChars_cons]
      dsimp only
      split
      case isTrue hlt => rw [ih hlt, List.forall_mem_cons, and_iff_right hc]
      case isFalse hlt =>
        refine iff_of_false nofun ?_
        rintro ⟨-, rfl, hm⟩
        exact hlt (Nat.lt_of_le_of_lt hle hm)
    · rw [digits, value?_of_not_isDigit hc]
      exact iff_of_false nofun fun h => hc (h.1 c List.mem_cons_self)

theorem digits_zero_eq_ok_iff (h : cs ≠ []) : digits 0 cs = .ok n ↔ IsDigits cs n := by
  rw [digits_eq_ok_iff (by decide)]
  exact ⟨fun ⟨hdigit, hvalue, hlt⟩ => ⟨h, hdigit, hvalue, hlt⟩,
    fun ⟨_, hdigit, hvalue, hlt⟩ => ⟨hdigit, hvalue, hlt⟩⟩

theorem not_isDigits_plus : ¬ IsDigits ('+' :: cs) n := fun h =>
  absurd (h.isDigit '+' List.mem_cons_self) (by decide)

theorem parse_eq_ok_iff : parse cs = .ok n ↔ IsNumeral cs n := by
  fun_cases parse cs with
  | case1 =>
    refine iff_of_false nofun ?_
    rintro ⟨h⟩
    exact h.ne_nil rfl
  | case2 =>
    refine iff_of_false nofun ?_
    rintro (h | h)
    · exact not_isDigits_plus h
    · exact h.ne_nil rfl
  | case3 cs hne =>
    rw [digits_zero_eq_ok_iff hne]
    refine ⟨.signed, ?_⟩
    rintro (h | h)
    · exact absurd h not_isDigits_plus
    · exact h
  | case4 cs hne _ hsign =>
    rw [digits_zero_eq_ok_iff hne]
    refine ⟨.plain, ?_⟩
    rintro (h | h)
    · exact h
    · exact absurd rfl (hsign _)

theorem IsDigits.not_blank (h : IsDigits cs n) : ∀ c ∈ cs, isBlank c = false := by
  intro c hc
  have hdigit := h.isDigit c hc
  simp only [Char.isDigit, ge_iff_le, Bool.and_eq_true, decide_eq_true_eq,
    UInt32.le_iff_toNat_le] at hdigit
  have hlow : 48 ≤ c.toNat := hdigit.1
  have hhigh : c.toNat ≤ 57 := hdigit.2
  simp only [isBlank, Bool.or_eq_false_iff, Bool.and_eq_false_imp, beq_eq_false_iff_ne,
    decide_eq_true_eq, decide_eq_false_iff_not]
  omega

theorem IsNumeral.not_blank (h : IsNumeral cs n) : ∀ c ∈ cs, isBlank c = false := by
  cases h with
  | plain h => exact h.not_blank
  | signed h => exact List.forall_mem_cons.mpr ⟨by decide, h.not_blank⟩

theorem IsNumeral.ne_nil (h : IsNumeral cs n) : cs ≠ [] := by
  cases h with
  | plain h => exact h.ne_nil
  | signed h => exact List.cons_ne_nil _ _

def Spells (text : List Char) (n : Nat) : Prop :=
  ∃ front cs back, text = front ++ (cs ++ back) ∧ (∀ c ∈ front, isBlank c = true) ∧
    (∀ c ∈ back, isBlank c = true) ∧ IsNumeral cs n

theorem parse_trim_eq_ok_iff : parse (trim text) = .ok n ↔ Spells text n := by
  rw [parse_eq_ok_iff]
  constructor
  · intro h
    obtain ⟨front, back, htext, hfront, hback⟩ := exists_trim text
    exact ⟨front, trim text, back, htext, hfront, hback, h⟩
  · rintro ⟨front, cs, back, rfl, hfront, hback, h⟩
    rwa [trim_between hfront hback h.not_blank h.ne_nil]

end Decimal

end ScriptLedger.Text
