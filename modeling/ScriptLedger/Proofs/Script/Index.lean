import ScriptLedger.Proofs.Script.Fate
import ScriptLedger.Proofs.Script.Word

namespace ScriptLedger.Script

open Number Stateful

variable {α : Type} {width capacity : Nat} {below items : List Bytes} {index item : Bytes}
  {n : Int} {w : Int64} {i : Nat} {e : Failure}

namespace Stack

theorem popIndex_of_error (h : decode width index = .error e) :
    popIndex width ⟨index :: items, capacity⟩ = .error e ⟨items, capacity⟩ := by
  rw [popIndex_eq]
  exact bind_error (popNumber_of_error h)

theorem popIndex_of_ok (h : decode width index = .ok n) :
    popIndex width ⟨index :: items, capacity⟩ = checkIndex n ⟨items, capacity⟩ := by
  rw [popIndex_eq]
  exact bind_ok (popNumber_of_ok h)

/-- `checkIndex` in words of 64 bits: once the number is known not to be negative, it is read as an
unsigned word. -/
def checkIndexWord (n : Int64) : StackM UInt64 := fun s =>
  if n < 0 ∨ UInt64.ofNat s.size ≤ n.toUInt64 then .error (.invalidStackIndex n.toInt) s
  else .ok n.toUInt64 s

def popIndexWord (width : Nat) : StackM UInt64 := do
  let item ← pop
  let _ ← ofExcept (decode width item)
  checkIndexWord (readWord item)

theorem toNat_toUInt64 (h : 0 ≤ w.toInt) : (w.toUInt64.toNat : Int) = w.toInt := by
  have hw : 0 ≤ w := Int64.le_iff_toInt_le.mpr h
  rw [Int64.toNat_toUInt64_of_le hw, Int64.cast_toNatClampNeg w hw]

/-- Neither cast changes the check, as long as the depth is a word. -/
theorem bad_index_iff {size : Nat} (hsize : size < 2 ^ 64) :
    (w < 0 ∨ UInt64.ofNat size ≤ w.toUInt64) ↔ (w.toInt < 0 ∨ (size : Int) ≤ w.toInt) := by
  rw [Int64.lt_iff_toInt_lt, Int64.toInt_zero, UInt64.le_iff_toNat_le, UInt64.toNat_ofNat',
    Nat.mod_eq_of_lt hsize]
  by_cases h : w.toInt < 0
  case pos => exact iff_of_true (.inl h) (.inl h)
  case neg =>
    have hcast := toNat_toUInt64 (Int.not_lt.mp h)
    omega

theorem checkIndexWord_bind {f : Nat → StackM α} {s : Stack} (hsize : s.size < 2 ^ 64) :
    (checkIndexWord w >>= fun n => f n.toNat) s = (checkIndex w.toInt >>= f) s := by
  by_cases h : w.toInt < 0 ∨ (s.size : Int) ≤ w.toInt
  case pos =>
    have hword : checkIndexWord w s = .error (.invalidStackIndex w.toInt) s :=
      if_pos ((bad_index_iff hsize).mpr h)
    have hnumber : checkIndex w.toInt s = .error (.invalidStackIndex w.toInt) s := if_pos h
    rw [bind_error hword, bind_error hnumber]
  case neg =>
    have hword : checkIndexWord w s = .ok w.toUInt64 s := if_neg (mt (bad_index_iff hsize).mp h)
    have hnumber : checkIndex w.toInt s = .ok w.toInt.toNat s := if_neg h
    have hcast := toNat_toUInt64 (w := w) (by omega)
    rw [bind_ok hword, bind_ok hnumber, ← hcast, Int.toNat_natCast]

theorem popIndexWord_of_error (h : decode width index = .error e) :
    popIndexWord width ⟨index :: items, capacity⟩ = .error e ⟨items, capacity⟩ := by
  rw [popIndexWord, bind_ok (pop_cons index items capacity), h]
  rfl

theorem popIndexWord_of_ok (h : decode width index = .ok n) :
    popIndexWord width ⟨index :: items, capacity⟩ =
      checkIndexWord (readWord index) ⟨items, capacity⟩ := by
  rw [popIndexWord, bind_ok (pop_cons index items capacity), h]
  rfl

/-- An index that is taken off a stack means the same in words as in numbers. -/
theorem popIndexWord_bind {f : Nat → StackM α} {s : Stack} (hsize : s.size ≤ 2 ^ 64) :
    (popIndexWord width >>= fun n => f n.toNat) s = (popIndex width >>= f) s := by
  obtain ⟨items, capacity⟩ := s
  cases items with
  | nil => rfl
  | cons index items =>
    cases hn : decode width index with
    | error e => rw [bind_error (popIndexWord_of_error hn), bind_error (popIndex_of_error hn)]
    | ok n =>
      obtain ⟨hlength, hvalue⟩ := decode_eq_ok_iff.mp hn
      have hword := toInt_readWord (Nat.le_trans hlength (Nat.min_le_right width 8))
      have hbelow : (⟨items, capacity⟩ : Stack).size < 2 ^ 64 := hsize
      rw [bind_congr (popIndexWord_of_ok hn), bind_congr (popIndex_of_ok hn), ← hvalue, ← hword]
      exact checkIndexWord_bind hbelow

end Stack

namespace Operation

open Stack

def indexing : List UInt8 :=
  [0x79, 0x7a]

def pickWord (width : Nat) : StackM Unit := do
  let n ← popIndexWord width
  push (← peek n.toNat)

def rollWord (width : Nat) : StackM Unit := do
  let n ← popIndexWord width
  push (← remove n.toNat)

theorem pickWord_eq {s : Stack} (h : s.size ≤ 2 ^ 64) : pickWord width s = pick width s :=
  popIndexWord_bind (f := fun n => peek n >>= push) h

theorem rollWord_eq {s : Stack} (h : s.size ≤ 2 ^ 64) : rollWord width s = roll width s :=
  popIndexWord_bind (f := fun n => remove n >>= push) h

theorem eq_or_eq_of_indexing {op : UInt8} (h : op ∈ indexing) : op = 0x79 ∨ op = 0x7a := by
  simpa [indexing] using h

theorem runStack_of_bad_index {op : UInt8} (hop : op ∈ indexing) {s : Stacks} {t : Stack}
    (h : popIndex width s.main = .error e t) :
    runStack op width s = .error e { s with main := t } := by
  obtain rfl | rfl := eq_or_eq_of_indexing hop
  · exact onMain_error (x := pick width) (bind_error h)
  · exact onMain_error (x := roll width) (bind_error h)

section

variable {upper lower : List Bytes}

theorem getElem?_between : (upper ++ item :: lower)[upper.length]? = some item := by
  rw [List.getElem?_append_right (Nat.le_refl _), Nat.sub_self, List.getElem?_cons_zero]

theorem eraseIdx_between : (upper ++ item :: lower).eraseIdx upper.length = upper ++ lower := by
  rw [List.eraseIdx_append_of_length_le (Nat.le_refl _), Nat.sub_self, List.eraseIdx_cons_zero]

theorem popIndex_turns_between (h : decode width index = .ok (upper.length : Int)) :
    Turns (popIndex width) (index :: (upper ++ item :: lower)) upper.length
      (upper ++ item :: lower) := by
  apply Turns.popIndex h
  rw [List.length_append, List.length_cons]
  omega

theorem pick_turns (h : decode width index = .ok (upper.length : Int)) :
    Turns (pick width) (index :: (upper ++ item :: lower)) ()
      (item :: (upper ++ item :: lower)) :=
  (popIndex_turns_between h).bind_of_le (Nat.le_succ _)
    (.peek_bind getElem?_between (.push item _))

theorem roll_turns (h : decode width index = .ok (upper.length : Int)) :
    Turns (roll width) (index :: (upper ++ item :: lower)) () (item :: (upper ++ lower)) := by
  apply (popIndex_turns_between h).bind_of_le (Nat.le_succ _)
  apply Turns.remove_bind getElem?_between
  rw [eraseIdx_between]
  exact .push item _

end

theorem exists_split_below (h : i < below.length) :
    ∃ lower item upper, below = lower ++ item :: upper ∧ upper.length = i := by
  have hplace : below.length - 1 - i < below.length := by omega
  refine ⟨below.take (below.length - 1 - i), below[below.length - 1 - i],
    below.drop (below.length - 1 - i + 1), ?_, ?_⟩
  · rw [← List.drop_eq_getElem_cons, List.take_append_drop]
  · rw [List.length_drop]
    omega

section

variable {s : Stacks} {op : UInt8}

theorem eq_of_toList {t : Stack} (h : t.toList = below ++ [index]) :
    t = ⟨index :: below.reverse, t.capacity⟩ := by
  have hitems : t.items = index :: below.reverse := Stack.items_eq_of_toList h
  rw [← hitems]

theorem runStack_long_index (hs : s.main.toList = below ++ [index])
    (h : min width 8 < index.length) (hop : op ∈ indexing) :
    runStack op width s = .error (.numberTooLong index.length (min width 8))
      { s with main := s.main.withItems below } := by
  apply runStack_of_bad_index hop
  rw [eq_of_toList hs]
  exact popIndex_of_error (decode_of_lt_length h)

theorem runStack_bad_index (hs : s.main.toList = below ++ [index])
    (h : index.length ≤ min width 8) (hbad : value index < 0 ∨ (below.length : Int) ≤ value index)
    (hop : op ∈ indexing) :
    runStack op width s = .error (.invalidStackIndex (value index))
      { s with main := s.main.withItems below } := by
  have hcheck : value index < 0 ∨ (below.reverse.length : Int) ≤ value index := by
    rwa [List.length_reverse]
  apply runStack_of_bad_index hop
  rw [eq_of_toList hs]
  exact (popIndex_of_ok (decode_of_length_le h)).trans (if_pos hcheck)

theorem runStack_good_index (hmain : s.main.size ≤ s.main.capacity)
    (hs : s.main.toList = below ++ [index]) (h : index.length ≤ min width 8)
    (hlow : 0 ≤ value index) (hhigh : value index < below.length) :
    ∃ lower item upper, below = lower ++ item :: upper ∧ (upper.length : Int) = value index ∧
      runStack 0x79 width s = .ok () { s with main := s.main.withItems (below ++ [item]) } ∧
      runStack 0x7a width s =
        .ok () { s with main := s.main.withItems (lower ++ upper ++ [item]) } := by
  have hplace : (value index).toNat < below.length := by omega
  obtain ⟨lower, item, upper, rfl, hupper⟩ := exists_split_below hplace
  have hlength : (upper.length : Int) = value index := by omega
  have hindex : decode width index = .ok (upper.reverse.length : Int) := by
    rw [decode_of_length_le h, List.length_reverse, hlength]
  have hitems : s.main.items = index :: (upper.reverse ++ item :: lower.reverse) := by
    rw [Stack.items_eq_of_toList hs, List.reverse_append, List.reverse_cons]
    simp
  have hsize : (index :: (upper.reverse ++ item :: lower.reverse)).length ≤ s.main.capacity := by
    rw [← hitems]
    exact hmain
  refine ⟨lower, item, upper, rfl, hlength, ?pick, ?roll⟩
  case pick =>
    have hturns : Turns (pick width) _ () (item :: (upper.reverse ++ item :: lower.reverse)) :=
      pick_turns hindex
    rw [← hitems] at hturns
    refine (onMain_ok (x := pick width) (hturns.ok hmain hsize)).trans ?_
    simp [Stack.withItems]
  case roll =>
    have hturns : Turns (roll width) _ () (item :: (upper.reverse ++ lower.reverse)) :=
      roll_turns hindex
    have hroom : (item :: (upper.reverse ++ lower.reverse)).length ≤ s.main.capacity := by
      simp at hsize ⊢
      omega
    rw [← hitems] at hturns
    refine (onMain_ok (x := roll width) (hturns.ok hmain hroom)).trans ?_
    simp [Stack.withItems]

end

/-- Both opcodes take an index from the top. One that is too wide or does not reach an item below
is refused as it is; any other leads to the item that stands as many places below the top as the
index says, which is copied or moved to the top. They never run out of items or of room, and words
of 64 bits with casts between them compute the same. -/
theorem runStack_index (width : Nat) {s : Stacks} {below : List Bytes} {index : Bytes}
    (hmain : s.main.size ≤ s.main.capacity) (hs : s.main.toList = below ++ [index]) :
    (min width 8 < index.length → ∀ op ∈ indexing,
      runStack op width s = .error (.numberTooLong index.length (min width 8))
        { s with main := s.main.withItems below }) ∧
    (index.length ≤ min width 8 → value index < 0 ∨ (below.length : Int) ≤ value index →
      ∀ op ∈ indexing, runStack op width s = .error (.invalidStackIndex (value index))
        { s with main := s.main.withItems below }) ∧
    (index.length ≤ min width 8 → 0 ≤ value index → value index < below.length →
      ∃ lower item upper, below = lower ++ item :: upper ∧ (upper.length : Int) = value index ∧
        runStack 0x79 width s = .ok () { s with main := s.main.withItems (below ++ [item]) } ∧
        runStack 0x7a width s =
          .ok () { s with main := s.main.withItems (lower ++ upper ++ [item]) }) ∧
    (∀ op ∈ indexing, ∀ e, outcome (runStack op width) s = .error e → e.isDepthFailure = false) ∧
    (s.main.size ≤ 2 ^ 64 →
      runStack 0x79 width s = onMain (pickWord width) s ∧
        runStack 0x7a width s = onMain (rollWord width) s) := by
  refine ⟨?long, ?bad, ?good, ?failures, ?words⟩
  case long =>
    intro hlong op hop
    exact runStack_long_index hs hlong hop
  case bad =>
    intro hlength hbad op hop
    exact runStack_bad_index hs hlength hbad hop
  case good =>
    intro hlength hlow hhigh
    exact runStack_good_index hmain hs hlength hlow hhigh
  case failures =>
    intro op hop e he
    by_cases hlength : index.length ≤ min width 8
    case neg =>
      have hlong := runStack_long_index hs (Nat.not_le.mp hlength) hop
      cases (outcome_error hlong).symm.trans he
      rfl
    case pos =>
      by_cases hbad : value index < 0 ∨ (below.length : Int) ≤ value index
      case pos =>
        cases (outcome_error (runStack_bad_index hs hlength hbad hop)).symm.trans he
        rfl
      case neg =>
        obtain ⟨lower, item, upper, -, -, hpick, hroll⟩ :=
          runStack_good_index hmain hs hlength (by omega) (by omega)
        obtain rfl | rfl := eq_or_eq_of_indexing hop
        · cases (outcome_ok hpick).symm.trans he
        · cases (outcome_ok hroll).symm.trans he
  case words =>
    intro hsize
    exact ⟨(onMain_congr (pickWord_eq hsize)).symm, (onMain_congr (rollWord_eq hsize)).symm⟩

theorem runStack_index_padded :
    let s : Stacks := ⟨⟨[[2, 0], [3], [2], [1]], 4⟩, ⟨[], 4⟩⟩
    let t : Stacks := ⟨⟨[[0, 0, 0, 0, 0, 0, 0, 0x81], [7]], 2⟩, ⟨[], 2⟩⟩
    runStack 0x79 2 s = .ok () ⟨⟨[[1], [3], [2], [1]], 4⟩, ⟨[], 4⟩⟩ ∧
      runStack 0x7a 2 s = .ok () ⟨⟨[[1], [3], [2]], 4⟩, ⟨[], 4⟩⟩ ∧
      runStack 0x79 1 s = .error (.numberTooLong 2 1) ⟨⟨[[3], [2], [1]], 4⟩, ⟨[], 4⟩⟩ ∧
      runStack 0x7a 8 t =
        .error (.invalidStackIndex (-0x100000000000000)) ⟨⟨[[7]], 2⟩, ⟨[], 2⟩⟩ := by
  intro s t
  have hs : s.main.toList = [[1], [2], [3]] ++ [[2, 0]] := rfl
  have ht : t.main.toList = [[7]] ++ [[0, 0, 0, 0, 0, 0, 0, 0x81]] := rfl
  obtain ⟨-, -, hgood, -⟩ := runStack_index 2 (by decide) hs
  obtain ⟨hlong, -⟩ := runStack_index 1 (by decide) hs
  obtain ⟨-, hbad, -⟩ := runStack_index 8 (by decide) ht
  obtain ⟨lower, item, upper, hsplit, hplace, hpick, hroll⟩ :=
    hgood (by decide) (by decide) (by decide)
  cases lower with
  | nil =>
    cases hsplit
    exact ⟨hpick, hroll, hlong (by decide) 0x79 (by decide),
      hbad (by decide) (by decide) 0x7a (by decide)⟩
  | cons x xs =>
    have htwo : (upper.length : Int) = 2 := hplace
    have hlength := congrArg List.length hsplit
    simp at hlength
    omega

end Operation

end ScriptLedger.Script
