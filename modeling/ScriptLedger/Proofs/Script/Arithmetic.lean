import Mathlib.Data.List.Basic
import ScriptLedger.Proofs.Script.Capacity
import ScriptLedger.Proofs.Script.Depth

namespace ScriptLedger.Script

open Number Stateful

inductive Meaning where
  /-- A number. -/
  | number (n : Int)
  /-- A number that was computed and is kept if a signed word of 64 bits can hold it. -/
  | computed (n : Int)
  /-- A number in a given number of bytes. -/
  | sized (width : Nat) (n : Int)
  /-- Whether something holds. -/
  | decision (p : Bool)
  /-- Nothing, if two numbers are equal. -/
  | agreement (a b : Int)

/-- What an arithmetic opcode makes of its operands, bottom first. -/
def Opcode.meaning? : UInt8 → List Bytes → Option Meaning
  | 0x8b, [a] => some (.computed (value a + 1))
  | 0x8c, [a] => some (.computed (value a - 1))
  | 0x8f, [a] => some (.sized a.length (-value a))
  | 0x90, [a] => some (.sized a.length (value a).natAbs)
  | 0x91, [a] => some (.decision (value a = 0))
  | 0x92, [a] => some (.decision (value a ≠ 0))
  | 0x93, [a, b] => some (.computed (value a + value b))
  | 0x94, [a, b] => some (.computed (value a - value b))
  | 0x9a, [a, b] => some (.decision (value a ≠ 0 ∧ value b ≠ 0))
  | 0x9b, [a, b] => some (.decision (value a ≠ 0 ∨ value b ≠ 0))
  | 0x9c, [a, b] => some (.decision (value a = value b))
  | 0x9d, [a, b] => some (.agreement (value a) (value b))
  | 0x9e, [a, b] => some (.decision (value a ≠ value b))
  | 0x9f, [a, b] => some (.decision (value a < value b))
  | 0xa0, [a, b] => some (.decision (value a > value b))
  | 0xa1, [a, b] => some (.decision (value a ≤ value b))
  | 0xa2, [a, b] => some (.decision (value a ≥ value b))
  | 0xa3, [a, b] => some (.number (min (value a) (value b)))
  | 0xa4, [a, b] => some (.number (max (value a) (value b)))
  | 0xa5, [n, lower, upper] => some (.decision (value lower ≤ value n ∧ value n < value upper))
  | _, _ => none

/-- The items that stand for a meaning, or the failure that does. -/
inductive Meaning.Holds : Meaning → Except Failure (List Bytes) → Prop where
  | number {n : Int} {item : Bytes} (h : Shortest n item) : Holds (.number n) (.ok [item])
  | computed {n : Int} {item : Bytes} (hn : InRange n) (h : Shortest n item) :
      Holds (.computed n) (.ok [item])
  | overflow {n : Int} (hn : ¬ InRange n) : Holds (.computed n) (.error .arithmeticOverflow)
  | sized {n : Int} {item : Bytes} (h : value item = n) : Holds (.sized item.length n) (.ok [item])
  | yes : Holds (.decision true) (.ok [[1]])
  | no : Holds (.decision false) (.ok [[0]])
  | agree (n : Int) : Holds (.agreement n n) (.ok [])
  | disagree {a b : Int} (h : a ≠ b) :
      Holds (.agreement a b) (.error (.scriptInvalid (.numEqualVerify a b)))

theorem Meaning.Holds.length_le_one {m : Meaning} {results : List Bytes}
    (h : m.Holds (.ok results)) : results.length ≤ 1 := by
  cases h with
  | agree n => exact Nat.zero_le 1
  | _ => exact Nat.le_refl 1

/-- A stack computation that leaves a meaning above the items below. -/
inductive Denotes (x : StackM Unit) (items below : List Bytes) (m : Meaning) : Prop where
  | turns {results : List Bytes} (hm : m.Holds (.ok results))
      (hx : Turns x items () (results.reverse ++ below))
  | breaks {e : Failure} (hm : m.Holds (.error e)) (hx : Breaks x items e)

namespace Denotes

variable {α : Type} {x : StackM α} {f : α → StackM Unit} {items mid below : List Bytes} {a : α}
  {m : Meaning} {item : Bytes} {n width : Nat}

theorem bind_of_turns (hx : Turns x items a mid) (hmid : mid.length ≤ items.length)
    (hf : Denotes (f a) mid below m) : Denotes (x >>= f) items below m := by
  cases hf with
  | turns hm hf => exact .turns hm (hx.bind_of_le hmid hf)
  | breaks hm hf => exact .breaks hm (.bind_of_turns hx hf hmid)

theorem require_bind {f : Unit → StackM Unit} (h : n ≤ items.length)
    (hf : Denotes (f ()) items below m) : Denotes (Stack.require n >>= f) items below m :=
  bind_of_turns (.require h) (Nat.le_refl _) hf

theorem pop_bind {f : Bytes → StackM Unit} (hf : Denotes (f item) items below m) :
    Denotes (Stack.pop >>= f) (item :: items) below m :=
  bind_of_turns (.pop item items) (Nat.le_succ _) hf

theorem popNumber_bind {f : Int → StackM Unit} (h : item.length ≤ min width 8)
    (hf : Denotes (f (value item)) items below m) :
    Denotes (Stack.popNumber width >>= f) (item :: items) below m :=
  bind_of_turns (.popNumber (decode_of_length_le h) items) (Nat.le_succ _) hf

theorem pushNumber (n : Int) : Denotes (Stack.pushNumber n) below below (.number n) :=
  .turns (.number (shortest_encode n)) (.push _ below)

theorem pushChecked (n : Int) :
    Denotes (Stack.pushResult (checked n)) below below (.computed n) := by
  by_cases hn : InRange n
  case pos =>
    have hchecked : checked n = .ok n := if_pos hn
    exact bind_of_turns (.ofExcept hchecked) (Nat.le_refl _)
      (.turns (.computed hn (shortest_encode n)) (.push _ below))
  case neg =>
    have hchecked : checked n = .error .arithmeticOverflow := if_neg hn
    exact .breaks (.overflow hn) (.bind (.ofExcept hchecked))

theorem pushBool {p : Bool} {q : Prop} [Decidable q] (h : p = true ↔ q) :
    Denotes (Stack.pushBool p) below below (.decision (decide q)) := by
  cases p with
  | true =>
    rw [decide_eq_true (h.mp rfl)]
    exact .turns .yes (.push _ below)
  | false =>
    rw [decide_eq_false (mt h.mpr Bool.false_ne_true)]
    exact .turns .no (.push _ below)

end Denotes

namespace Operation

variable {op : UInt8} {operands below items : List Bytes} {a b : Bytes} {m : Meaning} {width : Nat}
  {s : Stack}

theorem sign_denotes {o : SignOp} {n : Int} (ha : a.length ≤ min width 8)
    (hn : value (o.apply a) = n) :
    Denotes (o.run width) (a :: below) below (.sized a.length n) := by
  apply Denotes.pop_bind
  apply Denotes.bind_of_turns (.ofExcept (decode_of_length_le ha)) (Nat.le_refl _)
  rw [← o.length_apply a]
  exact .turns (.sized hn) (.push _ below)

theorem unary_denotes {o : UnaryOp} (ha : a.length ≤ min width 8)
    (h : Denotes (o.pushResult (value a)) below below m) :
    Denotes (o.run width) (a :: below) below m :=
  .popNumber_bind ha h

theorem logic_denotes {o : LogicOp}
    (h : Denotes (Stack.pushBool (o.apply (truth a) (truth b))) below below m) :
    Denotes o.run (b :: a :: below) below m :=
  .require_bind (Nat.le_add_left 2 _) (.pop_bind (.pop_bind h))

theorem binary_denotes {o : BinaryOp} (ha : a.length ≤ min width 8)
    (hb : b.length ≤ min width 8) (h : Denotes (o.pushResult (value a) (value b)) below below m) :
    Denotes (o.run width) (b :: a :: below) below m :=
  .require_bind (Nat.le_add_left 2 _) (.popNumber_bind hb (.popNumber_bind ha h))

theorem equalVerify_denotes (n k : Int) :
    Denotes (BinaryOp.pushResult n k .equalVerify) below below (.agreement n k) := by
  simp only [BinaryOp.pushResult]
  split
  case isTrue h =>
    subst h
    exact .turns (.agree n) .pure
  case isFalse h => exact .breaks (.disagree h) .throw

theorem within_denotes {n lower upper : Bytes} (hn : n.length ≤ min width 8)
    (hlower : lower.length ≤ min width 8) (hupper : upper.length ≤ min width 8) :
    Denotes (within width) (upper :: lower :: n :: below) below
      (.decision (value lower ≤ value n ∧ value n < value upper)) := by
  apply Denotes.require_bind (Nat.le_add_left 3 _)
  apply Denotes.popNumber_bind hupper
  apply Denotes.popNumber_bind hlower
  apply Denotes.popNumber_bind hn
  exact .pushBool (by simp)

theorem exists_meaning (h : Opcode.category op = .arithmetic) {p : Bool}
    (hoperands : operands.length = (Opcode.effect op p).operands) :
    ∃ m, Opcode.meaning? op operands = some m := by
  have hop : op ∈ [0x8b, 0x8c, 0x8f, 0x90, 0x91, 0x92, 0x93, 0x94, 0x9a, 0x9b, 0x9c, 0x9d, 0x9e,
      0x9f, 0xa0, 0xa1, 0xa2, 0xa3, 0xa4, 0xa5] :=
    Opcode.of_category (P := (· ∈ _)) (by decide +kernel) (by decide) (by decide) h
  simp only [List.mem_cons, List.not_mem_nil, or_false] at hop
  obtain rfl | rfl | rfl | rfl | rfl | rfl | rfl | rfl | rfl | rfl | rfl | rfl | rfl | rfl | rfl |
    rfl | rfl | rfl | rfl | rfl := hop
  all_goals first
    | obtain ⟨a, rfl⟩ := List.length_eq_one_iff.mp hoperands
      exact ⟨_, rfl⟩
    | obtain ⟨a, b, rfl⟩ := List.length_eq_two.mp hoperands
      exact ⟨_, rfl⟩
    | obtain ⟨n, lower, upper, rfl⟩ := List.length_eq_three.mp hoperands
      exact ⟨_, rfl⟩

theorem length_pos_of_meaning (hm : Opcode.meaning? op operands = some m) :
    1 ≤ operands.length := by
  unfold Opcode.meaning? at hm
  split at hm <;> cases hm
  all_goals exact Nat.succ_pos _

theorem denotes_of_meaning (hm : Opcode.meaning? op operands = some m)
    (hnumeric : op ∉ [0x9a, 0x9b] → ∀ x ∈ operands, x.length ≤ min width 8) (below : List Bytes) :
    Denotes (runArithmetic op width) (operands.reverse ++ below) below m := by
  unfold Opcode.meaning? at hm
  split at hm <;> cases hm
  case h_9 a b => exact logic_denotes (o := .and) (.pushBool (by simp [LogicOp.apply, truth_iff]))
  case h_10 a b => exact logic_denotes (o := .or) (.pushBool (by simp [LogicOp.apply, truth_iff]))
  all_goals replace hnumeric := hnumeric (by decide)
  case h_20 n lower upper =>
    exact within_denotes (hnumeric n (by simp)) (hnumeric lower (by simp))
      (hnumeric upper (by simp))
  case h_1 a => exact unary_denotes (o := .add1) (hnumeric a (by simp)) (.pushChecked _)
  case h_2 a => exact unary_denotes (o := .sub1) (hnumeric a (by simp)) (.pushChecked _)
  case h_3 a => exact sign_denotes (o := .negate) (hnumeric a (by simp)) (value_negate a)
  case h_4 a => exact sign_denotes (o := .abs) (hnumeric a (by simp)) (value_abs a)
  case h_5 a => exact unary_denotes (o := .not) (hnumeric a (by simp)) (.pushBool beq_iff_eq)
  case h_6 a => exact unary_denotes (o := .notZero) (hnumeric a (by simp)) (.pushBool bne_iff_ne)
  all_goals
    rename_i a b
    have ha := hnumeric a (by simp)
    have hb := hnumeric b (by simp)
  case h_7 => exact binary_denotes (o := .add) ha hb (.pushChecked _)
  case h_8 => exact binary_denotes (o := .sub) ha hb (.pushChecked _)
  case h_11 => exact binary_denotes (o := .equal) ha hb (.pushBool beq_iff_eq)
  case h_12 => exact binary_denotes (o := .equalVerify) ha hb (equalVerify_denotes _ _)
  case h_13 => exact binary_denotes (o := .notEqual) ha hb (.pushBool bne_iff_ne)
  case h_14 => exact binary_denotes (o := .less) ha hb (.pushBool decide_eq_true_iff)
  case h_15 => exact binary_denotes (o := .greater) ha hb (.pushBool decide_eq_true_iff)
  case h_16 => exact binary_denotes (o := .lessOrEqual) ha hb (.pushBool decide_eq_true_iff)
  case h_17 => exact binary_denotes (o := .greaterOrEqual) ha hb (.pushBool decide_eq_true_iff)
  case h_18 => exact binary_denotes (o := .min) ha hb (.pushNumber _)
  case h_19 => exact binary_denotes (o := .max) ha hb (.pushNumber _)

/-- Arithmetic is exact: an opcode of it replaces its operands by what stands for its meaning, or
fails as that says, as long as its operands are no wider than numbers may be. Those of the two
logical ones may have any width. -/
theorem runArithmetic_exact (hop : Opcode.category op = .arithmetic)
    (hsize : s.size ≤ s.capacity) (hs : s.toList = below ++ operands)
    (hoperands : operands.length = (Opcode.effect op s.topIsTrue).operands)
    (hnumeric : op ∉ [0x9a, 0x9b] → ∀ x ∈ operands, x.length ≤ min width 8) :
    ∃ m, Opcode.meaning? op operands = some m ∧ ∃ r, m.Holds r ∧
      match r with
      | .ok results => runArithmetic op width s = .ok () (s.withItems (below ++ results))
      | .error e => outcome (runArithmetic op width) s = .error e := by
  obtain ⟨m, hm⟩ := exists_meaning hop hoperands
  have hdenotes := denotes_of_meaning hm hnumeric below.reverse
  rw [← Stack.items_eq_of_toList hs] at hdenotes
  refine ⟨m, hm, ?_⟩
  cases hdenotes with
  | @turns results hholds hx =>
    refine ⟨.ok results, hholds, ?_⟩
    have hroom : (results.reverse ++ below.reverse).length ≤ s.capacity := by
      have hresults := hholds.length_le_one
      have hpos := length_pos_of_meaning hm
      have hlength := congrArg List.length hs
      rw [Stack.toList, List.length_reverse, List.length_append] at hlength
      rw [List.length_append, List.length_reverse, List.length_reverse]
      unfold Stack.size at hsize
      omega
    change runArithmetic op width s = .ok () (s.withItems (below ++ results))
    rw [Stack.withItems, List.reverse_append]
    exact hx.ok hsize hroom
  | @breaks e hholds hx =>
    obtain ⟨t, ht⟩ := hx hsize
    exact ⟨.error e, hholds, outcome_error ht⟩

theorem runArithmetic_exact_greatest :
    let s : Stack := ⟨[[1], [255, 255, 255, 255, 255, 255, 255, 127], [7]], 3⟩
    outcome (runArithmetic 0x93 8) s = .error .arithmeticOverflow := by
  intro s
  have hop : Opcode.category 0x93 = .arithmetic := by decide
  have hs : s.toList = [[7]] ++ [[255, 255, 255, 255, 255, 255, 255, 127], [1]] := rfl
  have hnumeric : (0x93 : UInt8) ∉ [0x9a, 0x9b] →
      ∀ x ∈ ([[255, 255, 255, 255, 255, 255, 255, 127], [1]] : List Bytes), x.length ≤ min 8 8 := by
    decide
  obtain ⟨m, hm, r, hr, hrun⟩ := runArithmetic_exact hop (by decide) hs rfl hnumeric
  obtain rfl : m = .computed 0x8000000000000000 := (Option.some.inj hm).symm
  cases hr with
  | computed hn => exact absurd hn (by decide)
  | overflow => exact hrun

end Operation

end ScriptLedger.Script
