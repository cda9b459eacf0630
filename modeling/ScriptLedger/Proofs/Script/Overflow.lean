import Mathlib.Algebra.GroupWithZero.Nat
import ScriptLedger.Proofs.Script.Arithmetic
import ScriptLedger.Proofs.Script.Fault
import ScriptLedger.Proofs.Script.Halt
import ScriptLedger.Proofs.Script.Index
import ScriptLedger.Proofs.Script.Minimal

namespace ScriptLedger

instance : CoversItems (· ≠ .arithmeticOverflow) :=
  ⟨Failure.ne_overflow_of_item⟩

namespace Script

open Number Stateful

/-- A script fails in no other way than its instructions, except that it may be stopped by a
limit. -/
theorem Machine.failure_of_execute {P : Failure → Prop} {m : Machine} {script : Bytes} {e : Failure}
    (hlimit : ∀ cause, P (.limitExceeded cause))
    (hinstruction : ∀ op rest, FailsAs P (runInstruction m.limits op rest))
    (h : (m.execute script).1 = .error e) : P e := by
  by_cases hsize : script.length ≤ m.limits.scriptSize
  case pos =>
    obtain ⟨front, op, rest, -, -, -, hstop, -⟩ := exists_stop_of_error hsize h
    generalize (m.run script).state = t at hstop
    cases hstop with
    | exceeded => exact hlimit _
    | failed hs => exact hinstruction op rest hs
  case neg =>
    unfold execute run at h
    rw [if_pos (Nat.not_le.mp hsize)] at h
    cases h
    exact hlimit _

def Opcode.computing : List UInt8 :=
  [0x8b, 0x8c, 0x93, 0x94]

/-- The opcodes that read all of their operands as numbers. -/
def Opcode.IsNumeric (op : UInt8) : Prop :=
  category op = .arithmetic ∧ op ∉ [0x9a, 0x9b] ∨ op ∈ Operation.indexing

def isWide (width : Nat) (item : Bytes) : Bool :=
  min width 8 < item.length

/-- An opcode whose operands, those on top of a stack, can be read as numbers and make up another
number. -/
structure Computes (op : UInt8) (width : Nat) (s : Stack) (below operands : List Bytes) (n : Int) :
    Prop where
  toList_eq : s.toList = below ++ operands
  length_le : ∀ x ∈ operands, x.length ≤ min width 8
  meaning : Opcode.meaning? op operands = some (.computed n)

/-- A stack computation that reads its operands, top first, as numbers: it fails by the first of
them that is too wide. -/
def ReadsNumbers {α : Type} (width : Nat) (x : StackM α) (operands : List Bytes) : Prop :=
  ∀ item, operands.find? (isWide width) = some item →
    ∀ below, Breaks x (operands ++ below) (.numberTooLong item.length (min width 8))

/-- An item that no opcode takes as a number, whatever the limits. Of the operands, the first from
the top that is too wide is the one to blame. -/
def Unreadable (item : Bytes) : Prop :=
  ∀ (limits : ScriptLimits) (op : UInt8) (rest : Bytes) (s : Stacks) (below operands : List Bytes),
    Opcode.IsNumeric op → s.main.size ≤ s.main.capacity → s.main.toList = below ++ operands →
      operands.length = (Opcode.effect op s.main.topIsTrue).operands → item ∈ operands →
        ∃ wide, operands.reverse.find? (isWide limits.numberWidth) = some wide ∧
          outcome (runInstruction limits op rest) s =
            .error (.numberTooLong wide.length (min limits.numberWidth 8))

theorem runInstruction_ne_overflow {limits : ScriptLimits} (h : limits.numberWidth ≤ 7)
    (op : UInt8) (rest : Bytes) :
    FailsAs (· ≠ .arithmeticOverflow) (runInstruction limits op rest) :=
  runInstruction_failsAs (fun _ _ he => he) fun hwidth => by omega

theorem Machine.execute_ne_overflow {m : Machine} (h : m.limits.numberWidth ≤ 7) (script : Bytes) :
    (m.execute script).1 ≠ .error .arithmeticOverflow := by
  intro he
  exact failure_of_execute (fun _ => nofun) (runInstruction_ne_overflow h) he rfl

namespace Operation

theorem runArithmetic_ne_overflow {width : Nat} (h : width ≤ 7) (op : UInt8) (s : Stack) :
    outcome (runArithmetic op width) s ≠ .error .arithmeticOverflow := by
  have hfails : FailsAs (· ≠ .arithmeticOverflow) (runArithmetic op width) :=
    (FailsAs.judgement _ fun hwidth => by omega).runArithmetic (fun _ _ => nofun) nofun
  intro he
  cases hs : runArithmetic op width s with
  | ok a t => cases (outcome_ok hs).symm.trans he
  | error e t =>
    cases (outcome_error hs).symm.trans he
    exact hfails hs rfl

end Operation

namespace Denotes

variable {x : StackM Unit} {items below : List Bytes} {n : Int}

theorem turns_of_inRange (h : Denotes x items below (.computed n)) (hn : InRange n) :
    Turns x items () (encode n :: below) := by
  cases h with
  | turns hm hx =>
    cases hm with
    | computed _ hitem =>
      rw [← hitem.eq_encode]
      exact hx
  | breaks hm _ =>
    cases hm with
    | overflow hover => exact absurd hn hover

theorem breaks_of_not_inRange (h : Denotes x items below (.computed n)) (hn : ¬ InRange n) :
    Breaks x items .arithmeticOverflow := by
  cases h with
  | turns hm _ =>
    cases hm with
    | computed hrange _ => exact absurd hrange hn
  | breaks hm hx =>
    cases hm with
    | overflow _ => exact hx

end Denotes

namespace Computes

open Operation

variable {op : UInt8} {width : Nat} {s : Stack} {below operands : List Bytes} {n : Int}

theorem natAbs_lt (h : Computes op width s below operands n) :
    n.natAbs < 2 * 256 ^ min width 8 := by
  obtain ⟨-, hlength, hmeaning⟩ := h
  have hpow : 0 < 256 ^ min width 8 := Nat.pow_pos (by decide)
  unfold Opcode.meaning? at hmeaning
  split at hmeaning <;> cases hmeaning
  -- of all that the opcodes can mean, only sums and differences are left
  case h_1 a | h_2 a =>
    have ha := natAbs_value_lt (hlength a (by simp))
    omega
  case h_7 a b | h_8 a b =>
    have ha := natAbs_value_lt (hlength a (by simp))
    have hb := natAbs_value_lt (hlength b (by simp))
    omega

theorem inRange (h : Computes op width s below operands n) (hwidth : min width 8 ≤ 7) :
    InRange n := by
  by_contra hn
  have hle := le_width_of_not_inRange h.natAbs_lt hn
  omega

theorem length_encode_le (h : Computes op width s below operands n) :
    (encode n).length ≤ min width 8 + 1 := by
  have hlt := h.natAbs_lt
  have hpow : 0 < 256 ^ min width 8 := Nat.pow_pos (by decide)
  exact length_encode_le_of_lt (by omega)

theorem run_eq (h : Computes op width s below operands n) (hsize : s.size ≤ s.capacity)
    (hn : InRange n) : runArithmetic op width s = .ok () (s.withItems (below ++ [encode n])) := by
  have hitems := Stack.items_eq_of_toList h.toList_eq
  have hdenotes := denotes_of_meaning h.meaning (fun _ => h.length_le) below.reverse
  rw [← hitems] at hdenotes
  have hpos := length_pos_of_meaning h.meaning
  have hlength := congrArg List.length hitems
  rw [List.length_append, List.length_reverse, List.length_reverse] at hlength
  have hroom : (encode n :: below.reverse).length ≤ s.capacity := by
    rw [List.length_cons, List.length_reverse]
    unfold Stack.size at hsize
    omega
  rw [Stack.withItems, List.reverse_append]
  exact (hdenotes.turns_of_inRange hn).ok hsize hroom

end Computes

namespace Operation

variable {op : UInt8} {width : Nat} {s t : Stack} {n : Int}

theorem popNumber_eq_ok (h : Stack.popNumber width s = .ok n t) :
    ∃ item, s = ⟨item :: t.items, t.capacity⟩ ∧ item.length ≤ min width 8 ∧ value item = n := by
  obtain ⟨items, capacity⟩ := s
  cases items with
  | nil => cases h
  | cons item items =>
    cases hitem : decode width item with
    | ok k =>
      cases (Stack.popNumber_of_ok hitem).symm.trans h
      exact ⟨item, rfl, decode_eq_ok_iff.mp hitem⟩
    | error e => cases (Stack.popNumber_of_error hitem).symm.trans h

theorem require_eq_ok {k : Nat} (h : Stack.require k s = .ok () t) : t = s := by
  unfold Stack.require at h
  split at h <;> cases h
  rfl

theorem pushChecked_eq_ok (h : Stack.pushResult (checked n) s = .ok () t) :
    InRange n ∧ t = ⟨encode n :: s.items, s.capacity⟩ := by
  by_cases hn : InRange n
  case pos =>
    rw [checked, if_pos hn] at h
    change Stack.push (encode n) s = .ok () t at h
    unfold Stack.push at h
    split at h <;> cases h
    exact ⟨hn, rfl⟩
  case neg =>
    rw [checked, if_neg hn] at h
    cases h

theorem unary_eq_ok {k : Int → Int}
    (h : (do let a ← Stack.popNumber width; Stack.pushResult (checked (k a))) s = .ok () t) :
    ∃ a items, s.items = a :: items ∧ a.length ≤ min width 8 ∧ InRange (k (value a)) ∧
      t = ⟨encode (k (value a)) :: items, s.capacity⟩ := by
  obtain ⟨_, u, hpop, hpush⟩ := bind_eq_ok_iff.mp h
  obtain ⟨a, rfl, ha, rfl⟩ := popNumber_eq_ok hpop
  obtain ⟨hn, rfl⟩ := pushChecked_eq_ok hpush
  exact ⟨a, u.items, rfl, ha, hn, rfl⟩

theorem binary_eq_ok {k : Int → Int → Int}
    (h : (do Stack.require 2; let b ← Stack.popNumber width; let a ← Stack.popNumber width
             Stack.pushResult (checked (k a b))) s = .ok () t) :
    ∃ a b items, s.items = b :: a :: items ∧ a.length ≤ min width 8 ∧ b.length ≤ min width 8 ∧
      InRange (k (value a) (value b)) ∧
      t = ⟨encode (k (value a) (value b)) :: items, s.capacity⟩ := by
  obtain ⟨_, r, hrequire, hrest⟩ := bind_eq_ok_iff.mp h
  obtain rfl := require_eq_ok hrequire
  obtain ⟨_, u, hpop, hunary⟩ := bind_eq_ok_iff.mp hrest
  obtain ⟨b, rfl, hb, rfl⟩ := popNumber_eq_ok hpop
  obtain ⟨a, items, hitems, ha, hn, rfl⟩ := unary_eq_ok (k := fun a => k a (value b)) hunary
  exact ⟨a, b, items, congrArg (b :: ·) hitems, ha, hb, hn, rfl⟩

theorem exists_computes_of_ok (hop : op ∈ Opcode.computing)
    (h : runArithmetic op width s = .ok () t) :
    ∃ below operands n, Computes op width s below operands n ∧ InRange n ∧
      t = s.withItems (below ++ [encode n]) := by
  have hcomputes {operands items : List Bytes} {n : Int} (hs : s.items = operands.reverse ++ items)
      (hlength : ∀ x ∈ operands, x.length ≤ min width 8)
      (hmeaning : Opcode.meaning? op operands = some (.computed n)) :
      Computes op width s items.reverse operands n := by
    refine ⟨?_, hlength, hmeaning⟩
    rw [Stack.toList, hs, List.reverse_append, List.reverse_reverse]
  have hwith (n : Int) (items : List Bytes) :
      (⟨encode n :: items, s.capacity⟩ : Stack) = s.withItems (items.reverse ++ [encode n]) := by
    rw [Stack.withItems, List.reverse_append, List.reverse_reverse]
    rfl
  simp only [Opcode.computing, List.mem_cons, List.not_mem_nil, or_false] at hop
  obtain rfl | rfl | rfl | rfl := hop
  case inl =>
    obtain ⟨a, items, hs, ha, hn, rfl⟩ := unary_eq_ok (k := (· + 1)) h
    exact ⟨items.reverse, [a], _, hcomputes hs (by simpa using ha) rfl, hn, hwith _ _⟩
  case inr.inl =>
    obtain ⟨a, items, hs, ha, hn, rfl⟩ := unary_eq_ok (k := (· - 1)) h
    exact ⟨items.reverse, [a], _, hcomputes hs (by simpa using ha) rfl, hn, hwith _ _⟩
  case inr.inr.inl =>
    obtain ⟨a, b, items, hs, ha, hb, hn, rfl⟩ := binary_eq_ok (k := (· + ·)) h
    exact ⟨items.reverse, [a, b], _, hcomputes hs (by simpa using And.intro ha hb) rfl, hn, hwith _ _⟩
  case inr.inr.inr =>
    obtain ⟨a, b, items, hs, ha, hb, hn, rfl⟩ := binary_eq_ok (k := (· - ·)) h
    exact ⟨items.reverse, [a, b], _, hcomputes hs (by simpa using And.intro ha hb) rfl, hn, hwith _ _⟩

end Operation

namespace ReadsNumbers

variable {α β : Type} {width n : Nat} {x : StackM α} {f : Int → StackM α} {operand : Bytes}
  {operands : List Bytes}

theorem nil : ReadsNumbers width x [] :=
  nofun

theorem bind {f : α → StackM β} (h : ReadsNumbers width x operands) :
    ReadsNumbers width (x >>= f) operands :=
  fun item hitem below => (h item hitem below).bind

theorem require_bind {f : Unit → StackM α} (h : n ≤ operands.length)
    (hf : ReadsNumbers width (f ()) operands) :
    ReadsNumbers width (Stack.require n >>= f) operands := by
  intro item hitem below
  have hle : n ≤ (operands ++ below).length := by
    rw [List.length_append]
    exact Nat.le_add_right_of_le h
  exact .bind_of_turns (.require hle) (hf item hitem below) (Nat.le_refl _)

theorem popNumber_bind (hf : ReadsNumbers width (f (value operand)) operands) :
    ReadsNumbers width (Stack.popNumber width >>= f) (operand :: operands) := by
  intro item hitem below
  cases hwide : isWide width operand with
  | true =>
    rw [List.find?_cons_of_pos hwide] at hitem
    cases hitem
    exact .bind (.popNumber (decode_of_lt_length (of_decide_eq_true hwide)) _)
  | false =>
    rw [List.find?_cons_of_neg (Bool.not_eq_true _ ▸ hwide)] at hitem
    have hlength := Nat.not_lt.mp (of_decide_eq_false hwide)
    exact .bind_of_turns (.popNumber (decode_of_length_le hlength) _) (hf item hitem below)
      (Nat.le_succ _)

theorem popIndex : ReadsNumbers width (Stack.popIndex width) [operand] := by
  rw [Stack.popIndex_eq]
  exact popNumber_bind nil

end ReadsNumbers

namespace Operation

variable {op : UInt8} {width : Nat} {a : Bytes} {operands : List Bytes}

/-- How many operands an arithmetic operation has. -/
def ArithmeticOp.arity : ArithmeticOp → Nat
  | .sign _ | .unary _ => 1
  | .logic _ | .binary _ => 2
  | .within => 3

theorem ArithmeticOp.arity_eq {o : ArithmeticOp} (ho : ofByte? op = some o) (b : Bool) :
    o.arity = (Opcode.effect op b).operands := by
  unfold ofByte? at ho
  split at ho <;> cases ho <;> rfl

theorem ArithmeticOp.code_of_logic {o : LogicOp} (ho : ofByte? op = some (.logic o)) :
    op ∈ [0x9a, 0x9b] := by
  unfold ofByte? at ho
  split at ho <;> cases ho <;> decide

theorem ArithmeticOp.exists_of_category (h : Opcode.category op = .arithmetic) :
    ∃ o, ofByte? op = some o := by
  have hsome : (ofByte? op).isSome = true :=
    Opcode.of_category (P := fun op => (ofByte? op).isSome = true) (by decide +kernel) (by decide)
      (by decide) h
  exact Option.isSome_iff_exists.mp hsome

theorem SignOp.readsNumbers (o : SignOp) : ReadsNumbers width (o.run width) [a] := by
  intro item hitem below
  obtain rfl := List.mem_singleton.mp (List.mem_of_find?_eq_some hitem)
  have hwide : isWide width item = true := List.find?_some hitem
  have hdecode := decode_of_lt_length (of_decide_eq_true hwide)
  exact .bind_of_turns (.pop item below) (.bind (.ofExcept hdecode)) (Nat.le_succ _)

theorem ArithmeticOp.readsNumbers {o : ArithmeticOp} (hlogic : ∀ l, o ≠ .logic l)
    (hoperands : operands.length = o.arity) : ReadsNumbers width (o.run width) operands := by
  cases o with
  | sign o =>
    obtain ⟨a, rfl⟩ := List.length_eq_one_iff.mp hoperands
    exact o.readsNumbers
  | unary o =>
    obtain ⟨a, rfl⟩ := List.length_eq_one_iff.mp hoperands
    exact .popNumber_bind .nil
  | logic o => exact absurd rfl (hlogic o)
  | binary o =>
    obtain ⟨b, a, rfl⟩ := List.length_eq_two.mp hoperands
    exact .require_bind (Nat.le_refl 2) (.popNumber_bind (.popNumber_bind .nil))
  | within =>
    obtain ⟨upper, lower, a, rfl⟩ := List.length_eq_three.mp hoperands
    exact .require_bind (Nat.le_refl 3) (.popNumber_bind (.popNumber_bind (.popNumber_bind .nil)))

theorem runArithmetic_readsNumbers (h : Opcode.category op = .arithmetic) (hop : op ∉ [0x9a, 0x9b])
    {b : Bool} (hoperands : operands.length = (Opcode.effect op b).operands) :
    ReadsNumbers width (runArithmetic op width) operands := by
  obtain ⟨o, ho⟩ := ArithmeticOp.exists_of_category h
  unfold runArithmetic
  rw [ho]
  apply ArithmeticOp.readsNumbers
  case hlogic =>
    rintro l rfl
    exact hop (ArithmeticOp.code_of_logic ho)
  case hoperands => rw [hoperands, o.arity_eq ho]

end Operation

open Operation

variable {limits : ScriptLimits} {op : UInt8} {s : Stacks} {below operands : List Bytes}
  {item : Bytes}

/-- An opcode that reads numbers fails by the first of its operands, from the top, that is too
wide. -/
theorem runInstruction_of_wide (hop : Opcode.IsNumeric op) (rest : Bytes)
    (hmain : s.main.size ≤ s.main.capacity) (hs : s.main.toList = below ++ operands)
    (hoperands : operands.length = (Opcode.effect op s.main.topIsTrue).operands)
    (hitem : operands.reverse.find? (isWide limits.numberWidth) = some item) :
    outcome (runInstruction limits op rest) s =
      .error (.numberTooLong item.length (min limits.numberWidth 8)) := by
  have hlength := List.length_reverse.trans hoperands
  have hreads {x : StackM Unit} (hx : ReadsNumbers limits.numberWidth x operands.reverse) :
      outcome (onMain x *> pure 0) s =
        .error (.numberTooLong item.length (min limits.numberWidth 8)) := by
    have hbreaks := hx item hitem below.reverse
    rw [← Stack.items_eq_of_toList hs] at hbreaks
    obtain ⟨t, ht⟩ := hbreaks hmain
    rw [outcome_seqRight, outcome_onMain, outcome_error ht]
    rfl
  obtain ⟨harithmetic, hop⟩ | hindexing := hop
  case inl =>
    unfold runInstruction
    rw [harithmetic]
    exact hreads (runArithmetic_readsNumbers harithmetic hop hlength)
  case inr =>
    obtain rfl | rfl := eq_or_eq_of_indexing hindexing
    all_goals
      obtain ⟨index, hindex⟩ := List.length_eq_one_iff.mp hlength
      rw [hindex] at hreads
    · exact hreads (x := pick limits.numberWidth) (.bind .popIndex)
    · exact hreads (x := roll limits.numberWidth) (.bind .popIndex)

theorem unreadable_of_length (h : 8 < item.length) : Unreadable item := by
  intro limits op rest s below operands hop hmain hs hoperands hitem
  have hwide : isWide limits.numberWidth item = true :=
    decide_eq_true (Nat.lt_of_le_of_lt (Nat.min_le_right _ 8) h)
  have hsome : (operands.reverse.find? (isWide limits.numberWidth)).isSome = true :=
    List.find?_isSome.mpr ⟨item, List.mem_reverse.mpr hitem, hwide⟩
  obtain ⟨wide, hfirst⟩ := Option.isSome_iff_exists.mp hsome
  exact ⟨wide, hfirst, runInstruction_of_wide hop rest hmain hs hoperands hfirst⟩

/-- The width of numbers decides whether arithmetic overflows. Numbers of at most seven bytes never
do, neither in an opcode nor in a script. What an addition or a subtraction leaves on the stack is
the shortest form of the exact result: at most one byte wider than its operands may be, and for
operands of eight bytes at most as wide as these, so that it is read back as it is. The only
exception is the least number that a signed word of 64 bits can hold: it is left as an item of nine
bytes, which no opcode reads. -/
theorem arithmetic_within_width (width : Nat) :
    (min width 8 ≤ 7 →
      (∀ op s, outcome (runArithmetic op width) s ≠ .error .arithmeticOverflow) ∧
      ∀ (m : Machine) (script : Bytes), m.limits.numberWidth = width →
        (m.execute script).1 ≠ .error .arithmeticOverflow) ∧
    (∀ op ∈ Opcode.computing, ∀ s t, runArithmetic op width s = .ok () t →
      ∃ below operands n, Computes op width s below operands n ∧ InRange n ∧
        t = s.withItems (below ++ [encode n])) ∧
    ∀ op s below operands n, Computes op width s below operands n →
      isMinimal (encode n) = true ∧
      (min width 8 ≤ 7 → InRange n ∧
        (encode n).length ≤ min width 8 + 1 ∧ decode maxWidth (encode n) = .ok n) ∧
      (min width 8 = 8 → InRange n → n ≠ -0x8000000000000000 →
        (encode n).length ≤ 8 ∧ decode maxWidth (encode n) = .ok n) ∧
      (n = -0x8000000000000000 → (encode n).length = 9 ∧ Unreadable (encode n)) ∧
      (s.size ≤ s.capacity → InRange n →
        runArithmetic op width s = .ok () (s.withItems (below ++ [encode n]))) := by
  have hread {n : Int} (h : (encode n).length ≤ 8) : decode maxWidth (encode n) = .ok n :=
    decode_eq_ok_iff.mpr ⟨h, value_encode n⟩
  refine ⟨?narrow, ?left, ?computed⟩
  case narrow =>
    intro hwidth
    have hle : width ≤ 7 := by omega
    refine ⟨runArithmetic_ne_overflow hle, ?_⟩
    rintro m script rfl
    exact Machine.execute_ne_overflow hle script
  case left =>
    intro op hop s t h
    exact exists_computes_of_ok hop h
  case computed =>
    intro op s below operands n h
    refine ⟨isMinimal_encode n, ?narrow, ?wide, ?least, h.run_eq⟩
    case narrow =>
      intro hwidth
      have hlength := h.length_encode_le
      exact ⟨h.inRange hwidth, hlength, hread (by omega)⟩
    case wide =>
      intro _ hn hne
      have hlength : (encode n).length ≤ 8 := length_encode_of_inRange hn hne
      exact ⟨hlength, hread hlength⟩
    case least =>
      rintro rfl
      have hlength : (encode (-0x8000000000000000)).length = 9 := length_encode_minValue
      exact ⟨hlength, unreadable_of_length (by omega)⟩

theorem arithmetic_within_width_least :
    let s : Stack := ⟨[[255, 255, 255, 127], [255, 255, 255, 127]], 2⟩
    let t : Stack := ⟨[[255, 255, 255, 255, 255, 255, 255, 255]], 1⟩
    let u : Stack := ⟨[[0, 0, 0, 0, 0, 0, 0, 128, 128]], 1⟩
    runArithmetic 0x93 4 s = .ok () ⟨[[254, 255, 255, 255, 0]], 2⟩ ∧
      ((Machine.new { numberWidth := 4 }).execute [0x51, 0x8b]).1 ≠ .error .arithmeticOverflow ∧
      runArithmetic 0x8c 8 t = .ok () u ∧
      outcome (runInstruction {} 0x8f []) ⟨u, ⟨[], 1⟩⟩ = .error (.numberTooLong 9 8) := by
  intro s t u
  obtain ⟨hnarrow, -, hsum⟩ := arithmetic_within_width 4
  obtain ⟨-, -, hdifference⟩ := arithmetic_within_width 8
  have hs : Computes 0x93 4 s [] [[255, 255, 255, 127], [255, 255, 255, 127]]
      (value [254, 255, 255, 255, 0]) := ⟨rfl, by decide, rfl⟩
  have ht : Computes 0x8c 8 t [] [[255, 255, 255, 255, 255, 255, 255, 255]]
      (value [0, 0, 0, 0, 0, 0, 0, 128, 128]) := ⟨rfl, by decide, rfl⟩
  obtain ⟨-, -, -, -, hsum⟩ := hsum _ _ _ _ _ hs
  obtain ⟨-, -, -, hleast, hdifference⟩ := hdifference _ _ _ _ _ ht
  rw [encode_value_eq_iff.mpr (by decide)] at hsum hleast hdifference
  have hnegate : Opcode.IsNumeric 0x8f := .inl ⟨by decide, by decide⟩
  obtain ⟨wide, hwide, hrun⟩ := (hleast rfl).2 {} 0x8f [] ⟨u, ⟨[], 1⟩⟩ [] u.toList hnegate
    (by decide) rfl rfl (by decide)
  cases hwide
  exact ⟨hsum (by decide) (by decide), (hnarrow (by decide)).2 _ _ rfl,
    hdifference (by decide) (by decide), hrun⟩

end Script
end ScriptLedger
