import Mathlib.Algebra.BigOperators.Group.List.Basic
import ScriptLedger.Proofs.Script.Compound

namespace ScriptLedger.Script

open Number Operation Stateful

def pushing (item : Bytes) : Bytes :=
  UInt8.ofNat item.length :: item

section

variable {limits : ScriptLimits} {item script : Bytes} {items : List Bytes} {ops : List UInt8}
  {s : Stacks} {u : Stack} {elementSize operations : Nat}

theorem Opcode.category_of_length (h : item.length ≤ 75) :
    category (UInt8.ofNat item.length) = .constant := by
  cases item with
  | nil => rfl
  | cons b rest =>
    have hfits : Push.Form.direct.Fits (b :: rest).length := ⟨Nat.succ_pos _, h⟩
    exact category_of_isDirectPush (Push.Form.isDirectPush_ofNat hfits)

/-- A length byte pushes as many bytes as it says. Nothing is pushed by the opcode of zero, which is
the length of nothing. -/
theorem Operation.runConstant_pushing (h : item.length ≤ 75) (hwide : item.length ≤ elementSize)
    (hroom : u.size < u.capacity) (rest : Bytes) :
    runConstant (UInt8.ofNat item.length) (item ++ rest) elementSize u =
      .ok item.length ⟨item :: u.items, u.capacity⟩ := by
  have hpushed : u.withItems (u.toList ++ [item]) = ⟨item :: u.items, u.capacity⟩ := by
    rw [Stack.withItems, List.reverse_append, Stack.toList, List.reverse_reverse]
    rfl
  rw [← hpushed]
  cases item with
  | nil =>
    have hzero := runConstant_ofNumber (n := 0) elementSize u (by decide) (by decide) rest
    rwa [if_pos hroom] at hzero
  | cons b tail =>
    have hfits : Push.Form.direct.Fits (b :: tail).length := ⟨Nat.succ_pos _, h⟩
    have hform := runConstant_form elementSize u hfits rest
    rwa [if_neg (Nat.not_lt.2 hwide), if_pos hroom, Push.Form.lengthWidth, Nat.zero_add] at hform

theorem runInstruction_pushing (h : item.length ≤ min 75 limits.elementSize)
    (hroom : s.main.size < s.main.capacity) (rest : Bytes) :
    runInstruction limits (UInt8.ofNat item.length) (item ++ rest) s =
      .ok item.length { s with main := ⟨item :: s.main.items, s.main.capacity⟩ } := by
  obtain ⟨hlength, hwide⟩ := Nat.le_min.1 h
  rw [runInstruction, Opcode.category_of_length hlength]
  exact onMain_ok (runConstant_pushing hlength hwide hroom rest)

/-- Pushes at the front of a script leave their items for what follows and do not count. -/
theorem runFrom_pushing (position : Nat) (fetched : List Fetch) (script : Bytes)
    (hitems : ∀ item ∈ items, item.length ≤ min 75 limits.elementSize)
    (hroom : s.main.size + items.length ≤ s.main.capacity)
    (hoperations : operations ≤ limits.operations) :
    ∃ position' fetched',
      runFrom limits position operations fetched (items.flatMap pushing ++ script) s =
        runFrom limits position' operations fetched' script
          { s with main := ⟨items.reverse ++ s.main.items, s.main.capacity⟩ } := by
  induction items generalizing position fetched s with
  | nil => exact ⟨position, fetched, rfl⟩
  | cons item items ih =>
    obtain ⟨hitem, hitems⟩ := List.forall_mem_cons.1 hitems
    rw [List.length_cons] at hroom
    have hsize : s.main.size < s.main.capacity := by omega
    have hstep := runInstruction_pushing hitem hsize (items.flatMap pushing ++ script)
    have hcount : countOperation (UInt8.ofNat item.length) operations = operations := by
      have hlength := (Nat.le_min.1 hitem).1
      exact if_pos (Opcode.isPush_of_constant (Opcode.category_of_length hlength))
    have hwithin : ¬ limits.operations < countOperation (UInt8.ofNat item.length) operations := by
      rw [hcount]
      exact Nat.not_lt.2 hoperations
    have hnext : (⟨item :: s.main.items, s.main.capacity⟩ : Stack).size + items.length ≤
        s.main.capacity := by
      rw [Stack.size, List.length_cons]
      unfold Stack.size at hroom
      omega
    obtain ⟨position', fetched', hrun⟩ := ih (position + 1 + item.length)
      (⟨position, UInt8.ofNat item.length, s.main.size⟩ :: fetched)
      (s := { s with main := ⟨item :: s.main.items, s.main.capacity⟩ }) hitems hnext
    refine ⟨position', fetched', ?_⟩
    rw [List.flatMap_cons, List.append_assoc, pushing, List.cons_append,
      runFrom_ok limits hwithin hstep, hcount, List.drop_left, hrun, List.reverse_cons,
      List.append_assoc]
    rfl

/-- Items and opcodes that make up a script within the limits: the items can be pushed by their
lengths and the opcodes have no data. -/
structure Scripted (limits : ScriptLimits) (items : List Bytes) (ops : List UInt8) : Prop where
  widths : ∀ item ∈ items, item.length ≤ min 75 limits.elementSize
  bare : ∀ op ∈ ops, Push.read? op [] = .ok none
  size : (items.flatMap pushing ++ ops).length ≤ limits.scriptSize
  room : items.length ≤ limits.stackSize
  operations : ops.length ≤ limits.operations

/-- A script that pushes items and then runs opcodes without data does what the opcodes do on the
items. -/
theorem Scripted.run_eq (h : Scripted limits items ops) :
    let r := (Machine.new limits).run (items.flatMap pushing ++ ops)
    let s : Stacks := ⟨⟨items.reverse, limits.stackSize⟩, .empty limits.stackSize⟩
    r.outcome = outcome (runOpcodes limits ops) s ∧
      r.state = Stateful.after (runOpcodes limits ops) s := by
  have hstart : (Stack.empty limits.stackSize).size + items.length ≤ limits.stackSize := by
    rw [Stack.size, Stack.empty, List.length_nil, Nat.zero_add]
    exact h.room
  obtain ⟨position, fetched, hpushed⟩ := runFrom_pushing
    (s := ⟨.empty limits.stackSize, .empty limits.stackSize⟩) 0 [] ops h.widths hstart
    (Nat.zero_le limits.operations)
  have hrun : (Machine.new limits).run (items.flatMap pushing ++ ops) =
      runFrom limits position 0 fetched ops
        ⟨⟨items.reverse, limits.stackSize⟩, .empty limits.stackSize⟩ := by
    rw [Stack.empty, List.append_nil] at hpushed
    rw [Machine.run_of_size h.size]
    exact hpushed
  have hcount : 0 + ops.length ≤ limits.operations := by
    rw [Nat.zero_add]
    exact h.operations
  simp only [hrun]
  exact runFrom_opcodes position 0 fetched h.bare hcount _

end

variable {limits : ScriptLimits} {capacity width : Nat} {op : UInt8} {ops ops' : List UInt8}
  {items mid below : List Bytes} {x : StackM Unit} {e : Failure} {a b n : Int}

/-- Opcodes that fail on the items of the main stack, whatever the alt stack holds. -/
def Fails (limits : ScriptLimits) (capacity : Nat) (ops : List UInt8) (items : List Bytes)
    (e : Failure) : Prop :=
  ∀ alt, ∃ t, runOpcodes limits ops ⟨⟨items, capacity⟩, alt⟩ = .error e t

namespace Fails

theorem of_breaks (hop : Opcode.Does limits op x) (h : Breaks x items e)
    (hin : items.length ≤ capacity) : Fails limits capacity [op] items e := by
  intro alt
  obtain ⟨t, ht⟩ := h hin
  rw [runOpcodes_singleton hop]
  exact ⟨_, onMain_error (s := ⟨⟨items, capacity⟩, alt⟩) ht⟩

theorem append (h : Fails limits capacity ops items e) (ops' : List UInt8) :
    Fails limits capacity (ops ++ ops') items e := by
  intro alt
  obtain ⟨t, ht⟩ := h alt
  rw [runOpcodes_append]
  exact ⟨t, bind_error ht⟩

theorem of_leads (h : Leads limits capacity ops items mid) (h' : Fails limits capacity ops' mid e) :
    Fails limits capacity (ops ++ ops') items e := by
  intro alt
  rw [runOpcodes_append, bind_ok (h alt)]
  exact h' alt

end Fails

theorem Leads.eval_eq {out : List Bytes} (h : Leads limits limits.stackSize ops items.reverse out)
    (hscript : Scripted limits items ops) :
    eval limits (items.flatMap pushing ++ ops) =
      .ok ⟨⟨⟨out, limits.stackSize⟩, .empty limits.stackSize⟩, limits⟩ := by
  obtain ⟨houtcome, hstate⟩ := hscript.run_eq
  rw [outcome_ok (h _)] at houtcome
  rw [Stateful.after, h] at hstate
  unfold eval Machine.execute
  simp only [houtcome, Machine.after, hstate]
  rfl

theorem Fails.eval_eq (h : Fails limits limits.stackSize ops items.reverse e)
    (hscript : Scripted limits items ops) :
    eval limits (items.flatMap pushing ++ ops) = .error e := by
  obtain ⟨houtcome, _⟩ := hscript.run_eq
  obtain ⟨t, ht⟩ := h (.empty limits.stackSize)
  rw [outcome_error ht] at houtcome
  unfold eval Machine.execute
  simp only [houtcome]

namespace Operation

theorem binary_denotes_encode {o : BinaryOp} {m : Meaning} (ha : (encode a).length ≤ min width 8)
    (hb : (encode b).length ≤ min width 8) (h : Denotes (o.pushResult a b) below below m) :
    Denotes (o.run width) (encode b :: encode a :: below) below m := by
  apply binary_denotes ha hb
  rw [value_encode, value_encode]
  exact h

theorem add_denotes (ha : (encode a).length ≤ min width 8) (hb : (encode b).length ≤ min width 8) :
    Denotes (BinaryOp.run .add width) (encode b :: encode a :: below) below (.computed (a + b)) :=
  binary_denotes_encode ha hb (.pushChecked _)

theorem sub_denotes (ha : (encode a).length ≤ min width 8) (hb : (encode b).length ≤ min width 8) :
    Denotes (BinaryOp.run .sub width) (encode b :: encode a :: below) below (.computed (a - b)) :=
  binary_denotes_encode ha hb (.pushChecked _)

theorem binary_breaks {o : BinaryOp} {top item : Bytes} (htop : top.length ≤ min width 8)
    (hitem : min width 8 < item.length) (below : List Bytes) :
    Breaks (o.run width) (top :: item :: below) (.numberTooLong item.length (min width 8)) := by
  have hreads : ReadsNumbers width (o.run width) [top, item] :=
    ArithmeticOp.readsNumbers (o := .binary o) nofun rfl
  have hfirst : [top, item].find? (isWide width) = some item := by
    rw [List.find?_cons_of_neg, List.find?_cons_of_pos]
    · exact decide_eq_true hitem
    · exact fun hwide => absurd (of_decide_eq_true hwide) (Nat.not_lt.2 htop)
  exact hreads item hfirst below

end Operation

section

variable (below : List Bytes) (ha : (encode a).length ≤ min limits.numberWidth 8)
  (hb : (encode b).length ≤ min limits.numberWidth 8) (hroom : below.length + 4 ≤ capacity)

include ha hb hroom

theorem Leads.sum (hn : InRange (a + b)) :
    Leads limits capacity [0x6e, 0x93, 0x7c] (encode b :: encode a :: below)
      (encode b :: encode (a + b) :: encode a :: below) := by
  have hout : below.length + 3 ≤ capacity := by omega
  have hdup : Leads limits capacity [0x6e] _ _ := .dup2 (encode a) (encode b) below hroom
  have hadd : Leads limits capacity [0x93] _ (encode (a + b) :: encode b :: encode a :: below) :=
    .of_turns rfl ((add_denotes ha hb).turns_of_inRange hn) hroom hout
  exact hdup.append (hadd.append (.swap1 (encode b) (encode (a + b)) (encode a :: below) hout))

theorem Fails.sum (hn : ¬ InRange (a + b)) :
    Fails limits capacity [0x6e, 0x93] (encode b :: encode a :: below) .arithmeticOverflow := by
  have hdup : Leads limits capacity [0x6e] _ _ := .dup2 (encode a) (encode b) below hroom
  have hsum : Denotes _ _ (encode b :: encode a :: below) _ := add_denotes ha hb
  exact .of_leads hdup (.of_breaks rfl (hsum.breaks_of_not_inRange hn) hroom)

theorem Leads.restored (hn : InRange (a + b))
    (hsum : (encode (a + b)).length ≤ min limits.numberWidth 8) :
    Leads limits capacity [0x6e, 0x93, 0x7c, 0x94] (encode b :: encode a :: below)
      (encode a :: encode a :: below) := by
  have hin : below.length + 3 ≤ capacity := by omega
  have hout : below.length + 2 ≤ capacity := by omega
  have hrange : InRange a := inRange_of_length_encode (Nat.le_trans ha (Nat.min_le_right _ _))
  have hdifference : Denotes _ _ (encode a :: below) _ := sub_denotes hsum hb
  rw [Int.add_sub_cancel] at hdifference
  have hsub : Leads limits capacity [0x94] _ (encode a :: encode a :: below) :=
    .of_turns rfl (hdifference.turns_of_inRange hrange) hin hout
  exact (Leads.sum below ha hb hroom hn).append hsub

theorem Fails.restored (hn : InRange (a + b))
    (hsum : min limits.numberWidth 8 < (encode (a + b)).length) :
    Fails limits capacity [0x6e, 0x93, 0x7c, 0x94] (encode b :: encode a :: below)
      (.numberTooLong (encode (a + b)).length (min limits.numberWidth 8)) := by
  have hin : below.length + 3 ≤ capacity := by omega
  have hbreaks : Breaks (BinaryOp.run .sub limits.numberWidth) _ _ :=
    binary_breaks hb hsum (encode a :: below)
  exact .of_leads (Leads.sum below ha hb hroom hn) (.of_breaks rfl hbreaks hin)

end

theorem scripted_numbers {ops : List UInt8} (hwidth : width ≤ 8) (ha : (encode a).length ≤ width)
    (hb : (encode b).length ≤ width) (hops : ∀ op ∈ ops, Opcode.category op ≠ .constant)
    (hlength : ops.length ≤ 201) :
    Scripted { numberWidth := width } [encode a, encode b] ops where
  widths := by
    have hsmall : 8 ≤ min 75 520 := by decide
    intro item hitem
    obtain rfl | rfl := List.mem_pair.1 hitem
    · exact Nat.le_trans ha (Nat.le_trans hwidth hsmall)
    · exact Nat.le_trans hb (Nat.le_trans hwidth hsmall)
  bare op hop := read_of_not_constant (hops op hop) []
  size := by
    simp only [List.flatMap_cons, List.flatMap_nil, List.length_append, pushing, List.length_cons,
      List.length_nil]
    omega
  room := show 2 ≤ 1000 by decide
  operations := hlength

/-- Adding two numbers and subtracting the second one again gives back the first one, in its
shortest form, unless the sum is no signed word of 64 bits or is wider than numbers may be. -/
theorem eval_add_then_sub (hwidth : width ≤ 8) (ha : (encode a).length ≤ width)
    (hb : (encode b).length ≤ width) :
    let r := eval { numberWidth := width }
      (pushing (encode a) ++ pushing (encode b) ++ [0x6e, 0x93, 0x7c, 0x94])
    (¬ InRange (a + b) → r = .error .arithmeticOverflow) ∧
    (InRange (a + b) → width < (encode (a + b)).length →
      r = .error (.numberTooLong (encode (a + b)).length width)) ∧
    (InRange (a + b) → (encode (a + b)).length ≤ width →
      ∃ m, r = .ok m ∧ m.main.toList = [encode a, encode a] ∧ m.alt.toList = []) := by
  have hmin : min width 8 = width := Nat.min_eq_left hwidth
  have ha' : (encode a).length ≤ min width 8 := by rwa [hmin]
  have hb' : (encode b).length ≤ min width 8 := by rwa [hmin]
  have hscripted : Scripted { numberWidth := width } [encode a, encode b] [0x6e, 0x93, 0x7c, 0x94] :=
    scripted_numbers hwidth ha hb (by decide +kernel) (by decide)
  have hpushes : [encode a, encode b].flatMap pushing = pushing (encode a) ++ pushing (encode b) := by
    rw [List.flatMap_cons, List.flatMap_singleton]
  have hroom : 4 ≤ 1000 := by decide
  rw [← hpushes]
  refine ⟨fun hn => ?overflow, fun hn hwide => ?wide, fun hn hsum => ?restored⟩
  case overflow =>
    have hfails : Fails { numberWidth := width } 1000 [0x6e, 0x93] [encode b, encode a]
        .arithmeticOverflow :=
      .sum [] ha' hb' hroom hn
    exact (hfails.append [0x7c, 0x94]).eval_eq hscripted
  case wide =>
    rw [← hmin] at hwide
    have hfails : Fails { numberWidth := width } 1000 [0x6e, 0x93, 0x7c, 0x94]
        [encode b, encode a] (.numberTooLong (encode (a + b)).length (min width 8)) :=
      .restored [] ha' hb' hroom hn hwide
    rw [hmin] at hfails
    exact hfails.eval_eq hscripted
  case restored =>
    rw [← hmin] at hsum
    have hleads : Leads { numberWidth := width } 1000 [0x6e, 0x93, 0x7c, 0x94]
        [encode b, encode a] [encode a, encode a] :=
      .restored [] ha' hb' hroom hn hsum
    exact ⟨_, hleads.eval_eq hscripted, rfl, rfl⟩

theorem eval_add_then_sub_extremes :
    eval { numberWidth := 8 }
        (pushing (encode 0x7fffffffffffffff) ++ pushing (encode 1) ++ [0x6e, 0x93, 0x7c, 0x94]) =
      .error .arithmeticOverflow ∧
    eval { numberWidth := 8 }
        (pushing (encode (-0x7fffffffffffffff)) ++ pushing (encode (-1)) ++
          [0x6e, 0x93, 0x7c, 0x94]) =
      .error (.numberTooLong 9 8) ∧
    ∃ m, eval { numberWidth := 1 }
        (pushing (encode (-127)) ++ pushing (encode 0) ++ [0x6e, 0x93, 0x7c, 0x94]) = .ok m ∧
      m.main.toList = [[0xff], [0xff]] ∧ m.alt.toList = [] := by
  have hgreatest : (encode 0x7fffffffffffffff).length ≤ 8 :=
    length_encode_of_inRange (by decide) (by decide)
  have hone : (encode 1).length ≤ 8 :=
    length_encode_of_inRange (by decide) (by decide)
  have hleast : (encode (-0x7fffffffffffffff)).length ≤ 8 :=
    length_encode_of_inRange (by decide) (by decide)
  have hminusOne : (encode (-1)).length ≤ 8 :=
    length_encode_of_inRange (by decide) (by decide)
  have hsmall : (encode (-127)).length ≤ 1 := length_encode_le_of_lt (k := 0) (by decide)
  have hzero : (encode 0).length ≤ 1 := length_encode_le_of_lt (k := 0) (by decide)
  have hwide : (encode (-0x7fffffffffffffff + -1)).length = 9 := by decide +kernel
  have hitem : encode (-127) = [0xff] := by decide +kernel
  obtain ⟨hoverflow, _⟩ := eval_add_then_sub (Nat.le_refl 8) hgreatest hone
  obtain ⟨_, htooLong, _⟩ := eval_add_then_sub (Nat.le_refl 8) hleast hminusOne
  obtain ⟨_, _, hrestored⟩ := eval_add_then_sub (by decide) hsmall hzero
  rw [hwide] at htooLong
  rw [hitem] at hrestored ⊢
  have hsum : (encode (-127 + 0)).length ≤ 1 := by rw [Int.add_zero]; exact hsmall
  exact ⟨hoverflow (by decide), htooLong (by decide) (by decide), hrestored (by decide) hsum⟩

end ScriptLedger.Script
