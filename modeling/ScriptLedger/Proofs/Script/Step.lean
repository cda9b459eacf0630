import ScriptLedger.Script.Instruction
import ScriptLedger.Script.Machine

namespace ScriptLedger.Script

open Stateful

variable {limits : ScriptLimits} {op : UInt8} {rest more : Bytes} {push : Option Push}
  {s t : Stacks} {taken : Nat}

theorem Opcode.category_of_isDirectPush (h : isDirectPush op = true) : category op = .constant := by
  have hall : ∀ e ∈ table, isDirectPush e.code = true → e.category = .constant := by
    decide +kernel
  unfold category
  cases hf : find? op with
  | none => exact if_pos h
  | some e =>
    have hcode := code_of_find? hf
    exact hall e (List.mem_of_find?_eq_some hf) (by rw [hcode]; exact h)

theorem Opcode.category_of_lengthWidth {width : Nat} (h : Push.lengthWidth? op = some width) :
    category op = .constant := by
  unfold Push.lengthWidth? at h
  split at h
  · decide
  · decide
  · decide
  · cases h

namespace Push

/-- What an opcode finds behind itself: data as long as the opcode says, data as long as a length
field says, or nothing that it would take. -/
inductive Found (op : UInt8) (rest : Bytes) : Option Push → Prop where
  | direct (hd : Opcode.isDirectPush op = true) (hn : op.toNat ≤ rest.length) :
      Found op rest (some ⟨0, rest.take op.toNat⟩)
  | sized {width : Nat} (hd : Opcode.isDirectPush op = false) (hw : lengthWidth? op = some width)
      (hn : width + LittleEndian.decode (rest.take width) ≤ rest.length) :
      Found op rest
        (some ⟨width, (rest.drop width).take (LittleEndian.decode (rest.take width))⟩)
  | bare (hd : Opcode.isDirectPush op = false) (hw : lengthWidth? op = none) : Found op rest none

theorem readData_eq_ok_iff {width length : Nat} {p : Push} (hw : width ≤ rest.length) :
    readData op rest width length = .ok p ↔
      width + length ≤ rest.length ∧ p = ⟨width, (rest.drop width).take length⟩ := by
  have hlength : ((rest.drop width).take length).length < length ↔
      rest.length < width + length := by
    rw [List.length_take, List.length_drop]
    omega
  unfold readData
  simp only [hlength]
  split
  case isTrue h =>
    have hn : ¬ width + length ≤ rest.length := by omega
    simp [hn]
  case isFalse h =>
    have hn : width + length ≤ rest.length := by omega
    simp [hn, eq_comm]

theorem found_of_read (h : read? op rest = .ok push) : Found op rest push := by
  unfold read? at h
  split at h
  case isTrue hd =>
    cases hr : readData op rest 0 op.toNat with
    | error e =>
      rw [hr] at h
      cases h
    | ok p =>
      rw [hr] at h
      cases h
      obtain ⟨hn, rfl⟩ := (readData_eq_ok_iff (Nat.zero_le _)).mp hr
      exact .direct hd (by omega)
  case isFalse hd =>
    rw [Bool.not_eq_true] at hd
    cases hw : lengthWidth? op with
    | none =>
      rw [hw] at h
      cases h
      exact .bare hd hw
    | some width =>
      rw [hw] at h
      simp only at h
      split at h
      case isTrue => cases h
      case isFalse hfield =>
        rw [List.length_take] at hfield
        cases hr : readData op rest width (LittleEndian.decode (rest.take width)) with
        | error e =>
          rw [hr] at h
          cases h
        | ok p =>
          rw [hr] at h
          cases h
          obtain ⟨hn, rfl⟩ := (readData_eq_ok_iff (by omega)).mp hr
          exact .sized hd hw hn

theorem Found.read_eq (h : Found op rest push) : read? op rest = .ok push := by
  cases h with
  | direct hd hn =>
    have hr : readData op rest 0 op.toNat = .ok ⟨0, rest.take op.toNat⟩ :=
      (readData_eq_ok_iff (Nat.zero_le _)).mpr ⟨by omega, rfl⟩
    rw [read?, if_pos hd, hr]
    rfl
  | @sized width hd hw hn =>
    have hr : readData op rest width (LittleEndian.decode (rest.take width)) =
        .ok ⟨width, (rest.drop width).take (LittleEndian.decode (rest.take width))⟩ :=
      (readData_eq_ok_iff (Nat.le_of_add_right_le hn)).mpr ⟨hn, rfl⟩
    have hfield : ¬ (rest.take width).length < width := by
      rw [List.length_take]
      omega
    rw [read?, hd, hw]
    simp only [Bool.false_eq_true, if_false, hfield, hr]
    rfl
  | bare hd hw =>
    rw [read?, hd, hw]
    rfl

theorem Found.size_le (h : Found op rest push) :
    Instruction.dataSize ⟨op, push⟩ ≤ rest.length := by
  cases h with
  | direct hd hn =>
    simp only [Instruction.dataSize, size, List.length_take]
    omega
  | sized hd hw hn =>
    simp only [Instruction.dataSize, size, List.length_take, List.length_drop]
    omega
  | bare hd hw => exact Nat.zero_le _

theorem Found.append (h : Found op rest push) (more : Bytes) : Found op (rest ++ more) push := by
  cases h with
  | direct hd hn =>
    have hdata : (rest ++ more).take op.toNat = rest.take op.toNat :=
      List.take_append_of_le_length hn
    rw [← hdata]
    exact .direct hd (by rw [List.length_append]; omega)
  | @sized width hd hw hn =>
    have hle := Nat.le_of_add_right_le hn
    have hfield : (rest ++ more).take width = rest.take width :=
      List.take_append_of_le_length hle
    have hdata (n : Nat) (hn : width + n ≤ rest.length) :
        ((rest ++ more).drop width).take n = (rest.drop width).take n := by
      rw [List.drop_append_of_le_length hle]
      apply List.take_append_of_le_length
      rw [List.length_drop]
      omega
    rw [← hdata _ hn, ← hfield]
    exact .sized hd hw (by rw [hfield, List.length_append]; omega)
  | bare hd hw => exact .bare hd hw

theorem read_append (h : read? op rest = .ok push) (more : Bytes) :
    read? op (rest ++ more) = .ok push :=
  ((found_of_read h).append more).read_eq

end Push

/-- Only constants look at the script behind them. -/
theorem runInstruction_append (h : Push.read? op rest = .ok push) (more : Bytes) :
    runInstruction limits op (rest ++ more) = runInstruction limits op rest := by
  have hmore := Push.read_append h more
  have hconstant : Operation.runConstant op (rest ++ more) limits.elementSize =
      Operation.runConstant op rest limits.elementSize := by
    rw [Operation.runConstant, Operation.runConstant, hmore, h]
  rw [runInstruction, runInstruction, hconstant]

theorem runConstant_taken {size : Nat} {u v : Stack}
    (h : Operation.runConstant op rest size u = .ok taken v) :
    ∃ push, Push.read? op rest = .ok push ∧ taken = Instruction.dataSize ⟨op, push⟩ := by
  rw [Operation.runConstant, bind_eq_ok_iff] at h
  obtain ⟨push, w, hread, h⟩ := h
  cases hr : Push.read? op rest with
  | error e =>
    rw [hr] at hread
    cases hread
  | ok found =>
    rw [hr] at hread
    cases hread
    exists push
    cases push with
    | none =>
      cases hi : Operation.smallItem? op with
      | none =>
        simp only [hi] at h
        cases h
      | some item =>
        simp only [hi] at h
        obtain ⟨_, _, _, h⟩ := bind_eq_ok_iff.mp h
        cases h
        exact ⟨rfl, rfl⟩
    | some p =>
      by_cases hsize : size < p.data.length
      · simp only [hsize, if_true] at h
        cases h
      · simp only [hsize, if_false] at h
        obtain ⟨_, _, _, h⟩ := bind_eq_ok_iff.mp h
        cases h
        exact ⟨rfl, rfl⟩

theorem taken_eq_zero {x : StacksM Unit} (h : (x *> pure 0 : StacksM Nat) s = .ok taken t) :
    taken = 0 := by
  rw [seqRight_eq_bind, bind_eq_ok_iff] at h
  obtain ⟨_, _, _, h⟩ := h
  cases h
  rfl

theorem read_of_not_constant (h : Opcode.category op ≠ .constant) (rest : Bytes) :
    Push.read? op rest = .ok none := by
  have hd : Opcode.isDirectPush op = false := by
    cases hd : Opcode.isDirectPush op with
    | false => rfl
    | true => exact absurd (Opcode.category_of_isDirectPush hd) h
  have hw : Push.lengthWidth? op = none := by
    cases hw : Push.lengthWidth? op with
    | none => rfl
    | some width => exact absurd (Opcode.category_of_lengthWidth hw) h
  exact (Push.Found.bare hd hw).read_eq

/-- An instruction that runs takes the bytes of its push and no others. -/
theorem runInstruction_taken (h : runInstruction limits op rest s = .ok taken t) :
    ∃ push, Push.read? op rest = .ok push ∧ taken = Instruction.dataSize ⟨op, push⟩ := by
  have hnone (hc : Opcode.category op ≠ .constant) (hzero : taken = 0) :
      ∃ push, Push.read? op rest = .ok push ∧ taken = Instruction.dataSize ⟨op, push⟩ :=
    ⟨none, read_of_not_constant hc rest, hzero⟩
  rw [runInstruction] at h
  cases hc : Opcode.category op with
  | constant =>
    simp only [hc, onMain] at h
    split at h
    · cases h
      rename_i hrun
      exact runConstant_taken hrun
    · cases h
  | flow | stack | splice | bitwise | arithmetic | crypto =>
    rw [hc] at h hnone
    exact hnone Category.noConfusion (taken_eq_zero h)
  | unimplemented | disabled | reserved | unassigned =>
    rw [hc] at h
    cases h

theorem countOperation_le (op : UInt8) (operations : Nat) :
    countOperation op operations ≤ operations + 1 := by
  unfold countOperation
  split
  · exact Nat.le_succ _
  · exact Nat.le_refl _

section

variable {position operations : Nat} {fetched : List Fetch} {e : Failure}

theorem runFrom_exceeded (limits : ScriptLimits)
    (h : limits.operations < countOperation op operations) :
    runFrom limits position operations fetched (op :: rest) s =
      ⟨.error (.limitExceeded (.operations limits.operations)), s,
        (⟨position, op, s.main.size⟩ :: fetched).reverse⟩ := by
  rw [runFrom]
  exact if_pos h

theorem runFrom_error (limits : ScriptLimits)
    (hwithin : ¬ limits.operations < countOperation op operations)
    (hs : runInstruction limits op rest s = .error e t) :
    runFrom limits position operations fetched (op :: rest) s =
      ⟨.error e, t, (⟨position, op, s.main.size⟩ :: fetched).reverse⟩ := by
  rw [runFrom]
  rw [if_neg hwithin, hs]

theorem runFrom_ok (limits : ScriptLimits)
    (hwithin : ¬ limits.operations < countOperation op operations)
    (hs : runInstruction limits op rest s = .ok taken t) :
    runFrom limits position operations fetched (op :: rest) s =
      runFrom limits (position + 1 + taken) (countOperation op operations)
        (⟨position, op, s.main.size⟩ :: fetched) (rest.drop taken) t := by
  rw [runFrom]
  rw [if_neg hwithin, hs]

end

end ScriptLedger.Script
