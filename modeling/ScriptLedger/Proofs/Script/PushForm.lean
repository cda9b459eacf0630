import Mathlib.Tactic.IntervalCases
import ScriptLedger.Proofs.Script.Fault
import ScriptLedger.Proofs.Script.Shuffle
import ScriptLedger.Proofs.Script.Step
import ScriptLedger.Proofs.Wire.Reads

namespace ScriptLedger

open Stateful

theorem Failure.exists_of_isTruncated {e : Failure} (h : e.isTruncated = true) :
    ∃ cause, e = .truncated cause := by
  cases e with
  | truncated cause => exact ⟨cause, rfl⟩
  | _ => cases h

namespace Script

variable {op : UInt8} {data rest cut : Bytes} {push : Option Push} {p : Push} {elementSize : Nat}
  {s t : Stack} {taken : Nat} {e : Failure} {n : Int}

def Opcode.ofNumber (n : Int) : UInt8 :=
  if n = 0 then 0x00 else UInt8.ofNat (0x50 + n).toNat

namespace Push

/-- The ways to write a push: the opcode is the length of the data, or a length field of one, two or
four bytes stands between them. -/
inductive Form where
  | direct
  | data1
  | data2
  | data4
  deriving DecidableEq, Repr

namespace Form

def lengthWidth : Form → Nat
  | direct => 0
  | data1 => 1
  | data2 => 2
  | data4 => 4

def opcode (length : Nat) : Form → UInt8
  | direct => UInt8.ofNat length
  | data1 => 0x4c
  | data2 => 0x4d
  | data4 => 0x4e

def Fits (length : Nat) : Form → Prop
  | direct => 1 ≤ length ∧ length ≤ 75
  | data1 => length ≤ 255
  | data2 => length ≤ 65535
  | data4 => length < 4294967296

instance (length : Nat) : (f : Form) → Decidable (f.Fits length)
  | direct => inferInstanceAs (Decidable (1 ≤ length ∧ length ≤ 75))
  | data1 => inferInstanceAs (Decidable (length ≤ 255))
  | data2 => inferInstanceAs (Decidable (length ≤ 65535))
  | data4 => inferInstanceAs (Decidable (length < 4294967296))

/-- What stands behind the opcode: the length field and the data. -/
def operand (data : Bytes) (f : Form) : Bytes :=
  LittleEndian.encode f.lengthWidth data.length ++ data

theorem length_operand (f : Form) (data : Bytes) :
    (f.operand data).length = f.lengthWidth + data.length := by
  rw [operand, List.length_append, LittleEndian.length_encode]

theorem found_sized {width : Nat} (hd : Opcode.isDirectPush op = false)
    (hw : lengthWidth? op = some width) (h : data.length < 256 ^ width) (rest : Bytes) :
    Found op (LittleEndian.encode width data.length ++ (data ++ rest)) (some ⟨width, data⟩) := by
  have hfield : (LittleEndian.encode width data.length).length = width :=
    LittleEndian.length_encode _ _
  have hlength : LittleEndian.decode ((LittleEndian.encode width data.length ++
      (data ++ rest)).take width) = data.length := by
    rw [List.take_left' hfield, LittleEndian.decode_encode h]
  have hle : width + LittleEndian.decode ((LittleEndian.encode width data.length ++
      (data ++ rest)).take width) ≤
        (LittleEndian.encode width data.length ++ (data ++ rest)).length := by
    rw [hlength, List.length_append, List.length_append, hfield, ← Nat.add_assoc]
    exact Nat.le_add_right _ _
  have hfound := Found.sized hd hw hle
  rwa [hlength, List.drop_left' hfield, List.take_left] at hfound

theorem isDirectPush_iff : Opcode.isDirectPush op = true ↔ 1 ≤ op.toNat ∧ op.toNat ≤ 75 := by
  rw [Opcode.isDirectPush, Bool.and_eq_true, decide_eq_true_eq, decide_eq_true_eq,
    UInt8.le_iff_toNat_le, UInt8.le_iff_toNat_le]
  rfl

theorem toNat_ofNat {length : Nat} (h : direct.Fits length) :
    (UInt8.ofNat length).toNat = length := by
  obtain ⟨-, hhigh⟩ := h
  rw [UInt8.toNat_ofNat']
  omega

theorem isDirectPush_ofNat {length : Nat} (h : direct.Fits length) :
    Opcode.isDirectPush (UInt8.ofNat length) = true := by
  rw [isDirectPush_iff, toNat_ofNat h]
  exact h

theorem found {f : Form} (h : f.Fits data.length) (rest : Bytes) :
    Found (f.opcode data.length) (f.operand data ++ rest) (some ⟨f.lengthWidth, data⟩) := by
  cases f with
  | direct =>
    have hop := toNat_ofNat h
    have hd := isDirectPush_ofNat h
    have hle : (UInt8.ofNat data.length).toNat ≤ (data ++ rest).length := by
      rw [hop, List.length_append]
      exact Nat.le_add_right _ _
    have hfound := Found.direct hd hle
    rwa [hop, List.take_left] at hfound
  | data1 =>
    rw [operand, List.append_assoc]
    exact found_sized rfl rfl (Nat.lt_succ_of_le h) rest
  | data2 =>
    rw [operand, List.append_assoc]
    exact found_sized rfl rfl (Nat.lt_succ_of_le h) rest
  | data4 =>
    rw [operand, List.append_assoc]
    exact found_sized rfl rfl h rest

/-- Every push that is found is written in one of the forms. -/
theorem of_found (h : Found op rest (some p)) :
    ∃ (f : Form) (more : Bytes), f.Fits p.data.length ∧ op = f.opcode p.data.length ∧
      p.lengthWidth = f.lengthWidth ∧ rest = f.operand p.data ++ more := by
  cases h with
  | direct hd hn =>
    have hlength : (rest.take op.toNat).length = op.toNat := List.length_take_of_le hn
    refine ⟨direct, rest.drop op.toNat, ?_, ?_, rfl, ?_⟩
    · rw [hlength]
      exact isDirectPush_iff.mp hd
    · rw [hlength, opcode, UInt8.ofNat_toNat]
    · exact (List.take_append_drop _ _).symm
  | @sized width hd hw hn =>
    have hfield : (rest.take width).length = width :=
      List.length_take_of_le (Nat.le_of_add_right_le hn)
    have hlength : ((rest.drop width).take (LittleEndian.decode (rest.take width))).length =
        LittleEndian.decode (rest.take width) := by
      rw [List.length_take, List.length_drop]
      omega
    have hbound := LittleEndian.decode_lt (rest.take width)
    have hencode := LittleEndian.encode_decode (rest.take width)
    rw [hfield] at hbound hencode
    have hrest : rest = LittleEndian.encode width (LittleEndian.decode (rest.take width)) ++
        (rest.drop width).take (LittleEndian.decode (rest.take width)) ++
        (rest.drop width).drop (LittleEndian.decode (rest.take width)) := by
      rw [hencode, List.append_assoc, List.take_append_drop, List.take_append_drop]
    simp only [hlength]
    unfold lengthWidth? at hw
    split at hw <;> cases hw
    case h_1 => exact ⟨data1, _, Nat.le_of_lt_succ hbound, rfl, rfl, by rwa [operand, hlength]⟩
    case h_2 => exact ⟨data2, _, Nat.le_of_lt_succ hbound, rfl, rfl, by rwa [operand, hlength]⟩
    case h_3 => exact ⟨data4, _, hbound, rfl, rfl, by rwa [operand, hlength]⟩

/-- A push that is cut off anywhere is a truncation. -/
theorem read_cut {f : Form} (h : f.Fits data.length) (hcut : cut <+: f.operand data)
    (hne : cut ≠ f.operand data) :
    ∃ cause, read? (f.opcode data.length) cut = .error (.truncated cause) := by
  cases hread : read? (f.opcode data.length) cut with
  | error e =>
    obtain ⟨cause, rfl⟩ := Failure.exists_of_isTruncated (isTruncated_of_read hread)
    exact ⟨cause, rfl⟩
  | ok push =>
    -- A push that is read from a part is read from the whole, which is longer than the part.
    obtain ⟨missing, hmissing⟩ := hcut
    have hpart := found_of_read hread
    have hwhole := (found h []).read_eq
    rw [List.append_nil, ← hmissing, (hpart.append missing).read_eq] at hwhole
    cases hwhole
    have hle : (f.operand data).length ≤ cut.length := by
      rw [length_operand]
      exact hpart.size_le
    have heq := (List.prefix_iff_eq_take.mp (⟨missing, hmissing⟩ : cut <+: f.operand data))
    rw [List.take_of_length_le hle] at heq
    exact absurd heq hne

end Form

theorem read_ofNumber (hlow : -1 ≤ n) (hhigh : n ≤ 16) (rest : Bytes) :
    read? (Opcode.ofNumber n) rest = .ok none := by
  interval_cases n <;> rfl

end Push

namespace Operation

theorem smallItem_ofNumber (hlow : -1 ≤ n) (hhigh : n ≤ 16) :
    smallItem? (Opcode.ofNumber n) = some (Number.encode n) := by
  interval_cases n <;> decide +kernel

theorem runConstant_of_error (h : Push.read? op rest = .error e) :
    runConstant op rest elementSize s = .error e s := by
  rw [runConstant, h]
  rfl

theorem runConstant_of_ok (h : Push.read? op rest = .ok push) :
    runConstant op rest elementSize s =
      match push with
      | some p =>
        if elementSize < p.data.length then
          .error (.limitExceeded (.element p.data.length elementSize)) s
        else (do Stack.push p.data; pure p.size : StackM Nat) s
      | none =>
        match smallItem? op with
        | some item => (do Stack.push item; pure 0 : StackM Nat) s
        | none => .error (.unrecognizedOpcode op .constant) s := by
  have hread : (ofExcept (Push.read? op rest) : StackM (Option Push)) s = .ok push s := by
    rw [h]
    rfl
  rw [runConstant, bind_ok hread]
  cases push with
  | some p =>
    simp only
    split
    · rfl
    · rfl
  | none =>
    cases smallItem? op with
    | some item => rfl
    | none => rfl

theorem push_pure {α : Type} (item : Bytes) (a : α) :
    (Stack.push item >>= fun _ => pure a) s =
      if s.size < s.capacity then .ok a (s.withItems (s.toList ++ [item]))
      else .error (.stackOverflow s.capacity) s := by
  by_cases hroom : s.size < s.capacity
  case pos =>
    rw [bind_ok (Stack.push_withItems hroom item), if_pos hroom]
    rfl
  case neg => rw [bind_error (Stack.push_of_full (Nat.not_lt.mp hroom) item), if_neg hroom]

theorem state_of_push_pure_error {α : Type} {item : Bytes} {a : α}
    (h : (Stack.push item >>= fun _ => pure a) s = .error e t) : t = s := by
  rw [push_pure] at h
  split at h
  · cases h
  · cases h
    rfl

/-- A constant that fails leaves the stack as it was. -/
theorem state_of_runConstant_error (h : runConstant op rest elementSize s = .error e t) :
    t = s := by
  cases hread : Push.read? op rest with
  | error e' =>
    rw [runConstant_of_error hread] at h
    cases h
    rfl
  | ok push =>
    rw [runConstant_of_ok hread] at h
    split at h
    · split at h
      · cases h
        rfl
      · exact state_of_push_pure_error h
    · split at h
      · exact state_of_push_pure_error h
      · cases h
        rfl

theorem runConstant_form (elementSize : Nat) (s : Stack) {f : Push.Form}
    (h : f.Fits data.length) (rest : Bytes) :
    runConstant (f.opcode data.length) (f.operand data ++ rest) elementSize s =
      if elementSize < data.length then
        .error (.limitExceeded (.element data.length elementSize)) s
      else if s.size < s.capacity then
        .ok (f.lengthWidth + data.length) (s.withItems (s.toList ++ [data]))
      else .error (.stackOverflow s.capacity) s := by
  rw [runConstant_of_ok (Push.Form.found h rest).read_eq]
  simp only [push_pure]
  rfl

theorem runConstant_ofNumber (elementSize : Nat) (s : Stack) (hlow : -1 ≤ n) (hhigh : n ≤ 16)
    (rest : Bytes) :
    runConstant (Opcode.ofNumber n) rest elementSize s =
      if s.size < s.capacity then .ok 0 (s.withItems (s.toList ++ [Number.encode n]))
      else .error (.stackOverflow s.capacity) s := by
  rw [runConstant_of_ok (Push.read_ofNumber hlow hhigh rest)]
  simp only [smallItem_ofNumber hlow hhigh, push_pure]

/-- All forms of a push do the same. Each takes its length field and its data and none of what
follows, is truncated if any byte of them is missing, and otherwise pushes the data, unless these are
too wide or there is no room. The opcodes of the small numbers take nothing and push their shortest
form, and no constant touches the stack if it fails. -/
theorem runConstant_delimited (elementSize : Nat) (s : Stack) :
    (∀ (f : Push.Form) (data : Bytes), f.Fits data.length →
      (∀ rest, runConstant (f.opcode data.length) (f.operand data ++ rest) elementSize s =
        if elementSize < data.length then
          .error (.limitExceeded (.element data.length elementSize)) s
        else if s.size < s.capacity then
          .ok (f.lengthWidth + data.length) (s.withItems (s.toList ++ [data]))
        else .error (.stackOverflow s.capacity) s) ∧
      (∀ cut, cut <+: f.operand data → cut ≠ f.operand data →
        ∃ cause, runConstant (f.opcode data.length) cut elementSize s =
          .error (.truncated cause) s) ∧
      ∀ g : Push.Form, g.Fits data.length → ∀ rest rest',
        (runConstant (f.opcode data.length) (f.operand data ++ rest) elementSize *> pure ()) s =
          (runConstant (g.opcode data.length) (g.operand data ++ rest') elementSize *> pure ()) s) ∧
    (∀ n : Int, -1 ≤ n → n ≤ 16 → ∀ rest,
      runConstant (Opcode.ofNumber n) rest elementSize s =
        if s.size < s.capacity then .ok 0 (s.withItems (s.toList ++ [Number.encode n]))
        else .error (.stackOverflow s.capacity) s) ∧
    ∀ op rest e t, runConstant op rest elementSize s = .error e t → t = s := by
  refine ⟨fun f data h => ⟨?whole, ?cut, ?same⟩, ?numbers, ?intact⟩
  case whole => exact runConstant_form elementSize s h
  case cut =>
    intro cut hcut hne
    obtain ⟨cause, hread⟩ := Push.Form.read_cut h hcut hne
    exact ⟨cause, runConstant_of_error hread⟩
  case same =>
    intro g hg rest rest'
    have hf := runConstant_form elementSize s h rest
    have hg := runConstant_form elementSize s hg rest'
    rw [seqRight_eq_bind, seqRight_eq_bind]
    by_cases hwide : elementSize < data.length
    case pos =>
      rw [if_pos hwide] at hf hg
      rw [bind_error hf, bind_error hg]
    case neg =>
      rw [if_neg hwide] at hf hg
      by_cases hroom : s.size < s.capacity
      case pos =>
        rw [if_pos hroom] at hf hg
        rw [bind_ok hf, bind_ok hg]
      case neg =>
        rw [if_neg hroom] at hf hg
        rw [bind_error hf, bind_error hg]
  case numbers =>
    intro n hlow hhigh rest
    exact runConstant_ofNumber elementSize s hlow hhigh rest
  case intact =>
    intro op rest e t h
    exact state_of_runConstant_error h

theorem runConstant_delimited_forms :
    let s : Stack := ⟨[[9]], 2⟩
    Push.Form.data2.Fits 3 ∧
      runConstant 0x4d [3, 0, 1, 2, 3, 0x51] 3 s = .ok 5 ⟨[[1, 2, 3], [9]], 2⟩ ∧
      (∃ cause, runConstant 0x4d [3, 0, 1, 2] 2 s = .error (.truncated cause) s) ∧
      (runConstant 0x4d [3, 0, 1, 2, 3] 2 *> pure ()) s =
        (runConstant 0x03 [1, 2, 3, 0x51] 2 *> pure ()) s ∧
      runConstant 0x4f [0x51] 0 s = .ok 0 ⟨[[0x81], [9]], 2⟩ := by
  intro s
  have hfits : Push.Form.data2.Fits 3 := by decide
  obtain ⟨hforms, -⟩ := runConstant_delimited 3 s
  obtain ⟨hwhole, -⟩ := hforms .data2 [1, 2, 3] hfits
  obtain ⟨hnarrow, -⟩ := runConstant_delimited 2 s
  obtain ⟨-, hcut, hsame⟩ := hnarrow .data2 [1, 2, 3] hfits
  obtain ⟨-, hnumbers, -⟩ := runConstant_delimited 0 s
  have hone := hnumbers (-1) (by decide) (by decide) [0x51]
  have hencode : Number.encode (-1) = [0x81] := by decide +kernel
  rw [hencode] at hone
  exact ⟨hfits, hwhole [0x51], hcut [3, 0, 1, 2] (by decide) (by decide),
    hsame .direct (by decide) [] [0x51], hone⟩

end Operation
end Script
end ScriptLedger
