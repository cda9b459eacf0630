import Mathlib.Data.List.Nodup
import ScriptLedger.Proofs.Script.PushForm
import ScriptLedger.Proofs.Script.Walk

namespace ScriptLedger

namespace Bytes

theorem ofText_append (s t : String) : ofText (s ++ t) = ofText s ++ ofText t := by
  rw [ofText, String.toList_append, List.flatMap_append]
  rfl

theorem ofText_eq (s : String) : ofText s = s.toByteArray.data.toList := by
  have hbytes : (String.ofList s.toList).toByteArray = s.toList.utf8Encode :=
    String.toByteArray_ofList
  rw [String.ofList_toList] at hbytes
  rw [hbytes, List.utf8Encode, List.data_toByteArray]
  rfl

end Bytes

namespace Text

/-- A word of a listing: it is not empty and has no space in it. -/
def IsWord (w : String) : Prop :=
  w.toList ≠ [] ∧ ' ' ∉ w.toList

variable {w : String} {ws vs : List String}

theorem isWord_of_ofText {b : UInt8} (hb : b ∈ Bytes.ofText w) (hspace : 0x20 ∉ Bytes.ofText w) :
    IsWord w := by
  constructor
  case left =>
    intro hempty
    rw [Bytes.ofText, hempty] at hb
    cases hb
  case right =>
    intro hmem
    apply hspace
    exact List.mem_flatMap.mpr ⟨' ', hmem, by decide⟩

/-- Words with spaces between them are told apart at the spaces. -/
theorem splitOn_intercalate (h : ∀ w ∈ ws, IsWord w) :
    ((" ".intercalate ws).toList.splitOn ' ').filter (!·.isEmpty) = ws.map String.toList := by
  rw [String.toList_intercalate]
  cases ws with
  | nil => rfl
  | cons w ws =>
    have hwords : ∀ cs ∈ (w :: ws).map String.toList, cs ≠ [] ∧ ' ' ∉ cs := by
      intro cs hcs
      obtain ⟨w', hw', rfl⟩ := List.mem_map.mp hcs
      exact h w' hw'
    have hsplit : List.splitOn ' ' (" ".toList.intercalate ((w :: ws).map String.toList)) =
        (w :: ws).map String.toList :=
      List.splitOn_intercalate ' ' (fun cs hcs => (hwords cs hcs).2) (List.cons_ne_nil _ _)
    rw [hsplit, List.filter_eq_self]
    intro cs hcs
    rw [List.isEmpty_eq_false_iff.mpr (hwords cs hcs).1]
    rfl

theorem intercalate_inj (hws : ∀ w ∈ ws, IsWord w) (hvs : ∀ v ∈ vs, IsWord v)
    (h : " ".intercalate ws = " ".intercalate vs) : ws = vs := by
  have hmap : ws.map String.toList = vs.map String.toList := by
    rw [← splitOn_intercalate hws, ← splitOn_intercalate hvs, h]
  exact List.map_injective_iff.mpr (fun _ _ => String.toList_injective) hmap

end Text

namespace Hex

variable {bs bs' : Bytes}

theorem encode_inj (h : encode bs = encode bs') : bs = bs' := by
  have hdecode := decode_encode bs
  rw [h, decode_encode] at hdecode
  cases hdecode
  rfl

theorem not_mem_ofText_encode {b : UInt8} (hb : value? b = none) (bs : Bytes) :
    b ∉ Bytes.ofText (encode bs) := by
  intro hmem
  obtain ⟨-, hdigits, -⟩ := ofText_encode bs
  have hdigit := hdigits b hmem
  rw [hb] at hdigit
  cases hdigit

theorem isWord_encode (h : bs ≠ []) : Text.IsWord (encode bs) := by
  obtain ⟨hlength, -, -⟩ := ofText_encode bs
  have hpos : 0 < (Bytes.ofText (encode bs)).length := by
    have := List.length_pos_iff.mpr h
    omega
  obtain ⟨b, hb⟩ := List.exists_mem_of_length_pos hpos
  exact Text.isWord_of_ofText hb (not_mem_ofText_encode rfl bs)

end Hex

namespace Script

variable {op op' : UInt8} {rest script : Bytes} {push : Option Push}

namespace Opcode

theorem display_cases (op : UInt8) :
    (∃ e ∈ table, e.code = op ∧ display op = e.name) ∨ display op = "0x" ++ Hex.encode [op] := by
  unfold display name?
  cases hf : find? op with
  | none => exact .inr rfl
  | some e => exact .inl ⟨e, List.mem_of_find?_eq_some hf, code_of_find? hf, rfl⟩

/-- The names have an `O`, but neither a space nor an `x`. -/
theorem ofText_name : ∀ e ∈ table, 0x4f ∈ Bytes.ofText e.name ∧ 0x20 ∉ Bytes.ofText e.name ∧
    0x78 ∉ Bytes.ofText e.name := by
  simp only [Bytes.ofText_eq]
  decide +kernel

theorem name_inj {e e' : Entry} (he : e ∈ table) (he' : e' ∈ table) (h : e.name = e'.name) :
    e = e' := by
  -- The bytes of the names are compared as numbers, which is fast.
  have hnodup : (table.map fun e => LittleEndian.decode (Bytes.ofText e.name)).Nodup := by
    simp only [Bytes.ofText_eq]
    decide +kernel
  exact List.inj_on_of_nodup_map hnodup he he' (by rw [h])

theorem ofText_value (op : UInt8) :
    0x78 ∈ Bytes.ofText ("0x" ++ Hex.encode [op]) ∧
      0x20 ∉ Bytes.ofText ("0x" ++ Hex.encode [op]) := by
  have hdigits := Hex.not_mem_ofText_encode (b := 0x20) rfl [op]
  rw [Bytes.ofText_append]
  constructor
  case left => exact List.mem_append_left _ (by decide)
  case right =>
    rw [List.mem_append]
    rintro (hmem | hmem)
    · exact absurd hmem (by decide)
    · exact hdigits hmem

theorem isWord_display (op : UInt8) : Text.IsWord (display op) := by
  obtain ⟨e, he, -, hname⟩ | hvalue := display_cases op
  · obtain ⟨hletter, hspace, -⟩ := ofText_name e he
    rw [hname]
    exact Text.isWord_of_ofText hletter hspace
  · obtain ⟨hletter, hspace⟩ := ofText_value op
    rw [hvalue]
    exact Text.isWord_of_ofText hletter hspace

theorem display_ne_encode (op : UInt8) (bs : Bytes) : display op ≠ Hex.encode bs := by
  intro h
  obtain ⟨e, he, -, hname⟩ | hvalue := display_cases op
  · obtain ⟨hletter, -, -⟩ := ofText_name e he
    rw [← hname, h] at hletter
    exact Hex.not_mem_ofText_encode rfl bs hletter
  · obtain ⟨hletter, -⟩ := ofText_value op
    rw [← hvalue, h] at hletter
    exact Hex.not_mem_ofText_encode rfl bs hletter

theorem name_ne_value {e : Entry} (he : e ∈ table) (op : UInt8) :
    e.name ≠ "0x" ++ Hex.encode [op] := by
  intro h
  obtain ⟨-, -, hletter⟩ := ofText_name e he
  rw [h] at hletter
  exact hletter (ofText_value op).1

theorem display_inj (h : display op = display op') : op = op' := by
  obtain ⟨e, he, rfl, hname⟩ | hvalue := display_cases op
  · obtain ⟨e', he', rfl, hname'⟩ | hvalue' := display_cases op'
    · rw [name_inj he he' (hname.symm.trans (h.trans hname'))]
    · exact absurd (hname.symm.trans (h.trans hvalue')) (name_ne_value he _)
  · obtain ⟨e', he', rfl, hname'⟩ | hvalue' := display_cases op'
    · exact absurd (hname'.symm.trans (h.symm.trans hvalue)) (name_ne_value he' _)
    · rw [hvalue, hvalue', String.append_right_inj] at h
      exact List.head_eq_of_cons_eq (Hex.encode_inj h)

end Opcode

namespace Instruction

variable {i j : Instruction} {is js : List Instruction} {ws vs ws' vs' : List String}
  {data : Bytes} {width : Nat}

def bytes (i : Instruction) : Bytes :=
  i.opcode :: match i.push with
    | none => []
    | some p => LittleEndian.encode p.lengthWidth p.data.length ++ p.data

theorem bytes_of_read (h : Push.read? op rest = .ok push) :
    bytes ⟨op, push⟩ ++ rest.drop (dataSize ⟨op, push⟩) = op :: rest := by
  cases push with
  | none => rfl
  | some p =>
    obtain ⟨f, more, -, rfl, hwidth, rfl⟩ := Push.Form.of_found (Push.found_of_read h)
    obtain ⟨_, data⟩ := p
    obtain rfl : _ = f.lengthWidth := hwidth
    have hdrop : (f.operand data ++ more).drop
        (dataSize ⟨f.opcode data.length, some ⟨f.lengthWidth, data⟩⟩) = more :=
      List.drop_left' (f.length_operand data)
    rw [hdrop]
    rfl

theorem flatMap_bytes (h : (split script).failure = none) :
    (split script).instructions.flatMap bytes = script := by
  induction script using split_induction with
  | nil =>
    rw [split_nil]
    rfl
  | cut op rest e hread =>
    rw [split_cons_error hread] at h
    cases h
  | cons op rest push hread ih =>
    rw [split_cons_ok hread] at h ⊢
    rw [List.flatMap_cons, ih h]
    exact bytes_of_read hread

def isEmptyPush (i : Instruction) : Bool :=
  (Push.lengthWidth? i.opcode).isSome && i.push.any (·.data.isEmpty)

/-- The words of an instruction that is no empty push: its opcode, its data, or both. The opcode of
a direct push is not among them, nor is any length. -/
inductive Spoken : Instruction → List String → Prop where
  | opcode {op : UInt8} (hw : Push.lengthWidth? op = none) : Spoken ⟨op, none⟩ [Opcode.display op]
  | data {data : Bytes} (h : data ≠ []) :
      Spoken ⟨UInt8.ofNat data.length, some ⟨0, data⟩⟩ [Hex.encode data]
  | both {op : UInt8} {width : Nat} {data : Bytes} (hw : Push.lengthWidth? op = some width)
      (h : data ≠ []) :
      Spoken ⟨op, some ⟨width, data⟩⟩ [Opcode.display op, Hex.encode data]

theorem words_direct (hd : Opcode.isDirectPush op = true) (h : data ≠ []) :
    words ⟨op, some ⟨width, data⟩⟩ = [Hex.encode data] := by
  have hfull := List.isEmpty_eq_false_iff.mpr h
  simp only [words, hd, hfull]
  rfl

theorem words_sized (hd : Opcode.isDirectPush op = false) (h : data ≠ []) :
    words ⟨op, some ⟨width, data⟩⟩ = [Opcode.display op, Hex.encode data] := by
  have hfull := List.isEmpty_eq_false_iff.mpr h
  simp only [words, hd, hfull]
  rfl

theorem spoken_of_read (h : Push.read? op rest = .ok push)
    (hfull : isEmptyPush ⟨op, push⟩ = false) : Spoken ⟨op, push⟩ (words ⟨op, push⟩) := by
  cases Push.found_of_read h with
  | bare hd hw => exact .opcode hw
  | direct hd hn =>
    have hlength := List.length_take_of_le hn
    have hdata : rest.take op.toNat ≠ [] := by
      obtain ⟨hlow, -⟩ := Push.Form.isDirectPush_iff.mp hd
      rw [← List.length_pos_iff, hlength]
      exact hlow
    have hspoken := Spoken.data hdata
    rw [hlength, UInt8.ofNat_toNat] at hspoken
    rwa [words_direct hd hdata]
  | @sized width hd hw hn =>
    have hdata : (rest.drop width).take (LittleEndian.decode (rest.take width)) ≠ [] := by
      intro hempty
      simp [isEmptyPush, hw, hempty] at hfull
    rw [words_sized hd hdata]
    exact .both hw hdata

theorem spoken_of_split (hfull : ∀ i ∈ (split script).instructions, i.isEmptyPush = false) :
    ∀ i ∈ (split script).instructions, Spoken i i.words := by
  induction script using split_induction with
  | nil =>
    rw [split_nil]
    exact List.forall_mem_nil _
  | cut op rest e hread =>
    rw [split_cons_error hread]
    exact List.forall_mem_nil _
  | cons op rest push hread ih =>
    rw [split_cons_ok hread] at hfull ⊢
    obtain ⟨hfirst, hmore⟩ := List.forall_mem_cons.mp hfull
    exact List.forall_mem_cons.mpr ⟨spoken_of_read hread hfirst, ih hmore⟩

namespace Spoken

theorem ne_nil (h : Spoken i ws) : ws ≠ [] := by
  cases h with
  | opcode => exact List.cons_ne_nil _ _
  | data => exact List.cons_ne_nil _ _
  | both => exact List.cons_ne_nil _ _

theorem isWord (h : Spoken i ws) : ∀ w ∈ ws, Text.IsWord w := by
  cases h with
  | opcode => exact List.forall_mem_singleton.mpr (Opcode.isWord_display _)
  | data h => exact List.forall_mem_singleton.mpr (Hex.isWord_encode h)
  | both _ h =>
    exact List.forall_mem_cons.mpr ⟨Opcode.isWord_display _,
      List.forall_mem_singleton.mpr (Hex.isWord_encode h)⟩

/-- The first words of a listing belong to one instruction only. An opcode that carries no data is
not shown as one that does, and neither is shown as data. -/
theorem append_inj (hi : Spoken i ws) (hj : Spoken j vs) (h : ws ++ ws' = vs ++ vs') :
    i = j ∧ ws' = vs' := by
  cases hi with
  | opcode hw =>
    cases hj with
    | opcode =>
      obtain ⟨hop, hmore⟩ := List.cons.inj h
      exact ⟨by rw [Opcode.display_inj hop], hmore⟩
    | data => exact absurd (List.cons.inj h).1 (Opcode.display_ne_encode _ _)
    | both hw' =>
      rw [Opcode.display_inj (List.cons.inj h).1, hw'] at hw
      cases hw
  | data =>
    cases hj with
    | opcode => exact absurd (List.cons.inj h).1.symm (Opcode.display_ne_encode _ _)
    | data =>
      obtain ⟨hdata, hmore⟩ := List.cons.inj h
      exact ⟨by rw [Hex.encode_inj hdata], hmore⟩
    | both => exact absurd (List.cons.inj h).1.symm (Opcode.display_ne_encode _ _)
  | both hw =>
    cases hj with
    | opcode hw' =>
      rw [Opcode.display_inj (List.cons.inj h).1, hw'] at hw
      cases hw
    | data => exact absurd (List.cons.inj h).1 (Opcode.display_ne_encode _ _)
    | both hw' =>
      obtain ⟨hop, hmore⟩ := List.cons.inj h
      obtain ⟨hdata, hmore⟩ := List.cons.inj hmore
      obtain rfl := Opcode.display_inj hop
      cases hw.symm.trans hw'
      exact ⟨by rw [Hex.encode_inj hdata], hmore⟩

end Spoken

theorem flatMap_words_inj (his : ∀ i ∈ is, Spoken i i.words) (hjs : ∀ j ∈ js, Spoken j j.words)
    (h : is.flatMap words = js.flatMap words) : is = js := by
  induction is generalizing js with
  | nil =>
    cases js with
    | nil => rfl
    | cons j js =>
      obtain ⟨hj, -⟩ := List.forall_mem_cons.mp hjs
      exact absurd (List.append_eq_nil_iff.mp h.symm).1 hj.ne_nil
  | cons i is ih =>
    obtain ⟨hi, his'⟩ := List.forall_mem_cons.mp his
    cases js with
    | nil => exact absurd (List.append_eq_nil_iff.mp h).1 hi.ne_nil
    | cons j js =>
      obtain ⟨hj, hjs'⟩ := List.forall_mem_cons.mp hjs
      obtain ⟨rfl, hmore⟩ := hi.append_inj hj h
      rw [ih his' hjs' hmore]

end Instruction

open Instruction

theorem isWord_of_spoken {is : List Instruction} (h : ∀ i ∈ is, Spoken i i.words) :
    ∀ w ∈ is.flatMap words, Text.IsWord w := by
  intro w hw
  obtain ⟨i, hi, hmem⟩ := List.mem_flatMap.mp hw
  exact (h i hi).isWord w hmem

theorem disassemble_eq_ok {text : String} (h : disassemble script = .ok text) :
    (split script).failure = none ∧
      text = " ".intercalate ((split script).instructions.flatMap words) := by
  unfold disassemble at h
  cases hf : (split script).failure with
  | none =>
    simp only [hf] at h
    cases h
    exact ⟨rfl, rfl⟩
  | some e =>
    simp only [hf] at h
    cases h

/-- A listing tells everything about a script but where a length field announces no data: no two
scripts without such pushes have one listing. -/
theorem disassemble_inj {s t : Bytes} {text : String} (hs : disassemble s = .ok text)
    (ht : disassemble t = .ok text)
    (hsfull : ∀ i ∈ (split s).instructions, i.isEmptyPush = false)
    (htfull : ∀ i ∈ (split t).instructions, i.isEmptyPush = false) : s = t := by
  obtain ⟨hswhole, hstext⟩ := disassemble_eq_ok hs
  obtain ⟨htwhole, httext⟩ := disassemble_eq_ok ht
  have hsspoken := spoken_of_split hsfull
  have htspoken := spoken_of_split htfull
  have hwords := Text.intercalate_inj (isWord_of_spoken hsspoken) (isWord_of_spoken htspoken)
    (hstext.symm.trans httext)
  rw [← flatMap_bytes hswhole, ← flatMap_bytes htwhole, flatMap_words_inj hsspoken htspoken hwords]

theorem disassemble_inj_parts :
    let s : Bytes := [0x76, 0xa9, 0x02, 0xab, 0xcd, 0x4c, 0x01, 0x87, 0xba]
    let t : Bytes := [0x76, 0xa9] ++ [0x02, 0xab, 0xcd, 0x4c, 0x01, 0x87] ++ [0xba]
    disassemble s = .ok "OP_DUP OP_HASH160 abcd OP_PUSHDATA1 87 0xba" ∧
      disassemble t = .ok "OP_DUP OP_HASH160 abcd OP_PUSHDATA1 87 0xba" ∧
      (∀ i ∈ (split s).instructions, i.isEmptyPush = false) ∧
      (∀ i ∈ (split t).instructions, i.isEmptyPush = false) ∧ s = t := by
  intro s t
  have hs : disassemble s = .ok "OP_DUP OP_HASH160 abcd OP_PUSHDATA1 87 0xba" := by decide +kernel
  have ht : disassemble t = .ok "OP_DUP OP_HASH160 abcd OP_PUSHDATA1 87 0xba" := by decide +kernel
  have hsfull : ∀ i ∈ (split s).instructions, i.isEmptyPush = false := by decide +kernel
  have htfull : ∀ i ∈ (split t).instructions, i.isEmptyPush = false := by decide +kernel
  exact ⟨hs, ht, hsfull, htfull, disassemble_inj hs ht hsfull htfull⟩

/-- An empty push and a direct one are listed as one push with a length field. -/
example : disassemble [0x4c, 0x00, 0x01, 0xab] = disassemble [0x4c, 0x01, 0xab] := by
  decide +kernel

end Script
end ScriptLedger
