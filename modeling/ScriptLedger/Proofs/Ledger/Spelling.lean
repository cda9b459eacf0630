import ScriptLedger.Proofs.Ledger.Size
import ScriptLedger.Proofs.Wire.Counted

namespace ScriptLedger

open Wire Decoder

variable {bs : Bytes} {cap : Option Nat}

structure Input.Spelling where
  prevTx : Hash256
  prevIndex : UInt32
  script : Counted UInt8
  sequence : UInt32

structure Output.Spelling where
  value : UInt64
  script : Counted UInt8

/-- A transaction as it is written, with the forms of the numbers of its inputs and outputs. -/
structure Transaction.Spelling where
  version : UInt32
  inputs : Counted Input.Spelling
  outputs : Counted Output.Spelling
  lockTime : UInt32

structure Block.Spelling where
  header : Header
  transactions : Counted Transaction.Spelling

namespace Input.Spelling

def meaning (w : Spelling) : Input :=
  ⟨w.prevTx, w.prevIndex, w.script.items, w.sequence⟩

def bytes (w : Spelling) : Bytes :=
  w.prevTx.bytes ++ Format.encode w.prevIndex ++ VarBytes.spell w.script
    ++ Format.encode w.sequence

def numerals (w : Spelling) : List Numeral :=
  [w.script.count]

def Within (cap : Option Nat) (w : Spelling) : Prop :=
  VarBytes.Within cap w.script.items

theorem respells (w : Spelling) : Respells w.bytes w.meaning.encode w.numerals :=
  (((Respells.refl _).append (.refl _)).append (VarBytes.respells w.script)).append (.refl _)

theorem reads (w : Spelling) (h : w.Within cap) :
    Reads (Input.readWith cap) w.bytes w.meaning := by
  have hs := (VarBytes.parses cap).reads_iff.2 ⟨w.script, h, rfl, rfl⟩
  have hb : w.bytes = w.prevTx.bytes ++ (Format.encode w.prevIndex ++ (VarBytes.spell w.script
      ++ (Format.encode w.sequence ++ []))) := by
    simp only [bytes, List.append_assoc, List.append_nil]
  rw [hb]
  exact (Exact.reads w.prevTx).bind ((Exact.reads _).bind (hs.bind ((Exact.reads _).bind
    (.pure _))))

theorem of_reads {i : Input} (h : Reads (Input.readWith cap) bs i) :
    ∃ w : Spelling, w.Within cap ∧ w.bytes = bs ∧ w.meaning = i := by
  unfold Input.readWith at h
  obtain ⟨_, _, prevTx, rfl, h₁, h⟩ := (reads_bind_iff Exact.isLocal).1 h
  obtain ⟨_, _, prevIndex, rfl, h₂, h⟩ := (reads_bind_iff Exact.isLocal).1 h
  obtain ⟨_, _, _, rfl, h₃, h⟩ := (reads_bind_iff (VarBytes.parses cap).isLocal).1 h
  obtain ⟨_, _, sequence, rfl, h₄, h⟩ := (reads_bind_iff Exact.isLocal).1 h
  obtain ⟨rfl, rfl⟩ := reads_pure_iff.1 h
  obtain rfl := Exact.reads_iff.1 h₁
  obtain rfl := Exact.reads_iff.1 h₂
  obtain ⟨script, hs, rfl, rfl⟩ := (VarBytes.parses cap).reads_iff.1 h₃
  obtain rfl := Exact.reads_iff.1 h₄
  refine ⟨⟨prevTx, prevIndex, script, sequence⟩, hs, ?_, rfl⟩
  simp only [bytes, List.append_assoc, List.append_nil]
  rfl

theorem parses (cap : Option Nat) :
    Parses (Input.readWith cap) bytes meaning (Within cap) where
  isLocal := Exact.isLocal.bind fun _ => Exact.isLocal.bind fun _ =>
    (VarBytes.parses cap).isLocal.bind fun _ => Exact.isLocal.bind fun _ => .pure _
  reads_iff := by
    refine ⟨of_reads, fun h => ?_⟩
    obtain ⟨w, hw, rfl, rfl⟩ := h
    exact w.reads hw

end Input.Spelling

namespace Output.Spelling

def meaning (w : Spelling) : Output :=
  ⟨w.value, w.script.items⟩

def bytes (w : Spelling) : Bytes :=
  Format.encode w.value ++ VarBytes.spell w.script

def numerals (w : Spelling) : List Numeral :=
  [w.script.count]

def Within (cap : Option Nat) (w : Spelling) : Prop :=
  VarBytes.Within cap w.script.items

theorem respells (w : Spelling) : Respells w.bytes w.meaning.encode w.numerals :=
  (Respells.refl _).append (VarBytes.respells w.script)

theorem reads (w : Spelling) (h : w.Within cap) :
    Reads (Output.readWith cap) w.bytes w.meaning := by
  have hs := (VarBytes.parses cap).reads_iff.2 ⟨w.script, h, rfl, rfl⟩
  have hb : w.bytes = Format.encode w.value ++ (VarBytes.spell w.script ++ []) := by
    rw [List.append_nil, bytes]
  rw [hb]
  exact (Exact.reads w.value).bind (hs.bind (.pure _))

theorem of_reads {o : Output} (h : Reads (Output.readWith cap) bs o) :
    ∃ w : Spelling, w.Within cap ∧ w.bytes = bs ∧ w.meaning = o := by
  unfold Output.readWith at h
  obtain ⟨_, _, value, rfl, h₁, h⟩ := (reads_bind_iff Exact.isLocal).1 h
  obtain ⟨_, _, _, rfl, h₂, h⟩ := (reads_bind_iff (VarBytes.parses cap).isLocal).1 h
  obtain ⟨rfl, rfl⟩ := reads_pure_iff.1 h
  obtain rfl := Exact.reads_iff.1 h₁
  obtain ⟨script, hs, rfl, rfl⟩ := (VarBytes.parses cap).reads_iff.1 h₂
  exact ⟨⟨value, script⟩, hs, by rw [List.append_nil, bytes], rfl⟩

theorem parses (cap : Option Nat) :
    Parses (Output.readWith cap) bytes meaning (Within cap) where
  isLocal := Exact.isLocal.bind fun _ => (VarBytes.parses cap).isLocal.bind fun _ => .pure _
  reads_iff := by
    refine ⟨of_reads, fun h => ?_⟩
    obtain ⟨w, hw, rfl, rfl⟩ := h
    exact w.reads hw

end Output.Spelling

namespace Transaction.Spelling

def meaning (w : Spelling) : Transaction :=
  make w.version (w.inputs.items.map Input.Spelling.meaning)
    (w.outputs.items.map Output.Spelling.meaning) w.lockTime

def bytes (w : Spelling) : Bytes :=
  Format.encode w.version ++ w.inputs.spell Input.Spelling.bytes
    ++ w.outputs.spell Output.Spelling.bytes ++ Format.encode w.lockTime

def numerals (w : Spelling) : List Numeral :=
  w.inputs.count :: w.inputs.items.flatMap Input.Spelling.numerals
    ++ w.outputs.count :: w.outputs.items.flatMap Output.Spelling.numerals

def Within (cap : Option Nat) (w : Spelling) : Prop :=
  (∀ i ∈ w.inputs.items, i.Within cap) ∧ ∀ o ∈ w.outputs.items, o.Within cap

theorem respells (w : Spelling) : Respells w.bytes w.meaning.encode w.numerals := by
  have hi := w.inputs.respells fun i _ => i.respells
  have ho := w.outputs.respells fun o _ => o.respells
  have h := (((Respells.refl (Format.encode w.version)).append hi).append ho).append
    (.refl (Format.encode w.lockTime))
  simpa [meaning, make, refreshHash, Transaction.encode, Format.encode, bytes, numerals,
    List.flatMap_map] using h

theorem reads (w : Spelling) (h : w.Within cap) :
    Reads (Transaction.readWith cap) w.bytes w.meaning := by
  have hi := (Counted.parses (Input.Spelling.parses cap)).reads_iff.2 ⟨w.inputs, h.1, rfl, rfl⟩
  have ho := (Counted.parses (Output.Spelling.parses cap)).reads_iff.2 ⟨w.outputs, h.2, rfl, rfl⟩
  have hb : w.bytes = Format.encode w.version ++ (w.inputs.spell Input.Spelling.bytes
      ++ (w.outputs.spell Output.Spelling.bytes ++ (Format.encode w.lockTime ++ []))) := by
    simp only [bytes, List.append_assoc, List.append_nil]
  rw [hb]
  exact (Exact.reads w.version).bind (hi.bind (ho.bind ((Exact.reads _).bind (.pure _))))

theorem of_reads {t : Transaction} (h : Reads (Transaction.readWith cap) bs t) :
    ∃ w : Spelling, w.Within cap ∧ w.bytes = bs ∧ w.meaning = t := by
  have hi := Counted.parses (Input.Spelling.parses cap)
  have ho := Counted.parses (Output.Spelling.parses cap)
  unfold Transaction.readWith at h
  obtain ⟨_, _, version, rfl, h₁, h⟩ := (reads_bind_iff Exact.isLocal).1 h
  obtain ⟨_, _, _, rfl, h₂, h⟩ := (reads_bind_iff hi.isLocal).1 h
  obtain ⟨_, _, _, rfl, h₃, h⟩ := (reads_bind_iff ho.isLocal).1 h
  obtain ⟨_, _, lockTime, rfl, h₄, h⟩ := (reads_bind_iff Exact.isLocal).1 h
  obtain ⟨rfl, rfl⟩ := reads_pure_iff.1 h
  obtain rfl := Exact.reads_iff.1 h₁
  obtain ⟨inputs, hwi, rfl, rfl⟩ := hi.reads_iff.1 h₂
  obtain ⟨outputs, hwo, rfl, rfl⟩ := ho.reads_iff.1 h₃
  obtain rfl := Exact.reads_iff.1 h₄
  refine ⟨⟨version, inputs, outputs, lockTime⟩, ⟨hwi, hwo⟩, ?_, rfl⟩
  simp only [bytes, List.append_assoc, List.append_nil]

theorem parses (cap : Option Nat) :
    Parses (Transaction.readWith cap) bytes meaning (Within cap) where
  isLocal := Exact.isLocal.bind fun _ =>
    (Counted.parses (Input.Spelling.parses cap)).isLocal.bind fun _ =>
      (Counted.parses (Output.Spelling.parses cap)).isLocal.bind fun _ =>
        Exact.isLocal.bind fun _ => .pure _
  reads_iff := by
    refine ⟨of_reads, fun h => ?_⟩
    obtain ⟨w, hw, rfl, rfl⟩ := h
    exact w.reads hw

end Transaction.Spelling

namespace Header

theorem local_read : Local Header.read :=
  Exact.isLocal.bind fun _ => Exact.isLocal.bind fun _ => Exact.isLocal.bind fun _ =>
    Exact.isLocal.bind fun _ => Exact.isLocal.bind fun _ => Exact.isLocal.bind fun _ => .pure _

theorem reads_encode (h : Header) : Reads Header.read h.encode h := by
  have hb : h.encode = Format.encode h.version ++ (h.prevBlock.bytes ++ (h.merkleRoot.bytes
      ++ (Format.encode h.timestamp ++ (Format.encode h.bits ++ (Format.encode h.nonce ++ []))))) := by
    simp only [encode, List.append_assoc, List.append_nil]
  rw [hb]
  exact (Exact.reads h.version).bind ((Exact.reads h.prevBlock).bind ((Exact.reads _).bind
    ((Exact.reads _).bind ((Exact.reads _).bind ((Exact.reads _).bind (.pure _))))))

theorem eq_encode_of_reads {h : Header} (hr : Reads Header.read bs h) : bs = h.encode := by
  unfold Header.read at hr
  obtain ⟨_, _, version, rfl, h₁, hr⟩ := (reads_bind_iff Exact.isLocal).1 hr
  obtain ⟨_, _, prevBlock, rfl, h₂, hr⟩ := (reads_bind_iff Exact.isLocal).1 hr
  obtain ⟨_, _, merkleRoot, rfl, h₃, hr⟩ := (reads_bind_iff Exact.isLocal).1 hr
  obtain ⟨_, _, timestamp, rfl, h₄, hr⟩ := (reads_bind_iff Exact.isLocal).1 hr
  obtain ⟨_, _, bits, rfl, h₅, hr⟩ := (reads_bind_iff Exact.isLocal).1 hr
  obtain ⟨_, _, nonce, rfl, h₆, hr⟩ := (reads_bind_iff Exact.isLocal).1 hr
  obtain ⟨rfl, rfl⟩ := reads_pure_iff.1 hr
  obtain rfl := Exact.reads_iff.1 h₁
  obtain rfl := Exact.reads_iff.1 h₂
  obtain rfl := Exact.reads_iff.1 h₃
  obtain rfl := Exact.reads_iff.1 h₄
  obtain rfl := Exact.reads_iff.1 h₅
  obtain rfl := Exact.reads_iff.1 h₆
  simp only [encode, List.append_assoc, List.append_nil]
  rfl

instance : Exact Header where
  isLocal := local_read
  reads_iff {bs h} := by
    refine ⟨eq_encode_of_reads, fun he => ?_⟩
    subst he
    exact h.reads_encode

end Header

namespace Block.Spelling

def meaning (w : Spelling) : Block :=
  make w.header (w.transactions.items.map Transaction.Spelling.meaning)

def bytes (w : Spelling) : Bytes :=
  w.header.encode ++ w.transactions.spell Transaction.Spelling.bytes

def numerals (w : Spelling) : List Numeral :=
  w.transactions.count :: w.transactions.items.flatMap Transaction.Spelling.numerals

def Within (cap : Option Nat) (w : Spelling) : Prop :=
  ∀ t ∈ w.transactions.items, t.Within cap

theorem respells (w : Spelling) : Respells w.bytes w.meaning.record w.numerals := by
  have ht := w.transactions.respells fun t _ => t.respells
  have hr : w.meaning.record = w.header.encode ++ (CompactSize.encode w.transactions.items.length
      ++ w.transactions.items.flatMap fun t => t.meaning.encode) := by
    simp [meaning, make, record, Format.encode, List.flatMap_map, Transaction.inBlock,
      Transaction.encode]
  rw [hr]
  exact (Respells.refl w.header.encode).append ht

end Block.Spelling

namespace Block

theorem local_readOpening : Local readOpening := by
  have hh : Local (Format.read : Decoder Header) := Exact.isLocal
  exact hh.bind fun _ => CompactSize.local_read.bind fun _ => .pure _

theorem local_readRecord (cap : Option Nat) (hash : Hash256) : Local (readRecord cap hash) :=
  local_readOpening.bind fun _ =>
    ((Transaction.Spelling.parses cap).isLocal.times _).bind fun _ => .pure _

theorem reads_readOpening_iff {header : Header} {n : Nat} :
    Reads readOpening bs (header, n) ↔
      ∃ x : Numeral, x.value = n ∧ bs = header.encode ++ x.bytes := by
  unfold readOpening
  rw [reads_bind_iff Header.local_read]
  refine ⟨fun h => ?_, fun h => ?_⟩
  · obtain ⟨_, _, _, rfl, h₁, h⟩ := h
    obtain ⟨_, _, ⟨m, k⟩, rfl, h₂, h⟩ := (reads_bind_iff CompactSize.local_read).1 h
    obtain ⟨rfl, he⟩ := reads_pure_iff.1 h
    cases he
    obtain rfl := Header.eq_encode_of_reads h₁
    obtain ⟨hf, _⟩ := CompactSize.reads_iff.1 h₂
    exact ⟨⟨n, _, hf⟩, rfl, by rw [List.append_nil]⟩
  · obtain ⟨x, rfl, rfl⟩ := h
    have hx := CompactSize.reads_iff.2 ⟨x.form, rfl⟩
    refine ⟨header.encode, x.bytes, header, rfl, header.reads_encode, ?_⟩
    rw [← List.append_nil x.bytes]
    exact hx.bind (.pure _)

theorem reads_readRecord_iff {hash : Hash256} {b : Block} :
    Reads (readRecord cap hash) bs b ↔
      ∃ w : Spelling, w.Within cap ∧ w.bytes = bs ∧
        b = ⟨w.header, hash, (w.transactions.items.map Transaction.Spelling.meaning).map
          (.inBlock hash)⟩ := by
  have ht (n : Nat) := (Transaction.Spelling.parses cap).times n
  unfold readRecord
  rw [reads_bind_iff local_readOpening]
  refine ⟨fun h => ?_, fun h => ?_⟩
  · obtain ⟨_, _, ⟨header, n⟩, rfl, h₁, h⟩ := h
    obtain ⟨_, _, _, rfl, h₂, h⟩ := (reads_bind_iff (ht n).isLocal).1 h
    obtain ⟨rfl, rfl⟩ := reads_pure_iff.1 h
    obtain ⟨x, rfl, rfl⟩ := reads_readOpening_iff.1 h₁
    obtain ⟨ws, ⟨hn, hw⟩, rfl, rfl⟩ := (ht _).reads_iff.1 h₂
    refine ⟨⟨header, x, ws, hn.symm⟩, hw, ?_, rfl⟩
    simp only [Spelling.bytes, Counted.spell, List.append_assoc, List.append_nil]
  · obtain ⟨⟨header, x, ws, hn⟩, hw, rfl, rfl⟩ := h
    refine ⟨header.encode ++ x.bytes, ws.flatMap Transaction.Spelling.bytes, (header, x.value), ?_,
      reads_readOpening_iff.2 ⟨x, rfl, rfl⟩, ?_⟩
    · simp only [Spelling.bytes, Counted.spell, List.append_assoc]
    · rw [← List.append_nil (ws.flatMap _)]
      exact ((ht _).reads_iff.2 ⟨ws, ⟨hn.symm, hw⟩, rfl, rfl⟩).bind (.pure _)

theorem Spelling.header_hash (w : Spelling) :
    Digest.hash256 (w.bytes.take Header.size) = w.header.hash := by
  rw [Spelling.bytes, List.take_left' w.header.length_encode, Header.hash]

/-- A record decodes exactly when it is a spelling with scripts within the cap. -/
theorem decodeRecordWith_eq_ok_iff {record : Bytes} {b : Block} :
    decodeRecordWith cap record = .ok b ↔
      ∃ w : Spelling, w.Within cap ∧ w.bytes = record ∧ w.meaning = b := by
  unfold decodeRecordWith
  refine ⟨fun h => ?_, fun h => ?_⟩
  · split at h
    · cases h
    · rw [decodeAll_eq_ok_iff (local_readRecord _ _), reads_readRecord_iff] at h
      obtain ⟨w, hw, rfl, rfl⟩ := h
      rw [w.header_hash]
      exact ⟨w, hw, rfl, rfl⟩
  · obtain ⟨w, hw, rfl, rfl⟩ := h
    have hl : ¬w.bytes.length < Header.size := by
      rw [Spelling.bytes, List.length_append, w.header.length_encode]
      omega
    rw [if_neg hl, decodeAll_eq_ok_iff (local_readRecord _ _), w.header_hash, reads_readRecord_iff]
    exact ⟨w, hw, rfl, rfl⟩

end Block

end ScriptLedger
