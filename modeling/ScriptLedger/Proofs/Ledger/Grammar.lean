import ScriptLedger.Proofs.Ledger.Spelling

namespace ScriptLedger

open Wire Decoder

namespace Wire

variable {α : Type} {d : Decoder α} {data bs : Bytes} {declared consumed size m n : Nat}

/-- Bytes are left over exactly when a value is made of a strict part at the front. -/
theorem Decoder.decodeAll_eq_frameMismatch_iff (h : Local d) :
    decodeAll d data = .error (.frameMismatch declared consumed) ↔
      declared = data.length ∧ consumed < data.length ∧ ∃ a, Reads d (data.take consumed) a := by
  unfold decodeAll
  constructor
  · intro he
    cases hs : d (.ofBytes data) with
    | error e s =>
      rw [hs] at he
      cases he
      cases h data with
      | read rest hr => cases (hr rest .finished).symm.trans hs
      | refused hr =>
        obtain ⟨t, ht⟩ := hr [] .finished
        rw [List.append_nil] at ht
        cases ht.symm.trans hs
      | short hr _ =>
        obtain ⟨cause, t, ht⟩ := hr
        cases ht.symm.trans hs
    | ok a s =>
      obtain ⟨bs, rfl, _, hr⟩ := h.reads_of_ok hs
      rw [hs] at he
      simp only at he
      split at he
      case isTrue => cases he
      case isFalse hne =>
        cases he
        have hpos : 0 < s.remaining.length := by
          apply List.length_pos_of_ne_nil
          intro hnil
          exact hne (List.isEmpty_iff.2 hnil)
        refine ⟨rfl, ?_, a, ?_⟩
        · rw [List.length_append]
          omega
        · rwa [List.length_append, Nat.add_sub_cancel_right, List.take_left]
  · rintro ⟨rfl, hlt, a, hr⟩
    have hs := hr (data.drop consumed) .finished
    rw [List.take_append_drop] at hs
    have hne : (data.drop consumed).isEmpty = false := by
      rw [List.isEmpty_eq_false_iff, ← List.length_pos_iff, List.length_drop]
      omega
    have hconsumed : data.length - (data.drop consumed).length = consumed := by
      rw [List.length_drop]
      omega
    simp only [Stream.ofBytes, hs, hne, hconsumed]
    rfl

theorem exists_append_of_length (h : bs.length = m + n) :
    ∃ front back, front.length = m ∧ back.length = n ∧ bs = front ++ back := by
  refine ⟨bs.take m, bs.drop m, ?_, ?_, (List.take_append_drop m bs).symm⟩
  · rw [List.length_take]
    omega
  · rw [List.length_drop]
    omega

theorem exists_word (h : bs.length = 4) : ∃ w : UInt32, Format.encode w = bs := by
  have hlt := LittleEndian.decode_lt bs
  rw [h] at hlt
  refine ⟨UInt32.ofNat (LittleEndian.decode bs), ?_⟩
  change LittleEndian.encode 4 _ = bs
  rw [UInt32.toNat_ofNat_of_lt' hlt, ← h, LittleEndian.encode_decode]

end Wire

theorem Header.exists_encode_eq {bs : Bytes} (h : bs.length = Header.size) :
    ∃ header : Header, header.encode = bs := by
  obtain ⟨front₅, b₆, hf₅, h₆, rfl⟩ := exists_append_of_length (m := 76) (n := 4) h
  obtain ⟨front₄, b₅, hf₄, h₅, rfl⟩ := exists_append_of_length (m := 72) (n := 4) hf₅
  obtain ⟨front₃, b₄, hf₃, h₄, rfl⟩ := exists_append_of_length (m := 68) (n := 4) hf₄
  obtain ⟨front₂, b₃, hf₂, h₃, rfl⟩ := exists_append_of_length (m := 36) (n := 32) hf₃
  obtain ⟨b₁, b₂, h₁, h₂, rfl⟩ := exists_append_of_length (m := 4) (n := 32) hf₂
  obtain ⟨version, rfl⟩ := exists_word h₁
  obtain ⟨timestamp, rfl⟩ := exists_word h₄
  obtain ⟨bits, rfl⟩ := exists_word h₅
  obtain ⟨nonce, rfl⟩ := exists_word h₆
  exact ⟨⟨version, ⟨b₂, h₂⟩, ⟨b₃, h₃⟩, timestamp, bits, nonce⟩, rfl⟩

namespace Block

variable {cap : Option Nat} {record : Bytes} {declared consumed : Nat}

/-- The grammar of records: any bytes of the size of a header, and transactions behind their
number, none of them with a script above the cap. -/
def IsRecord (cap : Option Nat) (record : Bytes) : Prop :=
  ∃ (header : Bytes) (transactions : Counted Transaction.Spelling),
    header.length = 80 ∧ (∀ t ∈ transactions.items, t.Within cap) ∧
      record = header ++ transactions.spell Transaction.Spelling.bytes

theorem isRecord_iff : IsRecord cap record ↔ ∃ w : Spelling, w.Within cap ∧ w.bytes = record := by
  constructor
  · rintro ⟨header, transactions, hl, hw, rfl⟩
    obtain ⟨header, rfl⟩ := Header.exists_encode_eq hl
    exact ⟨⟨header, transactions⟩, hw, rfl⟩
  · rintro ⟨w, hw, rfl⟩
    exact ⟨w.header.encode, w.transactions, w.header.length_encode, hw, rfl⟩

theorem IsRecord.size_le (h : IsRecord cap record) : Header.size ≤ record.length := by
  obtain ⟨header, transactions, hl, _, rfl⟩ := h
  rw [List.length_append, hl]
  exact Nat.le_add_right _ _

theorem decodeRecordWith_ok_iff :
    (∃ b, decodeRecordWith cap record = .ok b) ↔ IsRecord cap record := by
  rw [isRecord_iff]
  constructor
  · rintro ⟨b, hb⟩
    obtain ⟨w, hw, hbytes, _⟩ := decodeRecordWith_eq_ok_iff.1 hb
    exact ⟨w, hw, hbytes⟩
  · rintro ⟨w, hw, hbytes⟩
    exact ⟨w.meaning, decodeRecordWith_eq_ok_iff.2 ⟨w, hw, hbytes, rfl⟩⟩

theorem exists_reads_readRecord_iff {hash : Hash256} :
    (∃ b, Reads (readRecord cap hash) record b) ↔ IsRecord cap record := by
  rw [isRecord_iff]
  constructor
  · rintro ⟨b, hb⟩
    obtain ⟨w, hw, hbytes, _⟩ := reads_readRecord_iff.1 hb
    exact ⟨w, hw, hbytes⟩
  · rintro ⟨w, hw, hbytes⟩
    exact ⟨_, reads_readRecord_iff.2 ⟨w, hw, hbytes, rfl⟩⟩

theorem decodeRecordWith_eq_frameMismatch_iff :
    decodeRecordWith cap record = .error (.frameMismatch declared consumed) ↔
      declared = record.length ∧ consumed < record.length ∧
        IsRecord cap (record.take consumed) := by
  unfold decodeRecordWith
  split
  case isTrue hl =>
    constructor
    · intro h
      cases h
    rintro ⟨_, hlt, hr⟩
    have hsize := hr.size_le
    rw [List.length_take] at hsize
    omega
  case isFalse =>
    rw [decodeAll_eq_frameMismatch_iff (local_readRecord cap _), exists_reads_readRecord_iff]

end Block

/-- What is accepted is what the grammar of transactions and that of records spell, and it is read
as what it spells; a record with bytes left over is reported with the size of the part that the
grammar spells. -/
theorem decode_ok_iff_spelled :
    (∀ (data : Bytes) (t : Transaction),
      decodeAll (Format.read : Decoder Transaction) data = .ok t ↔
        ∃ w : Transaction.Spelling, w.Within (some VarBytes.defaultCap) ∧ w.bytes = data ∧
          w.meaning = t) ∧
    (∀ record : Bytes, (∃ b, Block.decodeRecord record = .ok b) ↔
      Block.IsRecord (some VarBytes.defaultCap) record) ∧
    ∀ (record : Bytes) (declared consumed : Nat),
      Block.decodeRecord record = .error (.frameMismatch declared consumed) ↔
        declared = record.length ∧ consumed < record.length ∧
          Block.IsRecord (some VarBytes.defaultCap) (record.take consumed) := by
  refine ⟨fun data t => ?_, fun record => Block.decodeRecordWith_ok_iff,
    fun record declared consumed => Block.decodeRecordWith_eq_frameMismatch_iff⟩
  have hp := Transaction.Spelling.parses (some VarBytes.defaultCap)
  exact (decodeAll_eq_ok_iff hp.isLocal).trans hp.reads_iff

end ScriptLedger
