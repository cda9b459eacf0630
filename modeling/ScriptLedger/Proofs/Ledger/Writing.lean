import ScriptLedger.Proofs.Ledger.RoundTrip
import ScriptLedger.Proofs.Wire.Writes

namespace ScriptLedger

open Stateful Wire

theorem Input.writes_encode (i : Input) : WritesEncoding i := by
  apply ((WritesEncoding.digest i.prevTx).bind ((WritesEncoding.word32 i.prevIndex).bind
    ((VarBytes.writes_encode i.script).bind ((WritesEncoding.word32 i.sequence).map _)))).of_eq
  · simp only [Format.encode, encode, List.append_assoc]
  · simp only [Format.encode, encode, List.length_append]

theorem Output.writes_encode (o : Output) : WritesEncoding o := by
  apply ((WritesEncoding.word64 o.value).bind ((VarBytes.writes_encode o.script).map _)).of_eq
  · rfl
  · simp only [Format.encode, encode, List.length_append]

theorem Transaction.writes_encode (t : Transaction) : WritesEncoding t := by
  apply ((WritesEncoding.word32 t.version).bind
    ((WritesEncoding.list fun i _ => i.writes_encode).bind
      ((WritesEncoding.list fun o _ => o.writes_encode).bind
        ((WritesEncoding.word32 t.lockTime).map _)))).of_eq
  · simp only [Format.encode, encode, List.append_assoc]
  · simp only [Format.encode, encode, List.length_append]

theorem Header.writes_encode (h : Header) : WritesEncoding h := by
  apply ((WritesEncoding.word32 h.version).bind ((WritesEncoding.digest h.prevBlock).bind
    ((WritesEncoding.digest h.merkleRoot).bind ((WritesEncoding.word32 h.timestamp).bind
      ((WritesEncoding.word32 h.bits).bind ((WritesEncoding.word32 h.nonce).map _)))))).of_eq
  · simp only [Format.encode, encode, List.append_assoc]
  · simp only [Format.encode, encode, List.length_append]

theorem Frame.writes_encode {record : Bytes} (h : record.length < 2 ^ 32) :
    Writes (write record) (encode record) (encode record).length := by
  unfold write
  rw [if_neg (by omega)]
  apply ((Writes.put magic).bind ((Writes.put _).bind (.chunk record _))).of_eq
  · rw [encode, List.append_assoc]
  · rw [length_encode]

theorem Block.writes_encode {b : Block} (h : b.record.length < 2 ^ 32) : WritesEncoding b := by
  have hencode : Format.encode b = Frame.encode b.record := encode_eq h
  unfold WritesEncoding
  rw [hencode]
  exact Frame.writes_encode h

/-- The writers of the values that have a binary form, with that form: words, identifiers, the parts
of a ledger, lists of any of these, blocks that fit a frame, and the numbers and byte strings that
they are made of. -/
inductive ValueWriter : Writer Nat → Bytes → Prop where
  | word32 (n : UInt32) : ValueWriter (Format.write n) (Format.encode n)
  | word64 (n : UInt64) : ValueWriter (Format.write n) (Format.encode n)
  | hash (d : Hash256) : ValueWriter (Format.write d) (Format.encode d)
  | input (i : Input) : ValueWriter (Format.write i) (Format.encode i)
  | output (o : Output) : ValueWriter (Format.write o) (Format.encode o)
  | transaction (t : Transaction) : ValueWriter (Format.write t) (Format.encode t)
  | header (h : Header) : ValueWriter (Format.write h) (Format.encode h)
  | list {α : Type} [Format α] {xs : List α}
      (h : ∀ a ∈ xs, ValueWriter (Format.write a) (Format.encode a)) :
      ValueWriter (Format.write xs) (Format.encode xs)
  | block (b : Block) (h : b.record.length < 2 ^ 32) :
      ValueWriter (Format.write b) (Format.encode b)
  | number (n : Nat) : ValueWriter (CompactSize.write n) (CompactSize.encode n)
  | varBytes (bs : Bytes) : ValueWriter (VarBytes.write bs) (VarBytes.encode bs)

theorem ValueWriter.writes {x : Writer Nat} {bs : Bytes} (h : ValueWriter x bs) :
    Writes x bs bs.length := by
  induction h with
  | word32 n => exact WritesEncoding.word32 n
  | word64 n => exact WritesEncoding.word64 n
  | hash d => exact WritesEncoding.digest d
  | input i => exact i.writes_encode
  | output o => exact o.writes_encode
  | transaction t => exact t.writes_encode
  | header h => exact h.writes_encode
  | list _ ih => exact WritesEncoding.list ih
  | block b h => exact Block.writes_encode h
  | number n => exact (CompactSize.writes_encode n).of_eq rfl (CompactSize.length_encode n).symm
  | varBytes bs => exact VarBytes.writes_encode bs

/-- A value is written as far as a sink has room, whatever chunks it is written in, and the answer
says whether there was room for all of it. The count in the answer is that of the bytes that the
sink got. -/
theorem write_within {x : Writer Nat} {bs : Bytes} (h : ValueWriter x bs) :
    (∀ room,
      (after x (.empty (some room))).contents = bs.take (min room bs.length) ∧
      outcome x (.empty (some room)) =
        if bs.length ≤ room then .ok bs.length
        else .error (.io "failed to write whole buffer")) ∧
    (after x (.empty none)).contents = bs ∧
    outcome x (.empty none) = .ok bs.length ∧
    ∀ room n, outcome x (.empty room) = .ok n → n = (after x (.empty room)).contents.length := by
  have hwrites := h.writes
  obtain ⟨houtcome, hcontents⟩ := hwrites.unbounded
  refine ⟨fun room => ?_, hcontents, houtcome, fun room n hok => ?_⟩
  · by_cases hroom : bs.length ≤ room
    case pos =>
      obtain ⟨houtcome, hcontents⟩ := hwrites.of_room hroom
      rw [houtcome, hcontents, if_pos hroom, Nat.min_eq_right hroom, List.take_length]
      exact ⟨rfl, rfl⟩
    case neg =>
      have hlt := Nat.not_le.mp hroom
      obtain ⟨houtcome, hcontents⟩ := hwrites.of_full hlt
      rw [houtcome, hcontents, if_neg hroom, Nat.min_eq_left (Nat.le_of_lt hlt)]
      exact ⟨rfl, rfl⟩
  · obtain ⟨rfl, hwritten⟩ := hwrites.of_ok hok
    rw [hwritten]

/-- A list of two words that meets the end of the room inside the second, and one that just fits. -/
theorem write_within_words :
    let words : List UInt32 := [1, 2]
    ValueWriter (Format.write words) [2, 1, 0, 0, 0, 2, 0, 0, 0] ∧
      (after (Format.write words) (.empty (some 6))).contents = [2, 1, 0, 0, 0, 2] ∧
      outcome (Format.write words) (.empty (some 6)) =
        .error (.io "failed to write whole buffer") ∧
      outcome (Format.write words) (.empty (some 9)) = .ok 9 := by
  intro words
  have hwords : ValueWriter (Format.write words) [2, 1, 0, 0, 0, 2, 0, 0, 0] :=
    .list fun n _ => .word32 n
  obtain ⟨hbounded, _⟩ := write_within hwords
  exact ⟨hwords, (hbounded 6).1, (hbounded 6).2, (hbounded 9).2⟩

/-- The size that is computed from the sizes of the parts is that of the binary form and the count
that a writer of it answers, and a frame is as large as its opening, the header, the count and the
transactions are. -/
theorem size_eq_written :
    (∀ t : Transaction,
      (Format.encode t).length = t.size ∧
      outcome (Format.write t) (.empty none) = .ok t.size ∧
      (after (Format.write t) (.empty none)).contents = Format.encode t ∧
      ∀ room n, outcome (Format.write t) (.empty room) = .ok n → n = t.size) ∧
    ∀ b : Block, b.record.length < 2 ^ 32 →
      (Format.encode b).length =
        8 + 80 + CompactSize.size b.transactions.length
          + (b.transactions.map Transaction.size).sum ∧
      outcome (Format.write b) (.empty none) = .ok (Format.encode b).length := by
  refine ⟨fun t => ?transaction, fun b hrecord => ?block⟩
  case transaction =>
    have hlength : (Format.encode t).length = t.size := t.length_encode
    have hwrites : Writes (Format.write t) (Format.encode t) t.size :=
      t.writes_encode.of_eq rfl hlength
    obtain ⟨houtcome, hcontents⟩ := hwrites.unbounded
    exact ⟨hlength, houtcome, hcontents, fun room n hok => (hwrites.of_ok hok).1⟩
  case block =>
    have hencode : Format.encode b = Frame.encode b.record := Block.encode_eq hrecord
    refine ⟨?_, (Block.writes_encode hrecord).unbounded.1⟩
    rw [hencode, Frame.length_encode, Block.length_record_eq_sum, Frame.openingSize, Header.size]
    omega

theorem size_eq_written_coinbase :
    Block.ofCoinbase.record.length < 2 ^ 32 ∧
      (Format.encode Block.ofCoinbase).length = 152 ∧
      (Block.ofCoinbase.transactions.map Transaction.size) = [63] ∧
      outcome (Format.write Block.ofCoinbase) (.empty none) = .ok 152 := by
  have hrecord : Block.ofCoinbase.record.length < 2 ^ 32 := by
    rw [Block.length_record_ofCoinbase]
    decide
  have hsizes : Block.ofCoinbase.transactions.map Transaction.size = [63] := by
    decide +kernel
  obtain ⟨hlength, houtcome⟩ := size_eq_written.2 Block.ofCoinbase hrecord
  rw [hsizes] at hlength
  have hlength : (Format.encode Block.ofCoinbase).length = 152 := hlength
  rw [hlength] at houtcome
  exact ⟨hrecord, hlength, hsizes, houtcome⟩

end ScriptLedger
