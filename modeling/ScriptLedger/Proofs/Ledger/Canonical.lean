import ScriptLedger.Proofs.Ledger.RoundTrip

namespace ScriptLedger

open Wire Decoder Stateful

variable {bs : Bytes} {cap : Nat}

namespace Wire

theorem Decoder.length_of_take {n : Nat} {cause : Nat → Shortage} {s t : Stream}
    (h : take n cause s = .ok bs t) : bs.length = n := by
  unfold take at h
  simp only at h
  split at h
  · rename_i hl
    cases h
    exact hl
  · rename_i hl
    split at h
    · cases h
    -- A stream that goes on with zeros fills up what is missing.
    · cases h
      have hle := List.length_take_le n s.remaining
      rw [List.length_append, List.length_replicate]
      omega
    · cases h

theorem Decoder.lt_of_number {width n : Nat} {s t : Stream} (h : number width s = .ok n t) :
    n < 256 ^ width := by
  unfold number at h
  obtain ⟨bs, u, hb, hp⟩ := bind_eq_ok_iff.1 h
  cases hp
  rw [← length_of_take hb]
  exact LittleEndian.decode_lt bs

end Wire

namespace Frame

theorem length_of_read {limit : Nat} {record : Bytes} {s t : Stream}
    (h : Frame.read limit s = .ok record t) : record.length ≤ limit ∧ record.length < 2 ^ 32 := by
  unfold Frame.read readOpening at h
  obtain ⟨n, u, hn, h⟩ := bind_eq_ok_iff.1 h
  obtain ⟨_, v, _, hn⟩ := bind_eq_ok_iff.1 hn
  have hlt := lt_of_number hn
  by_cases hl : limit < n
  · rw [if_pos hl] at h
    cases h
  · rw [if_neg hl] at h
    have hr := length_of_take h
    omega

end Frame

namespace Input.Spelling

theorem length_script_le {w : Spelling} (h : w.Within (some cap)) :
    w.meaning.script.length ≤ cap :=
  h cap rfl

end Input.Spelling

namespace Output.Spelling

theorem length_script_le {w : Spelling} (h : w.Within (some cap)) :
    w.meaning.script.length ≤ cap :=
  h cap rfl

end Output.Spelling

namespace Transaction.Spelling

theorem length_inputs_lt (w : Spelling) : w.meaning.inputs.length < 2 ^ 64 := by
  have h := w.inputs.length_lt
  rwa [← List.length_map Input.Spelling.meaning] at h

theorem length_outputs_lt (w : Spelling) : w.meaning.outputs.length < 2 ^ 64 := by
  have h := w.outputs.length_lt
  rwa [← List.length_map Output.Spelling.meaning] at h

theorem scriptsWithin {w : Spelling} (h : w.Within (some cap)) :
    w.meaning.ScriptsWithin cap := by
  refine ⟨fun i hi => ?_, fun o ho => ?_⟩
  · obtain ⟨v, hv, rfl⟩ := List.mem_map.1 hi
    exact Input.Spelling.length_script_le (h.1 v hv)
  · obtain ⟨v, hv, rfl⟩ := List.mem_map.1 ho
    exact Output.Spelling.length_script_le (h.2 v hv)

theorem within_none (w : Spelling) : w.Within none := by
  refine ⟨fun i _ n hn => ?_, fun o _ n hn => ?_⟩
  · cases hn
  · cases hn

theorem meaning_eq_of_bytes_eq {v w : Spelling} (h : v.bytes = w.bytes) : v.meaning = w.meaning := by
  have hv := v.reads v.within_none
  rw [h] at hv
  have he : w.bytes ++ [] = w.bytes ++ [] := rfl
  obtain ⟨_, hm, _⟩ := hv.unique (w.reads w.within_none) he
  exact hm

theorem hash_meaning (w : Spelling) : w.meaning.hash = w.meaning.contentHash :=
  hash_make _ _ _ _

theorem reads_encode_meaning {w : Spelling} (h : w.Within (some cap)) (hc : cap < 2 ^ 64) :
    Reads (readWith (some cap)) w.meaning.encode w.meaning := by
  have hr := reads_encode w.length_inputs_lt w.length_outputs_lt hc (scriptsWithin h)
  rwa [remade_eq w.hash_meaning rfl] at hr

end Transaction.Spelling

namespace Block.Spelling

theorem stamped (w : Spelling) : w.meaning.Stamped := by
  refine stamped_make fun t ht => ?_
  obtain ⟨v, _, rfl⟩ := List.mem_map.1 ht
  exact v.hash_meaning

/-- The transactions of a block that was read differ from those spelled in nothing that is
written. -/
theorem exists_of_mem_transactions {w : Spelling} {t : Transaction}
    (h : t ∈ w.meaning.transactions) :
    ∃ v ∈ w.transactions.items, t = v.meaning.inBlock w.header.hash := by
  obtain ⟨u, hu, rfl⟩ := List.mem_map.1 h
  obtain ⟨v, hv, rfl⟩ := List.mem_map.1 hu
  exact ⟨v, hv, rfl⟩

theorem decodeRecordWith_record {w : Spelling} (h : w.Within (some cap)) (hc : cap < 2 ^ 64) :
    decodeRecordWith (some cap) w.meaning.record = .ok w.meaning := by
  have hn : w.meaning.transactions.length < 2 ^ 64 := by
    have hl := w.transactions.length_lt
    simpa [meaning, make] using hl
  refine decodeRecordWith_eq_ok_iff.2 (exists_spelling w.stamped hc ?_ hn ?_ ?_)
  · intro t ht
    obtain ⟨v, hv, rfl⟩ := exists_of_mem_transactions ht
    exact Transaction.Spelling.scriptsWithin (h v hv)
  · intro t ht
    obtain ⟨v, _, rfl⟩ := exists_of_mem_transactions ht
    exact v.length_inputs_lt
  · intro t ht
    obtain ⟨v, _, rfl⟩ := exists_of_mem_transactions ht
    exact v.length_outputs_lt

end Block.Spelling

theorem Block.make_eq {b : Block} (h : b.Stamped) : Block.make b.header b.transactions = b := by
  have ht : b.transactions.map (.inBlock b.header.hash) = b.transactions := by
    refine (List.map_congr_left (g := id) fun t ht => ?_).trans (List.map_id _)
    rw [← h.hash, Transaction.inBlock, ← h.block t ht]
    rfl
  rw [Block.make, ht, ← h.hash]

theorem Block.decodeRecord_record_of_decodeRecord {record : Bytes} {b : Block}
    (h : decodeRecord record = .ok b) :
    b.Stamped ∧ b.hash = Digest.hash256 (record.take Header.size) ∧
      (∃ ns, Respells record b.record ns) ∧ decodeRecord b.record = .ok b := by
  obtain ⟨w, hw, rfl, rfl⟩ := decodeRecordWith_eq_ok_iff.1 h
  exact ⟨w.stamped, w.header_hash.symm, ⟨w.numerals, w.respells⟩,
    Spelling.decodeRecordWith_record hw (by decide)⟩

/-- The encoding of what was read is its shortest form: of a transaction, of a record and of a
frame. -/
theorem encode_shortest_of_read :
    (∀ (data : Bytes) (t : Transaction) (s : Stream), Format.read (.ofBytes data) = .ok t s →
      ∃ bs, data = bs ++ s.remaining ∧ s.ending = .finished ∧
        t.hash = Digest.hash256 (Format.encode t) ∧
        (Format.encode t).length ≤ bs.length ∧
        ((Format.encode t).length = bs.length ↔ Format.encode t = bs) ∧
        (∃ w : Transaction.Spelling, w.bytes = bs) ∧
        (∀ w : Transaction.Spelling, w.bytes = bs →
          w.meaning = t ∧ (Format.encode t = bs ↔ ∀ x ∈ w.numerals, x.IsShortest)) ∧
        ∀ tail e, Format.read ⟨Format.encode t ++ tail, e⟩ = .ok t ⟨tail, e⟩) ∧
    (∀ (record : Bytes) (b : Block), Block.decodeRecord record = .ok b →
      b.hash = Digest.hash256 (record.take 80) ∧ b.hash = b.header.hash ∧
        (∀ t ∈ b.transactions, t.block = some b.hash ∧ t.hash = t.contentHash) ∧
        b = Block.make b.header b.transactions ∧
        b.record.length ≤ record.length ∧
        (b.record.length = record.length ↔ b.record = record) ∧
        Block.decodeRecord b.record = .ok b) ∧
    ∀ (limit : Nat) (b : Block) (s t : Stream), Block.readWithin limit s = .ok b t →
      ∀ tail e, Block.readWithin limit ⟨Format.encode b ++ tail, e⟩ = .ok b ⟨tail, e⟩ := by
  refine ⟨fun data t s h => ?_, fun record b h => ?_, fun limit b s u h tail e => ?_⟩
  -- The bytes that were taken spell the transaction, and the encoding respells them.
  · have hp := Transaction.Spelling.parses (some VarBytes.defaultCap)
    obtain ⟨bs, rfl, hs, hr⟩ := hp.isLocal.reads_of_ok h
    obtain ⟨w, hw, rfl, rfl⟩ := hp.reads_iff.1 hr
    have hm := w.respells
    refine ⟨w.bytes, rfl, by rw [hs]; rfl, w.hash_meaning, hm.length_le, ?_, ⟨w, rfl⟩,
      fun v hv => ?_, Transaction.Spelling.reads_encode_meaning hw (by decide)⟩
    · exact hm.length_eq_iff.trans hm.eq_iff.symm
    · have hvm := Transaction.Spelling.meaning_eq_of_bytes_eq hv
      refine ⟨hvm, ?_⟩
      rw [← hvm, ← hv]
      exact v.respells.eq_iff
  · obtain ⟨hst, hh, ⟨ns, hm⟩, hd⟩ := Block.decodeRecord_record_of_decodeRecord h
    exact ⟨hh, hst.hash, fun t ht => ⟨hst.block t ht, hst.contentHash t ht⟩,
      (Block.make_eq hst).symm, hm.length_le, hm.length_eq_iff.trans hm.eq_iff.symm, hd⟩
  -- The new record is no longer than the one that the limit let through.
  · unfold Block.readWithin at h
    obtain ⟨record, v, hf, ho⟩ := bind_eq_ok_iff.1 h
    obtain ⟨hl, hr⟩ := Frame.length_of_read hf
    have hd : Block.decodeRecord record = .ok b := by
      cases hd : Block.decodeRecord record with
      | error e => rw [hd] at ho; cases ho
      | ok c => rw [hd] at ho; cases ho; rfl
    obtain ⟨_, _, ⟨ns, hm⟩, hd⟩ := Block.decodeRecord_record_of_decodeRecord hd
    have hle := hm.length_le
    have he : Format.encode b = Frame.encode b.record := Block.encode_eq (by omega)
    rw [he]
    exact Block.reads_readWithin (by omega) (by omega) hd tail e

def Transaction.Spelling.wide : Spelling where
  version := 1
  inputs := ⟨⟨0, [0xfd, 0, 0], .two (by decide)⟩, [], rfl⟩
  outputs := ⟨⟨0, [0], .one (by decide)⟩, [], rfl⟩
  lockTime := 7

theorem encode_shortest_of_read_wide :
    Format.read (.ofBytes [1, 0, 0, 0, 0xfd, 0, 0, 0, 7, 0, 0, 0, 0xab]) =
      .ok (Transaction.make 1 [] [] 7) (.ofBytes [0xab]) ∧
    Format.read ⟨Format.encode (Transaction.make 1 [] [] 7) ++ [0xcd], .finished⟩ =
      .ok (Transaction.make 1 [] [] 7) ⟨[0xcd], .finished⟩ ∧
    Block.ofCoinbase = Block.make Block.ofCoinbase.header Block.ofCoinbase.transactions ∧
    Block.readWithin 144 ⟨Format.encode Block.ofCoinbase ++ [0xef], .finished⟩ =
      .ok Block.ofCoinbase ⟨[0xef], .finished⟩ := by
  have hl := Block.length_record_ofCoinbase
  have hr : Format.read (.ofBytes [1, 0, 0, 0, 0xfd, 0, 0, 0, 7, 0, 0, 0, 0xab]) =
      .ok (Transaction.make 1 [] [] 7) (.ofBytes [0xab]) :=
    Transaction.Spelling.wide.reads ⟨List.forall_mem_nil _, List.forall_mem_nil _⟩ [0xab] .finished
  have hd := Block.decodeRecord_record Block.stamped_ofCoinbase Block.scriptsWithin_ofCoinbase
    (by omega)
  have hlimit : Block.ofCoinbase.record.length ≤ 144 := by omega
  have hf := Block.reads_readWithin hlimit (by omega) hd [] .finished
  obtain ⟨bs, _, _, _, _, _, _, _, ht⟩ := encode_shortest_of_read.1 _ _ _ hr
  obtain ⟨_, _, _, hm, _⟩ := encode_shortest_of_read.2.1 _ _ hd
  exact ⟨hr, ht [0xcd] .finished, hm, encode_shortest_of_read.2.2 144 _ _ _ hf [0xef] .finished⟩

end ScriptLedger
