import ScriptLedger.Proofs.Archive.Frames
import ScriptLedger.Proofs.Ledger.Canonical

namespace ScriptLedger

open Wire Decoder Stateful

namespace Wire

variable {α β : Type} {cap : Nat} {data : Bytes}

/-- How a result compares with that of a decoder without a cap: it is the same, or a byte string is
announced that is above the cap, and without one the bytes run out inside of it. -/
inductive AlikeButCap (cap : Nat) : Except Failure α → Except Failure α → Prop where
  | same (r : Except Failure α) : AlikeButCap cap r r
  | capped {size : Nat} (h : cap < size) (found : Nat) :
      AlikeButCap cap (.error (.limitExceeded (.byteString size cap)))
        (.error (.truncated (.bytes size found)))

namespace AlikeButCap

variable {r r' : Except Failure α}

theorem ok_iff (h : AlikeButCap cap r r') (a : α) : r = .ok a ↔ r' = .ok a := by
  cases h with
  | same => exact Iff.rfl
  | capped =>
    constructor
    · exact nofun
    · exact nofun

theorem of_ne (h : AlikeButCap cap r r') (hne : r ≠ r') :
    ∃ size found, cap < size ∧ r = .error (.limitExceeded (.byteString size cap)) ∧
      r' = .error (.truncated (.bytes size found)) := by
  cases h with
  | same => exact absurd rfl hne
  | capped h found => exact ⟨_, found, h, rfl, rfl⟩

end AlikeButCap

namespace Decoder

variable {x y item item' : Decoder α} {f g : α → Decoder β}

/-- From no more than `cap` bytes the two decoders make the same, or the first one refuses a byte
string above the cap inside of which the second one runs out of bytes. -/
def Agrees (cap : Nat) (x y : Decoder α) : Prop :=
  ∀ data, data.length ≤ cap → x (.ofBytes data) = y (.ofBytes data) ∨
    ∃ size found s t, cap < size ∧
      x (.ofBytes data) = .error (.limitExceeded (.byteString size cap)) s ∧
      y (.ofBytes data) = .error (.truncated (.bytes size found)) t

theorem Agrees.refl (x : Decoder α) : Agrees cap x x :=
  fun _ _ => .inl rfl

/-- Sequencing: the second decoders start where the first ones stopped, with no more bytes left. -/
theorem Agrees.bind (hl : Local x) (hx : Agrees cap x y) (hf : ∀ a, Agrees cap (f a) (g a)) :
    Agrees cap (x >>= f) (y >>= g) := by
  intro data hdata
  rcases hx data hdata with heq | ⟨size, found, s, t, hsize, hrefused, hshort⟩
  case inr =>
    exact .inr ⟨size, found, s, t, hsize, bind_error hrefused, bind_error hshort⟩
  cases hread : x (.ofBytes data) with
  | error e s =>
    have hread' := heq.symm.trans hread
    exact .inl ((bind_error hread).trans (bind_error hread').symm)
  | ok a s =>
    have hread' := heq.symm.trans hread
    obtain ⟨bs, rfl, hs, _⟩ := hl.reads_of_ok hread
    have hrest : s.remaining.length ≤ cap := by
      rw [List.length_append] at hdata
      omega
    have hnext := hf a s.remaining hrest
    rw [← hs] at hnext
    rwa [bind_ok hread, bind_ok hread']

theorem Agrees.times (hl : Local item) (h : Agrees cap item item') (n : Nat) :
    Agrees cap (times n item) (times n item') := by
  induction n with
  | zero => exact .refl _
  | succ n ih =>
    rw [times_succ, times_succ]
    exact h.bind hl fun a => ih.bind (hl.times n) fun _ => .refl _

theorem Agrees.readCounted (hl : Local item) (h : Agrees cap item item') :
    Agrees cap (readCounted item) (readCounted item') :=
  (Agrees.refl _).bind CompactSize.local_read fun _ => h.times hl _

theorem Agrees.decodeAll (h : Agrees cap x y) (hdata : data.length ≤ cap) :
    AlikeButCap cap (decodeAll x data) (decodeAll y data) := by
  rw [Decoder.decodeAll, Decoder.decodeAll]
  rcases h data hdata with heq | ⟨size, found, s, t, hsize, hrefused, hshort⟩
  · rw [heq]
    exact .same _
  · rw [hrefused, hshort]
    exact .capped hsize found

end Decoder

/-- A size above the cap is above the number of bytes that are left. -/
theorem VarBytes.agrees (cap : Nat) : Agrees cap (readWith (some cap)) (readWith none) := by
  rw [readWith_eq, readWith_eq]
  refine (Agrees.refl _).bind CompactSize.local_read fun p data hdata => ?_
  by_cases hsize : cap < p.1
  case neg =>
    have hbody : readBody (some cap) p.1 = readBody none p.1 := if_neg hsize
    rw [hbody]
    exact .inl rfl
  case pos =>
    have hbody : readBody (some cap) p.1 = throw (.limitExceeded (.byteString p.1 cap)) :=
      if_pos hsize
    have hshort : data.length < p.1 := Nat.lt_of_le_of_lt hdata hsize
    rw [hbody]
    exact .inr ⟨p.1, data.length, _, _, hsize, rfl, take_short hshort _⟩

end Wire

theorem Input.agrees (cap : Nat) : Agrees cap (readWith (some cap)) (readWith none) :=
  (Agrees.refl _).bind Exact.isLocal fun _ => (Agrees.refl _).bind Exact.isLocal fun _ =>
    (VarBytes.agrees cap).bind (VarBytes.parses _).isLocal fun _ => .refl _

theorem Output.agrees (cap : Nat) : Agrees cap (readWith (some cap)) (readWith none) :=
  (Agrees.refl _).bind Exact.isLocal fun _ =>
    (VarBytes.agrees cap).bind (VarBytes.parses _).isLocal fun _ => .refl _

theorem Transaction.agrees (cap : Nat) : Agrees cap (readWith (some cap)) (readWith none) := by
  have hi := Input.Spelling.parses (some cap)
  have ho := Output.Spelling.parses (some cap)
  have hinputs := (Input.agrees cap).readCounted hi.isLocal
  have houtputs := (Output.agrees cap).readCounted ho.isLocal
  exact (Agrees.refl _).bind Exact.isLocal fun _ =>
    hinputs.bind (Counted.parses hi).isLocal fun _ =>
      houtputs.bind (Counted.parses ho).isLocal fun _ => .refl _

namespace Block

theorem agrees_readRecord (cap : Nat) (hash : Hash256) :
    Agrees cap (readRecord (some cap) hash) (readRecord none hash) := by
  have ht := (Transaction.Spelling.parses (some cap)).isLocal
  exact (Agrees.refl _).bind local_readOpening fun _ =>
    ((Transaction.agrees cap).times ht _).bind (ht.times _) fun _ => .refl _

theorem alike_decodeRecordWith {cap : Nat} {record : Bytes} (h : record.length ≤ cap) :
    AlikeButCap cap (decodeRecordWith (some cap) record) (decodeRecordWith none record) := by
  rw [decodeRecordWith, decodeRecordWith]
  split
  case isTrue => exact .same _
  case isFalse => exact (agrees_readRecord cap _).decodeAll h

end Block

/-- The cap on scripts turns nothing down that is no larger than the cap and would be decoded
without it: of records, among them all that are taken from a frame under the default limit, and of
transactions. It only says earlier that a script is too large, where its bytes would run out. -/
theorem cap_refuses_only_short :
    (∀ record : Bytes, record.length ≤ VarBytes.defaultCap →
      (∀ b, Block.decodeRecord record = .ok b ↔ Block.decodeRecordWith none record = .ok b) ∧
      (Block.decodeRecord record ≠ Block.decodeRecordWith none record →
        ∃ size found, VarBytes.defaultCap < size ∧
          Block.decodeRecord record =
            .error (.limitExceeded (.byteString size VarBytes.defaultCap)) ∧
          Block.decodeRecordWith none record = .error (.truncated (.bytes size found)))) ∧
    (∀ (s t : Stream) (record : Bytes), Frame.read Frame.defaultLimit s = .ok record t →
      record.length ≤ VarBytes.defaultCap) ∧
    ∀ data : Bytes, data.length ≤ VarBytes.defaultCap →
      (∀ t, decodeAll (Format.read : Decoder Transaction) data = .ok t ↔
        decodeAll (Transaction.readWith none) data = .ok t) ∧
      (decodeAll (Format.read : Decoder Transaction) data ≠
          decodeAll (Transaction.readWith none) data →
        ∃ size found, VarBytes.defaultCap < size ∧
          decodeAll (Format.read : Decoder Transaction) data =
            .error (.limitExceeded (.byteString size VarBytes.defaultCap)) ∧
          decodeAll (Transaction.readWith none) data = .error (.truncated (.bytes size found))) := by
  refine ⟨fun record h => ?record, fun s t record h => (Frame.length_of_read h).1,
    fun data h => ?transaction⟩
  case record =>
    have halike := Block.alike_decodeRecordWith h
    exact ⟨halike.ok_iff, halike.of_ne⟩
  case transaction =>
    have halike := (Transaction.agrees VarBytes.defaultCap).decodeAll h
    exact ⟨halike.ok_iff, halike.of_ne⟩

theorem cap_refuses_only_short_announced :
    let data : Bytes := [1, 0, 0, 0, 1] ++ List.replicate 36 0 ++ [0xfe, 1, 0, 0, 2, 0x51]
    let record : Bytes := List.replicate 80 0 ++ [1] ++ data
    (∃ size found, VarBytes.defaultCap < size ∧
      decodeAll (Format.read : Decoder Transaction) data =
        .error (.limitExceeded (.byteString size VarBytes.defaultCap)) ∧
      decodeAll (Transaction.readWith none) data = .error (.truncated (.bytes size found))) ∧
    (∀ b, Block.decodeRecord record = .ok b ↔ Block.decodeRecordWith none record = .ok b) ∧
    Block.ofCoinbase.record.length ≤ VarBytes.defaultCap := by
  intro data record
  obtain ⟨hrecord, hframe, htransaction⟩ := cap_refuses_only_short
  have hdata : data.length ≤ VarBytes.defaultCap := by decide
  have hlength : record.length ≤ VarBytes.defaultCap := by decide
  have hcapped : decodeAll (Format.read : Decoder Transaction) data =
      .error (.limitExceeded (.byteString 33554433 33554432)) := rfl
  have huncapped : decodeAll (Transaction.readWith none) data =
      .error (.truncated (.bytes 33554433 1)) := rfl
  have hne : decodeAll (Format.read : Decoder Transaction) data ≠
      decodeAll (Transaction.readWith none) data := by
    rw [hcapped, huncapped]
    exact nofun
  have hcoinbase := Block.length_record_ofCoinbase
  have hframe' : Reads (Frame.read Frame.defaultLimit) (Frame.encode Block.ofCoinbase.record)
      Block.ofCoinbase.record :=
    Frame.reads_encode (by rw [hcoinbase]; decide) (by rw [hcoinbase]; decide)
  have hread := hframe' [] .finished
  exact ⟨(htransaction data hdata).2 hne, (hrecord record hlength).1, hframe _ _ _ hread⟩

end ScriptLedger
