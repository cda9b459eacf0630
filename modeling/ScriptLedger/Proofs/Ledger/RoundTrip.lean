import ScriptLedger.Ledger.Frame
import ScriptLedger.Proofs.Ledger.Spelling

namespace ScriptLedger

open Wire Decoder

variable {α σ : Type} {cap : Nat}

namespace Wire

/-- When every item of a list has a spelling, the whole list has one with a shortest count. -/
theorem Counted.exists_spell {f : σ → Bytes} {g : α → Bytes} {meaning : σ → α} {P : σ → Prop}
    {xs : List α} (hl : xs.length < 2 ^ 64) (h : ∀ a ∈ xs, ∃ w, P w ∧ f w = g a ∧ meaning w = a) :
    ∃ c : Counted σ, (∀ w ∈ c.items, P w) ∧
      c.spell f = CompactSize.encode xs.length ++ xs.flatMap g ∧ c.items.map meaning = xs := by
  have hs : ∃ ws : List σ, (∀ w ∈ ws, P w) ∧ ws.flatMap f = xs.flatMap g ∧
      ws.map meaning = xs := by
    clear hl
    induction xs with
    | nil => exact ⟨[], by simp⟩
    | cons a xs ih =>
      obtain ⟨ha, hxs⟩ := List.forall_mem_cons.1 h
      obtain ⟨w, hw, hf, rfl⟩ := ha
      obtain ⟨ws, hws, hfs, rfl⟩ := ih hxs
      refine ⟨w :: ws, List.forall_mem_cons.2 ⟨hw, hws⟩, ?_, rfl⟩
      rw [List.flatMap_cons, List.flatMap_cons, hf, hfs]
  obtain ⟨ws, hws, hf, rfl⟩ := hs
  rw [List.length_map] at hl
  refine ⟨.shortest ws hl, hws, ?_, rfl⟩
  rw [← hf, List.length_map]
  rfl

end Wire

namespace Transaction

def ScriptsWithin (cap : Nat) (t : Transaction) : Prop :=
  (∀ i ∈ t.inputs, i.script.length ≤ cap) ∧ ∀ o ∈ t.outputs, o.script.length ≤ cap

instance (cap : Nat) (t : Transaction) : Decidable (t.ScriptsWithin cap) :=
  inferInstanceAs (Decidable (_ ∧ _))

theorem encode_refreshHash (t : Transaction) : t.refreshHash.encode = t.encode := rfl

theorem contentHash_eq_of_encode_eq {t u : Transaction} (h : t.encode = u.encode) :
    t.contentHash = u.contentHash := by
  rw [contentHash, contentHash, h]

theorem hash_make (version : UInt32) (inputs : List Input) (outputs : List Output)
    (lockTime : UInt32) : (make version inputs outputs lockTime).hash =
      (make version inputs outputs lockTime).contentHash := by
  unfold make
  rw [contentHash_eq_of_encode_eq (encode_refreshHash _)]
  rfl

/-- The transaction as it comes out of a reader: outside any block and newly stamped. -/
def remade (t : Transaction) : Transaction :=
  make t.version t.inputs t.outputs t.lockTime

theorem remade_eq {t : Transaction} (hh : t.hash = t.contentHash) (hb : t.block = none) :
    t.remade = t := by
  have h : t.remade = { t with hash := t.contentHash, block := none } := rfl
  rw [h, ← hh, ← hb]

theorem inBlock_remade {t : Transaction} {hash : Hash256} (hh : t.hash = t.contentHash)
    (hb : t.block = some hash) : t.remade.inBlock hash = t := by
  have h : t.remade.inBlock hash = { t with hash := t.contentHash, block := some hash } := rfl
  rw [h, ← hh, ← hb]

theorem exists_spelling {t : Transaction} (hi : t.inputs.length < 2 ^ 64)
    (ho : t.outputs.length < 2 ^ 64) (hc : cap < 2 ^ 64) (hs : t.ScriptsWithin cap) :
    ∃ w : Spelling, w.Within (some cap) ∧ w.bytes = t.encode ∧ w.meaning = t.remade := by
  have hin : ∀ i ∈ t.inputs, ∃ w : Input.Spelling,
      w.Within (some cap) ∧ w.bytes = i.encode ∧ w.meaning = i := by
    intro i hi
    have hl := hs.1 i hi
    exact ⟨⟨i.prevTx, i.prevIndex, .shortest i.script (by omega), i.sequence⟩,
      fun n hn => by cases hn; exact hl, rfl, rfl⟩
  have hout : ∀ o ∈ t.outputs, ∃ w : Output.Spelling,
      w.Within (some cap) ∧ w.bytes = o.encode ∧ w.meaning = o := by
    intro o ho
    have hl := hs.2 o ho
    exact ⟨⟨o.value, .shortest o.script (by omega)⟩, fun n hn => by cases hn; exact hl, rfl, rfl⟩
  obtain ⟨inputs, hwi, hbi, hmi⟩ := Counted.exists_spell hi hin
  obtain ⟨outputs, hwo, hbo, hmo⟩ := Counted.exists_spell ho hout
  refine ⟨⟨t.version, inputs, outputs, t.lockTime⟩, ⟨hwi, hwo⟩, ?_, ?_⟩
  · simp only [Spelling.bytes, hbi, hbo]
    rfl
  · simp only [Spelling.meaning, hmi, hmo]
    rfl

theorem reads_encode {t : Transaction} (hi : t.inputs.length < 2 ^ 64)
    (ho : t.outputs.length < 2 ^ 64) (hc : cap < 2 ^ 64) (hs : t.ScriptsWithin cap) :
    Reads (readWith (some cap)) t.encode t.remade := by
  obtain ⟨w, hw, hb, hm⟩ := exists_spelling hi ho hc hs
  rw [← hb, ← hm]
  exact w.reads hw

end Transaction

namespace Block

/-- Whether a block and its transactions carry the identifiers that they are given when they are
made. -/
structure Stamped (b : Block) : Prop where
  hash : b.hash = b.header.hash
  block : ∀ t ∈ b.transactions, t.block = some b.hash
  contentHash : ∀ t ∈ b.transactions, t.hash = t.contentHash

theorem stamped_make {header : Header} {ts : List Transaction}
    (h : ∀ t ∈ ts, t.hash = t.contentHash) : (make header ts).Stamped := by
  refine ⟨rfl, fun t ht => ?_, fun t ht => ?_⟩
  · obtain ⟨u, _, rfl⟩ := List.mem_map.1 ht
    rfl
  · obtain ⟨u, hu, rfl⟩ := List.mem_map.1 ht
    exact (h u hu).trans (Transaction.contentHash_eq_of_encode_eq rfl)

theorem exists_spelling {b : Block} (hb : b.Stamped) (hc : cap < 2 ^ 64)
    (hs : ∀ t ∈ b.transactions, t.ScriptsWithin cap) (hn : b.transactions.length < 2 ^ 64)
    (hi : ∀ t ∈ b.transactions, t.inputs.length < 2 ^ 64)
    (ho : ∀ t ∈ b.transactions, t.outputs.length < 2 ^ 64) :
    ∃ w : Spelling, w.Within (some cap) ∧ w.bytes = b.record ∧ w.meaning = b := by
  have ht : ∀ t ∈ b.transactions, ∃ w : Transaction.Spelling,
      w.Within (some cap) ∧ w.bytes = t.encode ∧ w.meaning.inBlock b.hash = t := by
    intro t ht
    obtain ⟨w, hw, hwb, hwm⟩ := Transaction.exists_spelling (hi t ht) (ho t ht) hc (hs t ht)
    refine ⟨w, hw, hwb, ?_⟩
    rw [hwm]
    exact Transaction.inBlock_remade (hb.contentHash t ht) (hb.block t ht)
  obtain ⟨ts, hw, hbs, hm⟩ := Counted.exists_spell hn ht
  refine ⟨⟨b.header, ts⟩, hw, ?_, ?_⟩
  · simp only [Spelling.bytes, hbs]
    rfl
  · simp only [Spelling.meaning, make, List.map_map, ← hb.hash]
    change Block.mk b.header b.hash (ts.items.map fun t => t.meaning.inBlock b.hash) = b
    rw [hm]

theorem decodeRecord_record {b : Block} (hb : b.Stamped)
    (hs : ∀ t ∈ b.transactions, t.ScriptsWithin VarBytes.defaultCap)
    (hr : b.record.length < 2 ^ 64) : decodeRecord b.record = .ok b := by
  -- No list has more items than the record has bytes, so each count has a form.
  have hn := b.length_transactions_le
  have hl {t : Transaction} (ht : t ∈ b.transactions) := length_encode_le_of_mem ht
  refine decodeRecordWith_eq_ok_iff.2 (exists_spelling hb (by decide) hs (by omega) ?_ ?_)
  · intro t ht
    have hi := t.length_inputs_le
    have := hl ht
    omega
  · intro t ht
    have ho := t.length_outputs_le
    have := hl ht
    omega

end Block

namespace Frame

theorem reads_magic : Reads readMagic magic () := by
  have hm := reads_field_iff.2 ⟨(rfl : magic.length = 4), rfl⟩
  unfold readMagic
  rw [← List.append_nil magic]
  exact hm.bind (.pure ())

theorem reads_opening {size : Nat} (h : size < 2 ^ 32) :
    Reads readOpening (magic ++ LittleEndian.encode 4 size) size :=
  reads_magic.bind (reads_number_iff.2 ⟨h, rfl⟩)

theorem reads_encode {record : Bytes} {limit : Nat} (hl : record.length ≤ limit)
    (hr : record.length < 2 ^ 32) : Reads (Frame.read limit) (Frame.encode record) record := by
  have hb : Reads (Decoder.bytes record.length) record record := reads_bytes_iff.2 ⟨rfl, rfl⟩
  unfold Frame.read Frame.encode
  refine (reads_opening hr).bind ?_
  rw [if_neg (by omega)]
  exact hb

end Frame

namespace Block

theorem reads_readWithin {record : Bytes} {b : Block} {limit : Nat} (hl : record.length ≤ limit)
    (hr : record.length < 2 ^ 32) (h : decodeRecord record = .ok b) :
    Reads (readWithin limit) (Frame.encode record) b := by
  unfold readWithin
  rw [← List.append_nil (Frame.encode record)]
  refine (Frame.reads_encode hl hr).bind ?_
  rw [h]
  exact .pure b

theorem encode_eq {b : Block} (hr : b.record.length < 2 ^ 32) : b.encode = Frame.encode b.record :=
  if_neg (by omega)

end Block

/-- Decoding undoes encoding and takes nothing of what follows: for transactions outside a block
and for framed blocks. -/
theorem read_encode_append :
    (∀ (t : Transaction) (tail : Bytes) (e : Ending),
      t.hash = t.contentHash → t.block = none → t.ScriptsWithin VarBytes.defaultCap →
      t.inputs.length < 2 ^ 64 → t.outputs.length < 2 ^ 64 →
      Format.read ⟨Format.encode t ++ tail, e⟩ = .ok t ⟨tail, e⟩) ∧
    ∀ (b : Block) (limit : Nat) (tail : Bytes) (e : Ending),
      b.hash = b.header.hash →
      (∀ t ∈ b.transactions, t.block = some b.hash ∧ t.hash = t.contentHash ∧
        t.ScriptsWithin VarBytes.defaultCap) →
      b.record.length ≤ limit → limit < 2 ^ 32 →
      Block.decodeRecord b.record = .ok b ∧
      Block.readWithin limit ⟨Format.encode b ++ tail, e⟩ = .ok b ⟨tail, e⟩ ∧
      (Format.encode b).length = 8 + b.record.length := by
  refine ⟨fun t tail e hh hb hs hi ho => ?_, fun b limit tail e hh ht hl hm => ?_⟩
  · have hr := Transaction.reads_encode hi ho (by decide) hs
    rw [Transaction.remade_eq hh hb] at hr
    exact hr tail e
  · have hst : b.Stamped := ⟨hh, fun t h => (ht t h).1, fun t h => (ht t h).2.1⟩
    have hd := Block.decodeRecord_record hst (fun t h => (ht t h).2.2) (by omega)
    have he : Format.encode b = Frame.encode b.record := Block.encode_eq (by omega)
    rw [he]
    refine ⟨hd, Block.reads_readWithin hl (by omega) hd tail e, ?_⟩
    simp [Frame.encode, Frame.magic]
    omega

/-- A transaction that spends nothing and pays to anyone. -/
def Transaction.coinbase : Transaction :=
  make 1 [⟨Digest.zero 32, 0xffffffff, [0x01, 0xab], Input.finalSequence⟩] [⟨5000000000, [0x51]⟩] 0

def Block.ofCoinbase : Block :=
  make ⟨1, Digest.zero 32, Digest.zero 32, 1231006505, 0x1d00ffff, 7⟩ [.coinbase]

theorem Transaction.hash_coinbase : coinbase.hash = coinbase.contentHash :=
  hash_make _ _ _ _

theorem Block.stamped_ofCoinbase : ofCoinbase.Stamped :=
  stamped_make (List.forall_mem_singleton.2 Transaction.hash_coinbase)

theorem Block.scriptsWithin_ofCoinbase :
    ∀ t ∈ ofCoinbase.transactions, t.ScriptsWithin VarBytes.defaultCap := by
  intro t ht
  obtain rfl := List.mem_singleton.1 ht
  decide

theorem Block.length_record_ofCoinbase : ofCoinbase.record.length = 144 := by
  decide +kernel

theorem read_encode_append_coinbase :
    Format.read ⟨Format.encode Transaction.coinbase ++ [0xfd], .zeros⟩ =
      .ok Transaction.coinbase ⟨[0xfd], .zeros⟩ ∧
    Block.ofCoinbase.record.length = 144 ∧
    Block.decodeRecord Block.ofCoinbase.record = .ok Block.ofCoinbase ∧
    Block.readWithin 144 ⟨Format.encode Block.ofCoinbase ++ [0xf9], .finished⟩ =
      .ok Block.ofCoinbase ⟨[0xf9], .finished⟩ := by
  have hl := Block.length_record_ofCoinbase
  have hst := Block.stamped_ofCoinbase
  have ht := read_encode_append.1 Transaction.coinbase [0xfd] .zeros Transaction.hash_coinbase rfl
    (by decide) (by decide) (by decide)
  have hb := read_encode_append.2 Block.ofCoinbase 144 [0xf9] .finished hst.hash
    (fun t ht => ⟨hst.block t ht, hst.contentHash t ht, Block.scriptsWithin_ofCoinbase t ht⟩)
    (by omega) (by omega)
  exact ⟨ht, hl, hb.1, hb.2.1⟩

end ScriptLedger
