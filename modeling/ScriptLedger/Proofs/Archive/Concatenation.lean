import ScriptLedger.Proofs.Archive.Access

namespace ScriptLedger

open Wire Stateful

/-- A failure as it is told when `n` bytes more stand in front: the places that it names move, and
nothing else changes. -/
def Failure.movedBy (n : Nat) : Failure → Failure
  | .truncated (.frame offset size fileEnd) => .truncated (.frame (n + offset) size (n + fileEnd))
  | e => e

namespace Archive

variable {records records' : List Bytes} {data data' rest : Bytes} {offset fileEnd limit i : Nat}
  {e : Failure} {a b : Archive}

theorem Flaw.moved (h : Flaw offset fileEnd rest e) (n : Nat) :
    Flaw (n + offset) (n + fileEnd) rest (e.movedBy n) := by
  cases h with
  | magicCut hne hl => exact .magicCut hne hl
  | badMagic hl hm rest => exact .badMagic hl hm rest
  | sizeCut hl => exact .sizeCut hl
  | recordCut hs hl => exact .recordCut hs hl

theorem answer_append_left (h : i < records.length) :
    answer (records ++ records') limit i = answer records limit i := by
  unfold answer
  rw [List.getElem?_append_left h, List.getElem?_eq_getElem h]

theorem answer_append_right (h : records.length ≤ i) (h' : i < records.length + records'.length) :
    answer (records ++ records') limit i = answer records' limit (i - records.length) := by
  unfold answer
  rw [List.getElem?_append_right h, List.getElem?_eq_getElem (by omega)]

theorem answer_of_le (h : records.length ≤ i) :
    answer records limit i = .error (.indexOutOfRange i records.length) := by
  unfold answer
  rw [List.getElem?_eq_none h]

theorem exists_indexes_framed (h : Framed records data) (start limit : Nat) :
    ∃ a, index ⟨data, start⟩ limit = .ok a ∧ Indexes records limit a :=
  ⟨_, index_framed h start limit, h, rfl, rfl⟩

theorem exists_indexes_append {start start' : Nat} (ha : index ⟨data, start⟩ limit = .ok a)
    (hb : index ⟨data', start'⟩ limit = .ok b) (start'' : Nat) :
    ∃ records records' c, Indexes records limit a ∧ Indexes records' limit b ∧
      index ⟨data ++ data', start''⟩ limit = .ok c ∧ Indexes (records ++ records') limit c ∧
      data.length = (records.flatMap Frame.encode).length := by
  obtain ⟨records, hf, hx⟩ := exists_indexes_of_index ha
  obtain ⟨records', hf', hy⟩ := exists_indexes_of_index hb
  obtain ⟨c, hindex, hz⟩ := exists_indexes_framed (hf.append hf') start'' limit
  exact ⟨records, records', c, hx, hy, hindex, hz, congrArg List.length hf.data_eq⟩

namespace Indexes

variable {x y z : Archive}

theorem offsets_append (hx : Indexes records limit x) (hy : Indexes records' limit y)
    (hz : Indexes (records ++ records') limit z) :
    z.offsets = x.offsets ++ y.offsets.map ((records.flatMap Frame.encode).length + ·) := by
  rw [hz.offsets_eq, hx.offsets_eq, hy.offsets_eq, spans_append, List.map_append, Nat.zero_add,
    ← offset_spans_add]
  rfl

theorem count_append (hx : Indexes records limit x) (hy : Indexes records' limit y)
    (hz : Indexes (records ++ records') limit z) : z.count = x.count + y.count := by
  rw [hz.count_eq, hx.count_eq, hy.count_eq, List.length_append]

theorem blockAt_append_left (hx : Indexes records limit x)
    (hz : Indexes (records ++ records') limit z) (hi : i < x.count) :
    outcome (blockAt i) z = outcome (blockAt i) x := by
  rw [hx.count_eq] at hi
  rw [(hz.blockAt_eq i).1, (hx.blockAt_eq i).1, answer_append_left hi]

theorem blockAt_append_right (hx : Indexes records limit x) (hy : Indexes records' limit y)
    (hz : Indexes (records ++ records') limit z) (hle : x.count ≤ i)
    (hi : i < x.count + y.count) :
    outcome (blockAt i) z = outcome (blockAt (i - x.count)) y := by
  rw [hx.count_eq] at hle hi ⊢
  rw [hy.count_eq] at hi
  rw [(hz.blockAt_eq i).1, (hy.blockAt_eq _).1, answer_append_right hle hi]

theorem blockAt_of_le (hx : Indexes records limit x) (hi : x.count ≤ i) :
    outcome (blockAt i) x = .error (.indexOutOfRange i x.count) := by
  rw [hx.count_eq] at hi ⊢
  rw [(hx.blockAt_eq i).1, answer_of_le hi]

end Indexes

/-- What is wrong with the second part of a file is wrong with the file, at places that are moved by
the size of the first. -/
theorem index_append_of_error {start start' : Nat} (ha : index ⟨data, start⟩ limit = .ok a)
    (hb : index ⟨data', start'⟩ limit = .error e) (start'' : Nat) :
    index ⟨data ++ data', start''⟩ limit = .error (e.movedBy data.length) := by
  obtain ⟨records, hf, _⟩ := exists_indexes_of_index ha
  obtain ⟨records', hf'⟩ | ⟨e', records', front, rest, hf', rfl, hflaw, he⟩ :=
    index_ok_or_flaw data' start' limit
  · rw [index_framed hf'] at hb
    cases hb
  · cases hb.symm.trans he
    have hmoved := hflaw.moved data.length
    rw [← List.length_append, ← List.length_append, ← List.append_assoc] at hmoved
    rw [← List.append_assoc]
    exact index_flaw (hf.append hf') hmoved start'' limit

end Archive

/-- A block that is made of stamped transactions with scripts that are read back, and that has a
record within the limit. -/
structure Block.Storable (limit : Nat) (b : Block) : Prop where
  made : ∃ header transactions, b = make header transactions ∧
    ∀ t ∈ transactions, t.hash = t.contentHash ∧ t.ScriptsWithin VarBytes.defaultCap
  length_record_le : b.record.length ≤ limit

namespace Block

variable {b : Block} {limit : Nat}

theorem Storable.decodeRecord (h : b.Storable limit) (hlimit : limit < 2 ^ 32) :
    decodeRecord b.record = .ok b := by
  obtain ⟨⟨header, transactions, rfl, hts⟩, hrecord⟩ := h
  apply decodeRecord_record (stamped_make fun t ht => (hts t ht).1)
  · intro t ht
    obtain ⟨u, hu, rfl⟩ := List.mem_map.mp ht
    exact (hts u hu).2
  · omega

end Block

namespace Archive

variable {limit i : Nat} {blocks : List Block} {b : Block} {a : Archive}

theorem framed_records (h : ∀ b ∈ blocks, b.Storable limit) (hlimit : limit < 2 ^ 32) :
    Framed (blocks.map Block.record) (blocks.flatMap Format.encode) := by
  have hlt : ∀ b ∈ blocks, b.record.length < 2 ^ 32 := fun b hb =>
    Nat.lt_of_le_of_lt (h b hb).length_record_le hlimit
  refine ⟨List.forall_mem_map.mpr hlt, ?_⟩
  rw [List.flatMap_map]
  exact List.flatMap_congr fun b hb => Block.encode_eq (hlt b hb)

theorem answer_records (h : ∀ b ∈ blocks, b.Storable limit) (hlimit : limit < 2 ^ 32)
    (hi : blocks[i]? = some b) : answer (blocks.map Block.record) limit i = .ok b := by
  have hb := h b (List.mem_of_getElem? hi)
  unfold answer
  rw [List.getElem?_map, hi]
  change (if limit < b.record.length then _ else _) = _
  rw [if_neg (Nat.not_lt.mpr hb.length_record_le), hb.decodeRecord hlimit]

theorem take_records (h : ∀ b ∈ blocks, b.Storable limit) (hlimit : limit < 2 ^ 32)
    (ha : Indexes (blocks.map Block.record) limit a) {n : Nat} (hn : blocks.length ≤ n) :
    (a.blocks.take n).1.map (·.1) = blocks.map .ok ∧ (a.blocks.take n).2.step? = none := by
  have hmin : min n ((blocks.map Block.record).length - 0) = blocks.length := by
    rw [List.length_map]
    omega
  have htake := Pass.take_eq ha n 0
  rw [hmin, ← List.range_eq_range', Nat.zero_add] at htake
  unfold Archive.blocks
  rw [htake]
  constructor
  · apply List.ext_getElem
    · simp only [List.length_map, List.length_range]
    · intro i hi _
      rw [List.length_map, List.length_map, List.length_range] at hi
      simp only [List.getElem_map, List.getElem_range]
      exact answer_records h hlimit (List.getElem?_eq_getElem hi)
  · have hcount := (ha.reads (List.range blocks.length)).count_eq
    rw [List.length_map] at hcount
    exact Pass.step?_of_done (Nat.le_of_eq hcount)

/-- Files may be put one behind the other: the frames of both are found, those of the second at
places that are moved by the size of the first, and a block is read as it is from the part that
holds it; if the second is flawed, so is the whole. So a file of the blocks of a list gives the
list back. -/
theorem index_append (limit : Nat) :
    (∀ (data data' : Bytes) (start start' start'' : Nat) (x y : Archive),
      index ⟨data, start⟩ limit = .ok x → index ⟨data', start'⟩ limit = .ok y →
      ∃ z, index ⟨data ++ data', start''⟩ limit = .ok z ∧
        z.offsets = x.offsets ++ y.offsets.map (data.length + ·) ∧
        (∀ i, i < x.count → outcome (blockAt i) z = outcome (blockAt i) x) ∧
        (∀ i, x.count ≤ i → i < x.count + y.count →
          outcome (blockAt i) z = outcome (blockAt (i - x.count)) y) ∧
        ∀ i, x.count + y.count ≤ i →
          outcome (blockAt i) z = .error (.indexOutOfRange i (x.count + y.count))) ∧
    (∀ (data data' : Bytes) (start start' start'' : Nat) (x : Archive) (e : Failure),
      index ⟨data, start⟩ limit = .ok x → index ⟨data', start'⟩ limit = .error e →
      index ⟨data ++ data', start''⟩ limit = .error (e.movedBy data.length)) ∧
    ∀ (blocks : List Block) (start : Nat), limit < 2 ^ 32 → (∀ b ∈ blocks, b.Storable limit) →
      ∃ z, index ⟨blocks.flatMap Format.encode, start⟩ limit = .ok z ∧
        z.count = blocks.length ∧
        (∀ n, blocks.length ≤ n →
          (z.blocks.take n).1.map (·.1) = blocks.map .ok ∧ (z.blocks.take n).2.step? = none) ∧
        ∀ i b, blocks[i]? = some b → outcome (blockAt i) z = .ok b := by
  refine ⟨?_, ?_, ?_⟩
  · intro data data' start start' start'' x y hx hy
    obtain ⟨records, records', z, hx, hy, hindex, hz, hlength⟩ :=
      exists_indexes_append hx hy start''
    have hcount := hx.count_append hy hz
    refine ⟨z, hindex, ?_, fun i hi => hx.blockAt_append_left hz hi,
      fun i hle hi => hx.blockAt_append_right hy hz hle hi, fun i hi => ?_⟩
    · rw [hlength]
      exact hx.offsets_append hy hz
    · rw [← hcount] at hi ⊢
      exact hz.blockAt_of_le hi
  · intro data data' start start' start'' x e hx hy
    exact index_append_of_error hx hy start''
  · intro blocks start hlimit hblocks
    obtain ⟨z, hindex, hz⟩ := exists_indexes_framed (framed_records hblocks hlimit) start limit
    refine ⟨z, hindex, ?_, fun n hn => take_records hblocks hlimit hz hn, fun i b hi => ?_⟩
    · rw [hz.count_eq, List.length_map]
    · rw [(hz.blockAt_eq i).1]
      exact answer_records hblocks hlimit hi

theorem Block.storable_ofCoinbase : Block.ofCoinbase.Storable 144 where
  made := ⟨_, _, rfl, List.forall_mem_singleton.mpr ⟨Transaction.hash_coinbase, by decide⟩⟩
  length_record_le := Nat.le_of_eq Block.length_record_ofCoinbase

def cutFrame : Bytes :=
  [0xf9, 0xbe, 0xb4, 0xd9, 1, 0, 0, 0]

theorem index_append_coinbase :
    index ⟨cutFrame, 0⟩ 144 = .error (.truncated (.frame 0 1 8)) ∧
      index ⟨twoFrames ++ cutFrame, 0⟩ 144 = .error (.truncated (.frame 18 1 26)) ∧
      ∃ y z, index ⟨[Block.ofCoinbase].flatMap Format.encode, 0⟩ 144 = .ok y ∧
        (y.blocks.take 1).1.map (·.1) = [.ok Block.ofCoinbase] ∧
        index ⟨twoFrames ++ [Block.ofCoinbase].flatMap Format.encode, 0⟩ 144 = .ok z ∧
        z.offsets = [0, 8, 18] ∧
        outcome (blockAt 2) z = .ok Block.ofCoinbase ∧
        outcome (blockAt 3) z = .error (.indexOutOfRange 3 3) := by
  have htwo := index_framed framed_twoFrames 0 144
  have hflaw : Flaw 0 8 cutFrame (.truncated (.frame 0 1 8)) := by
    change Flaw 0 8 (Frame.magic ++ LittleEndian.encode 4 1 ++ []) _
    exact .recordCut (by decide) (by decide)
  have hcut : index ⟨cutFrame, 0⟩ 144 = .error (.truncated (.frame 0 1 8)) :=
    @index_flaw [] [] cutFrame _ .nil hflaw 0 144
  have hstorable : ∀ b ∈ [Block.ofCoinbase], b.Storable 144 :=
    List.forall_mem_singleton.mpr Block.storable_ofCoinbase
  obtain ⟨hjoin, herror, hblocks⟩ := index_append 144
  obtain ⟨y, hy, hcount, hpass, hread⟩ := hblocks [Block.ofCoinbase] 0 (by decide) hstorable
  obtain ⟨z, hz, hoffsets, _, hright, hbeyond⟩ := hjoin _ _ 0 0 0 _ y htwo hy
  have hfound := index_framed (framed_records hstorable (by decide)) 0 144
  have hstart : y.offsets = [0] := by
    rw [← Except.ok.inj (hfound.symm.trans hy)]
    rfl
  refine ⟨hcut, herror _ _ 0 0 0 _ _ htwo hcut, y, z, hy, (hpass 1 (Nat.le_refl 1)).1, hz,
    ?_, ?_, ?_⟩
  · rw [hoffsets, hstart]
    rfl
  · exact (hright 2 (Nat.le_refl 2) (by rw [hcount]; decide)).trans (hread 0 _ rfl)
  · rw [hbeyond 3 (by rw [hcount]; decide), hcount]
    rfl

/-- A number beyond both parts is told as it is and with the count of all blocks, not as the second
part would tell it. -/
theorem blockAt_append_beyond_ne :
    ∃ x y z, index ⟨Frame.encode [], 0⟩ 1 = .ok x ∧ index ⟨Frame.encode [], 0⟩ 1 = .ok y ∧
      index ⟨Frame.encode [] ++ Frame.encode [], 0⟩ 1 = .ok z ∧ x.count ≤ 2 ∧
      outcome (blockAt 2) z = .error (.indexOutOfRange 2 2) ∧
      outcome (blockAt (2 - x.count)) y = .error (.indexOutOfRange 1 1) ∧
      outcome (blockAt 2) z ≠ outcome (blockAt (2 - x.count)) y := by
  have hone : Framed [[]] (Frame.encode []) := ⟨by decide, rfl⟩
  have htwo : Framed [[], []] (Frame.encode [] ++ Frame.encode []) := ⟨by decide, rfl⟩
  have hbeyond : (Except.error (.indexOutOfRange 2 2) : Except Failure Block) ≠
      .error (.indexOutOfRange 1 1) := by
    intro h
    cases h
  exact ⟨_, _, _, index_framed hone 0 1, index_framed hone 0 1, index_framed htwo 0 1, by decide,
    rfl, rfl, hbeyond⟩

end Archive

end ScriptLedger
