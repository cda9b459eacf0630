import ScriptLedger.Proofs.Archive.Index

namespace ScriptLedger.Archive

open Wire Stateful

variable {a : Archive} {records : List Bytes} {record data : Bytes} {i offset start limit : Nat}
  {s : Stream}

def standing (a : Archive) (place : Nat) : Archive :=
  { a with reader := { a.reader with position := place } }

def frameStart (records : List Bytes) (i : Nat) : Nat :=
  ((records.take i).flatMap Frame.encode).length

/-- What reading the block of a number gives, told by the records alone. -/
def answer (records : List Bytes) (limit i : Nat) : Except Failure Block :=
  match records[i]? with
  | none => .error (.indexOutOfRange i records.length)
  | some record =>
    if limit < record.length then .error (.limitExceeded (.record record.length limit))
    else Block.decodeRecord record

/-- Where reading the block of a number leaves a reader. -/
def restingPlace (records : List Bytes) (limit i place : Nat) : Nat :=
  match records[i]? with
  | none => place
  | some record =>
    if limit < record.length then frameStart records i + Frame.openingSize
    else frameStart records (i + 1)

/-- What a caller can do with an archive: read a block, or begin a pass and take some steps. -/
inductive Use where
  | blockAt (i : Nat)
  | pass (steps : Nat)
  deriving DecidableEq, Repr

def use (a : Archive) : Use → Archive
  | .blockAt i => after (blockAt i) a
  | .pass steps => (a.blocks.take steps).2.archive

def useAll (a : Archive) (uses : List Use) : Archive :=
  uses.foldl use a

/-- What holds of the archive of a row of frames whatever is read from it. -/
structure Indexes (records : List Bytes) (limit : Nat) (a : Archive) : Prop where
  framed : Framed records a.reader.data
  offsets_eq : a.offsets = (spans 0 records).map (·.offset)
  recordSize_eq : a.recordSize = limit

theorem blockAt_of_none (h : a.offsets[i]? = none) :
    blockAt i a = .error (.indexOutOfRange i a.count) a := by
  simp only [blockAt, h]

theorem blockAt_of_some (h : a.offsets[i]? = some offset) :
    outcome (blockAt i) a = outcome (Block.readWithin a.recordSize) (a.streamAt offset) ∧
      after (blockAt i) a =
        a.standingAt (after (Block.readWithin a.recordSize) (a.streamAt offset)) := by
  simp only [outcome, after, blockAt, h]
  cases Block.readWithin a.recordSize (a.streamAt offset) with
  | ok block s => exact ⟨rfl, rfl⟩
  | error e s => exact ⟨rfl, rfl⟩

theorem frameStart_succ (h : records[i]? = some record) :
    frameStart records (i + 1) = frameStart records i + (Frame.encode record).length := by
  rw [frameStart, frameStart, List.take_add_one, h, List.flatMap_append, List.length_append]
  simp only [Option.toList_some, List.flatMap_singleton]

theorem offset_spans_getElem? (h : records[i]? = some record) (offset : Nat) :
    ((spans offset records).map (·.offset))[i]? = some (offset + frameStart records i) := by
  induction records generalizing i offset with
  | nil => cases h
  | cons first records ih =>
    cases i with
    | zero => rfl
    | succ i =>
      rw [List.getElem?_cons_succ] at h
      rw [spans, List.map_cons, List.getElem?_cons_succ, ih h, frameStart, frameStart,
        List.take_succ_cons, List.flatMap_cons, List.length_append, Nat.add_assoc]

theorem Framed.split (hf : Framed records data) (h : records[i]? = some record) :
    record.length < 2 ^ 32 ∧ ∃ behind,
      data.drop (frameStart records i) = Frame.encode record ++ behind ∧
        data.length = frameStart records (i + 1) + behind.length := by
  obtain ⟨hi, rfl⟩ := List.getElem?_eq_some_iff.mp h
  have hdata : data = (records.take i).flatMap Frame.encode ++
      (Frame.encode records[i] ++ (records.drop (i + 1)).flatMap Frame.encode) := by
    rw [hf.data_eq, ← List.flatMap_cons, ← List.drop_eq_getElem_cons hi, ← List.flatMap_append,
      List.take_append_drop]
  refine ⟨hf.length_lt _ (List.getElem_mem hi), (records.drop (i + 1)).flatMap Frame.encode, ?_, ?_⟩
  · rw [hdata, frameStart, List.drop_left]
  · rw [frameStart_succ h, hdata, List.length_append, List.length_append, frameStart,
      Nat.add_assoc]

theorem standingAt_eq (h : a.reader.data.length = offset + s.remaining.length) :
    a.standingAt s = a.standing offset := by
  rw [standingAt, h, Nat.add_sub_cancel]
  rfl

namespace Indexes

theorem count_eq (h : Indexes records limit a) : a.count = records.length := by
  rw [count, h.offsets_eq, List.length_map, length_spans]

theorem standing (h : Indexes records limit a) (place : Nat) :
    Indexes records limit (a.standing place) where
  framed := h.framed
  offsets_eq := h.offsets_eq
  recordSize_eq := h.recordSize_eq

theorem blockAt_out_of_range (h : Indexes records limit a) (hi : records[i]? = none) :
    outcome (blockAt i) a = .error (.indexOutOfRange i records.length) ∧
      after (blockAt i) a = a := by
  have hnone : a.offsets[i]? = none := by
    rw [h.offsets_eq, List.getElem?_eq_none_iff, List.length_map, length_spans]
    exact List.getElem?_eq_none_iff.mp hi
  have hread := blockAt_of_none hnone
  rw [h.count_eq] at hread
  exact ⟨outcome_error hread, after_error hread⟩

theorem offsets_getElem? (h : Indexes records limit a) (hi : records[i]? = some record) :
    a.offsets[i]? = some (frameStart records i) := by
  rw [h.offsets_eq, offset_spans_getElem? hi, Nat.zero_add]

theorem frame (h : Indexes records limit a) (hi : records[i]? = some record) :
    record.length < 2 ^ 32 ∧ ∃ behind,
      a.streamAt (frameStart records i) = ⟨Frame.encode record ++ behind, .finished⟩ ∧
        a.reader.data.length = frameStart records (i + 1) + behind.length := by
  obtain ⟨hr, behind, hdrop, hlength⟩ := h.framed.split hi
  refine ⟨hr, behind, ?_, hlength⟩
  rw [streamAt, hdrop, Stream.ofBytes]

theorem blockAt_over (h : Indexes records limit a) (hi : records[i]? = some record)
    (hover : limit < record.length) :
    outcome (blockAt i) a = .error (.limitExceeded (.record record.length limit)) ∧
      after (blockAt i) a = a.standing (frameStart records i + Frame.openingSize) := by
  obtain ⟨hr, behind, hstream, hlength⟩ := h.frame hi
  obtain ⟨houtcome, hafter⟩ := blockAt_of_some (h.offsets_getElem? hi)
  have hread := Block.readWithin_over hr hover behind .finished
  rw [houtcome, hafter, h.recordSize_eq, hstream, outcome_error hread, after_error hread]
  refine ⟨rfl, standingAt_eq ?_⟩
  rw [hlength, frameStart_succ hi, Frame.length_encode, List.length_append]
  omega

theorem blockAt_within (h : Indexes records limit a) (hi : records[i]? = some record)
    (hwithin : record.length ≤ limit) :
    outcome (blockAt i) a = Block.decodeRecord record ∧
      after (blockAt i) a = a.standing (frameStart records (i + 1)) := by
  obtain ⟨hr, behind, hstream, hlength⟩ := h.frame hi
  obtain ⟨houtcome, hafter⟩ := blockAt_of_some (h.offsets_getElem? hi)
  have hread := Block.readWithin_frame hr hwithin behind .finished
  rw [houtcome, hafter, h.recordSize_eq, hstream, outcome_congr hread, after_congr hread,
    outcome_ofExcept, after_ofExcept]
  exact ⟨rfl, standingAt_eq hlength⟩

/-- A read gives what the records say, and moves the reader and nothing else. -/
theorem blockAt_eq (h : Indexes records limit a) (i : Nat) :
    outcome (blockAt i) a = answer records limit i ∧
      after (blockAt i) a = a.standing (restingPlace records limit i a.reader.position) := by
  unfold answer restingPlace
  cases hi : records[i]? with
  | none => exact h.blockAt_out_of_range hi
  | some record =>
    by_cases hover : limit < record.length
    case pos =>
      simp only [if_pos hover]
      exact h.blockAt_over hi hover
    case neg =>
      simp only [if_neg hover]
      exact h.blockAt_within hi (Nat.not_lt.mp hover)

theorem after_blockAt (h : Indexes records limit a) (i : Nat) :
    Indexes records limit (after (blockAt i) a) := by
  rw [(h.blockAt_eq i).2]
  exact h.standing _

theorem reads (h : Indexes records limit a) (numbers : List Nat) :
    Indexes records limit (a.useAll (numbers.map .blockAt)) := by
  induction numbers generalizing a with
  | nil => exact h
  | cons i numbers ih => exact ih (h.after_blockAt i)

end Indexes

namespace Pass

theorem step?_of_left {p : Pass} (h : p.next < p.archive.count) :
    p.step? = some (outcome (blockAt p.next) p.archive,
      ⟨after (blockAt p.next) p.archive, p.next + 1⟩) := by
  unfold step? outcome after
  rw [if_neg (Nat.not_le.mpr h)]
  cases blockAt p.next p.archive <;> rfl

theorem step?_of_done {p : Pass} (h : p.archive.count ≤ p.next) : p.step? = none := by
  unfold step?
  exact if_pos h

theorem take_eq (h : Indexes records limit a) (n next : Nat) :
    take n ⟨a, next⟩ =
      ((List.range' next (min n (records.length - next))).map (fun j =>
          (answer records limit j, records.length - (j + 1))),
        ⟨a.useAll ((List.range' next (min n (records.length - next))).map .blockAt),
          next + min n (records.length - next)⟩) := by
  induction n generalizing a next with
  | zero =>
    rw [Nat.zero_min]
    rfl
  | succ n ih =>
    by_cases hleft : next < records.length
    case pos =>
      have hmin : min (n + 1) (records.length - next) =
          min n (records.length - (next + 1)) + 1 := by omega
      have hnext := h.after_blockAt next
      unfold take
      rw [step?_of_left (p := ⟨a, next⟩) (h.count_eq ▸ hleft), hmin, List.range'_succ]
      simp only [(h.blockAt_eq next).1, ih hnext, left, hnext.count_eq]
      rw [Nat.add_right_comm, Nat.add_assoc next]
      rfl
    case neg =>
      have hmin : min (n + 1) (records.length - next) = 0 := by omega
      unfold take
      rw [step?_of_done (p := ⟨a, next⟩) (h.count_eq ▸ Nat.not_lt.mp hleft), hmin]
      rfl

end Pass

namespace Indexes

theorem use (h : Indexes records limit a) (u : Use) : Indexes records limit (a.use u) := by
  cases u with
  | blockAt i => exact h.after_blockAt i
  | pass steps =>
    simp only [Archive.use, blocks, Pass.take_eq h steps 0]
    exact h.reads _

theorem useAll (h : Indexes records limit a) (uses : List Use) :
    Indexes records limit (a.useAll uses) := by
  induction uses generalizing a with
  | nil => exact h
  | cons u uses ih => exact ih (h.use u)

end Indexes

theorem exists_indexes_of_index (h : index ⟨data, start⟩ limit = .ok a) :
    ∃ records, Framed records data ∧ Indexes records limit a := by
  obtain ⟨records, hf⟩ | ⟨e, _, _, _, _, _, _, he⟩ := index_ok_or_flaw data start limit
  · rw [index_framed hf] at h
    cases h
    exact ⟨records, hf, hf, rfl, rfl⟩
  · rw [he] at h
    cases h

/-- Whatever was read before, a read gives what the records say and leaves the reader at a place
that they fix, a pass gives what the reads of all numbers give, and the frames found stay. -/
theorem blockAt_useAll (h : index ⟨data, start⟩ limit = .ok a) :
    ∃ records, Framed records data ∧ a.count = records.length ∧ ∀ uses : List Use,
      let b := a.useAll uses
      (b.offsets = a.offsets ∧ b.count = a.count) ∧
      (∀ i, outcome (blockAt i) b = answer records limit i ∧
        after (blockAt i) b = b.standing (restingPlace records limit i b.reader.position)) ∧
      b.blocks.left = a.count ∧
      ∀ n, (b.blocks.take n).1 = (List.range (min n a.count)).map (fun j =>
          (outcome (blockAt j) b, a.count - (j + 1))) ∧
        (b.blocks.take n).2.archive = b.useAll ((List.range (min n a.count)).map .blockAt) ∧
        (b.blocks.take n).2.left = a.count - n ∧
        (a.count ≤ n → (b.blocks.take n).2.step? = none) := by
  obtain ⟨records, hf, ha⟩ := exists_indexes_of_index h
  refine ⟨records, hf, ha.count_eq, fun uses => ?_⟩
  intro b
  have hb : Indexes records limit b := ha.useAll uses
  have hcount : b.count = a.count := hb.count_eq.trans ha.count_eq.symm
  refine ⟨⟨hb.offsets_eq.trans ha.offsets_eq.symm, hcount⟩, hb.blockAt_eq, hcount, fun n => ?_⟩
  have htake := Pass.take_eq hb n 0
  rw [← ha.count_eq, Nat.sub_zero, Nat.zero_add, ← List.range_eq_range'] at htake
  have hlast := (hb.reads (List.range (min n a.count))).count_eq.trans ha.count_eq.symm
  unfold blocks
  rw [htake]
  refine ⟨?_, rfl, ?_, fun hn => ?_⟩
  · simp only [(hb.blockAt_eq _).1]
  · rw [Pass.left, hlast]
    change a.count - min n a.count = a.count - n
    omega
  · exact Pass.step?_of_done (by simp only [hlast]; omega)

theorem blockAt_useAll_twoFrames :
    ∃ a, index ⟨twoFrames, 3⟩ 1 = .ok a ∧
      let b := a.useAll [.blockAt 5, .pass 1, .blockAt 1]
      b.offsets = [0, 8] ∧
      outcome (blockAt 0) b = Block.decodeRecord [] ∧
      outcome (blockAt 1) b = .error (.limitExceeded (.record 2 1)) ∧
      (after (blockAt 1) b).reader.position = 16 ∧
      (b.blocks.take 3).1.map (·.2) = [1, 0] := by
  refine ⟨_, index_framed framed_twoFrames 3 1, ?_⟩
  obtain ⟨records, hf, _, huses⟩ := blockAt_useAll (index_framed framed_twoFrames 3 1)
  obtain rfl := hf.unique framed_twoFrames
  obtain ⟨⟨hoffsets, _⟩, hread, _, hpass⟩ := huses [.blockAt 5, .pass 1, .blockAt 1]
  refine ⟨hoffsets, (hread 0).1, (hread 1).1, ?_, ?_⟩
  · rw [(hread 1).2]
    rfl
  · rw [(hpass 3).1]
    rfl

end ScriptLedger.Archive
