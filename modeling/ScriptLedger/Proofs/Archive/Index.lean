import Mathlib.Control.Monad.Basic
import Mathlib.Logic.ExistsUnique
import ScriptLedger.Archive.Access
import ScriptLedger.Proofs.Archive.Frames

namespace ScriptLedger.Archive

open Wire

variable {records records' : List Bytes} {record data front front' rest : Bytes} {found : List Span}
  {offset fileEnd : Nat} {e : Failure}

theorem scanFrom_nil (fileEnd : Nat) (found : List Span) (offset : Nat) :
    scanFrom fileEnd found offset [] = ⟨found.reverse, .ok offset⟩ := by
  rw [scanFrom]

theorem scanFrom_of_error {s : Stream} (hne : rest ≠ [])
    (h : Frame.readOpening (.ofBytes rest) = .error e s) :
    scanFrom fileEnd found offset rest = ⟨found.reverse, .error e⟩ := by
  cases rest with
  | nil => exact absurd rfl hne
  | cons b bs =>
    rw [scanFrom]
    simp only [h]

theorem scanFrom_of_ok {size : Nat} {s : Stream} (hne : rest ≠ [])
    (h : Frame.readOpening (.ofBytes rest) = .ok size s) :
    scanFrom fileEnd found offset rest =
      if fileEnd < offset + Frame.openingSize + size then
        ⟨found.reverse, .error (.truncated (.frame offset size fileEnd))⟩
      else
        scanFrom fileEnd (⟨offset, size⟩ :: found) (offset + Frame.openingSize + size)
          (rest.drop (Frame.openingSize + size)) := by
  cases rest with
  | nil => exact absurd rfl hne
  | cons b bs =>
    rw [scanFrom]
    simp only [h]

theorem scanFrom_frame (hr : record.length < 2 ^ 32)
    (hend : fileEnd = offset + (Frame.encode record ++ rest).length) :
    scanFrom fileEnd found offset (Frame.encode record ++ rest) =
      scanFrom fileEnd (⟨offset, record.length⟩ :: found) (offset + (Frame.encode record).length)
        rest := by
  have hlength := Frame.length_encode record
  have hne : Frame.encode record ++ rest ≠ [] := by
    intro h
    cases h
  have hopen := Frame.readOpening_ofBytes hr (record ++ rest)
  rw [← Frame.encode_append] at hopen
  have hwithin : ¬ fileEnd < offset + Frame.openingSize + record.length := by
    rw [hend, List.length_append, hlength]
    omega
  have hdrop : (Frame.encode record ++ rest).drop (Frame.openingSize + record.length) = rest := by
    rw [← hlength]
    exact List.drop_left
  rw [scanFrom_of_ok hne hopen, if_neg hwithin, hdrop, hlength, Nat.add_assoc]

theorem scanFrom_framed (hf : Framed records front)
    (hend : fileEnd = offset + (front ++ rest).length) :
    scanFrom fileEnd found offset (front ++ rest) =
      scanFrom fileEnd ((spans offset records).reverse ++ found) (offset + front.length) rest := by
  induction records generalizing front offset found with
  | nil =>
    rw [hf.data_eq]
    rfl
  | cons record records ih =>
    obtain ⟨hr, more, hmore, rfl⟩ := hf.tail
    rw [List.append_assoc] at hend ⊢
    rw [scanFrom_frame hr hend]
    rw [List.length_append, ← Nat.add_assoc] at hend
    rw [ih hmore hend, spans, List.reverse_cons, List.append_assoc, List.length_append,
      Nat.add_assoc]
    rfl

/-- A flaw ends the walk, and the failure says what is wrong. -/
theorem scanFrom_flaw (h : Flaw offset fileEnd rest e) (hend : fileEnd = offset + rest.length) :
    scanFrom fileEnd found offset rest = ⟨found.reverse, .error e⟩ := by
  cases h with
  | magicCut hne hl =>
    exact scanFrom_of_error hne (Stateful.bind_error (Frame.readMagic_short hl))
  | @badMagic wrong hl hm tail =>
    have hne : wrong ++ tail ≠ [] := by
      intro h
      rw [(List.append_eq_nil_iff.mp h).1] at hl
      cases hl
    exact scanFrom_of_error hne (Stateful.bind_error (Frame.readMagic_wrong hl hm tail))
  | sizeCut hl =>
    exact scanFrom_of_error (List.cons_ne_nil _ _) (Frame.readOpening_short hl)
  | @recordCut size part hs hl =>
    have hne : Frame.magic ++ LittleEndian.encode 4 size ++ part ≠ [] := List.cons_ne_nil _ _
    have hcut : fileEnd < offset + Frame.openingSize + size := by
      rw [hend]
      simp only [Frame.magic, Frame.openingSize, List.length_append, List.length_cons,
        List.length_nil, LittleEndian.length_encode]
      omega
    rw [scanFrom_of_ok hne (Frame.readOpening_ofBytes hs part), if_pos hcut]

theorem scan_append (hf : Framed records front) (rest : Bytes) :
    scan (front ++ rest) =
      scanFrom (front ++ rest).length (spans 0 records).reverse front.length rest := by
  rw [scan, scanFrom_framed hf (Nat.zero_add _).symm, List.append_nil, Nat.zero_add]

theorem scan_framed (h : Framed records data) : scan data = ⟨spans 0 records, .ok data.length⟩ := by
  have hs := scan_append h []
  rw [List.append_nil, scanFrom_nil, List.reverse_reverse] at hs
  exact hs

theorem scan_flaw (hf : Framed records front)
    (h : Flaw front.length (front ++ rest).length rest e) :
    scan (front ++ rest) = ⟨spans 0 records, .error e⟩ := by
  rw [scan_append hf, scanFrom_flaw h List.length_append, List.reverse_reverse]

theorem offset_spans (offset : Nat) (records : List Bytes) :
    (spans offset records).map (·.offset) ++ [offset + (records.flatMap Frame.encode).length] =
      bounds offset records := by
  induction records generalizing offset with
  | nil => rfl
  | cons record records ih =>
    rw [spans, bounds, ← Frame.length_encode, ← ih, List.flatMap_cons, List.length_append,
      Nat.add_assoc]
    rfl

theorem spans_append (offset : Nat) (records records' : List Bytes) :
    spans offset (records ++ records') =
      spans offset records ++ spans (offset + (records.flatMap Frame.encode).length) records' := by
  induction records generalizing offset with
  | nil => rfl
  | cons record records ih =>
    rw [List.cons_append, spans, spans, ih, List.flatMap_cons, List.length_append, Nat.add_assoc]
    rfl

theorem offset_spans_add (n offset : Nat) (records : List Bytes) :
    (spans (n + offset) records).map (·.offset) =
      ((spans offset records).map (·.offset)).map (n + ·) := by
  induction records generalizing offset with
  | nil => rfl
  | cons record records ih =>
    rw [spans, spans, List.map_cons, List.map_cons, List.map_cons, Nat.add_assoc, ih]

theorem length_spans (offset : Nat) (records : List Bytes) :
    (spans offset records).length = records.length := by
  induction records generalizing offset with
  | nil => rfl
  | cons record records ih => rw [spans, List.length_cons, ih, List.length_cons]

theorem spans_congr (h : records.map List.length = records'.map List.length) (offset : Nat) :
    spans offset records = spans offset records' := by
  induction records generalizing records' offset with
  | nil =>
    cases records' with
    | nil => rfl
    | cons record' records' => cases h
  | cons record records ih =>
    cases records' with
    | nil => cases h
    | cons record' records' =>
      obtain ⟨hl, ht⟩ := List.cons.inj h
      rw [spans, spans, Frame.length_encode, Frame.length_encode, hl, ih ht]

theorem length_framed (h : Framed records data) :
    data.length = ((records.map List.length).map (Frame.openingSize + ·)).sum := by
  rw [h.data_eq, List.length_flatMap, List.map_map]
  simp only [Frame.length_encode, Function.comp_def]

theorem scan_congr (h : Framed records front) (h' : Framed records' front')
    (hl : records.map List.length = records'.map List.length) (rest : Bytes) :
    scan (front ++ rest) = scan (front' ++ rest) := by
  have hfront : front.length = front'.length := by
    rw [length_framed h, length_framed h', hl]
  rw [scan_append h, scan_append h', List.length_append, List.length_append, hfront,
    spans_congr hl]

theorem index_framed (h : Framed records data) (start recordSize : Nat) :
    index ⟨data, start⟩ recordSize =
      .ok ⟨⟨data, data.length⟩, (spans 0 records).map (·.offset), recordSize⟩ := by
  rw [index, scan_framed h]

theorem index_flaw (hf : Framed records front)
    (h : Flaw front.length (front ++ rest).length rest e) (start recordSize : Nat) :
    index ⟨front ++ rest, start⟩ recordSize = .error e := by
  rw [index, scan_flaw hf h]

theorem map_offsets_index (data : Bytes) (start recordSize : Nat) :
    (index ⟨data, start⟩ recordSize).map (·.offsets) =
      (scan data).outcome.map fun _ => (scan data).spans.map (·.offset) := by
  unfold index
  cases h : (scan data).outcome with
  | error e =>
    simp only [h]
    rfl
  | ok place =>
    simp only [h]
    rfl

theorem index_ok_or_flaw (data : Bytes) (start recordSize : Nat) :
    (∃ records, Framed records data) ∨
      ∃ e records front rest, Framed records front ∧ data = front ++ rest ∧
        Flaw front.length data.length rest e ∧ index ⟨data, start⟩ recordSize = .error e := by
  obtain ⟨records, front, rest, hf, rfl, hrest⟩ := exists_framed_or_flaw 0 data.length data
  rw [Nat.zero_add] at hrest
  obtain rfl | ⟨e, he⟩ := hrest
  · rw [List.append_nil]
    exact .inl ⟨records, hf⟩
  · exact .inr ⟨e, records, front, rest, hf, rfl, he, index_flaw hf he start recordSize⟩

/-- A file is indexed if it is a row of whole frames, which it is in one way at most, and then by
where they start; otherwise the first flaw says why not. Where the reader stood, how large a record
may be and what the records hold makes no difference. -/
theorem index_ok_iff_framed (data : Bytes) (start recordSize : Nat) :
    ((∃ a, index ⟨data, start⟩ recordSize = .ok a) ↔ ∃! records, Framed records data) ∧
    (∀ a records, index ⟨data, start⟩ recordSize = .ok a → Framed records data →
      a.offsets ++ [data.length] = bounds 0 records ∧ a.count = records.length ∧
        a.reader = ⟨data, data.length⟩) ∧
    (∀ e, index ⟨data, start⟩ recordSize = .error e ↔
      ∃ records front rest, Framed records front ∧ data = front ++ rest ∧
        Flaw front.length data.length rest e) ∧
    ∀ records records' front front' rest start' recordSize', Framed records front →
      Framed records' front' → records.map List.length = records'.map List.length →
      data = front ++ rest →
      (index ⟨front' ++ rest, start'⟩ recordSize').map (·.offsets) =
        (index ⟨data, start⟩ recordSize).map (·.offsets) := by
  refine ⟨⟨?_, ?_⟩, ?_, fun e => ⟨?_, ?_⟩, ?_⟩
  · rintro ⟨a, ha⟩
    obtain ⟨records, hf⟩ | ⟨e, _, _, _, _, _, _, he⟩ := index_ok_or_flaw data start recordSize
    · exact ⟨records, hf, fun _ hf' => hf'.unique hf⟩
    · rw [ha] at he
      cases he
  · rintro ⟨records, hf, _⟩
    exact ⟨_, index_framed hf start recordSize⟩
  · intro a records ha hf
    rw [index_framed hf] at ha
    cases ha
    have hoffsets := offset_spans 0 records
    rw [← hf.data_eq, Nat.zero_add] at hoffsets
    refine ⟨hoffsets, ?_, rfl⟩
    rw [count, List.length_map, length_spans]
  · intro he
    obtain ⟨records, hf⟩ | ⟨e', records, front, rest, hf, hd, hflaw, he'⟩ :=
      index_ok_or_flaw data start recordSize
    · rw [index_framed hf] at he
      cases he
    · rw [he] at he'
      cases he'
      exact ⟨records, front, rest, hf, hd, hflaw⟩
  · rintro ⟨records, front, rest, hf, rfl, hflaw⟩
    exact index_flaw hf hflaw start recordSize
  · rintro records records' front front' rest start' recordSize' hf hf' hl rfl
    rw [map_offsets_index, map_offsets_index, scan_congr hf hf' hl]

def twoFrames : Bytes :=
  [0xf9, 0xbe, 0xb4, 0xd9, 0, 0, 0, 0, 0xf9, 0xbe, 0xb4, 0xd9, 2, 0, 0, 0, 0xaa, 0xbb]

theorem framed_twoFrames : Framed [[], [0xaa, 0xbb]] twoFrames :=
  ⟨by decide, by decide⟩

theorem index_ok_iff_framed_twoFrames :
    Framed [[], [0xaa, 0xbb]] twoFrames ∧
      (∃ a, index ⟨twoFrames, 3⟩ 0 = .ok a ∧ a.offsets ++ [18] = [0, 8, 18] ∧ a.count = 2 ∧
        a.reader = ⟨twoFrames, 18⟩) ∧
      index ⟨twoFrames ++ [0xf9, 0xbe, 0, 0, 1], 3⟩ 0 = .error (.badMagic [0xf9, 0xbe, 0, 0]) ∧
      (index ⟨Frame.encode [] ++ Frame.encode [1, 2], 7⟩ 9).map (·.offsets) =
        (index ⟨twoFrames, 3⟩ 0).map (·.offsets) := by
  have hf := framed_twoFrames
  have hf' : Framed [[], [1, 2]] (Frame.encode [] ++ Frame.encode [1, 2]) :=
    ⟨by decide, rfl⟩
  obtain ⟨hok, hvalue, _, hcongr⟩ := index_ok_iff_framed twoFrames 3 0
  obtain ⟨a, ha⟩ := hok.mpr ⟨_, hf, fun _ h => h.unique hf⟩
  have hwrong := (index_ok_iff_framed (twoFrames ++ [0xf9, 0xbe, 0, 0, 1]) 3 0).2.2.1
  have hflaw : Flaw 18 23 ([0xf9, 0xbe, 0, 0] ++ [1]) (.badMagic [0xf9, 0xbe, 0, 0]) :=
    .badMagic rfl (by decide) [1]
  have hsame := hcongr _ _ twoFrames _ [] 7 9 hf hf' rfl (List.append_nil _).symm
  rw [List.append_nil] at hsame
  exact ⟨hf, ⟨a, ha, hvalue a _ ha hf⟩,
    (hwrong _).mpr ⟨_, twoFrames, _, hf, rfl, hflaw⟩, hsame⟩

end ScriptLedger.Archive
