import ScriptLedger.Archive.Index
import ScriptLedger.Proofs.Ledger.RoundTrip

namespace ScriptLedger

open Wire Decoder Stateful

theorem Wire.Decoder.take_short {n : Nat} {rest : Bytes} (h : rest.length < n)
    (cause : Nat → Shortage) :
    take n cause (.ofBytes rest) = .error (.truncated (cause rest.length)) (.ofBytes []) := by
  have htake : rest.take n = rest := List.take_of_length_le (Nat.le_of_lt h)
  have hshort : ¬ rest.length = n := Nat.ne_of_lt h
  simp only [take, Stream.ofBytes, htake, if_neg hshort]

namespace Frame

variable {record rest found : Bytes} {size : Nat}

theorem encode_append (record rest : Bytes) :
    encode record ++ rest =
      magic ++ LittleEndian.encode 4 record.length ++ (record ++ rest) := by
  rw [encode, List.append_assoc]

theorem readOpening_ofBytes (h : size < 2 ^ 32) (rest : Bytes) :
    readOpening (.ofBytes (magic ++ LittleEndian.encode 4 size ++ rest)) =
      .ok size (.ofBytes rest) :=
  reads_opening h rest .finished

theorem readMagic_short (h : rest.length < 4) :
    readMagic (.ofBytes rest) = .error (.truncated .field) (.ofBytes []) :=
  bind_error (take_short h _)

theorem readMagic_wrong (hl : found.length = 4) (hm : found ≠ magic) (rest : Bytes) :
    readMagic (.ofBytes (found ++ rest)) = .error (.badMagic found) (.ofBytes rest) := by
  have hf : Reads (field 4) found found := reads_field_iff.2 ⟨hl, rfl⟩
  refine (bind_ok (hf rest .finished)).trans ?_
  rw [if_neg hm]
  rfl

theorem readOpening_short (h : rest.length < 4) :
    readOpening (.ofBytes (magic ++ rest)) = .error (.truncated .field) (.ofBytes []) := by
  have hm : readMagic (.ofBytes (magic ++ rest)) = .ok () (.ofBytes rest) :=
    reads_magic rest .finished
  unfold readOpening
  rw [bind_ok hm]
  exact bind_error (take_short h _)

/-- A record above the limit is refused when only the opening of its frame is taken. -/
theorem read_over {limit : Nat} (hr : record.length < 2 ^ 32) (h : limit < record.length)
    (rest : Bytes) (e : Ending) :
    Frame.read limit ⟨encode record ++ rest, e⟩ =
      .error (.limitExceeded (.record record.length limit)) ⟨record ++ rest, e⟩ := by
  rw [encode_append]
  refine (bind_ok (reads_opening hr (record ++ rest) e)).trans ?_
  rw [if_pos h]
  rfl

end Frame

namespace Block

variable {record : Bytes}

theorem readWithin_over {limit : Nat} (hr : record.length < 2 ^ 32) (h : limit < record.length)
    (rest : Bytes) (e : Ending) :
    readWithin limit ⟨Frame.encode record ++ rest, e⟩ =
      .error (.limitExceeded (.record record.length limit)) ⟨record ++ rest, e⟩ :=
  bind_error (Frame.read_over hr h rest e)

theorem readWithin_frame {limit : Nat} (hr : record.length < 2 ^ 32) (h : record.length ≤ limit)
    (rest : Bytes) (e : Ending) :
    readWithin limit ⟨Frame.encode record ++ rest, e⟩ =
      (ofExcept (decodeRecord record) : Decoder Block) ⟨rest, e⟩ :=
  bind_ok (Frame.reads_encode h hr rest e)

end Block

namespace Archive

/-- A byte string as frames of records, one after the other. -/
structure Framed (records : List Bytes) (data : Bytes) : Prop where
  length_lt : ∀ record ∈ records, record.length < 2 ^ 32
  data_eq : data = records.flatMap Frame.encode

/-- What is wrong with the bytes at a place of a file where a frame should start, and the failure
that tells it. -/
inductive Flaw (offset fileEnd : Nat) : Bytes → Failure → Prop where
  | magicCut {rest : Bytes} (hne : rest ≠ []) (h : rest.length < 4) :
      Flaw offset fileEnd rest (.truncated .field)
  | badMagic {found : Bytes} (hl : found.length = 4) (hm : found ≠ Frame.magic) (rest : Bytes) :
      Flaw offset fileEnd (found ++ rest) (.badMagic found)
  | sizeCut {rest : Bytes} (h : rest.length < 4) :
      Flaw offset fileEnd (Frame.magic ++ rest) (.truncated .field)
  | recordCut {size : Nat} {rest : Bytes} (hs : size < 2 ^ 32) (h : rest.length < size) :
      Flaw offset fileEnd (Frame.magic ++ LittleEndian.encode 4 size ++ rest)
        (.truncated (.frame offset size fileEnd))

/-- The places where the frames of records start, and behind them the place where the last one
ends. -/
def bounds (offset : Nat) : List Bytes → List Nat
  | [] => [offset]
  | record :: records => offset :: bounds (offset + (Frame.openingSize + record.length)) records

def spans (offset : Nat) : List Bytes → List Span
  | [] => []
  | record :: records =>
    ⟨offset, record.length⟩ :: spans (offset + (Frame.encode record).length) records

variable {records records' : List Bytes} {record data data' rest : Bytes} {offset fileEnd : Nat}

theorem Framed.nil : Framed [] [] where
  length_lt := List.forall_mem_nil _
  data_eq := rfl

theorem Framed.cons (h : record.length < 2 ^ 32) (hf : Framed records data) :
    Framed (record :: records) (Frame.encode record ++ data) where
  length_lt := List.forall_mem_cons.mpr ⟨h, hf.length_lt⟩
  data_eq := by rw [List.flatMap_cons, hf.data_eq]

theorem Framed.append (h : Framed records data) (h' : Framed records' data') :
    Framed (records ++ records') (data ++ data') where
  length_lt := List.forall_mem_append.mpr ⟨h.length_lt, h'.length_lt⟩
  data_eq := by rw [List.flatMap_append, ← h.data_eq, ← h'.data_eq]

theorem Framed.tail (h : Framed (record :: records) data) :
    record.length < 2 ^ 32 ∧ ∃ more, Framed records more ∧ data = Frame.encode record ++ more := by
  obtain ⟨hr, hrs⟩ := List.forall_mem_cons.mp h.length_lt
  exact ⟨hr, records.flatMap Frame.encode, ⟨hrs, rfl⟩, by rw [h.data_eq, List.flatMap_cons]⟩

theorem Framed.unique (h : Framed records data) (h' : Framed records' data) :
    records = records' := by
  induction records generalizing records' data with
  | nil =>
    cases records' with
    | nil => rfl
    | cons record' records' =>
      obtain ⟨_, more, _, he⟩ := h'.tail
      rw [h.data_eq] at he
      cases he
  | cons record records ih =>
    obtain ⟨hr, more, hmore, rfl⟩ := h.tail
    cases records' with
    | nil => cases h'.data_eq
    | cons record' records' =>
      obtain ⟨hr', more', hmore', he⟩ := h'.tail
      have hread := Frame.reads_encode (Nat.le_max_left record.length record'.length) hr
      have hread' := Frame.reads_encode (Nat.le_max_right record.length record'.length) hr'
      obtain ⟨_, rfl, rfl⟩ := hread.unique hread' he
      rw [ih hmore hmore']

theorem exists_frame_or_flaw (offset fileEnd : Nat) (hne : rest ≠ []) :
    (∃ record more, record.length < 2 ^ 32 ∧ rest = Frame.encode record ++ more) ∨
      ∃ e, Flaw offset fileEnd rest e := by
  by_cases hl : rest.length < 4
  case pos => exact .inr ⟨_, .magicCut hne hl⟩
  obtain ⟨found, tail, hfound, rfl⟩ : ∃ found tail, found.length = 4 ∧ rest = found ++ tail :=
    ⟨rest.take 4, rest.drop 4, by rw [List.length_take]; omega, (List.take_append_drop 4 rest).symm⟩
  by_cases hm : found = Frame.magic
  case neg => exact .inr ⟨_, .badMagic hfound hm tail⟩
  subst hm
  by_cases hs : tail.length < 4
  case pos => exact .inr ⟨_, .sizeCut hs⟩
  obtain ⟨field, body, hfield, rfl⟩ : ∃ field body, field.length = 4 ∧ tail = field ++ body :=
    ⟨tail.take 4, tail.drop 4, by rw [List.length_take]; omega, (List.take_append_drop 4 tail).symm⟩
  have hsize : LittleEndian.decode field < 2 ^ 32 := by
    have hlt := LittleEndian.decode_lt field
    rw [hfield] at hlt
    exact hlt
  have hencode : LittleEndian.encode 4 (LittleEndian.decode field) = field := by
    rw [← hfield]
    exact LittleEndian.encode_decode field
  rw [← hencode, ← List.append_assoc]
  by_cases hb : body.length < LittleEndian.decode field
  case pos => exact .inr ⟨_, .recordCut hsize hb⟩
  refine .inl ⟨body.take (LittleEndian.decode field), body.drop (LittleEndian.decode field), ?_⟩
  have hlength : (body.take (LittleEndian.decode field)).length = LittleEndian.decode field := by
    rw [List.length_take]
    omega
  rw [Frame.encode_append, hlength, List.take_append_drop]
  exact ⟨hsize, rfl⟩

/-- Every byte string is whole frames up to its end or up to a flaw. -/
theorem exists_framed_or_flaw (offset fileEnd : Nat) (data : Bytes) :
    ∃ records front rest, Framed records front ∧ data = front ++ rest ∧
      (rest = [] ∨ ∃ e, Flaw (offset + front.length) fileEnd rest e) := by
  induction hn : data.length using Nat.strongRecOn generalizing offset data with
  | ind n ih =>
    by_cases hne : data = []
    case pos => exact ⟨[], [], [], .nil, hne, .inl rfl⟩
    obtain ⟨record, more, hr, rfl⟩ | ⟨e, he⟩ := exists_frame_or_flaw offset fileEnd hne
    case inr => exact ⟨[], [], data, .nil, rfl, .inr ⟨e, he⟩⟩
    case inl =>
      have hlength := Frame.length_encode record
      rw [List.length_append, hlength, Frame.openingSize] at hn
      obtain ⟨records, front, rest, hf, rfl, hrest⟩ :=
        ih more.length (by omega) (offset + (Frame.encode record).length) more rfl
      refine ⟨record :: records, Frame.encode record ++ front, rest, .cons hr hf,
        (List.append_assoc _ _ _).symm, ?_⟩
      rw [List.length_append, ← Nat.add_assoc]
      exact hrest

end Archive

end ScriptLedger
