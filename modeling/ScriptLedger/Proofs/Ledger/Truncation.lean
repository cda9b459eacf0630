import ScriptLedger.Proofs.Ledger.RoundTrip

namespace ScriptLedger

open Wire Decoder Stateful

namespace Wire.Decoder

variable {α β : Type} {d x : Decoder α} {f : α → Decoder β} {data : Bytes}

/-- The bytes decide the result, whatever follows them: a value that is made of the first `k` of
them, or a limit that is passed. -/
def Settled (d : Decoder α) (data : Bytes) : Prop :=
  (∃ a k, k ≤ data.length ∧
    ∀ tail e, d ⟨data ++ tail, e⟩ = .ok a ⟨data.drop k ++ tail, e⟩) ∨
  ∃ cause, ∀ tail e, outcome d ⟨data ++ tail, e⟩ = .error (.limitExceeded cause)

/-- The bytes run out: at their end that is a truncation, and an error of the source that stands
there is passed on. -/
def Short (d : Decoder α) (data : Bytes) : Prop :=
  (∃ cause, outcome d (.ofBytes data) = .error (.truncated cause)) ∧
  ∀ message, outcome d ⟨data, .failing message⟩ = .error (.io message)

/-- Whatever is cut off inside the bytes that a value was made of is truncated. -/
def CutShort (d : Decoder α) : Prop :=
  ∀ p q rest e a, q ≠ [] → d ⟨p ++ q ++ rest, e⟩ = .ok a ⟨rest, e⟩ →
    ∃ cause, outcome d (.ofBytes p) = .error (.truncated cause)

def Accepts (d : Decoder α) (data : Bytes) : Prop :=
  ∃ a, d (.ofBytes data) = .ok a (.ofBytes [])

theorem Local.settled_or_short (h : Local d) (data : Bytes) : Settled d data ∨ Short d data := by
  cases h data with
  | @read bs a rest hr =>
    refine .inl (.inl ⟨a, bs.length, ?_, fun tail e => ?_⟩)
    · rw [List.length_append]
      exact Nat.le_add_right _ _
    · rw [List.drop_left, List.append_assoc]
      exact hr (rest ++ tail) e
  | @refused _ cause hr =>
    refine .inl (.inr ⟨cause, fun tail e => ?_⟩)
    obtain ⟨s, hs⟩ := hr tail e
    exact outcome_error hs
  | short hs hf =>
    obtain ⟨cause, s, hs⟩ := hs
    refine .inr ⟨⟨cause, outcome_error hs⟩, fun message => ?_⟩
    obtain ⟨s, hs⟩ := hf message
    exact outcome_error hs

theorem Short.not_settled (h : Short d data) : ¬ Settled d data := by
  obtain ⟨⟨cause, hs⟩, _⟩ := h
  rintro (⟨a, k, _, hr⟩ | ⟨excess, hr⟩)
  · have hok := hr [] .finished
    rw [List.append_nil] at hok
    rw [outcome, Stream.ofBytes, hok] at hs
    cases hs
  · have hexcess := hr [] .finished
    rw [List.append_nil] at hexcess
    cases hs.symm.trans hexcess

theorem ne_left_over {q rest : Bytes} (hq : q ≠ []) (more : Bytes) :
    more ++ (q ++ rest) ≠ rest := by
  intro he
  have hlength := congrArg List.length he
  have hpos := List.length_pos_of_ne_nil hq
  simp only [List.length_append] at hlength
  omega

theorem Local.cutShort (h : Local d) : CutShort d := by
  intro p q rest e a hq hok
  rw [List.append_assoc] at hok
  cases h p with
  | @read bs a' more hr =>
    rw [List.append_assoc, hr] at hok
    injection hok with _ hs
    injection hs with hrest _
    exact absurd hrest (ne_left_over hq more)
  | refused hr =>
    obtain ⟨s, hs⟩ := hr (q ++ rest) e
    cases hs.symm.trans hok
  | short hs _ =>
    obtain ⟨cause, s, hs⟩ := hs
    exact ⟨cause, outcome_error hs⟩

theorem CutShort.throw (e : Failure) : CutShort (throw e : Decoder α) :=
  fun _ _ _ _ _ _ h => nomatch h

theorem CutShort.ofExcept (r : Except Failure α) : CutShort (ofExcept r : Decoder α) := by
  intro p q rest e a hq hok
  cases r with
  | error e => cases hok
  | ok b =>
    injection hok with _ hs
    injection hs with hrest _
    rw [List.append_assoc] at hrest
    exact absurd hrest (ne_left_over hq p)

/-- Sequencing: the cut falls into what the first decoder takes or into what the second one
takes. -/
theorem CutShort.bind (hx : Local x) (hf : ∀ a, CutShort (f a)) : CutShort (x >>= f) := by
  intro p q rest e b hq hok
  cases hx p with
  | @read bs a more hr =>
    have hcut := hr more .finished
    rw [List.append_assoc, List.append_assoc, bind_ok (hr _ e), ← List.append_assoc] at hok
    obtain ⟨cause, hc⟩ := hf a more q rest e b hq hok
    refine ⟨cause, ?_⟩
    rw [← hc]
    exact outcome_congr (bind_ok hcut)
  | refused hr =>
    obtain ⟨s, hs⟩ := hr (q ++ rest) e
    rw [List.append_assoc, bind_error hs] at hok
    cases hok
  | short hs _ =>
    obtain ⟨cause, s, hs⟩ := hs
    exact ⟨cause, outcome_error (bind_error hs)⟩

/-- No accepted byte string goes on as another. -/
theorem CutShort.eq_of_prefix (h : CutShort d) {bs cs : Bytes} (hb : Accepts d bs)
    (hc : Accepts d cs) (hp : bs <+: cs) : bs = cs := by
  obtain ⟨q, rfl⟩ := hp
  obtain ⟨a, ha⟩ := hb
  obtain ⟨c, hc⟩ := hc
  by_contra hne
  have hq : q ≠ [] := by
    intro hq
    rw [hq, List.append_nil] at hne
    exact hne rfl
  have hok : d ⟨bs ++ q ++ [], .finished⟩ = .ok c ⟨[], .finished⟩ := by
    rw [List.append_nil]
    exact hc
  obtain ⟨cause, hs⟩ := h bs q [] .finished c hq hok
  rw [outcome, ha] at hs
  cases hs

end Wire.Decoder

/-- The decoders of values that need no frame: words, identifiers, the parts of a ledger, lists of
any of these, and the numbers and byte strings that they are made of. -/
inductive StreamDecoder : {α : Type} → Decoder α → Prop where
  | word32 : StreamDecoder (Format.read : Decoder UInt32)
  | word64 : StreamDecoder (Format.read : Decoder UInt64)
  | hash : StreamDecoder (Format.read : Decoder Hash256)
  | input : StreamDecoder (Format.read : Decoder Input)
  | output : StreamDecoder (Format.read : Decoder Output)
  | transaction : StreamDecoder (Format.read : Decoder Transaction)
  | header : StreamDecoder (Format.read : Decoder Header)
  | list {α : Type} [Format α] (h : StreamDecoder (Format.read : Decoder α)) :
      StreamDecoder (Format.read : Decoder (List α))
  | number : StreamDecoder CompactSize.read
  | varBytes : StreamDecoder VarBytes.read
  | bytes (n : Nat) : StreamDecoder (Decoder.bytes n)

theorem StreamDecoder.isLocal {α : Type} {d : Decoder α} (h : StreamDecoder d) : Local d := by
  induction h with
  | word32 | word64 | hash | header => exact Exact.isLocal
  | input => exact (Input.Spelling.parses _).isLocal
  | output => exact (Output.Spelling.parses _).isLocal
  | transaction => exact (Transaction.Spelling.parses _).isLocal
  | list _ ih => exact CompactSize.local_read.bind fun _ => ih.times _
  | number => exact CompactSize.local_read
  | varBytes => exact (VarBytes.parses _).isLocal
  | bytes n => exact .bytes n

/-- A frame is no local decoder, since wrong magic is no matter of length; but nothing that is cut
off inside it is taken for anything else. -/
theorem Block.cutShort_readWithin (limit : Nat) : CutShort (readWithin limit) := by
  unfold readWithin Frame.read Frame.readOpening Frame.readMagic
  simp only [bind_assoc]
  apply CutShort.bind (.field 4)
  intro found
  by_cases hm : found = Frame.magic
  case neg =>
    rw [if_neg hm]
    exact .throw _
  rw [if_pos hm]
  apply CutShort.bind (.number 4)
  intro size
  by_cases hs : limit < size
  case pos =>
    rw [if_pos hs]
    exact .throw _
  rw [if_neg hs]
  exact .bind (.bytes size) fun record => .ofExcept _

/-- What a decoder makes of some bytes is settled by them, or they run out, which is reported as
such; so nothing that is cut off, here or in a frame, is taken for a value, and no accepted byte
string goes on as another. -/
theorem decode_settled_or_short :
    (∀ {α : Type} {d : Decoder α}, StreamDecoder d →
      (∀ data, (Settled d data ∨ Short d data) ∧ ¬ (Settled d data ∧ Short d data)) ∧
      CutShort d ∧
      ∀ bs cs, Accepts d bs → Accepts d cs → bs <+: cs → bs = cs) ∧
    ∀ limit, CutShort (Block.readWithin limit) ∧
      ∀ bs cs, Accepts (Block.readWithin limit) bs → Accepts (Block.readWithin limit) cs →
        bs <+: cs → bs = cs := by
  constructor
  case left =>
    intro α d h
    have hcut := h.isLocal.cutShort
    exact ⟨fun data => ⟨h.isLocal.settled_or_short data, fun hb => hb.2.not_settled hb.1⟩, hcut,
      fun bs cs => hcut.eq_of_prefix⟩
  case right =>
    intro limit
    have hcut := Block.cutShort_readWithin limit
    exact ⟨hcut, fun bs cs => hcut.eq_of_prefix⟩

theorem decode_settled_or_short_cuts :
    let words : Decoder (List UInt32) := Format.read
    StreamDecoder words ∧
      words (.ofBytes [2, 1, 0, 0, 0, 2, 0, 0, 0]) = .ok [1, 2] (.ofBytes []) ∧
      (∃ cause, outcome words (.ofBytes [2, 1, 0, 0, 0, 2]) = .error (.truncated cause)) ∧
      (Settled words [2, 1, 0, 0, 0, 2] ∨ Short words [2, 1, 0, 0, 0, 2]) ∧
      ∃ cause, outcome (Block.readWithin 144) (.ofBytes ((Frame.encode Block.ofCoinbase.record).take
        100)) = .error (.truncated cause) := by
  intro words
  have hwords : StreamDecoder words := .list .word32
  have hread : words (.ofBytes [2, 1, 0, 0, 0, 2, 0, 0, 0]) = .ok [1, 2] (.ofBytes []) :=
    rfl
  obtain ⟨hsettled, hcut, _⟩ := decode_settled_or_short.1 hwords
  have hl := Block.length_record_ofCoinbase
  have hd := Block.decodeRecord_record Block.stamped_ofCoinbase Block.scriptsWithin_ofCoinbase
    (by omega)
  have hf := Block.reads_readWithin (Nat.le_of_eq hl) (by omega) hd [] .finished
  rw [← List.take_append_drop 100 (Frame.encode Block.ofCoinbase.record)] at hf
  have hq : (Frame.encode Block.ofCoinbase.record).drop 100 ≠ [] := by
    decide +kernel
  exact ⟨hwords, hread, hcut [2, 1, 0, 0, 0, 2] [0, 0, 0] [] .finished [1, 2] (by decide) hread,
    (hsettled _).1, (decode_settled_or_short.2 144).1 _ _ [] .finished _ hq hf⟩

end ScriptLedger
