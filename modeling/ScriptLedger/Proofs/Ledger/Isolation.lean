import ScriptLedger.Proofs.Archive.Frames

namespace ScriptLedger

open Wire Decoder Stateful

namespace Wire

/-- The stream with `k` of the zeros written out that it ends in, if it ends in zeros. -/
def Stream.unroll (k : Nat) (s : Stream) : Stream :=
  match s.ending with
  | .zeros => ⟨s.remaining ++ List.replicate k 0, .zeros⟩
  | _ => s

def Stream.skip (n : Nat) (s : Stream) : Stream :=
  ⟨s.remaining.drop n, s.ending⟩

theorem Stream.unroll_zero (s : Stream) : s.unroll 0 = s := by
  obtain ⟨data, ending⟩ := s
  cases ending with
  | zeros => simp only [unroll, List.replicate_zero, List.append_nil]
  | finished | failing => rfl

theorem Stream.unroll_of_ne {data : Bytes} {e : Ending} (h : e ≠ .zeros) (k : Nat) :
    unroll k ⟨data, e⟩ = ⟨data, e⟩ := by
  cases e with
  | zeros => exact absurd rfl h
  | finished | failing => rfl

theorem Stream.skip_skip (m n : Nat) (s : Stream) : (s.skip m).skip n = s.skip (m + n) := by
  simp only [skip, List.drop_drop]

theorem Stream.skip_unroll (n k : Nat) (s : Stream) :
    ∃ j, (s.unroll k).skip n = (s.skip n).unroll j := by
  obtain ⟨data, ending⟩ := s
  cases ending with
  | zeros =>
    refine ⟨k - (n - data.length), ?_⟩
    simp only [unroll, skip, List.drop_append, List.drop_replicate]
  | finished | failing => exact ⟨0, rfl⟩

namespace Decoder

variable {α β : Type} {x : Decoder α} {f : α → Decoder β} {m n : Nat}

/-- At most `m` bytes of any stream are taken, and neither their number nor the result depends on
how many of its endless zeros are written out. -/
def TakesAtMost (m : Nat) (d : Decoder α) : Prop :=
  ∀ s : Stream, ∃ n, n ≤ m ∧ ∃ r : Except Failure α, ∀ k,
    d (s.unroll k) = (ofExcept r : Decoder α) ((s.unroll k).skip n)

theorem TakesAtMost.mono (h : TakesAtMost m x) (hle : m ≤ n) : TakesAtMost n x := by
  intro s
  obtain ⟨k, hk, hr⟩ := h s
  exact ⟨k, Nat.le_trans hk hle, hr⟩

theorem TakesAtMost.ofExcept (r : Except Failure α) :
    TakesAtMost 0 (ofExcept r : Decoder α) := by
  intro s
  exact ⟨0, Nat.le_refl 0, r, fun _ => rfl⟩

theorem TakesAtMost.bind (hx : TakesAtMost m x) (hf : ∀ a, TakesAtMost n (f a)) :
    TakesAtMost (m + n) (x >>= f) := by
  intro s
  obtain ⟨i, hi, r, hr⟩ := hx s
  cases r with
  | error e => exact ⟨i, Nat.le_add_right_of_le hi, .error e, fun k => bind_error (hr k)⟩
  | ok a =>
    obtain ⟨j, hj, r', hr'⟩ := hf a (s.skip i)
    refine ⟨i + j, Nat.add_le_add hi hj, r', fun k => ?_⟩
    obtain ⟨k', hk'⟩ := s.skip_unroll i k
    rw [bind_ok (hr k), hk', hr' k', ← hk', Stream.skip_skip]

theorem take_of_le {data : Bytes} (h : n ≤ data.length) (cause : Nat → Shortage) (e : Ending) :
    take n cause ⟨data, e⟩ = .ok (data.take n) ⟨data.drop n, e⟩ := by
  have hl : (data.take n).length = n := by rw [List.length_take, Nat.min_eq_left h]
  simp only [take, if_pos hl]

theorem take_of_lt {data : Bytes} (h : data.length < n) (cause : Nat → Shortage) {e : Ending}
    (he : e ≠ .zeros) :
    ∃ failure, take n cause ⟨data, e⟩ = .error failure ⟨data.drop n, e⟩ := by
  have hl : ¬ (data.take n).length = n := by
    rw [List.length_take]
    omega
  have hrest : data.drop n = [] := List.drop_of_length_le (Nat.le_of_lt h)
  simp only [take, if_neg hl, hrest]
  cases e with
  | finished => exact ⟨_, rfl⟩
  | zeros => exact absurd rfl he
  | failing message => exact ⟨_, rfl⟩

theorem take_zeros (n : Nat) (cause : Nat → Shortage) (data : Bytes) :
    take n cause ⟨data, .zeros⟩ =
      .ok ((data ++ List.replicate n 0).take n) ⟨data.drop n, .zeros⟩ := by
  by_cases hn : n ≤ data.length
  case pos => rw [take_of_le hn, List.take_append_of_le_length hn]
  case neg =>
    have hdata : data.take n = data := List.take_of_length_le (Nat.le_of_not_le hn)
    have hl : ¬ data.length = n := fun h => hn (Nat.le_of_eq h.symm)
    have hrest : data.drop n = [] := List.drop_of_length_le (Nat.le_of_not_le hn)
    have hzeros : (data ++ List.replicate n 0).take n =
        data ++ List.replicate (n - data.length) (0 : UInt8) := by
      rw [List.take_append, hdata, List.take_replicate, Nat.min_eq_left (Nat.sub_le _ _)]
    simp only [take, hdata, if_neg hl, hzeros, hrest]

/-- Zeros that are written out in front of those taken are the same as zeros behind them. -/
theorem take_unrolled (n k : Nat) (data : Bytes) :
    (data ++ List.replicate k 0 ++ List.replicate n 0).take n =
      (data ++ List.replicate n (0 : UInt8)).take n := by
  rw [List.append_assoc, List.replicate_append_replicate, Nat.add_comm,
    ← List.replicate_append_replicate, ← List.append_assoc]
  apply List.take_append_of_le_length
  rw [List.length_append, List.length_replicate]
  exact Nat.le_add_left _ _

theorem TakesAtMost.take (n : Nat) (cause : Nat → Shortage) : TakesAtMost n (take n cause) := by
  intro ⟨data, ending⟩
  refine ⟨n, Nat.le_refl n, ?_⟩
  by_cases hz : ending = .zeros
  case pos =>
    subst hz
    refine ⟨.ok ((data ++ List.replicate n 0).take n), fun k => ?_⟩
    refine (take_zeros n cause _).trans ?_
    rw [take_unrolled]
    rfl
  case neg =>
    have hs (k : Nat) : Stream.unroll k ⟨data, ending⟩ = ⟨data, ending⟩ :=
      Stream.unroll_of_ne hz k
    by_cases hn : n ≤ data.length
    case pos => exact ⟨.ok (data.take n), fun k => by rw [hs k]; exact take_of_le hn cause ending⟩
    case neg =>
      obtain ⟨failure, hfailure⟩ := take_of_lt (Nat.lt_of_not_le hn) cause hz
      exact ⟨.error failure, fun k => by rw [hs k]; exact hfailure⟩

theorem TakesAtMost.number (width : Nat) : TakesAtMost width (number width) :=
  (take width _).bind fun bs => ofExcept (.ok (LittleEndian.decode bs))

end Decoder

end Wire

namespace Block

theorem takesAtMost_readWithin (limit : Nat) : TakesAtMost (8 + limit) (readWithin limit) := by
  have hmagic : TakesAtMost 4 Frame.readMagic := by
    apply TakesAtMost.bind (n := 0) (.take 4 _)
    intro found
    by_cases hm : found = Frame.magic
    · rw [if_pos hm]
      exact .ofExcept (.ok ())
    · rw [if_neg hm]
      exact .ofExcept (.error _)
  have hopening : TakesAtMost 8 Frame.readOpening := hmagic.bind fun _ => .number 4
  have hframe : TakesAtMost (8 + limit) (Frame.read limit) := by
    apply hopening.bind
    intro size
    by_cases hs : limit < size
    · rw [if_pos hs]
      exact (TakesAtMost.ofExcept (.error _)).mono (Nat.zero_le limit)
    · rw [if_neg hs]
      exact (TakesAtMost.take size _).mono (Nat.le_of_not_lt hs)
  exact hframe.bind fun record => .ofExcept (decodeRecord record)

/-- A record is decoded as if it stood alone: what follows its frame, be it another frame, endless
bytes or an error, is neither seen nor touched, and a record above the limit is refused with only
the opening of its frame taken. So whatever a stream holds, no more than the opening and the limit
are ever taken from it. -/
theorem readWithin_isolated :
    (∀ (record : Bytes) (limit : Nat) (rest : Bytes) (e : Ending), record.length < 2 ^ 32 →
      (limit < record.length → readWithin limit ⟨Frame.encode record ++ rest, e⟩ =
        .error (.limitExceeded (.record record.length limit)) ⟨record ++ rest, e⟩) ∧
      (record.length ≤ limit →
        outcome (readWithin limit) ⟨Frame.encode record ++ rest, e⟩ = decodeRecord record ∧
        after (readWithin limit) ⟨Frame.encode record ++ rest, e⟩ = ⟨rest, e⟩)) ∧
    ∀ (limit : Nat) (s : Stream), ∃ n, n ≤ 8 + limit ∧ ∀ k,
      outcome (readWithin limit) (s.unroll k) = outcome (readWithin limit) s ∧
      after (readWithin limit) (s.unroll k) = (s.unroll k).skip n := by
  constructor
  case left =>
    intro record limit rest e hr
    refine ⟨fun h => readWithin_over hr h rest e, fun h => ?_⟩
    have hread := readWithin_frame hr h rest e
    exact ⟨(outcome_congr hread).trans (outcome_ofExcept _ _),
      (after_congr hread).trans (after_ofExcept _ _)⟩
  case right =>
    intro limit s
    obtain ⟨n, hn, r, hr⟩ := takesAtMost_readWithin limit s
    have houtcome (k : Nat) : outcome (readWithin limit) (s.unroll k) = r :=
      (outcome_congr (hr k)).trans (outcome_ofExcept _ _)
    have hs := houtcome 0
    rw [s.unroll_zero] at hs
    refine ⟨n, hn, fun k => ⟨(houtcome k).trans hs.symm, ?_⟩⟩
    exact (after_congr (hr k)).trans (after_ofExcept _ _)

def overstated : Bytes :=
  List.replicate 80 0 ++ [2]

/-- The following frame is not taken for the transactions that are missing. -/
theorem readWithin_isolated_overstated :
    let s : Stream := ⟨Frame.encode overstated ++ Frame.encode ofCoinbase.record, .zeros⟩
    overstated.length = 81 ∧
      readWithin 80 s = .error (.limitExceeded (.record 81 80))
        ⟨overstated ++ Frame.encode ofCoinbase.record, .zeros⟩ ∧
      outcome (readWithin 81) s = .error (.truncated .field) ∧
      after (readWithin 81) s = ⟨Frame.encode ofCoinbase.record, .zeros⟩ := by
  intro s
  have hl : overstated.length = 81 := by decide
  have hd : decodeRecord overstated = .error (.truncated .field) := by
    decide +kernel
  have hover := (readWithin_isolated.1 overstated 80 (Frame.encode ofCoinbase.record) .zeros
    (by omega)).1 (by omega)
  obtain ⟨houtcome, hafter⟩ := (readWithin_isolated.1 overstated 81
    (Frame.encode ofCoinbase.record) .zeros (by omega)).2 (by omega)
  rw [hl] at hover
  exact ⟨hl, hover, houtcome.trans hd, hafter⟩

end Block

end ScriptLedger
