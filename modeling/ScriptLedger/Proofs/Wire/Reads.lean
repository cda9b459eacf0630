import Mathlib.Algebra.BigOperators.Group.List.Basic
import ScriptLedger.Wire.Decoder

namespace ScriptLedger

namespace LittleEndian

theorem decode_lt (bs : Bytes) : decode bs < 256 ^ bs.length := by
  induction bs with
  | nil => decide
  | cons b bs ih =>
    have hb := b.toNat_lt
    simp only [decode, List.length_cons, Nat.pow_succ]
    omega

theorem decode_encode {width n : Nat} (h : n < 256 ^ width) : decode (encode width n) = n := by
  induction width generalizing n with
  | zero => simp only [Nat.pow_zero] at h; simp only [encode, decode]; omega
  | succ width ih =>
    rw [Nat.pow_succ] at h
    have hd : n / 256 < 256 ^ width := by omega
    simp only [encode, decode, ih hd, UInt8.toNat_ofNat']
    omega

end LittleEndian

namespace Wire.Decoder

open Stateful

variable {α β : Type} {x : Decoder α} {f : α → Decoder β} {a a' : α} {b : β} {bs cs : Bytes}

/-- The bytes `bs` are read as `a`, whatever follows them and however the stream ends. -/
def Reads (d : Decoder α) (bs : Bytes) (a : α) : Prop :=
  ∀ rest e, d ⟨bs ++ rest, e⟩ = .ok a ⟨rest, e⟩

/-- What becomes of the bytes of a stream. Only the last case looks at how the stream ends. -/
inductive Fate (d : Decoder α) : Bytes → Prop where
  /-- Some bytes at the front are read. -/
  | read {bs : Bytes} {a : α} (rest : Bytes) (h : Reads d bs a) : Fate d (bs ++ rest)
  /-- A limit is passed. -/
  | refused {data : Bytes} {cause : Excess}
    (h : ∀ rest e, ∃ s, d ⟨data ++ rest, e⟩ = .error (.limitExceeded cause) s) : Fate d data
  /-- The bytes run out. -/
  | short {data : Bytes} (h : ∃ cause s, d ⟨data, .finished⟩ = .error (.truncated cause) s)
    (hf : ∀ message, ∃ s, d ⟨data, .failing message⟩ = .error (.io message) s) : Fate d data

/-- A decoder that neither looks ahead nor makes a value of too few bytes. -/
def Local (d : Decoder α) : Prop :=
  ∀ data, Fate d data

theorem Reads.pure (a : α) : Reads (pure a) [] a :=
  fun _ _ => rfl

theorem Reads.bind (hx : Reads x bs a) (hf : Reads (f a) cs b) : Reads (x >>= f) (bs ++ cs) b := by
  intro rest e
  rw [List.append_assoc, bind_ok (hx _ e)]
  exact hf rest e

/-- No byte string starts with two that are read in different ways. -/
theorem Reads.unique (h : Reads x bs a) (h' : Reads x cs a') {r r' : Bytes}
    (he : bs ++ r = cs ++ r') : bs = cs ∧ a = a' ∧ r = r' := by
  have hb := h r .finished
  rw [he, h' r' .finished] at hb
  cases hb
  exact ⟨List.append_cancel_right he, rfl, rfl⟩

theorem reads_pure_iff : Reads (pure a : Decoder α) bs a' ↔ bs = [] ∧ a' = a := by
  constructor
  · intro h
    have he : bs ++ [] = [] ++ bs := by simp
    obtain ⟨hb, ha, _⟩ := h.unique (.pure a) he
    exact ⟨hb, ha⟩
  · rintro ⟨rfl, rfl⟩
    exact .pure a'

theorem Local.pure (a : α) : Local (pure a) :=
  fun data => .read data (.pure a)

theorem Local.refuse (cause : Excess) : Local (throw (.limitExceeded cause) : Decoder α) :=
  fun _ => .refused fun _ _ => ⟨_, rfl⟩

/-- Sequencing keeps decoders local: the second one starts where the first one stopped. -/
theorem Local.bind_of_reads (hx : Local x) (hf : ∀ bs a, Reads x bs a → Local (f a)) :
    Local (x >>= f) := by
  intro data
  cases hx data with
  | @read bs a rest h =>
    have hb (tail : Bytes) (e : Ending) : (x >>= f) ⟨bs ++ tail, e⟩ = f a ⟨tail, e⟩ :=
      bind_ok (h tail e)
    cases hf bs a h rest with
    | @read cs b rest h' =>
      rw [← List.append_assoc]
      exact .read rest (h.bind h')
    | @refused _ cause h' =>
      have hr (tail : Bytes) (e : Ending) :
          ∃ s, (x >>= f) ⟨bs ++ rest ++ tail, e⟩ = .error (.limitExceeded cause) s := by
        rw [List.append_assoc, hb]
        exact h' tail e
      exact .refused hr
    | short h' hf' =>
      refine .short ?_ fun message => ?_
      · rw [hb]
        exact h'
      · rw [hb]
        exact hf' message
  | @refused _ cause h =>
    have hr (rest : Bytes) (e : Ending) :
        ∃ s, (x >>= f) ⟨data ++ rest, e⟩ = .error (.limitExceeded cause) s := by
      obtain ⟨s, hs⟩ := h rest e
      exact ⟨s, bind_error hs⟩
    exact .refused hr
  | short h hf' =>
    obtain ⟨cause, s, hs⟩ := h
    refine .short ⟨cause, s, bind_error hs⟩ fun message => ?_
    obtain ⟨s, hs⟩ := hf' message
    exact ⟨s, bind_error hs⟩

theorem Local.bind (hx : Local x) (hf : ∀ a, Local (f a)) : Local (x >>= f) :=
  hx.bind_of_reads fun _ a _ => hf a

theorem Local.map {g : α → β} (hx : Local x) : Local (g <$> x) := by
  rw [map_eq_pure_bind]
  exact hx.bind fun a => .pure (g a)

/-- A success on a byte string has taken bytes from its front that are always read like this. -/
theorem Local.reads_of_ok (hx : Local x) {data : Bytes} {s : Stream}
    (h : x (.ofBytes data) = .ok a s) :
    ∃ bs, data = bs ++ s.remaining ∧ s = .ofBytes s.remaining ∧ Reads x bs a := by
  cases hx data with
  | @read bs a' rest h' =>
    have he := (h' rest .finished).symm.trans h
    cases he
    exact ⟨bs, rfl, rfl, h'⟩
  | refused h' =>
    obtain ⟨t, ht⟩ := h' [] .finished
    rw [List.append_nil] at ht
    cases ht.symm.trans h
  | short h' =>
    obtain ⟨cause, t, ht⟩ := h'
    cases ht.symm.trans h

theorem reads_bind_iff (hx : Local x) :
    Reads (x >>= f) bs b ↔
      ∃ cs ds a, bs = cs ++ ds ∧ Reads x cs a ∧ Reads (f a) ds b := by
  constructor
  · intro h
    have hb := h [] .finished
    rw [List.append_nil, bind_eq_ok_iff] at hb
    obtain ⟨a, s, hs, _⟩ := hb
    obtain ⟨cs, rfl, _, hr⟩ := hx.reads_of_ok hs
    refine ⟨cs, s.remaining, a, rfl, hr, fun rest e => ?_⟩
    have he := h rest e
    rwa [List.append_assoc, bind_ok (hr _ e)] at he
  · rintro ⟨cs, ds, a, rfl, hr, hf⟩
    exact hr.bind hf

theorem reads_map_iff {g : α → β} (hx : Local x) :
    Reads (g <$> x) bs b ↔ ∃ a, Reads x bs a ∧ b = g a := by
  rw [map_eq_pure_bind, reads_bind_iff hx]
  constructor
  · rintro ⟨cs, ds, a, rfl, hr, hp⟩
    obtain ⟨rfl, rfl⟩ := reads_pure_iff.1 hp
    exact ⟨a, by rwa [List.append_nil], rfl⟩
  · rintro ⟨a, hr, rfl⟩
    exact ⟨bs, [], a, (List.append_nil bs).symm, hr, .pure (g a)⟩

theorem decodeAll_eq_ok_iff (hx : Local x) {data : Bytes} :
    decodeAll x data = .ok a ↔ Reads x data a := by
  constructor
  · intro h
    unfold decodeAll at h
    cases hs : x (.ofBytes data) with
    | error e s => rw [hs] at h; cases h
    | ok a' s =>
      simp only [hs] at h
      split at h
      · rename_i he
        cases h
        obtain ⟨bs, rfl, _, hr⟩ := hx.reads_of_ok hs
        rwa [List.isEmpty_iff.1 he, List.append_nil]
      · cases h
  · intro h
    have hs : x (.ofBytes data) = .ok a ⟨[], .finished⟩ := by
      simpa only [List.append_nil, Stream.ofBytes] using h [] .finished
    simp [decodeAll, hs]

theorem Local.take (n : Nat) (cause : Nat → Shortage) : Local (take n cause) := by
  intro data
  by_cases h : n ≤ data.length
  · have hl : (data.take n).length = n := by rw [List.length_take]; omega
    rw [← List.take_append_drop n data]
    exact .read _ (take_append hl)
  · have hl : (data.take n).length ≠ n := by rw [List.length_take]; omega
    exact .short ⟨_, _, by simp only [Decoder.take, if_neg hl]; rfl⟩
      fun message => ⟨_, by simp only [Decoder.take, if_neg hl]; rfl⟩

theorem reads_take_iff {n : Nat} {cause : Nat → Shortage} {cs : Bytes} :
    Reads (take n cause) bs cs ↔ bs.length = n ∧ cs = bs := by
  constructor
  · intro h
    -- Enough bytes behind `bs` make the decoder take something.
    have hl : ((bs ++ List.replicate n 0).take n).length = n := by simp
    obtain ⟨hb, hc, _⟩ := h.unique (take_append hl) (List.take_append_drop n _).symm
    exact ⟨hb ▸ hl, hc.trans hb.symm⟩
  · rintro ⟨hl, rfl⟩
    exact take_append hl

theorem Local.field (n : Nat) : Local (field n) :=
  .take n _

theorem reads_field_iff {n : Nat} {cs : Bytes} :
    Reads (field n) bs cs ↔ bs.length = n ∧ cs = bs :=
  reads_take_iff

theorem Local.byte : Local byte :=
  (Local.field 1).bind fun _ => .pure _

theorem reads_byte_iff {c : UInt8} : Reads byte bs c ↔ bs = [c] := by
  unfold byte
  rw [reads_bind_iff (.field 1)]
  constructor
  · rintro ⟨cs, ds, _, rfl, ht, hp⟩
    obtain ⟨hl, rfl⟩ := reads_field_iff.1 ht
    obtain ⟨rfl, rfl⟩ := reads_pure_iff.1 hp
    obtain ⟨b, rfl⟩ := List.length_eq_one_iff.1 hl
    rfl
  · rintro rfl
    exact ⟨[c], [], [c], rfl, reads_field_iff.2 ⟨rfl, rfl⟩, .pure c⟩

theorem Local.number (width : Nat) : Local (number width) :=
  (Local.field width).bind fun _ => .pure _

theorem number_encode {width n : Nat} (h : n < 256 ^ width) (rest : Bytes) (e : Ending) :
    number width ⟨LittleEndian.encode width n ++ rest, e⟩ = .ok n ⟨rest, e⟩ := by
  refine (Stateful.bind_ok (take_append (LittleEndian.length_encode width n) rest e)).trans ?_
  simp only [LittleEndian.decode_encode h, Stateful.pure_apply]

theorem reads_number_iff {width n : Nat} :
    Reads (number width) bs n ↔ n < 256 ^ width ∧ bs = LittleEndian.encode width n := by
  constructor
  · intro h
    unfold number at h
    obtain ⟨cs, ds, _, rfl, ht, hp⟩ := (reads_bind_iff (.field width)).1 h
    obtain ⟨rfl, rfl⟩ := reads_field_iff.1 ht
    obtain ⟨rfl, rfl⟩ := reads_pure_iff.1 hp
    exact ⟨LittleEndian.decode_lt _, by rw [LittleEndian.encode_decode, List.append_nil]⟩
  · rintro ⟨hn, rfl⟩
    exact number_encode hn

theorem Local.bytes (n : Nat) : Local (bytes n) :=
  .take n _

theorem reads_bytes_iff {n : Nat} {cs : Bytes} :
    Reads (bytes n) bs cs ↔ bs.length = n ∧ cs = bs :=
  reads_take_iff

theorem Local.times {item : Decoder α} (h : Local item) (n : Nat) : Local (times n item) := by
  induction n with
  | zero => exact .pure []
  | succ n ih =>
    rw [times_succ]
    exact h.bind fun a => ih.bind fun rest => .pure (a :: rest)

/-- A local decoder reads exactly the spellings that are admitted: the bytes of each are read as
its value, and all that is read is spelled so. -/
structure Parses {σ : Type} (d : Decoder α) (spell : σ → Bytes) (value : σ → α)
    (admitted : σ → Prop) : Prop where
  isLocal : Local d
  reads_iff {bs : Bytes} {a : α} : Reads d bs a ↔ ∃ w, admitted w ∧ spell w = bs ∧ value w = a

theorem Parses.times {σ : Type} {item : Decoder α} {spell : σ → Bytes} {value : σ → α}
    {admitted : σ → Prop} (h : Parses item spell value admitted) (n : Nat) :
    Parses (times n item) (List.flatMap spell) (List.map value)
      fun ws => ws.length = n ∧ ∀ w ∈ ws, admitted w := by
  refine ⟨h.isLocal.times n, ?_⟩
  induction n with
  | zero =>
    intro bs as
    constructor
    · intro hr
      obtain ⟨rfl, rfl⟩ := reads_pure_iff.1 hr
      exact ⟨[], by simp⟩
    · rintro ⟨ws, ⟨hn, _⟩, rfl, rfl⟩
      rw [List.eq_nil_of_length_eq_zero hn]
      exact .pure []
  | succ n ih =>
    intro bs as
    rw [times_succ, reads_bind_iff h.isLocal]
    constructor
    · rintro ⟨cs, ds, a, rfl, ha, hr⟩
      obtain ⟨es, fs, rest, rfl, hrest, hp⟩ := (reads_bind_iff (h.isLocal.times n)).1 hr
      obtain ⟨rfl, rfl⟩ := reads_pure_iff.1 hp
      obtain ⟨w, hw, rfl, rfl⟩ := h.reads_iff.1 ha
      obtain ⟨ws, ⟨rfl, hws⟩, rfl, rfl⟩ := ih.1 hrest
      exact ⟨w :: ws, ⟨rfl, List.forall_mem_cons.2 ⟨hw, hws⟩⟩, by simp, rfl⟩
    · rintro ⟨ws, ⟨hn, hws⟩, rfl, rfl⟩
      obtain ⟨w, ws, rfl⟩ := List.exists_cons_of_length_eq_add_one hn
      obtain ⟨hw, hws⟩ := List.forall_mem_cons.1 hws
      refine ⟨spell w, ws.flatMap spell, value w, rfl, h.reads_iff.2 ⟨w, hw, rfl, rfl⟩, ?_⟩
      have hrest := ih.2 ⟨ws, ⟨Nat.succ.inj hn, hws⟩, rfl, rfl⟩
      exact (reads_bind_iff (h.isLocal.times n)).2
        ⟨_, [], _, (List.append_nil _).symm, hrest, .pure _⟩

end Wire.Decoder

end ScriptLedger
