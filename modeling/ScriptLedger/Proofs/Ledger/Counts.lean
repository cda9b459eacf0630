import Mathlib.Algebra.Order.BigOperators.Group.List
import Mathlib.Algebra.Order.Ring.Nat
import ScriptLedger.Proofs.Ledger.RoundTrip

namespace ScriptLedger

open Wire Decoder Stateful

/-- The failures of bytes that announce more than they hold: the bytes run out, or a limit is
passed. -/
inductive Failure.IsRefusal : Failure → Prop where
  | truncated (cause : Shortage) : IsRefusal (.truncated cause)
  | limitExceeded (cause : Excess) : IsRefusal (.limitExceeded cause)

namespace Wire.Decoder

variable {α β : Type} {d item x : Decoder α} {f : α → Decoder β} {data : Bytes} {s t : Stream}
  {a : α} {as : List α} {m n k : Nat}

def TakesAtLeast (m : Nat) (d : Decoder α) : Prop :=
  ∀ bs a, Reads d bs a → m ≤ bs.length

def Refuses (d : Decoder α) (s : Stream) : Prop :=
  ∃ e t, d s = .error e t ∧ e.IsRefusal

/-- How far a loop over `n` items comes: the given items are read, and then they are all, or the
next one fails and the loop with it. -/
def ComesTo (item : Decoder α) (n : Nat) (s : Stream) (as : List α) : Prop :=
  ∃ t, times as.length item s = .ok as t ∧
    (as.length = n ∨
      as.length < n ∧ ∃ e u, item t = .error e u ∧ times n item s = .error e u)

theorem TakesAtLeast.times (hl : Local item) (h : TakesAtLeast m item) (n : Nat) :
    TakesAtLeast (n * m) (times n item) := by
  induction n with
  | zero =>
    intro bs as _
    rw [Nat.zero_mul]
    exact Nat.zero_le _
  | succ n ih =>
    intro bs as hr
    rw [times_succ] at hr
    obtain ⟨cs, ds, a, rfl, ha, hr⟩ := (reads_bind_iff hl).1 hr
    obtain ⟨es, fs, rest, rfl, hrest, _⟩ := (reads_bind_iff (hl.times n)).1 hr
    have hitem := h cs a ha
    have hitems := ih es rest hrest
    rw [Nat.succ_mul, List.length_append, List.length_append]
    omega

/-- Too few bytes are no value, and a decoder that does not look ahead says so. -/
theorem Local.refuses_of_lt (hl : Local d) (h : TakesAtLeast m d) (hlt : data.length < m) :
    Refuses d (.ofBytes data) := by
  cases hl data with
  | @read bs a rest hr =>
    have hle := h bs a hr
    rw [List.length_append] at hlt
    omega
  | @refused _ cause hr =>
    obtain ⟨t, ht⟩ := hr [] .finished
    rw [List.append_nil] at ht
    exact ⟨_, t, ht, .limitExceeded cause⟩
  | short hs _ =>
    obtain ⟨cause, t, ht⟩ := hs
    exact ⟨_, t, ht, .truncated cause⟩

theorem Refuses.bind_left (h : Refuses x s) : Refuses (x >>= f) s := by
  obtain ⟨e, t, he, href⟩ := h
  exact ⟨e, t, bind_error he, href⟩

theorem Refuses.bind (hx : x s = .ok a t) (h : Refuses (f a) t) : Refuses (x >>= f) s := by
  obtain ⟨e, u, he, href⟩ := h
  exact ⟨e, u, (bind_ok hx).trans he, href⟩

theorem Refuses.times (hk : k < n) (hdone : times k item s = .ok as t) (h : Refuses item t) :
    Refuses (times n item) s := by
  induction k generalizing n s as with
  | zero =>
    obtain ⟨n, rfl⟩ := Nat.exists_eq_add_of_lt hk
    cases hdone
    rw [times_succ]
    exact h.bind_left
  | succ k ih =>
    obtain ⟨n, rfl⟩ := Nat.exists_eq_add_of_lt (Nat.zero_lt_of_lt hk)
    rw [Nat.zero_add] at hk ⊢
    rw [times_succ] at hdone ⊢
    obtain ⟨a, u, ha, hdone⟩ := bind_eq_ok_iff.1 hdone
    obtain ⟨rest, v, hrest, hp⟩ := bind_eq_ok_iff.1 hdone
    cases hp
    exact .bind ha (ih (Nat.lt_of_succ_lt_succ hk) hrest).bind_left

theorem Refuses.decodeAll (h : Refuses d (.ofBytes data)) :
    ∃ e, e.IsRefusal ∧ outcome d (.ofBytes data) = .error e ∧ decodeAll d data = .error e := by
  obtain ⟨e, t, he, href⟩ := h
  exact ⟨e, href, outcome_error he, by simp only [Decoder.decodeAll, he]⟩

theorem exists_comesTo (item : Decoder α) (n : Nat) (s : Stream) :
    ∃ as, ComesTo item n s as := by
  induction n generalizing s with
  | zero => exact ⟨[], s, rfl, .inl rfl⟩
  | succ n ih =>
    cases ha : item s with
    | error e u =>
      refine ⟨[], s, rfl, .inr ⟨Nat.succ_pos n, e, u, ha, ?_⟩⟩
      rw [times_succ]
      exact bind_error ha
    | ok a t =>
      obtain ⟨as, u, has, hend⟩ := ih t
      have hcons : times (as.length + 1) item s = .ok (a :: as) u := by
        rw [times_succ, bind_ok ha, bind_ok has]
        rfl
      refine ⟨a :: as, u, hcons, ?_⟩
      rcases hend with hall | ⟨hlt, e, v, hitem, hfail⟩
      · exact .inl (congrArg Nat.succ hall)
      · refine .inr ⟨Nat.succ_lt_succ hlt, e, v, hitem, ?_⟩
        rw [times_succ, bind_ok ha]
        exact bind_error hfail

theorem ComesTo.length_le (hl : Local item) (h : TakesAtLeast m item)
    (hc : ComesTo item n (.ofBytes data) as) : as.length * m ≤ data.length := by
  obtain ⟨t, hread, _⟩ := hc
  obtain ⟨bs, hdata, _, hr⟩ := (hl.times as.length).reads_of_ok hread
  have hle := h.times hl as.length bs as hr
  rw [hdata, List.length_append]
  omega

end Wire.Decoder

theorem Wire.CompactSize.size_pos (n : Nat) : 0 < size n := by
  rcases encode_cases n with ⟨_, _, hs⟩ | ⟨_, _, _, hs⟩ | ⟨_, _, _, hs⟩ | ⟨_, _, hs⟩ <;> omega

theorem Input.le_size (i : Input) : 41 ≤ i.size := by
  have h := CompactSize.size_pos i.script.length
  rw [size]
  omega

theorem Output.le_size (o : Output) : 9 ≤ o.size := by
  have h := CompactSize.size_pos o.script.length
  rw [size]
  omega

theorem Wire.mul_length_le_sum {α : Type} {size : α → Nat} {m : Nat} (h : ∀ a, m ≤ size a)
    (as : List α) : m * as.length ≤ (as.map size).sum := by
  have hle := List.card_nsmul_le_sum (as.map size) m fun n hn => by
    obtain ⟨a, _, rfl⟩ := List.mem_map.1 hn
    exact h a
  rwa [List.length_map, Nat.nsmul_eq_mul, Nat.mul_comm] at hle

theorem Transaction.le_size (t : Transaction) :
    10 + 41 * t.inputs.length + 9 * t.outputs.length ≤ t.size := by
  have hi := mul_length_le_sum Input.le_size t.inputs
  have ho := mul_length_le_sum Output.le_size t.outputs
  have hni := CompactSize.size_pos t.inputs.length
  have hno := CompactSize.size_pos t.outputs.length
  rw [size_eq_sum]
  omega

theorem Block.le_length_record (b : Block) :
    81 + 10 * b.transactions.length ≤ b.record.length := by
  have hle (t : Transaction) : 10 ≤ t.size := by
    have ht := t.le_size
    omega
  have ht := mul_length_le_sum hle b.transactions
  have hn := CompactSize.size_pos b.transactions.length
  rw [length_record_eq_sum, Header.size]
  omega

theorem Transaction.le_length_of_reads {bs : Bytes} {t : Transaction}
    (h : Reads (Format.read : Decoder Transaction) bs t) :
    10 + 41 * t.inputs.length + 9 * t.outputs.length ≤ bs.length := by
  obtain ⟨w, _, rfl, rfl⟩ := (Spelling.parses _).reads_iff.1 h
  have hle := w.meaning.le_size
  have hencode := w.meaning.length_encode
  have hrespells := w.respells.length_le
  omega

inductive Part where
  | input
  | output
  | transaction
  deriving DecidableEq, Repr

namespace Part

def Item : Part → Type
  | .input => Input
  | .output => Output
  | .transaction => Transaction

def reader : (p : Part) → Decoder p.Item
  | .input => (Format.read : Decoder Input)
  | .output => (Format.read : Decoder Output)
  | .transaction => (Format.read : Decoder Transaction)

def minSize : Part → Nat
  | .input => 41
  | .output => 9
  | .transaction => 10

theorem isLocal (p : Part) : Local p.reader := by
  cases p with
  | input => exact (Input.Spelling.parses _).isLocal
  | output => exact (Output.Spelling.parses _).isLocal
  | transaction => exact (Transaction.Spelling.parses _).isLocal

theorem takesAtLeast (p : Part) : TakesAtLeast p.minSize p.reader := by
  cases p with
  | input =>
    intro bs i h
    obtain ⟨w, _, rfl, rfl⟩ := (Input.Spelling.parses _).reads_iff.1 h
    exact (w.meaning.le_size.trans w.meaning.length_encode.ge).trans w.respells.length_le
  | output =>
    intro bs o h
    obtain ⟨w, _, rfl, rfl⟩ := (Output.Spelling.parses _).reads_iff.1 h
    exact (w.meaning.le_size.trans w.meaning.length_encode.ge).trans w.respells.length_le
  | transaction =>
    intro bs t h
    have hle := Transaction.le_length_of_reads h
    rw [minSize]
    omega

theorem refuses {p : Part} {n : Nat} {rest : Bytes} (h : rest.length < n * p.minSize) :
    Refuses (times n p.reader) (.ofBytes rest) :=
  (p.isLocal.times n).refuses_of_lt (p.takesAtLeast.times p.isLocal n) h

end Part

/-- The counts that are met when a transaction is read: what is counted, how many are announced,
and the bytes behind the count. -/
inductive Transaction.Announces (data : Bytes) : Part → Nat → Bytes → Prop where
  | inputs {n k : Nat} {rest : Bytes}
      (h : (do
        let _ ← (Format.read : Decoder UInt32)
        CompactSize.read) (.ofBytes data) = .ok (n, k) (.ofBytes rest)) :
      Announces data .input n rest
  | outputs {n k : Nat} {rest : Bytes}
      (h : (do
        let _ ← (Format.read : Decoder UInt32)
        let _ ← (Format.read : Decoder (List Input))
        CompactSize.read) (.ofBytes data) = .ok (n, k) (.ofBytes rest)) :
      Announces data .output n rest

/-- The counts that are met when a record is decoded: that of its transactions, and those of each
transaction that is reached. -/
inductive Block.Announces (record : Bytes) : Part → Nat → Bytes → Prop where
  | transactions {header : Header} {n : Nat} {rest : Bytes}
      (h : readOpening (.ofBytes record) = .ok (header, n) (.ofBytes rest)) :
      Announces record .transaction n rest
  | within {header : Header} {n k m : Nat} {rest more left : Bytes} {ts : List Transaction}
      {p : Part} (h : readOpening (.ofBytes record) = .ok (header, n) (.ofBytes rest))
      (hk : k < n)
      (hdone : times k (Format.read : Decoder Transaction) (.ofBytes rest) =
        .ok ts (.ofBytes more))
      (hp : Transaction.Announces more p m left) : Announces record p m left

theorem Transaction.Announces.refuses {data rest : Bytes} {p : Part} {n : Nat}
    (h : Announces data p n rest) (hlt : rest.length < n * p.minSize) :
    Refuses (Format.read : Decoder Transaction) (.ofBytes data) := by
  have hparts := Part.refuses hlt
  cases h with
  | inputs h =>
    obtain ⟨version, s, hversion, hcount⟩ := bind_eq_ok_iff.1 h
    have hinputs : Refuses (Format.read : Decoder (List Input)) s := .bind hcount hparts
    exact .bind hversion hinputs.bind_left
  | outputs h =>
    obtain ⟨version, s, hversion, h⟩ := bind_eq_ok_iff.1 h
    obtain ⟨inputs, t, hinputs, hcount⟩ := bind_eq_ok_iff.1 h
    have houtputs : Refuses (Format.read : Decoder (List Output)) t := .bind hcount hparts
    exact .bind hversion (.bind hinputs houtputs.bind_left)

theorem Block.Announces.refused {record rest : Bytes} {p : Part} {n : Nat}
    (h : Announces record p n rest) (hlt : rest.length < n * p.minSize) :
    ∃ e, e.IsRefusal ∧ decodeRecord record = .error e := by
  have hread (hash : Hash256) :
      Refuses (readRecord (some VarBytes.defaultCap) hash) (.ofBytes record) := by
    cases h with
    | transactions h =>
      have hparts : Refuses (times n (Format.read : Decoder Transaction)) (.ofBytes rest) :=
        Part.refuses hlt
      exact .bind h hparts.bind_left
    | within h hk hdone hp =>
      exact .bind h (Refuses.times hk hdone (hp.refuses hlt)).bind_left
  rw [decodeRecord, decodeRecordWith]
  split
  case isTrue => exact ⟨_, .truncated _, rfl⟩
  case isFalse =>
    obtain ⟨e, href, _, he⟩ := (hread _).decodeAll
    exact ⟨e, href, he⟩

/-- What is decoded is no shorter than its parts can be. A count of more parts than the bytes
behind it can hold is refused, for lack of bytes or by a limit, wherever it stands; and however many
are announced, no more are read than those bytes have room for. -/
theorem counts_bounded :
    (∀ (data : Bytes) (t : Transaction) (s : Stream), Format.read (.ofBytes data) = .ok t s →
      10 + 41 * t.inputs.length + 9 * t.outputs.length ≤ data.length - s.remaining.length) ∧
    (∀ (record : Bytes) (b : Block), Block.decodeRecord record = .ok b →
      81 + 10 * b.transactions.length ≤ record.length) ∧
    (∀ (data rest : Bytes) (p : Part) (n : Nat), Transaction.Announces data p n rest →
      rest.length < n * p.minSize → ∃ e, e.IsRefusal ∧
        outcome (Format.read : Decoder Transaction) (.ofBytes data) = .error e ∧
        decodeAll (Format.read : Decoder Transaction) data = .error e) ∧
    (∀ (record rest : Bytes) (p : Part) (n : Nat), Block.Announces record p n rest →
      rest.length < n * p.minSize → ∃ e, e.IsRefusal ∧ Block.decodeRecord record = .error e) ∧
    ∀ (rest : Bytes) (p : Part) (n : Nat),
      (∃ parts, ComesTo p.reader n (.ofBytes rest) parts) ∧
      ∀ parts, ComesTo p.reader n (.ofBytes rest) parts →
        parts.length ≤ rest.length / p.minSize := by
  refine ⟨fun data t s h => ?consumed, fun record b h => ?record,
    fun data rest p n h hlt => (h.refuses hlt).decodeAll, fun record rest p n h => h.refused,
    fun rest p n => ⟨exists_comesTo p.reader n _, fun parts h => ?parts⟩⟩
  case consumed =>
    have hl : Local (Format.read : Decoder Transaction) := (Transaction.Spelling.parses _).isLocal
    obtain ⟨bs, hdata, _, hr⟩ := hl.reads_of_ok h
    rw [hdata, List.length_append, Nat.add_sub_cancel_right]
    exact Transaction.le_length_of_reads hr
  case record =>
    obtain ⟨w, _, rfl, rfl⟩ := Block.decodeRecordWith_eq_ok_iff.1 h
    exact w.meaning.le_length_record.trans w.respells.length_le
  case parts =>
    have hpos : 0 < p.minSize := by cases p <;> decide
    exact (Nat.le_div_iff_mul_le hpos).2 (h.length_le p.isLocal p.takesAtLeast)

/-- A transaction that announces more inputs than any file holds, one in a record that announces
more outputs than the record has room for, and a loop over outputs that ends inside the second. -/
theorem counts_bounded_overstated :
    let data : Bytes := [1, 0, 0, 0, 0xff, 0xff, 0xff, 0xff, 0xff, 0xff, 0xff, 0xff, 0xff]
    let left : Bytes := List.replicate 9 0 ++ [7]
    let record : Bytes := List.replicate 80 0 ++ [1] ++ [1, 0, 0, 0, 0, 2] ++ left
    10 + 41 * 1 + 9 * 1 ≤ Transaction.coinbase.encode.length ∧
      81 + 10 * 1 ≤ Block.ofCoinbase.record.length ∧
      (Transaction.Announces data .input 18446744073709551615 [] ∧
        ∃ e, e.IsRefusal ∧ outcome (Format.read : Decoder Transaction) (.ofBytes data) = .error e) ∧
      (Block.Announces record .output 2 left ∧
        ∃ e, e.IsRefusal ∧ Block.decodeRecord record = .error e) ∧
      ∃ outputs : List Output, ComesTo Part.output.reader 2 (.ofBytes left) outputs ∧
        outputs.length ≤ 10 / 9 := by
  intro data left record
  obtain ⟨hconsumed, hrecord, htransaction, hblock, hparts⟩ := counts_bounded
  have hcoinbase : Format.read (.ofBytes Transaction.coinbase.encode) =
      .ok Transaction.coinbase (.ofBytes []) := by
    have hr : Reads (Transaction.readWith (some VarBytes.defaultCap)) Transaction.coinbase.encode
        Transaction.coinbase.remade :=
      Transaction.reads_encode (by decide) (by decide) (by decide) (by decide)
    rw [Transaction.remade_eq Transaction.hash_coinbase rfl] at hr
    have h := hr [] .finished
    rwa [List.append_nil] at h
  have hdecode := Block.decodeRecord_record Block.stamped_ofCoinbase Block.scriptsWithin_ofCoinbase
    (by rw [Block.length_record_ofCoinbase]; decide)
  have hinputs : Transaction.Announces data .input 18446744073709551615 [] := .inputs rfl
  obtain ⟨header, hopening⟩ : ∃ header, Block.readOpening (.ofBytes record) =
      .ok (header, 1) (.ofBytes ([1, 0, 0, 0, 0, 2] ++ left)) := ⟨_, rfl⟩
  have houtputs : Block.Announces record .output 2 left :=
    .within hopening Nat.one_pos rfl (.outputs rfl)
  obtain ⟨e, href, he, _⟩ := htransaction data [] .input _ hinputs (by decide)
  obtain ⟨outputs, hcomes⟩ := (hparts left .output 2).1
  exact ⟨hconsumed _ _ _ hcoinbase, hrecord _ _ hdecode, ⟨hinputs, e, href, he⟩,
    ⟨houtputs, hblock record left .output 2 houtputs (by decide)⟩,
    outputs, hcomes, (hparts left .output 2).2 outputs hcomes⟩

end ScriptLedger
