import ScriptLedger.Proofs.Wire.Numeral
import ScriptLedger.Proofs.Wire.Writes

namespace ScriptLedger.Wire.CompactSize

open Stateful

variable {m n k : Nat} {bs data : Bytes} {s : Stream}

/-- The bytes that a form takes, told from its first one. -/
def sizeAfter : UInt8 → Nat
  | 0xfd => 3
  | 0xfe => 5
  | 0xff => 9
  | _ => 1

theorem sizeAfter_of_lt {mark : UInt8} (h : mark.toNat < 0xfd) : sizeAfter mark = 1 := by
  unfold sizeAfter
  split
  case h_1 => exact absurd h (by decide)
  case h_2 => exact absurd h (by decide)
  case h_3 => exact absurd h (by decide)
  case h_4 => rfl

/-- The first byte of a form says how long it is, whatever number it stands for. -/
theorem Form.length_eq (h : Form n bs) :
    ∃ mark, bs.head? = some mark ∧ bs.length = sizeAfter mark := by
  cases h with
  | one h =>
    have hmark : (UInt8.ofNat n).toNat < 0xfd := by
      rw [UInt8.toNat_ofNat']
      exact Nat.lt_of_le_of_lt (Nat.mod_le _ _) h
    exact ⟨_, rfl, (sizeAfter_of_lt hmark).symm⟩
  | two h => exact ⟨_, rfl, congrArg (· + 1) (LittleEndian.length_encode 2 n)⟩
  | four h => exact ⟨_, rfl, congrArg (· + 1) (LittleEndian.length_encode 4 n)⟩
  | eight h => exact ⟨_, rfl, congrArg (· + 1) (LittleEndian.length_encode 8 n)⟩

theorem Form.length_eq_size_iff (h : Form n bs) : bs.length = size n ↔ bs = encode n := by
  constructor
  · exact h.eq_encode
  · rintro rfl
    exact length_encode n

theorem size_le_size (h : m ≤ n) : size m ≤ size n := by
  obtain ⟨_, _, hm⟩ | ⟨_, _, _, hm⟩ | ⟨_, _, _, hm⟩ | ⟨_, _, hm⟩ := encode_cases m <;>
    obtain ⟨_, _, hn⟩ | ⟨_, _, _, hn⟩ | ⟨_, _, _, hn⟩ | ⟨_, _, hn⟩ := encode_cases n <;>
    omega

theorem exists_form_of_read (h : read (.ofBytes data) = .ok (n, k) s) :
    ∃ bs rest, data = bs ++ rest ∧ s = .ofBytes rest ∧ Form n bs ∧ k = bs.length := by
  obtain ⟨bs, hdata, hs, hreads⟩ := local_read.reads_of_ok h
  obtain ⟨hform, hk⟩ := reads_iff.mp hreads
  exact ⟨bs, s.remaining, hdata, hs, hform, hk⟩

/-- Of the byte strings that start with a number, its shortest form is the shortest. -/
theorem length_encode_lt_of_read (h : read (.ofBytes data) = .ok (n, k) s)
    (hne : data ≠ encode n) : (encode n).length < data.length := by
  obtain ⟨bs, rest, rfl, rfl, hform, rfl⟩ := exists_form_of_read h
  have hle := hform.size_le
  rw [length_encode, List.length_append]
  cases rest with
  | nil =>
    rw [List.append_nil] at hne
    have hlength := mt hform.length_eq_size_iff.mp hne
    rw [List.length_nil]
    omega
  | cons b rest =>
    rw [List.length_cons]
    omega

/-- A number is written in the shortest of its forms, which is read back with nothing of what
follows. What is read as a number took a form of it, whose length the first byte gives away, and
no form of a number is as short as the one that is written. -/
theorem read_encode_shortest :
    (∀ (v : UInt64) (rest : Bytes) (e : Ending),
      read ⟨encode v.toNat ++ rest, e⟩ = .ok (v.toNat, size v.toNat) ⟨rest, e⟩) ∧
    (∀ v : UInt64, (encode v.toNat).length = size v.toNat ∧
      outcome (write v.toNat) (.empty none) = .ok (size v.toNat) ∧
      (after (write v.toNat) (.empty none)).contents = encode v.toNat) ∧
    (∀ (v : UInt64) (data : Bytes) (k : Nat) (s : Stream),
      read (.ofBytes data) = .ok (v.toNat, k) s → data ≠ encode v.toNat →
        (encode v.toNat).length < data.length) ∧
    (∀ (data : Bytes) (n k : Nat) (s : Stream), read (.ofBytes data) = .ok (n, k) s →
      n < 2 ^ 64 ∧ k ≤ data.length ∧ s = .ofBytes (data.drop k) ∧
        (∃ mark, data.head? = some mark ∧ k = sizeAfter mark) ∧
        size n ≤ k ∧ (k = size n ↔ data.take k = encode n)) ∧
    ∀ m n : Nat, m ≤ n → size m ≤ size n := by
  refine ⟨?back, ?written, ?shortest, ?taken, ?monotone⟩
  case back =>
    intro v rest e
    have hreads : Decoder.Reads read (encode v.toNat) (v.toNat, size v.toNat) :=
      reads_iff.mpr ⟨.of_encode v.toNat_lt, (length_encode v.toNat).symm⟩
    exact hreads rest e
  case written =>
    intro v
    exact ⟨length_encode v.toNat, (writes_encode v.toNat).unbounded⟩
  case shortest =>
    intro v data k s h hne
    exact length_encode_lt_of_read h hne
  case taken =>
    intro data n k s h
    obtain ⟨bs, rest, rfl, rfl, hform, rfl⟩ := exists_form_of_read h
    obtain ⟨mark, hmark, hlength⟩ := hform.length_eq
    have hhead : (bs ++ rest).head? = some mark := by
      rw [List.head?_append, hmark, Option.some_or]
    rw [List.take_left, List.drop_left, List.length_append]
    exact ⟨hform.lt, Nat.le_add_right _ _, rfl, ⟨mark, hhead, hlength⟩, hform.size_le,
      hform.length_eq_size_iff⟩
  case monotone =>
    intro m n h
    exact size_le_size h

theorem read_encode_shortest_wide :
    read ⟨encode 0xffffffffffffffff ++ [0xfd], .zeros⟩ =
        .ok (0xffffffffffffffff, 9) ⟨[0xfd], .zeros⟩ ∧
      read (.ofBytes [0xfe, 0xfd, 0, 0, 0, 7]) = .ok (0xfd, 5) (.ofBytes [7]) ∧
      size 0xfd = 3 ∧ [0xfe, 0xfd, 0, 0, 0] ≠ encode 0xfd ∧
      (encode 0xfd).length < [0xfe, 0xfd, 0, 0, 0, 7].length ∧ size 0xfc ≤ size 0xfd := by
  obtain ⟨hback, -, hshortest, htaken, hmonotone⟩ := read_encode_shortest
  have hread : read (.ofBytes [0xfe, 0xfd, 0, 0, 0, 7]) = .ok (0xfd, 5) (.ofBytes [7]) := rfl
  obtain ⟨-, -, -, -, -, hiff⟩ := htaken _ _ _ _ hread
  have hne : [0xfe, 0xfd, 0, 0, 0] ≠ encode 0xfd := mt hiff.mpr (by decide)
  exact ⟨hback 0xffffffffffffffff [0xfd] .zeros, hread, rfl, hne,
    hshortest 0xfd _ _ _ hread (by decide), hmonotone 0xfc 0xfd (by decide)⟩

end ScriptLedger.Wire.CompactSize
