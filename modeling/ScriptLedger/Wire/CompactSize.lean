import ScriptLedger.Wire.Decoder
import ScriptLedger.Wire.Sink

namespace ScriptLedger.Wire.CompactSize

/-- The first bytes that announce a number of two, four and eight bytes. -/
def mark16 : UInt8 := 0xfd

def mark32 : UInt8 := 0xfe

def mark64 : UInt8 := 0xff

/-- The bytes that the shortest form of a number takes. -/
def size (n : Nat) : Nat :=
  if n < 0xfd then 1 else if n < 0x10000 then 3 else if n < 0x100000000 then 5 else 9

/-- The shortest form of a number below 2^64: one byte, or a mark and two, four or eight bytes. -/
def encode (n : Nat) : Bytes :=
  if n < 0xfd then [UInt8.ofNat n]
  else if n ≤ 0xffff then mark16 :: LittleEndian.encode 2 n
  else if n ≤ 0xffffffff then mark32 :: LittleEndian.encode 4 n
  else mark64 :: LittleEndian.encode 8 n

/-- Writes the shortest form, the mark before the number, and answers how many bytes that took. -/
def write (n : Nat) : Writer Nat := do
  if n < 0xfd then Writer.put [UInt8.ofNat n]
  else if n ≤ 0xffff then
    Writer.put [mark16]
    Writer.put (LittleEndian.encode 2 n)
  else if n ≤ 0xffffffff then
    Writer.put [mark32]
    Writer.put (LittleEndian.encode 4 n)
  else
    Writer.put [mark64]
    Writer.put (LittleEndian.encode 8 n)
  return size n

/-- The width of the number that follows the first byte of a form. -/
def widthAfter (mark : UInt8) : Nat :=
  if mark = mark16 then 2 else if mark = mark32 then 4 else if mark = mark64 then 8 else 0

/-- Reads a form of any width, shortest or not, and answers how many bytes it took. -/
def read : Decoder (Nat × Nat) := do
  let mark ← Decoder.byte
  if widthAfter mark = 0 then return (mark.toNat, 1)
  else return (← Decoder.number (widthAfter mark), 1 + widthAfter mark)

/-- The four shapes of a shortest form. -/
theorem encode_cases (n : Nat) :
    (n < 0xfd ∧ encode n = [UInt8.ofNat n] ∧ size n = 1) ∨
      (0xfd ≤ n ∧ n < 0x10000 ∧ encode n = mark16 :: LittleEndian.encode 2 n ∧ size n = 3) ∨
      (0x10000 ≤ n ∧ n < 0x100000000 ∧ encode n = mark32 :: LittleEndian.encode 4 n ∧
        size n = 5) ∨
      (0x100000000 ≤ n ∧ encode n = mark64 :: LittleEndian.encode 8 n ∧ size n = 9) := by
  unfold encode size
  by_cases h₁ : n < 0xfd
  · exact .inl ⟨h₁, if_pos h₁, if_pos h₁⟩
  rw [if_neg h₁, if_neg h₁]
  by_cases h₂ : n ≤ 0xffff
  · exact .inr (.inl ⟨by omega, by omega, if_pos h₂, if_pos (by omega)⟩)
  rw [if_neg h₂, if_neg (show ¬n < 0x10000 by omega)]
  by_cases h₃ : n ≤ 0xffffffff
  · exact .inr (.inr (.inl ⟨by omega, by omega, if_pos h₃, if_pos (by omega)⟩))
  · exact .inr (.inr (.inr ⟨by omega, if_neg h₃, if_neg (by omega)⟩))

theorem length_encode (n : Nat) : (encode n).length = size n := by
  rcases encode_cases n with ⟨_, he, hs⟩ | ⟨_, _, he, hs⟩ | ⟨_, _, he, hs⟩ | ⟨_, he, hs⟩ <;>
    simp [he, hs]

theorem widthAfter_of_lt {mark : UInt8} (h : mark.toNat < 0xfd) : widthAfter mark = 0 := by
  have h₁ : mark ≠ mark16 := fun he => absurd h (by rw [he]; decide)
  have h₂ : mark ≠ mark32 := fun he => absurd h (by rw [he]; decide)
  have h₃ : mark ≠ mark64 := fun he => absurd h (by rw [he]; decide)
  rw [widthAfter, if_neg h₁, if_neg h₂, if_neg h₃]

theorem read_cons_of_lt {mark : UInt8} (h : mark.toNat < 0xfd) (rest : Bytes) (e : Ending) :
    read ⟨mark :: rest, e⟩ = .ok (mark.toNat, 1) ⟨rest, e⟩ := by
  refine (Stateful.bind_ok (Decoder.byte_cons mark rest e)).trans ?_
  rw [if_pos (widthAfter_of_lt h), Stateful.pure_apply]

end ScriptLedger.Wire.CompactSize
