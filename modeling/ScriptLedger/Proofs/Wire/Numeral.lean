import Mathlib.Algebra.GroupWithZero.Nat
import ScriptLedger.Proofs.Wire.Reads
import ScriptLedger.Wire.CompactSize

namespace ScriptLedger.Wire

open Decoder

variable {n k : Nat} {bs cs : Bytes}

namespace CompactSize

/-- The forms of a number: one byte, or a mark and two, four or eight bytes. -/
inductive Form (n : Nat) : Bytes → Prop where
  | one (h : n < 0xfd) : Form n [UInt8.ofNat n]
  | two (h : n < 256 ^ 2) : Form n (mark16 :: LittleEndian.encode 2 n)
  | four (h : n < 256 ^ 4) : Form n (mark32 :: LittleEndian.encode 4 n)
  | eight (h : n < 256 ^ 8) : Form n (mark64 :: LittleEndian.encode 8 n)

theorem Form.lt (h : Form n bs) : n < 2 ^ 64 := by
  cases h <;> omega

theorem Form.of_encode (h : n < 2 ^ 64) : Form n (encode n) := by
  rcases encode_cases n with ⟨hn, he, _⟩ | ⟨_, hn, he, _⟩ | ⟨_, hn, he, _⟩ | ⟨_, he, _⟩
  · exact he ▸ .one hn
  · exact he ▸ .two hn
  · exact he ▸ .four hn
  · exact he ▸ .eight (by omega)

theorem Form.size_le (h : Form n bs) : size n ≤ bs.length := by
  rcases encode_cases n with ⟨_, _, hs⟩ | ⟨_, _, _, hs⟩ | ⟨_, _, _, hs⟩ | ⟨_, _, hs⟩ <;>
    rw [hs] <;> cases h <;>
    simp only [List.length_cons, List.length_nil, LittleEndian.length_encode] <;> omega

/-- Only one form of a number has as few bytes as the shortest. -/
theorem Form.eq_encode (h : Form n bs) (hl : bs.length = size n) : bs = encode n := by
  rcases encode_cases n with ⟨_, he, hs⟩ | ⟨_, _, he, hs⟩ | ⟨_, _, he, hs⟩ | ⟨_, he, hs⟩ <;>
    rw [hs] at hl <;> rw [he] <;> cases h <;>
    simp only [List.length_cons, List.length_nil, LittleEndian.length_encode] at hl <;>
    first | rfl | omega

theorem widthAfter_cases (mark : UInt8) :
    (widthAfter mark = 0 ∧ mark.toNat < 0xfd) ∨ (widthAfter mark = 2 ∧ mark = mark16) ∨
      (widthAfter mark = 4 ∧ mark = mark32) ∨ (widthAfter mark = 8 ∧ mark = mark64) := by
  unfold widthAfter
  by_cases h₁ : mark = mark16
  · exact .inr (.inl ⟨if_pos h₁, h₁⟩)
  by_cases h₂ : mark = mark32
  · exact .inr (.inr (.inl ⟨by rw [if_neg h₁, if_pos h₂], h₂⟩))
  by_cases h₃ : mark = mark64
  · exact .inr (.inr (.inr ⟨by rw [if_neg h₁, if_neg h₂, if_pos h₃], h₃⟩))
  refine .inl ⟨by rw [if_neg h₁, if_neg h₂, if_neg h₃], ?_⟩
  have hm := mark.toNat_lt
  have h₁' : mark.toNat ≠ 0xfd := fun h => h₁ (UInt8.toNat_inj.1 h)
  have h₂' : mark.toNat ≠ 0xfe := fun h => h₂ (UInt8.toNat_inj.1 h)
  have h₃' : mark.toNat ≠ 0xff := fun h => h₃ (UInt8.toNat_inj.1 h)
  omega

theorem local_read : Local read := by
  refine Local.byte.bind fun mark => ?_
  by_cases h : widthAfter mark = 0
  · rw [if_pos h]
    exact .pure _
  · rw [if_neg h]
    exact (Local.number _).bind fun _ => .pure _

theorem read_cons_encode {mark : UInt8} {width n : Nat} (hw : widthAfter mark = width)
    (h₀ : width ≠ 0) (hn : n < 256 ^ width) (rest : Bytes) (e : Ending) :
    read ⟨mark :: LittleEndian.encode width n ++ rest, e⟩ = .ok (n, 1 + width) ⟨rest, e⟩ := by
  subst hw
  refine (Stateful.bind_ok (Decoder.byte_cons mark _ e)).trans ?_
  rw [if_neg h₀]
  exact Stateful.bind_ok (Decoder.number_encode hn rest e)

theorem Form.of_mark {mark : UInt8} (h₀ : widthAfter mark ≠ 0) (hn : n < 256 ^ widthAfter mark) :
    Form n (mark :: LittleEndian.encode (widthAfter mark) n) := by
  rcases widthAfter_cases mark with ⟨hw, _⟩ | ⟨hw, rfl⟩ | ⟨hw, rfl⟩ | ⟨hw, rfl⟩
  · exact absurd hw h₀
  · exact .two hn
  · exact .four hn
  · exact .eight hn

/-- The forms are all that is read as a number. -/
theorem reads_iff : Reads read bs (n, k) ↔ Form n bs ∧ k = bs.length := by
  constructor
  · intro h
    obtain ⟨_, ds, mark, rfl, hb, hr⟩ := (reads_bind_iff .byte).1 h
    obtain rfl := reads_byte_iff.1 hb
    by_cases h₀ : widthAfter mark = 0
    · rw [if_pos h₀, reads_pure_iff] at hr
      obtain ⟨rfl, he⟩ := hr
      cases he
      rcases widthAfter_cases mark with ⟨_, hm⟩ | ⟨hw, _⟩ | ⟨hw, _⟩ | ⟨hw, _⟩
      · have hf := Form.one hm
        rw [UInt8.ofNat_toNat] at hf
        exact ⟨hf, rfl⟩
      all_goals omega
    · rw [if_neg h₀, reads_bind_iff (.number _)] at hr
      obtain ⟨cs, _, m, rfl, hm, hp⟩ := hr
      obtain ⟨rfl, he⟩ := reads_pure_iff.1 hp
      obtain ⟨hlt, rfl⟩ := reads_number_iff.1 hm
      cases he
      rw [List.append_nil]
      exact ⟨.of_mark h₀ hlt, by simp [Nat.add_comm]⟩
  · rintro ⟨h, rfl⟩ rest e
    cases h with
    | one h =>
      have hb : (UInt8.ofNat n).toNat = n := by rw [UInt8.toNat_ofNat']; omega
      have hr := @read_cons_of_lt (UInt8.ofNat n) (by omega) rest e
      rwa [hb] at hr
    | two h => exact read_cons_encode (by decide) (by decide) h rest e
    | four h => exact read_cons_encode (by decide) (by decide) h rest e
    | eight h => exact read_cons_encode (by decide) (by decide) h rest e

end CompactSize

structure Numeral where
  value : Nat
  bytes : Bytes
  form : CompactSize.Form value bytes

namespace Numeral

def IsShortest (x : Numeral) : Prop :=
  x.bytes = CompactSize.encode x.value

/-- The bytes that the shortest form would save. -/
def excess (x : Numeral) : Nat :=
  x.bytes.length - CompactSize.size x.value

def shortest (n : Nat) (h : n < 2 ^ 64) : Numeral :=
  ⟨n, CompactSize.encode n, .of_encode h⟩

theorem length_bytes (x : Numeral) : x.bytes.length = CompactSize.size x.value + x.excess := by
  have h := x.form.size_le
  unfold excess
  omega

theorem isShortest_iff (x : Numeral) : x.IsShortest ↔ x.excess = 0 := by
  have h := x.length_bytes
  constructor
  · intro hs
    rw [hs, CompactSize.length_encode] at h
    omega
  · intro h₀
    exact x.form.eq_encode (by omega)

end Numeral

/-- Two byte strings that differ only in the forms of some numerals, which are shortest in the
second. -/
structure Respells (bs cs : Bytes) (ns : List Numeral) : Prop where
  length_eq : bs.length = cs.length + (ns.map Numeral.excess).sum
  eq_of_shortest : (∀ x ∈ ns, x.IsShortest) → bs = cs

namespace Respells

variable {ds es : Bytes} {ns ms : List Numeral}

theorem refl (bs : Bytes) : Respells bs bs [] :=
  ⟨by simp, fun _ => rfl⟩

theorem numeral (x : Numeral) : Respells x.bytes (CompactSize.encode x.value) [x] := by
  refine ⟨?_, fun h => h x (List.mem_singleton.2 rfl)⟩
  rw [CompactSize.length_encode, x.length_bytes]
  simp

theorem append (h : Respells bs cs ns) (h' : Respells ds es ms) :
    Respells (bs ++ ds) (cs ++ es) (ns ++ ms) := by
  refine ⟨?_, fun hs => ?_⟩
  · have hl := h.length_eq
    have hl' := h'.length_eq
    simp only [List.length_append, List.map_append, List.sum_append]
    omega
  · rw [h.eq_of_shortest fun x hx => hs x (List.mem_append_left _ hx),
      h'.eq_of_shortest fun x hx => hs x (List.mem_append_right _ hx)]

theorem flatMap {σ : Type} {f g : σ → Bytes} {numerals : σ → List Numeral} (ws : List σ)
    (h : ∀ w ∈ ws, Respells (f w) (g w) (numerals w)) :
    Respells (ws.flatMap f) (ws.flatMap g) (ws.flatMap numerals) := by
  induction ws with
  | nil => exact .refl []
  | cons w ws ih =>
    obtain ⟨hw, hws⟩ := List.forall_mem_cons.1 h
    exact hw.append (ih hws)

theorem length_le (h : Respells bs cs ns) : cs.length ≤ bs.length := by
  have hl := h.length_eq
  omega

/-- No byte is saved exactly when every numeral is already shortest. -/
theorem length_eq_iff (h : Respells bs cs ns) :
    cs.length = bs.length ↔ ∀ x ∈ ns, x.IsShortest := by
  have hl := h.length_eq
  constructor
  · intro he x hx
    have hz : (ns.map Numeral.excess).sum = 0 := by omega
    rw [x.isShortest_iff]
    exact List.sum_eq_zero_iff_forall_eq_nat.1 hz _ (List.mem_map_of_mem hx)
  · intro hs
    rw [h.eq_of_shortest hs]

theorem eq_iff (h : Respells bs cs ns) : cs = bs ↔ ∀ x ∈ ns, x.IsShortest :=
  ⟨fun he => h.length_eq_iff.1 (he ▸ rfl), fun hs => (h.eq_of_shortest hs).symm⟩

end Respells

end ScriptLedger.Wire
