import ScriptLedger.Proofs.Wire.Numeral
import ScriptLedger.Wire.Format

namespace ScriptLedger.Wire

open Decoder

variable {bs cs : Bytes} {α : Type}

/-- A type whose values have one binary form each, and nothing else is read. -/
class Exact (α : Type) [Format α] : Prop where
  isLocal : Local (Format.read : Decoder α)
  reads_iff {bs : Bytes} {a : α} : Reads Format.read bs a ↔ bs = Format.encode a

theorem Exact.reads [Format α] [Exact α] (a : α) : Reads Format.read (Format.encode a) a :=
  Exact.reads_iff.2 rfl

theorem reads_word_iff {width : Nat} {ofNat : Nat → α} {toNat : α → Nat}
    (hlt : ∀ a, toNat a < 256 ^ width) (ho : ∀ a, ofNat (toNat a) = a)
    (ht : ∀ n, n < 256 ^ width → toNat (ofNat n) = n) {a : α} :
    Reads (ofNat <$> Decoder.number width) bs a ↔ bs = LittleEndian.encode width (toNat a) := by
  rw [reads_map_iff (.number width)]
  refine ⟨fun h => ?_, fun h => ?_⟩
  · obtain ⟨n, hn, rfl⟩ := h
    obtain ⟨hw, rfl⟩ := reads_number_iff.1 hn
    rw [ht n hw]
  · subst h
    exact ⟨toNat a, reads_number_iff.2 ⟨hlt a, rfl⟩, (ho a).symm⟩

instance : Exact UInt32 where
  isLocal := (Local.number 4).map
  reads_iff := reads_word_iff UInt32.toNat_lt (fun _ => UInt32.ofNat_toNat) fun _ h =>
    UInt32.toNat_ofNat_of_lt' h

instance : Exact UInt64 where
  isLocal := (Local.number 8).map
  reads_iff := reads_word_iff UInt64.toNat_lt (fun _ => UInt64.ofNat_toNat) fun _ h =>
    UInt64.toNat_ofNat_of_lt' h

theorem readDigest_eq (size : Nat) :
    readDigest size = Decoder.field size >>= fun bs =>
      match Digest.ofBytes? size bs with
      | some d => pure d
      | none => throw (.truncated .field) := rfl

instance {size : Nat} : Exact (Digest size) where
  isLocal := by
    change Local (readDigest size)
    rw [readDigest_eq]
    refine (Local.field size).bind_of_reads fun bs _ h => ?_
    obtain ⟨hl, rfl⟩ := reads_field_iff.1 h
    rw [Digest.ofBytes?, dif_pos hl]
    exact .pure _
  reads_iff {bs d} := by
    change Reads (readDigest size) bs d ↔ bs = d.bytes
    rw [readDigest_eq, reads_bind_iff (.field size)]
    refine ⟨fun h => ?_, fun h => ?_⟩
    · obtain ⟨cs, ds, _, rfl, ht, hr⟩ := h
      obtain ⟨hl, rfl⟩ := reads_field_iff.1 ht
      rw [Digest.ofBytes?, dif_pos hl] at hr
      obtain ⟨rfl, rfl⟩ := reads_pure_iff.1 hr
      exact List.append_nil _
    · subst h
      refine ⟨d.bytes, [], d.bytes, (List.append_nil _).symm,
        reads_field_iff.2 ⟨d.length_bytes, rfl⟩, ?_⟩
      rw [d.ofBytes?_bytes]
      exact .pure d

/-- A list behind the number of its items, which stands in one of its forms. -/
structure Counted (ι : Type) where
  count : Numeral
  items : List ι
  count_eq : count.value = items.length

namespace Counted

variable {ι : Type}

def shortest (items : List ι) (h : items.length < 2 ^ 64) : Counted ι :=
  ⟨.shortest items.length h, items, rfl⟩

def spell (f : ι → Bytes) (c : Counted ι) : Bytes :=
  c.count.bytes ++ c.items.flatMap f

theorem length_lt (c : Counted ι) : c.items.length < 2 ^ 64 :=
  c.count_eq ▸ c.count.form.lt

theorem parses {item : Decoder α} {f : ι → Bytes} {value : ι → α} {admitted : ι → Prop}
    (h : Parses item f value admitted) :
    Parses (readCounted item) (spell f) (fun c => c.items.map value)
      fun c => ∀ w ∈ c.items, admitted w := by
  refine ⟨CompactSize.local_read.bind fun _ => h.isLocal.times _, fun {bs as} => ?_⟩
  unfold readCounted
  rw [reads_bind_iff CompactSize.local_read]
  constructor
  · rintro ⟨cs, ds, ⟨n, k⟩, rfl, hn, hr⟩
    obtain ⟨hf, _⟩ := CompactSize.reads_iff.1 hn
    obtain ⟨ws, ⟨hl, hw⟩, rfl, rfl⟩ := (h.times n).reads_iff.1 hr
    exact ⟨⟨⟨n, cs, hf⟩, ws, hl.symm⟩, hw, rfl, rfl⟩
  · rintro ⟨⟨⟨n, cs, hf⟩, ws, hl⟩, hw, rfl, rfl⟩
    exact ⟨cs, _, (n, cs.length), rfl, CompactSize.reads_iff.2 ⟨hf, rfl⟩,
      (h.times n).reads_iff.2 ⟨ws, ⟨hl.symm, hw⟩, rfl, rfl⟩⟩

theorem respells {f g : ι → Bytes} {numerals : ι → List Numeral} (c : Counted ι)
    (h : ∀ w ∈ c.items, Respells (f w) (g w) (numerals w)) :
    Respells (c.spell f) (CompactSize.encode c.items.length ++ c.items.flatMap g)
      (c.count :: c.items.flatMap numerals) := by
  have hc := Respells.numeral c.count
  rw [c.count_eq] at hc
  exact hc.append (.flatMap c.items h)

end Counted

namespace VarBytes

def spell (c : Counted UInt8) : Bytes :=
  c.count.bytes ++ c.items

def Within (cap : Option Nat) (bs : Bytes) : Prop :=
  ∀ n ∈ cap, bs.length ≤ n

def readBody (cap : Option Nat) (size : Nat) : Decoder Bytes :=
  match cap with
  | none => Decoder.bytes size
  | some cap =>
    if cap < size then throw (.limitExceeded (.byteString size cap)) else Decoder.bytes size

theorem readWith_eq (cap : Option Nat) :
    readWith cap = CompactSize.read >>= fun p => readBody cap p.1 := rfl

theorem local_readBody (cap : Option Nat) (size : Nat) : Local (readBody cap size) := by
  cases cap with
  | none => exact .bytes size
  | some cap =>
    unfold readBody
    by_cases h : cap < size
    · simp only [if_pos h]
      exact .refuse _
    · simp only [if_neg h]
      exact .bytes size

theorem reads_readBody_iff {cap : Option Nat} {size : Nat} :
    Reads (readBody cap size) bs cs ↔ bs.length = size ∧ cs = bs ∧ Within cap bs := by
  cases cap with
  | none => simp [readBody, reads_bytes_iff, Within]
  | some cap =>
    unfold readBody
    by_cases h : cap < size
    · simp only [if_pos h]
      constructor
      · intro hr
        cases hr [] .finished
      · rintro ⟨rfl, _, hw⟩
        exact absurd (hw cap rfl) (by omega)
    · simp only [if_neg h, reads_bytes_iff]
      constructor
      · rintro ⟨rfl, rfl⟩
        exact ⟨rfl, rfl, fun n hn => by cases hn; omega⟩
      · rintro ⟨hl, hc, _⟩
        exact ⟨hl, hc⟩

theorem parses (cap : Option Nat) :
    Parses (readWith cap) spell Counted.items fun c => Within cap c.items := by
  refine ⟨CompactSize.local_read.bind fun _ => local_readBody cap _, fun {bs cs} => ?_⟩
  rw [readWith_eq, reads_bind_iff CompactSize.local_read]
  constructor
  · rintro ⟨ns, ds, ⟨n, k⟩, rfl, hn, hr⟩
    obtain ⟨hf, _⟩ := CompactSize.reads_iff.1 hn
    obtain ⟨hl, rfl, hw⟩ := reads_readBody_iff.1 hr
    exact ⟨⟨⟨n, ns, hf⟩, cs, hl.symm⟩, hw, rfl, rfl⟩
  · rintro ⟨⟨⟨n, ns, hf⟩, cs, hl⟩, hw, rfl, rfl⟩
    exact ⟨ns, cs, (n, ns.length), rfl, CompactSize.reads_iff.2 ⟨hf, rfl⟩,
      reads_readBody_iff.2 ⟨hl.symm, rfl, hw⟩⟩

theorem respells (c : Counted UInt8) : Respells (spell c) (encode c.items) [c.count] := by
  have hc := Respells.numeral c.count
  rw [c.count_eq] at hc
  exact hc.append (.refl c.items)

end VarBytes

end ScriptLedger.Wire
