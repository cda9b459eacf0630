import ScriptLedger.Json.Form
import ScriptLedger.Proofs.Json.Parse

namespace ScriptLedger.Json

variable {α : Type}

namespace Value

theorem lookup_map (name : String) (fields : List (String × Document)) :
    (fields.map fun f => (some f.1, f.2.value)).lookup (some name) =
      (fields.lookup name).map Document.value := by
  induction fields with
  | nil => rfl
  | cons f fields ih =>
    have hname : (some name == some f.1) = (name == f.1) := rfl
    rw [List.map_cons, List.lookup_cons, List.lookup_cons, ih, hname]
    cases name == f.1 <;> rfl

theorem countP_map (name : String) (fields : List (String × Document)) :
    ((fields.map fun f => (some f.1, f.2.value)).countP fun entry => entry.1 == some name) =
      (fields.map Prod.fst).count name := by
  rw [List.countP_map, List.count, List.countP_map]
  rfl

/-- In an object whose keys differ, the named fields are found wherever they stand. -/
theorem fields?_value (names : List String) {fields : List (String × Document)}
    (h : (fields.map Prod.fst).Nodup) :
    fields? names (Document.object fields).value =
      some (names.map fun name => (fields.lookup name).map Document.value) := by
  have hkeys : ((fields.map fun f => (some f.1, f.2.value)).any fun entry => entry.1.isNone) =
      false := by
    simp only [List.any_map, List.any_eq_false]
    exact fun _ _ => Bool.false_ne_true
  have honce : ∀ name ∈ names,
      ¬ 1 < (fields.map fun f => (some f.1, f.2.value)).countP
        fun entry => entry.1 == some name := by
    intro name _
    rw [countP_map]
    exact Nat.not_lt.mpr (List.nodup_iff_count.mp h name)
  rw [Document.value, fields?, hkeys]
  simp only [Bool.false_eq_true, if_false, lookup_map]
  rw [if_neg]
  simp only [List.any_eq_true, decide_eq_true_eq]
  rintro ⟨name, hname, hcount⟩
  exact honce name hname hcount

theorem natural?_value {n bound : Nat} (h : n < bound) :
    (Document.natural n).value.natural? bound = some n := by
  rw [Document.value, natural?, if_pos h]

end Value

/-- A type whose values are what the documents written for them say. -/
class LawfulForm (α : Type) [Form α] : Prop where
  ofValue?_document (a : α) : Form.ofValue? (Form.document a).value = some a

open LawfulForm

instance : LawfulForm UInt32 where
  ofValue?_document n := by
    have hn : n.toNat < 0x100000000 := n.toNat_lt
    unfold Form.document Form.ofValue? instFormUInt32
    simp only [Value.natural?_value hn, Option.map_some, UInt32.ofNat_toNat]

instance : LawfulForm UInt64 where
  ofValue?_document n := by
    have hn : n.toNat < 0x10000000000000000 := n.toNat_lt
    unfold Form.document Form.ofValue? instFormUInt64
    simp only [Value.natural?_value hn, Option.map_some, UInt64.ofNat_toNat]

instance {size : Nat} : LawfulForm (Digest size) where
  ofValue?_document d := by
    unfold Form.document Form.ofValue? instFormDigest
    simp only [Document.value, Value.text?, Option.bind_some, Digest.ofHex_toHex]
    rfl

instance [Form α] [LawfulForm α] : LawfulForm (List α) where
  ofValue?_document xs := by
    unfold Form.document Form.ofValue? instFormList
    simp only [Document.value, Value.items?, Option.bind_some, List.map_map]
    induction xs with
    | nil => rfl
    | cons x xs ih =>
      rw [List.map_cons, List.mapM_cons, ih, Function.comp_apply, ofValue?_document]
      rfl

theorem bytesOfValue?_document (bs : Bytes) : bytesOfValue? (bytesDocument bs).value = some bs := by
  rw [bytesDocument, Document.value, bytesOfValue?, Value.text?, Option.bind_some,
    Hex.decode_encode]
  rfl

theorem read?_write [Form α] [LawfulForm α] (a : α) : read? (write a) = some a := by
  rw [read?, write, Value.parse?_render, Option.bind_some, ofValue?_document]

end ScriptLedger.Json
