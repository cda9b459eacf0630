import Mathlib.Algebra.BigOperators.Group.List.Basic
import Mathlib.Algebra.GroupWithZero.Nat
import ScriptLedger.Ledger.Frame

namespace ScriptLedger

open Wire

variable {α : Type}

namespace Wire

theorem VarBytes.length_encode (bs : Bytes) :
    (VarBytes.encode bs).length = CompactSize.size bs.length + bs.length := by
  rw [VarBytes.encode, List.length_append, CompactSize.length_encode]

theorem length_le_flatMap {f : α → Bytes} (h : ∀ a, 0 < (f a).length) (xs : List α) :
    xs.length ≤ (xs.flatMap f).length := by
  rw [List.length_flatMap, ← List.length_map fun a => (f a).length]
  apply List.length_le_sum_of_one_le
  intro n hn
  obtain ⟨a, _, rfl⟩ := List.mem_map.1 hn
  exact h a

theorem length_le_flatMap_of_mem {f : α → Bytes} {xs : List α} {a : α} (h : a ∈ xs) :
    (f a).length ≤ (xs.flatMap f).length := by
  rw [List.flatMap_def]
  exact (List.sublist_flatten_of_mem (List.mem_map_of_mem h)).length_le

theorem length_flatMap_eq_sum {f : α → Bytes} {size : α → Nat} (h : ∀ a, (f a).length = size a)
    (xs : List α) : (xs.flatMap f).length = (xs.map size).sum := by
  rw [List.length_flatMap, funext h]

end Wire

theorem Input.length_encode (i : Input) : i.encode.length = i.size := by
  simp only [Input.encode, Format.encode, List.length_append, Digest.length_bytes,
    LittleEndian.length_encode, VarBytes.length_encode, Input.size]
  omega

theorem Output.length_encode (o : Output) : o.encode.length = o.size := by
  simp only [Output.encode, Format.encode, List.length_append, LittleEndian.length_encode,
    VarBytes.length_encode, Output.size]
  omega

theorem Header.length_encode (h : Header) : h.encode.length = Header.size := by
  simp [Header.encode, Format.encode, Digest.length_bytes, Header.size]

namespace Transaction

theorem size_eq_sum (t : Transaction) :
    t.size = 4 + CompactSize.size t.inputs.length + (t.inputs.map Input.size).sum
      + CompactSize.size t.outputs.length + (t.outputs.map Output.size).sum + 4 := by
  rw [size, List.sum_eq_foldr, List.sum_eq_foldr, List.foldr_map, List.foldr_map]

theorem length_encode (t : Transaction) : t.encode.length = t.size := by
  have hinputs := length_flatMap_eq_sum Input.length_encode t.inputs
  have houtputs := length_flatMap_eq_sum Output.length_encode t.outputs
  simp only [encode, Format.encode, List.length_append, LittleEndian.length_encode,
    CompactSize.length_encode, hinputs, houtputs, size_eq_sum]
  omega

theorem length_inputs_le (t : Transaction) : t.inputs.length ≤ t.encode.length := by
  have h := length_le_flatMap (f := Input.encode) (fun i => by
    rw [i.length_encode, Input.size]; omega) t.inputs
  simp only [Transaction.encode, Format.encode, List.length_append]
  omega

theorem length_outputs_le (t : Transaction) : t.outputs.length ≤ t.encode.length := by
  have h := length_le_flatMap (f := Output.encode) (fun o => by
    rw [o.length_encode, Output.size]; omega) t.outputs
  simp only [Transaction.encode, Format.encode, List.length_append]
  omega

theorem length_encode_pos (t : Transaction) : 0 < t.encode.length := by
  simp only [Transaction.encode, Format.encode, List.length_append, LittleEndian.length_encode]
  omega

end Transaction

namespace Block

theorem length_record (b : Block) :
    b.record.length = Header.size + CompactSize.size b.transactions.length
      + (b.transactions.flatMap Transaction.encode).length := by
  simp only [record, Format.encode, List.length_append, Header.length_encode,
    CompactSize.length_encode]
  omega

theorem length_record_eq_sum (b : Block) :
    b.record.length = Header.size + CompactSize.size b.transactions.length
      + (b.transactions.map Transaction.size).sum := by
  rw [length_record, length_flatMap_eq_sum Transaction.length_encode]

theorem length_transactions_le (b : Block) : b.transactions.length ≤ b.record.length := by
  have h := length_le_flatMap Transaction.length_encode_pos b.transactions
  rw [length_record]
  omega

theorem length_encode_le_of_mem {b : Block} {t : Transaction} (h : t ∈ b.transactions) :
    t.encode.length ≤ b.record.length := by
  have ht := length_le_flatMap_of_mem (f := Transaction.encode) h
  rw [length_record]
  omega

end Block

theorem Frame.length_encode (record : Bytes) :
    (encode record).length = openingSize + record.length := by
  simp only [encode, magic, openingSize, List.length_append, LittleEndian.length_encode,
    List.length_cons, List.length_nil]

end ScriptLedger
