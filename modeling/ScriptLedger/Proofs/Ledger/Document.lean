import ScriptLedger.Ledger.Document
import ScriptLedger.Proofs.Json.Form

namespace ScriptLedger

open Json LawfulForm

instance : LawfulForm Input where
  ofValue?_document i := by
    unfold Form.document Form.ofValue? instFormInput
    simp only
    rw [Value.fields?_value _ (by simp)]
    simp [List.lookup_cons, ofValue?_document, bytesOfValue?_document]

instance : LawfulForm Output where
  ofValue?_document o := by
    unfold Form.document Form.ofValue? instFormOutput
    simp only
    rw [Value.fields?_value _ (by simp)]
    simp [List.lookup_cons, ofValue?_document, bytesOfValue?_document]

/-- An identifier is written as a string, so that it is not taken for a missing one. -/
theorem Transaction.blockOfValue?_document (hash : Hash256) :
    blockOfValue? (some (Form.document hash).value) = some (some hash) := by
  have hvalue := ofValue?_document hash
  rw [show Form.document hash = .string hash.toHex from rfl, Document.value] at hvalue ⊢
  rw [blockOfValue?, hvalue, Option.map_some]
  exact Value.noConfusion

/-- The field of the block is found exactly if it was written. -/
instance : LawfulForm Transaction where
  ofValue?_document t := by
    obtain ⟨version, inputs, outputs, lockTime, hash, block⟩ := t
    unfold Form.document Form.ofValue? instFormTransaction
    cases block with
    | none =>
      simp only [Option.toList_none, List.map_nil, List.append_nil]
      rw [Value.fields?_value _ (by simp)]
      simp [List.lookup_cons, ofValue?_document, Transaction.blockOfValue?]
    | some block =>
      simp only [Option.toList_some, List.map_cons, List.map_nil, List.cons_append, List.nil_append]
      rw [Value.fields?_value _ (by simp)]
      simp [List.lookup_cons, ofValue?_document, Transaction.blockOfValue?_document]

instance : LawfulForm Header where
  ofValue?_document h := by
    unfold Form.document Form.ofValue? instFormHeader
    simp only
    rw [Value.fields?_value _ (by simp)]
    simp [List.lookup_cons, ofValue?_document]

instance : LawfulForm Block where
  ofValue?_document b := by
    unfold Form.document Form.ofValue? instFormBlock
    simp only
    rw [Value.fields?_value _ (by simp)]
    simp [List.lookup_cons, ofValue?_document]

/-- Every value of the ledger is read back from the JSON text that is written for it, with the
identifiers that it holds, whether or not they belong to what it says. -/
theorem read_write_json :
    (∀ hash : Hash256, read? (write hash) = some hash) ∧
      (∀ i : Input, read? (write i) = some i) ∧
      (∀ o : Output, read? (write o) = some o) ∧
      (∀ t : Transaction, read? (write t) = some t) ∧
      (∀ h : Header, read? (write h) = some h) ∧
      (∀ b : Block, read? (write b) = some b) :=
  ⟨read?_write, read?_write, read?_write, read?_write, read?_write, read?_write⟩

end ScriptLedger
