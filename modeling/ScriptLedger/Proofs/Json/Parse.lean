import ScriptLedger.Json.Value
import ScriptLedger.Proofs.Json.Words

namespace ScriptLedger.Json

namespace Document

def value : Document → Value
  | .natural n => .number (some n)
  | .string s => .string (some s)
  | .array items => .array (items.map value)
  | .object fields => .object (fields.map fun f => (some f.1, f.2.value))
decreasing_by
  · have hitem := List.sizeOf_lt_of_mem ‹_›
    simp only [array.sizeOf_spec]
    omega
  · have hfield := List.sizeOf_lt_of_mem ‹_›
    obtain ⟨key, d⟩ := f
    simp only [Prod.mk.sizeOf_spec] at hfield
    simp only [object.sizeOf_spec]
    omega

/-- The words behind a field, up to the end of the object. -/
def wordsBehind : List (String × Document) → List Token
  | [] => []
  | f :: fields => .comma :: fieldWords (f :: fields)

theorem fieldWords_cons (f : String × Document) (fields : List (String × Document)) :
    fieldWords (f :: fields) =
      .string (some f.1) :: .colon :: (f.2.words ++ wordsBehind fields) := by
  obtain ⟨key, d⟩ := f
  cases fields with
  | nil => rw [fieldWords, wordsBehind, List.append_nil]
  | cons f fields =>
    rw [fieldWords, wordsBehind]
    · rfl
    · exact List.cons_ne_nil _ _

theorem itemWords_cons_cons (d e : Document) (ds : List Document) :
    itemWords (d :: e :: ds) = d.words ++ .comma :: itemWords (e :: ds) := by
  rw [itemWords]
  exact List.cons_ne_nil _ _

theorem exists_words_cons (d : Document) : ∃ w ws, d.words = w :: ws ∧ w ≠ .endArray := by
  cases d with
  | natural | string | array | object =>
    rw [words]
    exact ⟨_, _, rfl, Token.noConfusion⟩

theorem exists_itemWords_cons (d : Document) (ds : List Document) :
    ∃ w ws, itemWords (d :: ds) = w :: ws ∧ w ≠ .endArray := by
  obtain ⟨w, ws, hwords, hw⟩ := d.exists_words_cons
  cases ds with
  | nil => exact ⟨w, ws, by rw [itemWords, hwords], hw⟩
  | cons e ds => exact ⟨w, _, by rw [itemWords_cons_cons, hwords]; rfl, hw⟩

end Document

namespace Value

open Document

/-- The words of a document are read as what it says, whatever is open around it. -/
def Builds (d : Document) : Prop :=
  ∀ around rest, build around none (d.words ++ rest) = build around (some d.value) rest

theorem build_itemWords {d : Document} {ds : List Document} (h : ∀ e ∈ d :: ds, Builds e)
    (done : List Value) (around : List Open) (rest : List Token) :
    build (.array done :: around) none (itemWords (d :: ds) ++ .endArray :: rest) =
      build around (some (.array (done.reverse ++ (d :: ds).map value))) rest := by
  induction ds generalizing d done with
  | nil =>
    rw [itemWords, h d List.mem_cons_self, build, List.reverse_cons]
    rfl
  | cons e ds ih =>
    rw [List.forall_mem_cons] at h
    rw [itemWords_cons_cons, List.append_assoc, h.1, List.cons_append, build, ih h.2,
      List.reverse_cons, List.append_assoc]
    rfl

theorem build_fieldWords {f : String × Document} {fields : List (String × Document)}
    (h : ∀ g ∈ f :: fields, Builds g.2) (done : List (Option String × Value)) (around : List Open)
    (rest : List Token) :
    build (.object done (some f.1) :: around) none
        (f.2.words ++ wordsBehind fields ++ .endObject :: rest) =
      build around
        (some (.object (done.reverse ++ (f :: fields).map fun g => (some g.1, g.2.value))))
        rest := by
  induction fields generalizing f done with
  | nil =>
    rw [wordsBehind, List.append_nil, h f List.mem_cons_self, build, List.reverse_cons]
    rfl
  | cons g fields ih =>
    rw [List.forall_mem_cons] at h
    rw [wordsBehind, fieldWords_cons, List.append_assoc, h.1, List.cons_append, List.cons_append,
      List.cons_append, build, ih h.2, List.reverse_cons, List.append_assoc]
    rfl

theorem builds (d : Document) : Builds d := by
  induction d using Document.induction with
  | natural n =>
    intro around rest
    rw [words, value, List.cons_append, List.nil_append, build]
  | string s =>
    intro around rest
    rw [words, value, List.cons_append, List.nil_append, build]
  | array items ih =>
    intro around rest
    rw [words, value, List.cons_append, List.cons_append, List.append_assoc]
    cases items with
    | nil =>
      rw [itemWords, List.nil_append, List.cons_append, build]
      rfl
    | cons d ds =>
      obtain ⟨w, ws, hwords, hw⟩ := exists_itemWords_cons d ds
      have hitems := build_itemWords ih [] around rest
      rw [hwords] at hitems ⊢
      rw [List.cons_append, build]
      · exact hitems
      · rintro _ ⟨⟩
        exact hw rfl
  | object fields ih =>
    intro around rest
    rw [words, value, List.cons_append, List.cons_append, List.append_assoc]
    cases fields with
    | nil =>
      rw [fieldWords, List.nil_append, List.cons_append, build]
      rfl
    | cons f fields =>
      rw [fieldWords_cons, List.cons_append, List.cons_append, build]
      exact build_fieldWords ih [] around rest

/-- The text of a document says what the document does. -/
theorem parse?_render (d : Document) : parse? d.render = some d.value := by
  have h := builds d [] []
  rw [List.append_nil] at h
  rw [parse?, render, String.toList_ofList, Token.list?_chars, Option.bind_some, h, build]

end Value
end ScriptLedger.Json
