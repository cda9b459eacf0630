import ScriptLedger.Json.Document
import ScriptLedger.Json.Token

namespace ScriptLedger.Json

namespace Document

mutual

def words : Document → List Token
  | .natural n => [.number (some n)]
  | .string s => [.string (some s)]
  | .array items => .beginArray :: itemWords items ++ [.endArray]
  | .object fields => .beginObject :: fieldWords fields ++ [.endObject]

def itemWords : List Document → List Token
  | [] => []
  | [d] => d.words
  | d :: ds => d.words ++ .comma :: itemWords ds

def fieldWords : List (String × Document) → List Token
  | [] => []
  | [(key, d)] => .string (some key) :: .colon :: d.words
  | (key, d) :: fields => .string (some key) :: .colon :: d.words ++ .comma :: fieldWords fields

end

@[elab_as_elim]
theorem induction {motive : Document → Prop} (natural : ∀ n, motive (.natural n))
    (string : ∀ s, motive (.string s))
    (array : ∀ items, (∀ d ∈ items, motive d) → motive (.array items))
    (object : ∀ fields, (∀ f ∈ fields, motive f.2) → motive (.object fields)) :
    (d : Document) → motive d
  | .natural n => natural n
  | .string s => string s
  | .array items => array items fun d _ => induction natural string array object d
  | .object fields => object fields fun f _ => induction natural string array object f.2
decreasing_by
  · have hitem := List.sizeOf_lt_of_mem ‹d ∈ items›
    simp only [Document.array.sizeOf_spec]
    omega
  · have hfield := List.sizeOf_lt_of_mem ‹f ∈ fields›
    obtain ⟨key, d⟩ := f
    simp only [Prod.mk.sizeOf_spec] at hfield
    simp only [Document.object.sizeOf_spec]
    omega

end Document

namespace Token

/-- Whether a number ends in front of the text, because it starts with no character that a number
could go on with. -/
def EndsNumber : List Char → Prop
  | [] => True
  | c :: _ => c.isDigit = false ∧ c ≠ '.' ∧ c ≠ 'e' ∧ c ≠ 'E'

/-- A text that is split into the given words, whatever was read before it and whatever follows
it, as long as a number ends there. -/
def Scans (cs : List Char) (words : List Token) : Prop :=
  ∀ done rest, EndsNumber rest → listOnto done (cs ++ rest) = listOnto (words.reverse ++ done) rest

theorem listOnto_cons {c : Char} {cs rest : List Char} {t : Token} (done : List Token)
    (hspace : isSpace c = false) (h : read? c cs = some (t, rest)) :
    listOnto done (c :: cs) = listOnto (t :: done) rest := by
  rw [listOnto]
  split
  · simp_all
  · split
    · simp_all
    · simp_all

theorem Scans.nil : Scans [] [] :=
  fun _ _ _ => rfl

theorem Scans.append {cs ds : List Char} {words words' : List Token} (h : Scans cs words)
    (h' : Scans ds words') (hend : ∀ rest, EndsNumber rest → EndsNumber (ds ++ rest)) :
    Scans (cs ++ ds) (words ++ words') := by
  intro done rest hrest
  rw [List.append_assoc, h done _ (hend rest hrest), h' _ rest hrest, List.reverse_append,
    List.append_assoc]

/-- A mark of one character does not look at what follows. -/
theorem Scans.cons {c : Char} {cs : List Char} {t : Token} {words : List Token}
    (hspace : isSpace c = false) (hread : ∀ rest, read? c rest = some (t, rest))
    (h : Scans cs words) : Scans (c :: cs) (t :: words) := by
  intro done rest hrest
  rw [List.cons_append, listOnto_cons done hspace (hread _), h _ rest hrest, List.reverse_cons,
    List.append_assoc]
  rfl

theorem digits_append {cs rest : List Char} (n : Nat) (hcs : ∀ c ∈ cs, c.isDigit = true)
    (hrest : EndsNumber rest) : digits n (cs ++ rest) = (Nat.ofDigitChars 10 cs n, rest) := by
  induction cs generalizing n with
  | nil =>
    cases rest with
    | nil => rfl
    | cons c rest => simp [digits, hrest.1]
  | cons c cs ih =>
    have hc := hcs c List.mem_cons_self
    have hcs' := fun d hd => hcs d (List.mem_cons_of_mem c hd)
    rw [List.cons_append, digits, if_pos hc, ih _ hcs', Nat.ofDigitChars_cons]
    rfl

/-- Only zero is written with a zero in front. -/
theorem exists_toDigits_cons {n : Nat} (h : 0 < n) :
    ∃ c cs, Nat.toDigits 10 n = c :: cs ∧ c ≠ '0' := by
  induction n using Nat.strongRecOn with
  | ind n ih =>
    rw [Nat.toDigits_eq_if (by decide)]
    split
    case isTrue hn =>
      refine ⟨_, [], rfl, ?_⟩
      rw [ne_eq, Nat.digitChar_eq_zero]
      omega
    case isFalse hn =>
      obtain ⟨c, cs, hcs, hc⟩ := ih (n / 10) (by omega) (by omega)
      rw [hcs]
      exact ⟨c, _, rfl, hc⟩

theorem integer?_toDigits {n : Nat} {rest : List Char} (hrest : EndsNumber rest) :
    ∃ c cs, Nat.toDigits 10 n = c :: cs ∧ integer? c (cs ++ rest) = some (n, rest) := by
  cases n with
  | zero => exact ⟨'0', [], Nat.toDigits_zero 10, rfl⟩
  | succ n =>
    obtain ⟨c, cs, hcs, hc⟩ := exists_toDigits_cons n.succ_pos
    have hdigit : ∀ d ∈ c :: cs, d.isDigit = true := by
      rw [← hcs]
      exact fun d => Nat.isDigit_of_mem_toDigits (by decide) (by decide)
    have hvalue : Nat.ofDigitChars 10 (c :: cs) 0 = n + 1 := by
      rw [← hcs]
      exact Nat.ofDigitChars_ten_toDigits
    rw [List.forall_mem_cons] at hdigit
    refine ⟨c, cs, hcs, ?_⟩
    rw [integer?, if_neg hc, if_pos hdigit.1, digits_append _ hdigit.2 hrest]
    rw [Nat.ofDigitChars_cons, Nat.mul_zero, Nat.zero_add] at hvalue
    exact congrArg (fun m => some (m, rest)) hvalue

theorem skipFraction?_of_ends {rest : List Char} (h : EndsNumber rest) :
    skipFraction? rest = some (false, rest) := by
  unfold skipFraction?
  split
  · exact absurd rfl h.2.1
  · rfl

theorem skipExponent?_of_ends {rest : List Char} (h : EndsNumber rest) :
    skipExponent? rest = some (false, rest) := by
  cases rest with
  | nil => rfl
  | cons c rest => simp [skipExponent?, h.2.2.1, h.2.2.2]

theorem read?_of_isDigit {c : Char} (h : c.isDigit = true) (rest : List Char) :
    read? c rest = number? c rest := by
  unfold read?
  split
  all_goals first
    | rfl
    | exact absurd h (by decide)

theorem scans_toDigits (n : Nat) : Scans (Nat.toDigits 10 n) [.number (some n)] := by
  intro done rest hrest
  obtain ⟨c, cs, hcs, hinteger⟩ := integer?_toDigits (n := n) hrest
  have hdigit : c.isDigit = true := by
    apply Nat.isDigit_of_mem_toDigits (b := 10) (n := n) (by decide) (by decide)
    rw [hcs]
    exact List.mem_cons_self
  have hspace : isSpace c = false := by
    cases hc : isSpace c with
    | false => rfl
    | true =>
      simp only [isSpace, Bool.or_eq_true, beq_iff_eq] at hc
      rcases hc with ((rfl | rfl) | rfl) | rfl <;> exact absurd hdigit (by decide)
  have hread : read? c (cs ++ rest) = some (.number (some n), rest) := by
    rw [read?_of_isDigit hdigit, number?, unsigned?, hinteger]
    simp [skipFraction?_of_ends hrest, skipExponent?_of_ends hrest]
  rw [hcs, List.cons_append, listOnto_cons done hspace hread]
  rfl

/-- A piece that says one character: the character itself, or its code unit if it is a control. -/
inductive Piece.Says (c : Char) : Piece → Prop where
  | char : Says c (.char c)
  | codeUnit (h : c.toNat < 0x20) : Says c (.codeUnit c.toNat)

theorem textOnto_cons {c : Char} {p : Piece} (h : p.Says c) (done : List Char)
    (pieces : List Piece) : textOnto done (p :: pieces) = textOnto (c :: done) pieces := by
  cases h with
  | char => rw [textOnto]
  | codeUnit h =>
    -- A unit before another one is only kept if the two are no surrogates.
    have hhigh : ¬ (0xd800 ≤ c.toNat ∧ c.toNat < 0xdc00) := by omega
    have hlow : ¬ (0xdc00 ≤ c.toNat ∧ c.toNat < 0xe000) := by omega
    have hany : ¬ (0xd800 ≤ c.toNat ∧ c.toNat < 0xe000) := by omega
    have hc : Char.ofNat c.toNat = c := Char.ofNat_toNat c
    match pieces with
    | [] => simp only [textOnto, hany, hc, if_false]
    | .char d :: pieces => simp only [textOnto, hany, hc, if_false]
    | .codeUnit n :: pieces => rw [textOnto, if_neg hhigh, if_neg hlow, hc]

theorem codeUnit?_of_lt {n : Nat} (h : n < 0x20) :
    codeUnit? '0' '0' (Nat.digitChar (n / 16)) (Nat.digitChar (n % 16)) = some n := by
  have hall : ∀ n < 0x20,
      codeUnit? '0' '0' (Nat.digitChar (n / 16)) (Nat.digitChar (n % 16)) = some n := by
    decide
  exact hall n h

theorem piecesOnto_escaped {e c : Char} (h : escaped? e = some c) (done : List Piece)
    (rest : List Char) :
    piecesOnto done ('\\' :: e :: rest) = piecesOnto (.char c :: done) rest := by
  have hu : e ≠ 'u' := by
    rintro rfl
    cases h
  rw [piecesOnto]
  · simp only [h]
  · rintro _ _ _ _ _ rfl
    exact absurd rfl hu

/-- How a character is written: behind a backslash, as the number of a control, or as itself. -/
theorem escape_cases (c : Char) :
    (∃ e, Document.escape c = ['\\', e] ∧ escaped? e = some c) ∨
      (c.toNat < 0x20 ∧ Document.escape c =
        ['\\', 'u', '0', '0', Nat.digitChar (c.toNat / 16), Nat.digitChar (c.toNat % 16)]) ∨
      (Document.escape c = [c] ∧ c ≠ '"' ∧ c ≠ '\\' ∧ ¬ c.toNat < 0x20) := by
  have hofNat {n : Nat} (h : c.toNat = n) : some (Char.ofNat n) = some c := by
    rw [← h, Char.ofNat_toNat]
  unfold Document.escape
  split
  case isTrue h =>
    refine .inl ⟨c, rfl, ?_⟩
    obtain rfl | rfl := h <;> rfl
  case isFalse hquote =>
    rw [not_or] at hquote
    split
    case isTrue h => exact .inl ⟨'b', rfl, hofNat h⟩
    split
    case isTrue h => exact .inl ⟨'f', rfl, hofNat h⟩
    split
    case isTrue h => exact .inl ⟨'n', rfl, congrArg some h.symm⟩
    split
    case isTrue h => exact .inl ⟨'r', rfl, congrArg some h.symm⟩
    split
    case isTrue h => exact .inl ⟨'t', rfl, congrArg some h.symm⟩
    split
    case isTrue h => exact .inr (.inl ⟨h, rfl⟩)
    case isFalse h => exact .inr (.inr ⟨rfl, hquote.1, hquote.2, h⟩)

/-- A character of a string is read as one piece, however it is written. -/
theorem exists_piece (c : Char) : ∃ p, p.Says c ∧ ∀ done rest,
    piecesOnto done (Document.escape c ++ rest) = piecesOnto (p :: done) rest := by
  obtain ⟨e, hwritten, he⟩ | ⟨hcontrol, hwritten⟩ | ⟨hwritten, hquote, hbackslash, hplain⟩ :=
    escape_cases c
  · refine ⟨.char c, .char, fun done rest => ?_⟩
    rw [hwritten]
    exact piecesOnto_escaped he done rest
  · refine ⟨.codeUnit c.toNat, .codeUnit hcontrol, fun done rest => ?_⟩
    rw [hwritten, List.cons_append, List.cons_append]
    simp only [List.cons_append, List.nil_append]
    rw [piecesOnto, codeUnit?_of_lt hcontrol]
  · refine ⟨.char c, .char, fun done rest => ?_⟩
    rw [hwritten, List.cons_append, List.nil_append, piecesOnto]
    · rw [if_neg hplain]
    · exact hquote
    · exact fun _ _ _ _ _ h => absurd h hbackslash
    · exact fun _ _ h => absurd h hbackslash

theorem exists_pieces (cs : List Char) : ∃ pieces,
    (∀ done rest, piecesOnto done (cs.flatMap Document.escape ++ '"' :: rest) =
      some (done.reverse ++ pieces, rest)) ∧
    ∀ done, textOnto done pieces = some (String.ofList (done.reverse ++ cs)) := by
  induction cs with
  | nil =>
    refine ⟨[], fun done rest => ?_, fun done => ?_⟩
    · rw [List.append_nil]
      rfl
    · rw [List.append_nil]
      rfl
  | cons c cs ih =>
    obtain ⟨pieces, hpieces, htext⟩ := ih
    obtain ⟨p, hsays, hp⟩ := exists_piece c
    refine ⟨p :: pieces, fun done rest => ?_, fun done => ?_⟩
    · rw [List.flatMap_cons, List.append_assoc, hp, hpieces, List.reverse_cons, List.append_assoc]
      rfl
    · rw [textOnto_cons hsays, htext, List.reverse_cons, List.append_assoc]
      rfl

theorem scans_quoted (s : String) : Scans (Document.quoted s) [.string (some s)] := by
  intro done rest _
  obtain ⟨pieces, hpieces, htext⟩ := exists_pieces s.toList
  have hread : read? '"' (s.toList.flatMap Document.escape ++ '"' :: rest) =
      some (.string (some s), rest) := by
    simp only [read?, string?, hpieces, Option.map_some, List.reverse_nil, List.nil_append, htext,
      String.ofList_toList]
  rw [Document.quoted, List.cons_append, List.cons_append, List.append_assoc]
  exact listOnto_cons done rfl hread

theorem endsNumber_cons {c : Char} (h : c = ',' ∨ c = ']' ∨ c = '}') (rest : List Char) :
    EndsNumber (c :: rest) := by
  obtain rfl | rfl | rfl := h <;> exact ⟨by decide, by decide, by decide, by decide⟩

theorem Scans.mark {c : Char} {cs ds : List Char} {t : Token} {words words' : List Token}
    (hc : c = ',' ∨ c = ']' ∨ c = '}') (hread : ∀ rest, read? c rest = some (t, rest))
    (h : Scans cs words) (h' : Scans ds words') :
    Scans (cs ++ c :: ds) (words ++ t :: words') := by
  have hspace : isSpace c = false := by
    obtain rfl | rfl | rfl := hc <;> rfl
  exact h.append (.cons hspace hread h') fun rest _ => endsNumber_cons hc (ds ++ rest)

theorem Scans.key {key : String} {cs : List Char} {words : List Token} (h : Scans cs words) :
    Scans (Document.quoted key ++ ':' :: cs) (.string (some key) :: .colon :: words) :=
  (scans_quoted key).append (.cons rfl (fun _ => rfl) h) fun rest _ =>
    ⟨by decide, by decide, by decide, by decide⟩

theorem scans_itemChars {items : List Document} (h : ∀ d ∈ items, Scans d.chars d.words) :
    Scans (Document.itemChars items) (Document.itemWords items) := by
  induction items with
  | nil =>
    rw [Document.itemChars, Document.itemWords]
    exact .nil
  | cons d ds ih =>
    rw [List.forall_mem_cons] at h
    cases ds with
    | nil =>
      rw [Document.itemChars, Document.itemWords]
      exact h.1
    | cons e ds =>
      rw [Document.itemChars, Document.itemWords]
      · exact .mark (by decide) (fun _ => rfl) h.1 (ih h.2)
      all_goals exact nofun

theorem scans_fieldChars {fields : List (String × Document)}
    (h : ∀ f ∈ fields, Scans f.2.chars f.2.words) :
    Scans (Document.fieldChars fields) (Document.fieldWords fields) := by
  induction fields with
  | nil =>
    rw [Document.fieldChars, Document.fieldWords]
    exact .nil
  | cons f fields ih =>
    obtain ⟨key, d⟩ := f
    rw [List.forall_mem_cons] at h
    cases fields with
    | nil =>
      rw [Document.fieldChars, Document.fieldWords]
      exact h.1.key
    | cons f fields =>
      rw [Document.fieldChars, Document.fieldWords]
      · exact .mark (by decide) (fun _ => rfl) h.1.key (ih h.2)
      all_goals exact nofun

theorem scans_chars (d : Document) : Scans d.chars d.words := by
  induction d using Document.induction with
  | natural n =>
    rw [Document.chars, Document.words]
    exact scans_toDigits n
  | string s =>
    rw [Document.chars, Document.words]
    exact scans_quoted s
  | array items ih =>
    rw [Document.chars, Document.words]
    exact .cons rfl (fun _ => rfl) (.mark (by decide) (fun _ => rfl) (scans_itemChars ih) .nil)
  | object fields ih =>
    rw [Document.chars, Document.words]
    exact .cons rfl (fun _ => rfl) (.mark (by decide) (fun _ => rfl) (scans_fieldChars ih) .nil)

/-- The text of a document is split into its words. -/
theorem list?_chars (d : Document) : list? d.chars = some d.words := by
  have h := scans_chars d [] [] trivial
  rw [List.append_nil, List.append_nil] at h
  rw [list?, h, listOnto, List.reverse_reverse]

end Token
end ScriptLedger.Json
