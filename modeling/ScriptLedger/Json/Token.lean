import ScriptLedger.Bytes.Hex

namespace ScriptLedger.Json

/-- The words of a JSON text. A number keeps its value when it is a natural number in plain digits,
a string its text when that has no lone surrogate. -/
inductive Token where
  | beginArray
  | endArray
  | beginObject
  | endObject
  | comma
  | colon
  | null
  | bool (b : Bool)
  | number (n : Option Nat)
  | string (text : Option String)
  deriving DecidableEq, Repr

namespace Token

def isSpace (c : Char) : Bool :=
  c == ' ' || c == '\t' || c == '\n' || c == '\r'

/-- A piece of a string: a character, or a 16-bit unit given by its number. -/
inductive Piece where
  | char (c : Char)
  | codeUnit (n : Nat)
  deriving DecidableEq, Repr

def digitValue? (c : Char) : Option Nat :=
  if c.toNat < 128 then Hex.value? (UInt8.ofNat c.toNat) else none

def codeUnit? (a b c d : Char) : Option Nat := do
  return ((← digitValue? a) * 16 + (← digitValue? b)) * 256
    + ((← digitValue? c) * 16 + (← digitValue? d))

/-- The character that a backslash and a letter stand for. -/
def escaped? : Char → Option Char
  | '"' => some '"'
  | '\\' => some '\\'
  | '/' => some '/'
  | 'b' => some (Char.ofNat 8)
  | 'f' => some (Char.ofNat 12)
  | 'n' => some '\n'
  | 'r' => some '\r'
  | 't' => some '\t'
  | _ => none

/-- Reads up to the closing quote, behind the pieces already read, newest first. -/
def piecesOnto (done : List Piece) : List Char → Option (List Piece × List Char)
  | [] => none
  | '"' :: rest => some (done.reverse, rest)
  | '\\' :: 'u' :: a :: b :: c :: d :: rest =>
    match codeUnit? a b c d with
    | none => none
    | some n => piecesOnto (.codeUnit n :: done) rest
  | '\\' :: e :: rest =>
    match escaped? e with
    | none => none
    | some c => piecesOnto (.char c :: done) rest
  | c :: rest => if c.toNat < 0x20 then none else piecesOnto (.char c :: done) rest

/-- Joins pieces to a text behind the characters already joined, newest first; a surrogate counts
only with its partner. -/
def textOnto (done : List Char) : List Piece → Option String
  | [] => some (String.ofList done.reverse)
  | .char c :: rest => textOnto (c :: done) rest
  | .codeUnit high :: .codeUnit low :: rest =>
    if 0xd800 ≤ high ∧ high < 0xdc00 then
      if 0xdc00 ≤ low ∧ low < 0xe000 then
        textOnto (Char.ofNat (0x10000 + (high - 0xd800) * 0x400 + (low - 0xdc00)) :: done) rest
      else none
    else if 0xdc00 ≤ high ∧ high < 0xe000 then none
    else textOnto (Char.ofNat high :: done) (.codeUnit low :: rest)
  | .codeUnit n :: rest =>
    if 0xd800 ≤ n ∧ n < 0xe000 then none else textOnto (Char.ofNat n :: done) rest

/-- Reads a string behind its opening quote. -/
def string? (cs : List Char) : Option (Token × List Char) :=
  (piecesOnto [] cs).map fun (pieces, rest) => (.string (textOnto [] pieces), rest)

/-- Continues a number through the digits that follow. -/
def digits (n : Nat) : List Char → Nat × List Char
  | [] => (n, [])
  | c :: cs => if c.isDigit then digits (10 * n + (c.toNat - 48)) cs else (n, c :: cs)

/-- Passes over digits of which at least one has to be there. -/
def skipDigits? : List Char → Option (List Char)
  | [] => none
  | c :: cs => if c.isDigit then some (cs.dropWhile Char.isDigit) else none

/-- Passes over a fraction and says whether there was one. -/
def skipFraction? : List Char → Option (Bool × List Char)
  | '.' :: cs => (skipDigits? cs).map (true, ·)
  | cs => some (false, cs)

def skipSign : List Char → List Char
  | '+' :: cs => cs
  | '-' :: cs => cs
  | cs => cs

/-- Passes over an exponent and says whether there was one. -/
def skipExponent? : List Char → Option (Bool × List Char)
  | [] => some (false, [])
  | c :: cs =>
    if c = 'e' ∨ c = 'E' then (skipDigits? (skipSign cs)).map (true, ·) else some (false, c :: cs)

/-- Reads an integer from its first digit and what follows; nothing is read behind a zero. -/
def integer? (c : Char) (rest : List Char) : Option (Nat × List Char) :=
  if c = '0' then some (0, rest)
  else if c.isDigit then some (digits (c.toNat - 48) rest)
  else none

/-- Reads a number from its first digit and what follows. -/
def unsigned? (c : Char) (rest : List Char) : Option (Option Nat × List Char) := do
  let (n, rest) ← integer? c rest
  let (hasFraction, rest) ← skipFraction? rest
  let (hasExponent, rest) ← skipExponent? rest
  return (if hasFraction || hasExponent then none else some n, rest)

def number? (c : Char) (rest : List Char) : Option (Token × List Char) :=
  (unsigned? c rest).map fun (n, rest) => (.number n, rest)

/-- Reads a number behind a minus sign; it is never natural. -/
def negative? : List Char → Option (Token × List Char)
  | [] => none
  | c :: rest => (unsigned? c rest).map fun (_, rest) => (.number none, rest)

/-- Reads the letters that complete a word. -/
def word? (letters : List Char) (t : Token) (rest : List Char) : Option (Token × List Char) :=
  if letters.isPrefixOf rest then some (t, rest.drop letters.length) else none

/-- Reads one word from its first character and what follows. -/
def read? (c : Char) (rest : List Char) : Option (Token × List Char) :=
  match c with
  | '[' => some (.beginArray, rest)
  | ']' => some (.endArray, rest)
  | '{' => some (.beginObject, rest)
  | '}' => some (.endObject, rest)
  | ',' => some (.comma, rest)
  | ':' => some (.colon, rest)
  | '"' => string? rest
  | 'n' => word? ['u', 'l', 'l'] .null rest
  | 't' => word? ['r', 'u', 'e'] (.bool true) rest
  | 'f' => word? ['a', 'l', 's', 'e'] (.bool false) rest
  | '-' => negative? rest
  | c => number? c rest

theorem length_piecesOnto {done pieces : List Piece} {cs rest : List Char}
    (h : piecesOnto done cs = some (pieces, rest)) : rest.length ≤ cs.length := by
  fun_induction piecesOnto done cs with
  | case1 => cases h
  | case2 => cases h; simp
  | case3 => cases h
  | case4 _ _ _ _ _ _ _ _ ih => have := ih h; simp only [List.length_cons]; omega
  | case5 => cases h
  | case6 _ _ _ _ _ _ ih => have := ih h; simp only [List.length_cons]; omega
  | case7 => cases h
  | case8 _ _ _ _ _ _ _ ih => have := ih h; simp only [List.length_cons]; omega

theorem length_digits (n : Nat) (cs : List Char) : (digits n cs).2.length ≤ cs.length := by
  fun_induction digits n cs with
  | case1 => simp
  | case2 _ _ _ _ ih => simp only [List.length_cons]; omega
  | case3 => simp

theorem length_skipDigits? {cs rest : List Char} (h : skipDigits? cs = some rest) :
    rest.length ≤ cs.length := by
  cases cs with
  | nil => cases h
  | cons c cs =>
    simp only [skipDigits?, Option.ite_none_right_eq_some, Option.some.injEq] at h
    have := (List.dropWhile_suffix (l := cs) Char.isDigit).length_le
    simp only [List.length_cons, ← h.2]
    omega

theorem length_skipFraction? {cs rest : List Char} {b : Bool}
    (h : skipFraction? cs = some (b, rest)) : rest.length ≤ cs.length := by
  fun_cases skipFraction? cs with
  | case1 cs =>
    obtain ⟨r, hr, he⟩ := Option.map_eq_some_iff.1 h
    cases he
    have := length_skipDigits? hr
    simp only [List.length_cons]
    omega
  | case2 => simp_all [skipFraction?]

theorem length_skipSign (cs : List Char) : (skipSign cs).length ≤ cs.length := by
  fun_cases skipSign cs <;> simp

theorem length_skipExponent? {cs rest : List Char} {b : Bool}
    (h : skipExponent? cs = some (b, rest)) : rest.length ≤ cs.length := by
  fun_cases skipExponent? cs with
  | case1 => cases h; simp
  | case2 c cs hc =>
    simp only [skipExponent?, hc, if_true] at h
    obtain ⟨r, hr, he⟩ := Option.map_eq_some_iff.1 h
    cases he
    have := length_skipDigits? hr
    have := length_skipSign cs
    simp only [List.length_cons]
    omega
  | case3 c cs hc => simp_all [skipExponent?]

theorem length_integer? {c : Char} {cs rest : List Char} {n : Nat}
    (h : integer? c cs = some (n, rest)) : rest.length ≤ cs.length := by
  simp only [integer?] at h
  split at h
  · cases h
    exact Nat.le_refl _
  · have := length_digits (c.toNat - 48) cs
    simp_all

theorem length_unsigned? {c : Char} {cs rest : List Char} {n : Option Nat}
    (h : unsigned? c cs = some (n, rest)) : rest.length ≤ cs.length := by
  simp only [unsigned?, Option.bind_eq_bind, Option.bind_eq_some_iff, Option.pure_def,
    Option.some.injEq, Prod.mk.injEq, Prod.exists] at h
  obtain ⟨m, r₁, h₁, b₂, r₂, h₂, b₃, r₃, h₃, -, rfl⟩ := h
  have h₁ := length_integer? h₁
  have h₂ := length_skipFraction? h₂
  have h₃ := length_skipExponent? h₃
  omega

theorem length_word? {letters cs rest : List Char} {t u : Token}
    (h : word? letters t cs = some (u, rest)) : rest.length ≤ cs.length := by
  simp only [word?, Option.ite_none_right_eq_some, Option.some.injEq, Prod.mk.injEq] at h
  simp only [← h.2.2, List.length_drop]
  omega

/-- Reading a word leaves no more than what followed its first character. -/
theorem length_read? {c : Char} {cs rest : List Char} {t : Token}
    (h : read? c cs = some (t, rest)) : rest.length ≤ cs.length := by
  unfold read? at h
  split at h
  case h_7 =>
    obtain ⟨⟨pieces, r⟩, hr, he⟩ := Option.map_eq_some_iff.1 h
    cases he
    exact length_piecesOnto hr
  case h_11 =>
    cases cs with
    | nil => cases h
    | cons d cs =>
      obtain ⟨⟨n, r⟩, hr, he⟩ := Option.map_eq_some_iff.1 h
      cases he
      have := length_unsigned? hr
      simp only [List.length_cons]
      omega
  case h_12 =>
    obtain ⟨⟨n, r⟩, hr, he⟩ := Option.map_eq_some_iff.1 h
    cases he
    exact length_unsigned? hr
  all_goals first
    | exact length_word? h
    | (cases h; exact Nat.le_refl _)

/-- The words of a text behind those already read, newest first. -/
def listOnto (done : List Token) (cs : List Char) : Option (List Token) :=
  match cs with
  | [] => some done.reverse
  | c :: rest =>
    if isSpace c then listOnto done rest
    else match _h : read? c rest with
      | none => none
      | some (t, rest') => listOnto (t :: done) rest'
termination_by cs.length
decreasing_by
  · simp
  · have := length_read? ‹_›
    simp only [List.length_cons]
    omega

/-- The words of a text, unless some part of it is no word. -/
def list? (cs : List Char) : Option (List Token) :=
  listOnto [] cs

end Token

end ScriptLedger.Json
