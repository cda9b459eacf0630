namespace ScriptLedger

/-- A byte string, first byte first. -/
abbrev Bytes := List UInt8

namespace Bytes

/-- The UTF-8 bytes of a text. -/
def ofText (s : String) : Bytes :=
  s.toList.flatMap String.utf8EncodeChar

/-- The text whose UTF-8 bytes are given, when they are well formed. -/
def toText? (bs : Bytes) : Option String :=
  String.fromUTF8? ⟨bs.toArray⟩

/-- Rewrites the final byte and keeps the others. -/
def mapLast (f : UInt8 → UInt8) (bs : Bytes) : Bytes :=
  match bs.getLast? with
  | none => []
  | some b => bs.dropLast ++ [f b]

@[simp] theorem mapLast_nil (f : UInt8 → UInt8) : mapLast f [] = [] := rfl

@[simp] theorem mapLast_concat (f : UInt8 → UInt8) (bs : Bytes) (b : UInt8) :
    mapLast f (bs ++ [b]) = bs ++ [f b] := by
  simp [mapLast]

@[simp] theorem length_mapLast (f : UInt8 → UInt8) (bs : Bytes) :
    (mapLast f bs).length = bs.length := by
  rcases List.eq_nil_or_concat bs with h | ⟨cs, b, h⟩ <;> subst h <;> simp

end Bytes

end ScriptLedger
