import ScriptLedger.Script.Push

namespace ScriptLedger.Script

/-- An opcode with the push that it starts, if it starts one. -/
structure Instruction where
  opcode : UInt8
  push : Option Push
  deriving DecidableEq, Repr

/-- The instructions of a script up to its end or up to the first that is cut off. -/
structure Split where
  instructions : List Instruction
  failure : Option Failure
  deriving DecidableEq, Repr

namespace Instruction

/-- The bytes that an instruction takes behind its opcode. -/
def dataSize (i : Instruction) : Nat :=
  match i.push with
  | none => 0
  | some p => p.size

def size (i : Instruction) : Nat :=
  1 + i.dataSize

/-- Splits a script behind the instructions already found, newest first. -/
def splitOnto (found : List Instruction) (script : Bytes) : Split :=
  match script with
  | [] => ⟨found.reverse, none⟩
  | op :: rest =>
    match Push.read? op rest with
    | .error e => ⟨found.reverse, some e⟩
    | .ok push =>
      let i : Instruction := ⟨op, push⟩
      splitOnto (i :: found) (rest.drop i.dataSize)
termination_by script.length
decreasing_by simp only [List.length_drop, List.length_cons]; omega

def split (script : Bytes) : Split :=
  splitOnto [] script

/-- What was found before a cut only stands in front. -/
theorem splitOnto_append (before found : List Instruction) (script : Bytes) :
    splitOnto (found ++ before) script =
      ⟨before.reverse ++ (splitOnto found script).instructions,
        (splitOnto found script).failure⟩ := by
  fun_induction splitOnto found script with
  | case1 found => simp [splitOnto]
  | case2 found op rest e h =>
    rw [splitOnto]
    simp only [h, List.reverse_append]
  | case3 found op rest push h i ih =>
    rw [splitOnto]
    simp only [h]
    exact ih

theorem split_nil : split [] = ⟨[], none⟩ := by
  rw [split, splitOnto]
  rfl

theorem split_cons_error {op : UInt8} {rest : Bytes} {e : Failure}
    (h : Push.read? op rest = .error e) : split (op :: rest) = ⟨[], some e⟩ := by
  rw [split, splitOnto]
  simp only [h, List.reverse_nil]

theorem split_cons_ok {op : UInt8} {rest : Bytes} {push : Option Push}
    (h : Push.read? op rest = .ok push) :
    split (op :: rest) =
      ⟨⟨op, push⟩ :: (split (rest.drop (dataSize ⟨op, push⟩))).instructions,
        (split (rest.drop (dataSize ⟨op, push⟩))).failure⟩ := by
  rw [split, splitOnto]
  simp only [h]
  exact splitOnto_append [⟨op, push⟩] [] _

/-- The words of an instruction in a listing: a direct push is its data, a push with a length field
is the name of the opcode and its data unless that is empty, and any other opcode is its name. -/
def words (i : Instruction) : List String :=
  match i.push with
  | none => [Opcode.display i.opcode]
  | some p =>
    (if Opcode.isDirectPush i.opcode then [] else [Opcode.display i.opcode])
      ++ (if p.data.isEmpty then [] else [Hex.encode p.data])

end Instruction

/-- The listing of a script: the words of its instructions with spaces between them. -/
def disassemble (script : Bytes) : Except Failure String :=
  let found := Instruction.split script
  match found.failure with
  | some e => .error e
  | none => .ok (" ".intercalate (found.instructions.flatMap Instruction.words))

end ScriptLedger.Script
