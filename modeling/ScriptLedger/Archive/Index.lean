import ScriptLedger.Ledger.Frame

namespace ScriptLedger.Archive

open Wire

/-- Where a frame starts and how large its record is. -/
structure Span where
  offset : Nat
  size : Nat
  deriving DecidableEq, Repr

/-- The frames found before the end of a file or before the first failure. -/
structure Index where
  spans : List Span
  /-- The place where the walk ended, or why it failed. -/
  outcome : Except Failure Nat

/-- Walks the frames of a file from `offset` on, behind those already found, newest first. Only the
opening of a frame is read; its record just has to end within the file. -/
def scanFrom (fileEnd : Nat) (found : List Span) (offset : Nat) (rest : Bytes) : Index :=
  match rest with
  | [] => ⟨found.reverse, .ok offset⟩
  | b :: bs =>
    match Frame.readOpening (.ofBytes (b :: bs)) with
    | .error e _ => ⟨found.reverse, .error e⟩
    | .ok size _ =>
      let next := offset + Frame.openingSize + size
      if fileEnd < next then ⟨found.reverse, .error (.truncated (.frame offset size fileEnd))⟩
      else
        scanFrom fileEnd (⟨offset, size⟩ :: found) next
          ((b :: bs).drop (Frame.openingSize + size))
termination_by rest.length
decreasing_by simp only [List.length_drop, List.length_cons, Frame.openingSize]; omega

/-- The frames of a file, in order. -/
def scan (data : Bytes) : Index :=
  scanFrom data.length [] 0 data

def Index.notices (index : Index) : List Notice :=
  index.spans.zipIdx.map fun (span, i) => .blockIndexed i span.offset span.size

end ScriptLedger.Archive
