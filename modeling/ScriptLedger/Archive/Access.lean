import ScriptLedger.Archive.Index

namespace ScriptLedger

open Wire

/-- A byte string and the place in it where the next read starts. -/
structure Reader where
  data : Bytes
  position : Nat
  deriving DecidableEq, Repr

/-- A file of framed blocks, the places where its frames start, and the largest record that is
decoded. -/
structure Archive where
  reader : Reader
  offsets : List Nat
  recordSize : Nat
  deriving DecidableEq, Repr

/-- A computation that may move the reader of an archive, also when it fails. -/
abbrev ArchiveM := Stateful Archive

namespace Archive

/-- Indexes a file from its first byte, wherever the reader stands, and leaves the reader where the
walk over the frames ended. -/
def index (reader : Reader) (recordSize : Nat) : Except Failure Archive :=
  let found := scan reader.data
  match found.outcome with
  | .error e => .error e
  | .ok place => .ok ⟨⟨reader.data, place⟩, found.spans.map (·.offset), recordSize⟩

/-- Indexes the file of a name, given what it holds if it exists. -/
def load (contents : Option Bytes) (recordSize : Nat) : Except Failure Archive :=
  match contents with
  | none => .error (.io "No such file or directory (os error 2)")
  | some data => index ⟨data, 0⟩ recordSize

/-- The notices of a file that is loaded under a name. -/
def loadNotices (name : String) (data : Bytes) : List Notice :=
  let found := scan data
  found.notices ++
    match found.outcome with
    | .error _ => []
    | .ok _ => [.archiveIndexed found.spans.length name]

def count (a : Archive) : Nat :=
  a.offsets.length

/-- What the reader would give from a place on. -/
def streamAt (a : Archive) (offset : Nat) : Stream :=
  .ofBytes (a.reader.data.drop offset)

/-- The archive with its reader where a stream from it has come to. -/
def standingAt (a : Archive) (s : Stream) : Archive :=
  { a with reader := { a.reader with position := a.reader.data.length - s.remaining.length } }

/-- Decodes the block of the given number. -/
def blockAt (i : Nat) : ArchiveM Block := fun a =>
  match a.offsets[i]? with
  | none => .error (.indexOutOfRange i a.count) a
  | some offset =>
    match Block.readWithin a.recordSize (a.streamAt offset) with
    | .ok b s => .ok b (a.standingAt s)
    | .error e s => .error e (a.standingAt s)

def blockNotices (a : Archive) (i : Nat) : List Notice :=
  match a.offsets[i]? with
  | none => []
  | some offset => Block.frameNotices a.recordSize (a.streamAt offset)

/-- The bytes from the place where the reader stands to the end. -/
def rest (a : Archive) : Bytes :=
  a.reader.data.drop a.reader.position

/-- A pass over the blocks of an archive in order. -/
structure Pass where
  archive : Archive
  next : Nat
  deriving DecidableEq, Repr

/-- A fresh pass, before the first block. -/
def blocks (a : Archive) : Pass :=
  ⟨a, 0⟩

namespace Pass

/-- The exact number of blocks that a pass has still to give. -/
def left (p : Pass) : Nat :=
  p.archive.count - p.next

/-- The next block, or why it cannot be decoded, and the pass behind it. -/
def step? (p : Pass) : Option (Except Failure Block × Pass) :=
  if p.archive.count ≤ p.next then none
  else match blockAt p.next p.archive with
    | .ok b a => some (.ok b, ⟨a, p.next + 1⟩)
    | .error e a => some (.error e, ⟨a, p.next + 1⟩)

/-- The notices of the next block. -/
def stepNotices (p : Pass) : List Notice :=
  match p.step? with
  | none => []
  | some (.ok _, _) => p.archive.blockNotices p.next
  | some (.error e, _) => p.archive.blockNotices p.next ++ [.blockRefused p.next e]

/-- The results of at most `n` steps, each with the number of blocks left behind it. -/
def take : Nat → Pass → List (Except Failure Block × Nat) × Pass
  | 0, p => ([], p)
  | n + 1, p =>
    match p.step? with
    | none => ([], p)
    | some (result, q) =>
      let (results, last) := take n q
      ((result, q.left) :: results, last)

def takeNotices : Nat → Pass → List Notice
  | 0, _ => []
  | n + 1, p =>
    match p.step? with
    | none => []
    | some (_, q) => p.stepNotices ++ takeNotices n q

end Pass

end Archive

end ScriptLedger
