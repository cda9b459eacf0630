import ScriptLedger.Digest.Basic
import ScriptLedger.Digest.Blocks
import ScriptLedger.Digest.Sha256

namespace ScriptLedger.Digest.Ripemd160

/-- The five words that a block of the message changes. -/
structure State where
  a : UInt32
  b : UInt32
  c : UInt32
  d : UInt32
  e : UInt32

def initial : State :=
  ⟨0x67452301, 0xefcdab89, 0x98badcfe, 0x10325476, 0xc3d2e1f0⟩

/-- One round of a line: the word of the block that it reads and the rotation that it applies. -/
structure Step where
  word : Nat
  rotation : UInt32

/-- Sixteen rounds that share a mixing function and a constant. -/
structure Group where
  mix : UInt32 → UInt32 → UInt32 → UInt32
  constant : UInt32
  words : List Nat
  rotations : List UInt32

def Group.steps (g : Group) : List Step :=
  List.zipWith Step.mk g.words g.rotations

def parity (x y z : UInt32) : UInt32 := x ^^^ y ^^^ z

def choice (x y z : UInt32) : UInt32 := (x &&& y) ||| (~~~x &&& z)

def orNot (x y z : UInt32) : UInt32 := (x ||| ~~~y) ^^^ z

def reverseChoice (x y z : UInt32) : UInt32 := (x &&& z) ||| (y &&& ~~~z)

def reverseOrNot (x y z : UInt32) : UInt32 := x ^^^ (y ||| ~~~z)

def leftLine : List Group :=
  [⟨parity, 0x00000000, [0, 1, 2, 3, 4, 5, 6, 7, 8, 9, 10, 11, 12, 13, 14, 15],
    [11, 14, 15, 12, 5, 8, 7, 9, 11, 13, 14, 15, 6, 7, 9, 8]⟩,
   ⟨choice, 0x5a827999, [7, 4, 13, 1, 10, 6, 15, 3, 12, 0, 9, 5, 2, 14, 11, 8],
    [7, 6, 8, 13, 11, 9, 7, 15, 7, 12, 15, 9, 11, 7, 13, 12]⟩,
   ⟨orNot, 0x6ed9eba1, [3, 10, 14, 4, 9, 15, 8, 1, 2, 7, 0, 6, 13, 11, 5, 12],
    [11, 13, 6, 7, 14, 9, 13, 15, 14, 8, 13, 6, 5, 12, 7, 5]⟩,
   ⟨reverseChoice, 0x8f1bbcdc, [1, 9, 11, 10, 0, 8, 12, 4, 13, 3, 7, 15, 14, 5, 6, 2],
    [11, 12, 14, 15, 14, 15, 9, 8, 9, 14, 5, 6, 8, 6, 5, 12]⟩,
   ⟨reverseOrNot, 0xa953fd4e, [4, 0, 5, 9, 7, 12, 2, 10, 14, 1, 3, 8, 11, 6, 15, 13],
    [9, 15, 5, 11, 6, 8, 13, 12, 5, 12, 13, 14, 11, 8, 5, 6]⟩]

def rightLine : List Group :=
  [⟨reverseOrNot, 0x50a28be6, [5, 14, 7, 0, 9, 2, 11, 4, 13, 6, 15, 8, 1, 10, 3, 12],
    [8, 9, 9, 11, 13, 15, 15, 5, 7, 7, 8, 11, 14, 14, 12, 6]⟩,
   ⟨reverseChoice, 0x5c4dd124, [6, 11, 3, 7, 0, 13, 5, 10, 14, 15, 8, 12, 4, 9, 1, 2],
    [9, 13, 15, 7, 12, 8, 9, 11, 7, 7, 12, 7, 6, 15, 13, 11]⟩,
   ⟨orNot, 0x6d703ef3, [15, 5, 1, 3, 7, 14, 6, 9, 11, 8, 12, 2, 10, 0, 4, 13],
    [9, 7, 15, 11, 8, 6, 6, 14, 12, 13, 5, 14, 13, 13, 7, 5]⟩,
   ⟨choice, 0x7a6d76e9, [8, 6, 4, 1, 3, 11, 15, 0, 5, 12, 2, 13, 9, 7, 10, 14],
    [15, 5, 8, 11, 14, 14, 6, 14, 6, 9, 12, 9, 12, 5, 15, 8]⟩,
   ⟨parity, 0x00000000, [12, 15, 10, 4, 1, 5, 8, 7, 6, 2, 13, 14, 0, 3, 9, 11],
    [8, 5, 12, 9, 12, 5, 14, 6, 8, 13, 6, 5, 15, 13, 11, 11]⟩]

def round (block : List UInt32) (g : Group) (s : State) (step : Step) : State :=
  let mixed := s.a + g.mix s.b s.c s.d + block.getD step.word 0 + g.constant
  ⟨s.e, rotateLeft mixed step.rotation + s.e, s.b, rotateLeft s.c 10, s.d⟩

def runLine (block : List UInt32) (s : State) (line : List Group) : State :=
  line.foldl (fun s g => g.steps.foldl (round block g) s) s

/-- Runs both lines from the same words and adds their results crosswise. -/
def compress (s : State) (block : Bytes) : State :=
  let ws := littleEndianWords block
  let l := runLine ws s leftLine
  let r := runLine ws s rightLine
  ⟨s.b + l.c + r.d, s.c + l.d + r.e, s.d + l.e + r.a, s.e + l.a + r.b, s.a + l.b + r.c⟩

def State.bytes (s : State) : Bytes :=
  [s.a, s.b, s.c, s.d, s.e].flatMap fun w => LittleEndian.encode 4 w.toNat

theorem State.length_bytes (s : State) : s.bytes.length = 20 := by
  simp [State.bytes]

end Ripemd160

/-- RIPEMD-160. -/
def ripemd160 (message : Bytes) : Digest 20 :=
  let final := absorb Ripemd160.compress Ripemd160.initial (pad (LittleEndian.encode 8) message)
  ⟨final.bytes, final.length_bytes⟩

/-- RIPEMD-160 of SHA-256. -/
def hash160 (message : Bytes) : Digest 20 :=
  ripemd160 (sha256 message).bytes

end ScriptLedger.Digest
