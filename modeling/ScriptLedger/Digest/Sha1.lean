import ScriptLedger.Digest.Basic
import ScriptLedger.Digest.Blocks

namespace ScriptLedger.Digest.Sha1

/-- The five words that a block of the message changes. -/
structure State where
  a : UInt32
  b : UInt32
  c : UInt32
  d : UInt32
  e : UInt32

def initial : State :=
  ⟨0x67452301, 0xefcdab89, 0x98badcfe, 0x10325476, 0xc3d2e1f0⟩

/-- The first words of the message schedule that starts with the given sixteen. -/
def schedule : Nat → List UInt32 → List UInt32
  | n + 1, w :: rest =>
    let next := rotateLeft (rest.getD 12 0 ^^^ rest.getD 7 0 ^^^ rest.getD 1 0 ^^^ w) 1
    w :: schedule n (rest ++ [next])
  | _, _ => []

/-- The mixing function and the constant of a round; they change every twenty rounds. -/
def mix (index : Nat) (b c d : UInt32) : UInt32 :=
  if index < 20 then ((b &&& c) ||| (~~~b &&& d)) + 0x5a827999
  else if index < 40 then (b ^^^ c ^^^ d) + 0x6ed9eba1
  else if index < 60 then ((b &&& c) ||| (b &&& d) ||| (c &&& d)) + 0x8f1bbcdc
  else (b ^^^ c ^^^ d) + 0xca62c1d6

def round (s : State) (index : Nat) (word : UInt32) : State :=
  ⟨rotateLeft s.a 5 + mix index s.b s.c s.d + s.e + word, s.a, rotateLeft s.b 30, s.c, s.d⟩

def compress (s : State) (block : Bytes) : State :=
  let t := (schedule 80 (bigEndianWords block)).zipIdx.foldl
    (fun t entry => round t entry.2 entry.1) s
  ⟨s.a + t.a, s.b + t.b, s.c + t.c, s.d + t.d, s.e + t.e⟩

def State.bytes (s : State) : Bytes :=
  [s.a, s.b, s.c, s.d, s.e].flatMap fun w => bigEndian 4 w.toNat

theorem State.length_bytes (s : State) : s.bytes.length = 20 := by
  simp [State.bytes]

end Sha1

/-- SHA-1. -/
def sha1 (message : Bytes) : Digest 20 :=
  let final := absorb Sha1.compress Sha1.initial (pad (bigEndian 8) message)
  ⟨final.bytes, final.length_bytes⟩

end ScriptLedger.Digest
