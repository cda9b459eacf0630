import ScriptLedger.Bytes.LittleEndian

namespace ScriptLedger.Digest

/-- Fills a message up to whole blocks of 64 bytes: a mark, zeros and the length in bits. -/
def pad (lengthField : Nat → Bytes) (message : Bytes) : Bytes :=
  message ++ 0x80 ::
    (List.replicate ((119 - message.length % 64) % 64) 0 ++ lengthField (8 * message.length))

/-- Feeds a message to a compression function, 64 bytes at a time. -/
def absorb {σ : Type} (compress : σ → Bytes → σ) (state : σ) (message : Bytes) : σ :=
  match message with
  | [] => state
  | b :: bs => absorb compress (compress state ((b :: bs).take 64)) ((b :: bs).drop 64)
termination_by message.length
decreasing_by simp only [List.length_drop, List.length_cons]; omega

/-- The big-endian bytes of a number. -/
def bigEndian (width n : Nat) : Bytes :=
  (LittleEndian.encode width n).reverse

@[simp] theorem length_bigEndian (width n : Nat) : (bigEndian width n).length = width := by
  simp [bigEndian]

/-- Groups bytes into words of four by the given reading of one word. -/
def words (read : Bytes → Nat) : Bytes → List UInt32
  | a :: b :: c :: d :: rest => UInt32.ofNat (read [a, b, c, d]) :: words read rest
  | _ => []

def bigEndianWords : Bytes → List UInt32 :=
  words fun bs => LittleEndian.decode bs.reverse

def littleEndianWords : Bytes → List UInt32 :=
  words LittleEndian.decode

def rotateLeft (w n : UInt32) : UInt32 :=
  (w <<< n) ||| (w >>> (32 - n))

def rotateRight (w n : UInt32) : UInt32 :=
  (w >>> n) ||| (w <<< (32 - n))

end ScriptLedger.Digest
