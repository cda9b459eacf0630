import ScriptLedger.Bytes.Hex
import ScriptLedger.Script.Category

namespace ScriptLedger.Script.Opcode

/-- The name and the category of one byte value. -/
structure Entry where
  code : UInt8
  name : String
  category : Category
  deriving DecidableEq, Repr

/-- The named byte values in ascending order. -/
def table : List Entry :=
  [⟨0x00, "OP_0", .constant⟩, ⟨0x4c, "OP_PUSHDATA1", .constant⟩,
   ⟨0x4d, "OP_PUSHDATA2", .constant⟩, ⟨0x4e, "OP_PUSHDATA4", .constant⟩,
   ⟨0x4f, "OP_1NEGATE", .constant⟩, ⟨0x50, "OP_RESERVED", .reserved⟩, ⟨0x51, "OP_1", .constant⟩,
   ⟨0x52, "OP_2", .constant⟩, ⟨0x53, "OP_3", .constant⟩, ⟨0x54, "OP_4", .constant⟩,
   ⟨0x55, "OP_5", .constant⟩, ⟨0x56, "OP_6", .constant⟩, ⟨0x57, "OP_7", .constant⟩,
   ⟨0x58, "OP_8", .constant⟩, ⟨0x59, "OP_9", .constant⟩, ⟨0x5a, "OP_10", .constant⟩,
   ⟨0x5b, "OP_11", .constant⟩, ⟨0x5c, "OP_12", .constant⟩, ⟨0x5d, "OP_13", .constant⟩,
   ⟨0x5e, "OP_14", .constant⟩, ⟨0x5f, "OP_15", .constant⟩, ⟨0x60, "OP_16", .constant⟩,
   ⟨0x61, "OP_NOP", .flow⟩, ⟨0x62, "OP_VER", .reserved⟩, ⟨0x63, "OP_IF", .unimplemented⟩,
   ⟨0x64, "OP_NOTIF", .unimplemented⟩, ⟨0x65, "OP_VERIF", .unimplemented⟩,
   ⟨0x66, "OP_VERNOTIF", .unimplemented⟩, ⟨0x67, "OP_ELSE", .unimplemented⟩,
   ⟨0x68, "OP_ENDIF", .unimplemented⟩, ⟨0x69, "OP_VERIFY", .flow⟩, ⟨0x6a, "OP_RETURN", .flow⟩,
   ⟨0x6b, "OP_TOALTSTACK", .stack⟩, ⟨0x6c, "OP_FROMALTSTACK", .stack⟩, ⟨0x6d, "OP_2DROP", .stack⟩,
   ⟨0x6e, "OP_2DUP", .stack⟩, ⟨0x6f, "OP_3DUP", .stack⟩, ⟨0x70, "OP_2OVER", .stack⟩,
   ⟨0x71, "OP_2ROT", .stack⟩, ⟨0x72, "OP_2SWAP", .stack⟩, ⟨0x73, "OP_IFDUP", .stack⟩,
   ⟨0x74, "OP_DEPTH", .stack⟩, ⟨0x75, "OP_DROP", .stack⟩, ⟨0x76, "OP_DUP", .stack⟩,
   ⟨0x77, "OP_NIP", .stack⟩, ⟨0x78, "OP_OVER", .stack⟩, ⟨0x79, "OP_PICK", .stack⟩,
   ⟨0x7a, "OP_ROLL", .stack⟩, ⟨0x7b, "OP_ROT", .stack⟩, ⟨0x7c, "OP_SWAP", .stack⟩,
   ⟨0x7d, "OP_TUCK", .stack⟩, ⟨0x7e, "OP_CAT", .disabled⟩, ⟨0x7f, "OP_SUBSTR", .disabled⟩,
   ⟨0x80, "OP_LEFT", .disabled⟩, ⟨0x81, "OP_RIGHT", .disabled⟩, ⟨0x82, "OP_SIZE", .splice⟩,
   ⟨0x83, "OP_INVERT", .disabled⟩, ⟨0x84, "OP_AND", .disabled⟩, ⟨0x85, "OP_OR", .disabled⟩,
   ⟨0x86, "OP_XOR", .disabled⟩, ⟨0x87, "OP_EQUAL", .bitwise⟩, ⟨0x88, "OP_EQUALVERIFY", .bitwise⟩,
   ⟨0x89, "OP_RESERVED1", .reserved⟩, ⟨0x8a, "OP_RESERVED2", .reserved⟩,
   ⟨0x8b, "OP_1ADD", .arithmetic⟩, ⟨0x8c, "OP_1SUB", .arithmetic⟩, ⟨0x8d, "OP_2MUL", .disabled⟩,
   ⟨0x8e, "OP_2DIV", .disabled⟩, ⟨0x8f, "OP_NEGATE", .arithmetic⟩, ⟨0x90, "OP_ABS", .arithmetic⟩,
   ⟨0x91, "OP_NOT", .arithmetic⟩, ⟨0x92, "OP_0NOTEQUAL", .arithmetic⟩,
   ⟨0x93, "OP_ADD", .arithmetic⟩, ⟨0x94, "OP_SUB", .arithmetic⟩, ⟨0x95, "OP_MUL", .disabled⟩,
   ⟨0x96, "OP_DIV", .disabled⟩, ⟨0x97, "OP_MOD", .disabled⟩, ⟨0x98, "OP_LSHIFT", .disabled⟩,
   ⟨0x99, "OP_RSHIFT", .disabled⟩, ⟨0x9a, "OP_BOOLAND", .arithmetic⟩,
   ⟨0x9b, "OP_BOOLOR", .arithmetic⟩, ⟨0x9c, "OP_NUMEQUAL", .arithmetic⟩,
   ⟨0x9d, "OP_NUMEQUALVERIFY", .arithmetic⟩, ⟨0x9e, "OP_NUMNOTEQUAL", .arithmetic⟩,
   ⟨0x9f, "OP_LESSTHAN", .arithmetic⟩, ⟨0xa0, "OP_GREATERTHAN", .arithmetic⟩,
   ⟨0xa1, "OP_LESSTHANOREQUAL", .arithmetic⟩, ⟨0xa2, "OP_GREATERTHANOREQUAL", .arithmetic⟩,
   ⟨0xa3, "OP_MIN", .arithmetic⟩, ⟨0xa4, "OP_MAX", .arithmetic⟩, ⟨0xa5, "OP_WITHIN", .arithmetic⟩,
   ⟨0xa6, "OP_RIPEMD160", .crypto⟩, ⟨0xa7, "OP_SHA1", .crypto⟩, ⟨0xa8, "OP_SHA256", .crypto⟩,
   ⟨0xa9, "OP_HASH160", .crypto⟩, ⟨0xaa, "OP_HASH256", .crypto⟩,
   ⟨0xab, "OP_CODESEPARATOR", .crypto⟩, ⟨0xac, "OP_CHECKSIG", .unimplemented⟩,
   ⟨0xad, "OP_CHECKSIGVERIFY", .unimplemented⟩, ⟨0xae, "OP_CHECKMULTISIG", .unimplemented⟩,
   ⟨0xaf, "OP_CHECKMULTISIGVERIFY", .unimplemented⟩, ⟨0xb0, "OP_NOP1", .flow⟩,
   ⟨0xb1, "OP_CHECKLOCKTIMEVERIFY", .unimplemented⟩,
   ⟨0xb2, "OP_CHECKSEQUENCEVERIFY", .unimplemented⟩, ⟨0xb3, "OP_NOP4", .flow⟩,
   ⟨0xb4, "OP_NOP5", .flow⟩, ⟨0xb5, "OP_NOP6", .flow⟩, ⟨0xb6, "OP_NOP7", .flow⟩,
   ⟨0xb7, "OP_NOP8", .flow⟩, ⟨0xb8, "OP_NOP9", .flow⟩, ⟨0xb9, "OP_NOP10", .flow⟩,
   ⟨0xfa, "OP_SMALLINTEGER", .reserved⟩, ⟨0xfb, "OP_PUBKEYS", .reserved⟩,
   ⟨0xfd, "OP_PUBKEYHASH", .reserved⟩, ⟨0xfe, "OP_PUBKEY", .reserved⟩,
   ⟨0xff, "OP_INVALIDOPCODE", .reserved⟩]

def find? (op : UInt8) : Option Entry :=
  table.find? (·.code == op)

def name? (op : UInt8) : Option String :=
  (find? op).map (·.name)

/-- The bytes that push as many bytes as their own value. -/
def isDirectPush (op : UInt8) : Bool :=
  1 ≤ op && op ≤ 0x4b

/-- A byte without a name is a direct push or unassigned. -/
def category (op : UInt8) : Category :=
  match find? op with
  | some e => e.category
  | none => if isDirectPush op then .constant else .unassigned

/-- The name of a byte, or its value in hexadecimal. -/
def display (op : UInt8) : String :=
  (name? op).getD ("0x" ++ Hex.encode [op])

/-- The bytes that do not count as operations. -/
def isPush (op : UInt8) : Bool :=
  op ≤ 0x60

theorem code_of_find? {op : UInt8} {e : Entry} (h : find? op = some e) : e.code = op := by
  simpa using List.find?_some h

end ScriptLedger.Script.Opcode
