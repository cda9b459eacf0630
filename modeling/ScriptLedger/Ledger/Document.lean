import ScriptLedger.Json.Form
import ScriptLedger.Ledger.Block

namespace ScriptLedger

open Json

instance : Form Input where
  document i := .object
    [("prev_tx", Form.document i.prevTx), ("prev_index", Form.document i.prevIndex),
     ("script", bytesDocument i.script), ("sequence", Form.document i.sequence)]
  ofValue? v := do
    match ← v.fields? ["prev_tx", "prev_index", "script", "sequence"] with
    | [some prevTx, some prevIndex, some script, some sequence] =>
      return {
        prevTx := ← Form.ofValue? prevTx
        prevIndex := ← Form.ofValue? prevIndex
        script := ← bytesOfValue? script
        sequence := ← Form.ofValue? sequence }
    | _ => none

instance : Form Output where
  document o := .object
    [("value", Form.document o.value), ("script", bytesDocument o.script)]
  ofValue? v := do
    match ← v.fields? ["value", "script"] with
    | [some value, some script] =>
      return { value := ← Form.ofValue? value, script := ← bytesOfValue? script }
    | _ => none

/-- The block of a transaction; a missing field and null both mean that there is none. -/
def Transaction.blockOfValue? : Option Value → Option (Option Hash256)
  | none => some none
  | some .null => some none
  | some v => (Form.ofValue? v).map some

/-- The field of the block is left out when there is none. -/
instance : Form Transaction where
  document t := .object <|
    [("version", Form.document t.version), ("inputs", Form.document t.inputs),
     ("outputs", Form.document t.outputs), ("lock_time", Form.document t.lockTime),
     ("hash", Form.document t.hash)]
      ++ t.block.toList.map fun hash => ("block", Form.document hash)
  ofValue? v := do
    match ← v.fields? ["version", "inputs", "outputs", "lock_time", "hash", "block"] with
    | [some version, some inputs, some outputs, some lockTime, some hash, block] =>
      return {
        version := ← Form.ofValue? version
        inputs := ← Form.ofValue? inputs
        outputs := ← Form.ofValue? outputs
        lockTime := ← Form.ofValue? lockTime
        hash := ← Form.ofValue? hash
        block := ← Transaction.blockOfValue? block }
    | _ => none

instance : Form Header where
  document h := .object
    [("version", Form.document h.version), ("prev_block", Form.document h.prevBlock),
     ("merkle_root", Form.document h.merkleRoot), ("timestamp", Form.document h.timestamp),
     ("bits", Form.document h.bits), ("nonce", Form.document h.nonce)]
  ofValue? v := do
    match ← v.fields? ["version", "prev_block", "merkle_root", "timestamp", "bits", "nonce"] with
    | [some version, some prevBlock, some merkleRoot, some timestamp, some bits, some nonce] =>
      return {
        version := ← Form.ofValue? version
        prevBlock := ← Form.ofValue? prevBlock
        merkleRoot := ← Form.ofValue? merkleRoot
        timestamp := ← Form.ofValue? timestamp
        bits := ← Form.ofValue? bits
        nonce := ← Form.ofValue? nonce }
    | _ => none

/-- The hashes of a text are taken as they stand. -/
instance : Form Block where
  document b := .object
    [("header", Form.document b.header), ("hash", Form.document b.hash),
     ("transactions", Form.document b.transactions)]
  ofValue? v := do
    match ← v.fields? ["header", "hash", "transactions"] with
    | [some header, some hash, some transactions] =>
      return {
        header := ← Form.ofValue? header
        hash := ← Form.ofValue? hash
        transactions := ← Form.ofValue? transactions }
    | _ => none

end ScriptLedger
