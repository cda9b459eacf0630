import ScriptLedger.Ledger.Transaction

namespace ScriptLedger.Transaction

/-- A change to a transaction. Only `refreshHash` touches the stored identifier. -/
inductive Edit where
  | setVersion (version : UInt32)
  | setLockTime (lockTime : UInt32)
  | setBlock (block : Option Hash256)
  | pushInput (i : Input)
  | popInput
  | pushOutput (o : Output)
  | popOutput
  | refreshHash
  deriving DecidableEq, Repr

def edit (t : Transaction) : Edit → Transaction
  | .setVersion version => { t with version }
  | .setLockTime lockTime => { t with lockTime }
  | .setBlock block => { t with block }
  | .pushInput i => { t with inputs := t.inputs ++ [i] }
  | .popInput => { t with inputs := t.inputs.dropLast }
  | .pushOutput o => { t with outputs := t.outputs ++ [o] }
  | .popOutput => { t with outputs := t.outputs.dropLast }
  | .refreshHash => t.refreshHash

end ScriptLedger.Transaction
