import ScriptLedger.Script.Operation.Basic

namespace ScriptLedger.Script.Operation

open Stack

/-- Pushes the number of bytes of the top item. -/
def pushSize : StackM Unit := do
  pushNumber (← top).length

def runSplice (op : UInt8) : StackM Unit :=
  if op = 0x82 then pushSize else throw (.unrecognizedOpcode op .splice)

end ScriptLedger.Script.Operation
