import ScriptLedger.Script.Number
import ScriptLedger.Settings.Limits

namespace ScriptLedger.Settings

/-- The largest record size that the length field of a frame can hold. -/
def widestRecord : Nat := 4294967295

/-- Refuses limits that nothing can honour: a zero, by the order of the limits, then numbers wider
than can be read, then records too large to announce. -/
def check (s : Settings) : Except Failure Unit :=
  match Limit.all.find? fun l => s.get l == 0 with
  | some l => .error (.badSetting (.zero l.key))
  | none =>
    if Script.Number.maxWidth < s.script.numberWidth then
      .error (.badSetting (.numberTooWide s.script.numberWidth Script.Number.maxWidth))
    else if widestRecord < s.recordSize then .error (.badSetting (.recordTooWide s.recordSize))
    else .ok ()

end ScriptLedger.Settings
