import ScriptLedger.Settings.Validation
import ScriptLedger.Stateful

namespace ScriptLedger

/-- The texts of the variables that are set. -/
abbrev Environment := String → Option String

/-- The environment of the given variables; one whose bytes are no text counts as not set. -/
def Environment.ofBytes (assignments : List (String × Bytes)) : Environment := fun name =>
  (assignments.lookup name).bind Bytes.toText?

/-- A computation that changes settings; what it changed before a failure stays changed. -/
abbrev SettingsM := Stateful Settings

namespace Settings

/-- The name of the variable that overrides a limit. -/
def variableName (start : String) (l : Limit) : String :=
  start ++ "_" ++ l.variableEnd

/-- Overrides one limit by its variable, if that is set; blanks around the number do not matter. -/
def overrideLimit (start : String) (environment : Environment) (l : Limit) : SettingsM Unit := do
  let name := variableName start l
  match environment name with
  | none => pure ()
  | some text =>
    match Text.Decimal.parse (Text.trim text.toList) with
    | .ok n => modify fun s => s.set n l
    | .error e => throw (.badSetting (.badVariable name text e))

def overrideAll (start : String) (environment : Environment) : List Limit → SettingsM Unit
  | [] => pure ()
  | l :: rest => do
    overrideLimit start environment l
    overrideAll start environment rest

/-- Overrides the limits in their order and checks the result. -/
def override (start : String) (environment : Environment) : SettingsM Unit := do
  overrideAll start environment Limit.all
  ofExcept (check (← getThe Settings))

end Settings

end ScriptLedger
