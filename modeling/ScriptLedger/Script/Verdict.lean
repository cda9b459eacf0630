import ScriptLedger.Script.Machine

namespace ScriptLedger.Script

/-- Runs a signature script and, if it ends well, a public key script on the main stack that it
left; the runs are listed in order. -/
def runPair (limits : ScriptLimits) (signature publicKey : Bytes) : Run × List Fetch :=
  let m := Machine.new limits
  let first := m.run signature
  match first.outcome with
  | .error _ => (first, first.fetches)
  | .ok () =>
    let second := (m.after first).run publicKey
    (second, first.fetches ++ second.fetches)

/-- How a pair of scripts is judged by its last run: the top item decides if both ended well, a
script that says no is a plain refusal, and any other failure is passed on. -/
def Run.verdict (r : Run) : Except Failure Bool :=
  match r.outcome with
  | .ok () => .ok r.state.main.topIsTrue
  | .error e => if e.isScriptFailure then .ok false else .error e

def verify (limits : ScriptLimits) (signature publicKey : Bytes) : Except Failure Bool :=
  (runPair limits signature publicKey).1.verdict

end ScriptLedger.Script
