import Mathlib.Control.Monad.Basic
import ScriptLedger.Proofs.Script.Step
import ScriptLedger.Script.Verdict

namespace ScriptLedger.Script

def Opcode.operations (ops : List UInt8) : Nat :=
  ops.countP fun op => !isPush op

def Split.operations (s : Split) : Nat :=
  Opcode.operations (s.instructions.map (·.opcode))

def Run.operations (r : Run) : Nat :=
  Opcode.operations (r.fetches.map (·.opcode))

theorem Opcode.operations_cons (op : UInt8) (ops : List UInt8) (n : Nat) :
    countOperation op n + operations ops = n + operations (op :: ops) := by
  unfold operations countOperation
  rw [List.countP_cons]
  cases isPush op with
  | true => rfl
  | false =>
    simp only [Bool.false_eq_true, if_false, Bool.not_false, if_true]
    omega

theorem Instruction.whole_cons {op : UInt8} {rest : Bytes}
    (h : (split (op :: rest)).failure = none) :
    ∃ push, Push.read? op rest = .ok push ∧
      (split (rest.drop (dataSize ⟨op, push⟩))).failure = none := by
  cases hread : Push.read? op rest with
  | error e =>
    rw [split_cons_error hread] at h
    cases h
  | ok push =>
    rw [split_cons_ok hread] at h
    exact ⟨push, rfl, h⟩

/-- A run of whole instructions does not look behind them: it fails as it would without what
follows, or it comes to what follows. -/
theorem runFrom_append_of_whole (limits : ScriptLimits) (position operations : Nat)
    (fetched : List Fetch) {script : Bytes} (state : Stacks)
    (hw : (Instruction.split script).failure = none) (more : Bytes) :
    let r := runFrom limits position operations fetched script state
    runFrom limits position operations fetched (script ++ more) state =
      match r.outcome with
      | .error _ => r
      | .ok () =>
        runFrom limits (position + script.length)
          (operations + (Instruction.split script).operations)
          r.fetches.reverse more r.state := by
  fun_induction runFrom limits position operations fetched script state with
  | case1 position operations fetched state =>
    rw [Instruction.split_nil]
    simp only [List.reverse_reverse]
    rfl
  | case2 position operations fetched state op rest fetched₁ operations₁ hexceeded =>
    exact runFrom_exceeded limits hexceeded
  | case3 position operations fetched state op rest fetched₁ operations₁ hwithin e t hs =>
    obtain ⟨push, hread, _⟩ := Instruction.whole_cons hw
    rw [← runInstruction_append hread more] at hs
    exact runFrom_error limits hwithin hs
  | case4 position operations fetched state op rest fetched₁ operations₁ hwithin taken t hs ih =>
    obtain ⟨push, hread, htaken⟩ := runInstruction_taken hs
    -- The push lies within the whole part, so the same bytes are dropped in front of `more`.
    have hle := (Push.found_of_read hread).size_le
    rw [← htaken] at hle
    rw [Instruction.split_cons_ok hread, ← htaken] at hw ⊢
    have hposition : position + 1 + taken + (rest.drop taken).length =
        position + (op :: rest).length := by
      rw [List.length_drop, List.length_cons]
      omega
    have hcount := Opcode.operations_cons op
      ((Instruction.split (rest.drop taken)).instructions.map (·.opcode)) operations
    rw [← runInstruction_append hread more] at hs
    rw [List.cons_append, runFrom_ok limits hwithin hs, List.drop_append_of_le_length hle, ih hw,
      hposition]
    simp only [Split.operations, List.map_cons, ← hcount, operations₁]

theorem countOperation_add (op : UInt8) (before n : Nat) :
    countOperation op (before + n) = before + countOperation op n := by
  unfold countOperation
  split
  · rfl
  · rfl

theorem Run.operations_reverse (outcome : Except Failure Unit) (state : Stacks)
    (fetched : List Fetch) :
    Run.operations ⟨outcome, state, fetched.reverse⟩ =
      Opcode.operations (fetched.map (·.opcode)) := by
  unfold operations Opcode.operations
  rw [List.map_reverse, List.countP_reverse]

theorem operations_le_runFrom (limits : ScriptLimits) (position operations : Nat)
    (fetched : List Fetch) (script : Bytes) (state : Stacks) :
    Opcode.operations (fetched.map (·.opcode)) ≤
      (runFrom limits position operations fetched script state).operations := by
  have h := runFrom_append limits position operations fetched [] script state
  rw [List.nil_append] at h
  rw [h]
  unfold Run.operations Opcode.operations
  rw [List.map_append, List.countP_append, List.map_reverse, List.countP_reverse]
  exact Nat.le_add_right _ _

theorem runFrom_of_room (limits : ScriptLimits) (before position position' operations : Nat)
    (fetched fetched' : List Fetch) (script : Bytes) (state : Stacks)
    (hroom : before + operations +
      (runFrom limits position operations fetched script state).operations ≤
        limits.operations + Opcode.operations (fetched.map (·.opcode))) :
    let r := runFrom limits position operations fetched script state
    let r' := runFrom limits position' (before + operations) fetched' script state
    r'.outcome = r.outcome ∧ r'.state = r.state := by
  -- `operations` and what `fetched` holds grow together, so the room is the same at every step.
  fun_induction runFrom limits position operations fetched script state
    generalizing position' fetched' with
  | case1 position operations fetched state =>
    rw [runFrom]
    exact ⟨rfl, rfl⟩
  | case2 position operations fetched state op rest fetched₁ operations₁ hexceeded =>
    have hcount : operations₁ + Opcode.operations (fetched.map (·.opcode)) =
        operations + Opcode.operations (fetched₁.map (·.opcode)) :=
      Opcode.operations_cons op _ operations
    rw [Run.operations_reverse] at hroom
    omega
  | case3 position operations fetched state op rest fetched₁ operations₁ hwithin e t hs =>
    have hcount : operations₁ + Opcode.operations (fetched.map (·.opcode)) =
        operations + Opcode.operations (fetched₁.map (·.opcode)) :=
      Opcode.operations_cons op _ operations
    rw [Run.operations_reverse] at hroom
    have hwithin' : ¬ limits.operations < before + operations₁ := by omega
    rw [← countOperation_add] at hwithin'
    rw [runFrom_error limits hwithin' hs]
    exact ⟨rfl, rfl⟩
  | case4 position operations fetched state op rest fetched₁ operations₁ hwithin taken t hs ih =>
    have hcount : operations₁ + Opcode.operations (fetched.map (·.opcode)) =
        operations + Opcode.operations (fetched₁.map (·.opcode)) :=
      Opcode.operations_cons op _ operations
    have hle := operations_le_runFrom limits (position + 1 + taken) operations₁ fetched₁
      (rest.drop taken) t
    have hwithin' : ¬ limits.operations < before + operations₁ := by omega
    rw [← countOperation_add] at hwithin'
    rw [runFrom_ok limits hwithin' hs, countOperation_add]
    apply ih
    omega

namespace Machine

variable {m : Machine} {s₁ s₂ : Bytes}

/-- What a first script must leave for a second to go on as if both were one: nothing on the alt
stack, and as many operations as the second starts. -/
structure Joins (m : Machine) (s₁ s₂ : Bytes) : Prop where
  alt : (m.execute s₁).2.alt.items = []
  operations : (Instruction.split s₁).operations + ((m.execute s₁).2.run s₂).operations ≤
    m.limits.operations

theorem run_of_size {script : Bytes} (h : script.length ≤ m.limits.scriptSize) :
    m.run script = runFrom m.limits 0 0 [] script { m.state with alt := m.alt.cleared } := by
  unfold run
  exact if_neg (Nat.not_lt.mpr h)

theorem run_append_of_error (hw : (Instruction.split s₁).failure = none)
    (hsize : (s₁ ++ s₂).length ≤ m.limits.scriptSize) {e : Failure}
    (he : (m.run s₁).outcome = .error e) : m.run (s₁ ++ s₂) = m.run s₁ := by
  have hsize₁ : s₁.length ≤ m.limits.scriptSize := by
    rw [List.length_append] at hsize
    omega
  rw [run_of_size hsize₁] at he ⊢
  rw [run_of_size hsize, runFrom_append_of_whole _ _ _ _ _ hw]
  simp only [he]

theorem run_append_of_ok (hw : (Instruction.split s₁).failure = none)
    (hsize : (s₁ ++ s₂).length ≤ m.limits.scriptSize) (hok : (m.run s₁).outcome = .ok ())
    (hj : m.Joins s₁ s₂) :
    (m.run (s₁ ++ s₂)).outcome = ((m.after (m.run s₁)).run s₂).outcome ∧
      (m.run (s₁ ++ s₂)).state = ((m.after (m.run s₁)).run s₂).state := by
  rw [List.length_append] at hsize
  have hsize₁ : s₁.length ≤ m.limits.scriptSize := by omega
  have hsize₂ : s₂.length ≤ (m.after (m.run s₁)).limits.scriptSize := by
    change s₂.length ≤ m.limits.scriptSize
    omega
  have halt : { (m.run s₁).state with alt := (m.run s₁).state.alt.cleared } = (m.run s₁).state := by
    have hitems : (m.run s₁).state.alt.items = [] := hj.alt
    unfold Stack.cleared
    rw [← hitems]
  have hsecond : (m.after (m.run s₁)).run s₂ = runFrom m.limits 0 0 [] s₂ (m.run s₁).state := by
    rw [run_of_size hsize₂]
    exact congrArg (runFrom m.limits 0 0 [] s₂) halt
  have hroom := hj.operations
  change _ + ((m.after (m.run s₁)).run s₂).operations ≤ _ at hroom
  rw [hsecond] at hroom ⊢
  have hwhole := runFrom_append_of_whole m.limits 0 0 []
    { m.state with alt := m.alt.cleared } hw s₂
  rw [← run_of_size hsize₁, ← run_of_size (by rw [List.length_append]; exact hsize)] at hwhole
  rw [hwhole]
  simp only [hok]
  rw [Nat.zero_add (Split.operations _)]
  exact runFrom_of_room m.limits (Instruction.split s₁).operations 0 (0 + s₁.length) 0 [] _ s₂ _
    hroom

end Machine

/-- A script may be cut behind a whole instruction: up to the cut it fails as it would alone, and
if it gets there with an empty alt stack and enough operations left, the rest runs as a script of
its own. -/
theorem execute_append (m : Machine) (s₁ s₂ : Bytes) (hw : (Instruction.split s₁).failure = none)
    (hsize : (s₁ ++ s₂).length ≤ m.limits.scriptSize) :
    (∀ e, (m.execute s₁).1 = .error e → m.execute (s₁ ++ s₂) = m.execute s₁) ∧
    ((m.execute s₁).1 = .ok () → m.Joins s₁ s₂ →
      m.execute (s₁ ++ s₂) = (m.execute s₁).2.execute s₂) ∧
    (m = .new m.limits → ((m.execute s₁).1 = .ok () → m.Joins s₁ s₂) →
      verify m.limits s₁ s₂ = (m.run (s₁ ++ s₂)).verdict) := by
  constructor
  case left =>
    intro e he
    unfold Machine.execute
    rw [Machine.run_append_of_error hw hsize he]
  constructor
  case left =>
    intro hok hj
    obtain ⟨houtcome, hstate⟩ := Machine.run_append_of_ok hw hsize hok hj
    exact Prod.ext houtcome (congrArg (Machine.mk · m.limits) hstate)
  case right =>
    intro hm hj
    unfold verify runPair
    rw [← hm]
    cases hr : (m.run s₁).outcome with
    | error e =>
      simp only [hr]
      rw [Machine.run_append_of_error hw hsize hr]
    | ok u =>
      obtain ⟨houtcome, hstate⟩ := Machine.run_append_of_ok hw hsize hr (hj hr)
      simp only [hr]
      unfold Run.verdict
      rw [houtcome, hstate]

def spareLimits : ScriptLimits :=
  { scriptSize := 5, operations := 2 }

def addition : Bytes :=
  [0x52, 0x53, 0x93]

def comparison : Bytes :=
  [0x55, 0x87]

theorem execute_append_addition :
    (Instruction.split addition).failure = none ∧
      (Machine.new spareLimits).Joins addition comparison ∧
      (Machine.new spareLimits).execute (addition ++ comparison) =
        ((Machine.new spareLimits).execute addition).2.execute comparison ∧
      verify spareLimits addition comparison =
        ((Machine.new spareLimits).run (addition ++ comparison)).verdict ∧
      verify spareLimits addition comparison = .ok true := by
  have hw : (Instruction.split addition).failure = none := by
    decide +kernel
  have hok : ((Machine.new spareLimits).execute addition).1 = .ok () := by
    decide +kernel
  have hj : (Machine.new spareLimits).Joins addition comparison :=
    ⟨by decide +kernel, by decide +kernel⟩
  obtain ⟨_, hsecond, hverify⟩ := execute_append (.new spareLimits) addition comparison hw (by decide)
  exact ⟨hw, hj, hsecond hok hj, hverify rfl fun _ => hj, by decide +kernel⟩

end ScriptLedger.Script
