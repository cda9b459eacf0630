import Mathlib.Control.Monad.Basic
import ScriptLedger.Proofs.Script.Relaxation
import ScriptLedger.Script.Verdict

namespace ScriptLedger

def Failure.isLimitFailure : Failure → Bool
  | .limitExceeded _ => true
  | .stackOverflow _ => true
  | .numberTooLong _ _ => true
  | _ => false

theorem Failure.isLimitFailure_of_isScriptFailure {e : Failure} (h : e.isScriptFailure = true) :
    e.isLimitFailure = false := by
  cases e with
  | scriptInvalid cause => rfl
  | _ => cases h

structure ScriptLimits.Le (limits limits' : ScriptLimits) : Prop where
  scriptSize : limits.scriptSize ≤ limits'.scriptSize
  stackSize : limits.stackSize ≤ limits'.stackSize
  elementSize : limits.elementSize ≤ limits'.elementSize
  operations : limits.operations ≤ limits'.operations
  numberWidth : limits.numberWidth ≤ limits'.numberWidth

instance : LE ScriptLimits := ⟨ScriptLimits.Le⟩

namespace Script

variable {limits limits' : ScriptLimits}

/-- The machine with the given items, bottom first, on its stacks. -/
def Machine.holding (limits : ScriptLimits) (main alt : List Bytes) : Machine :=
  ⟨⟨⟨main.reverse, limits.stackSize⟩, ⟨alt.reverse, limits.stackSize⟩⟩, limits⟩

/-- The machine with its items under other limits, and with room on its stacks for what these
allow. -/
def Machine.withLimits (m : Machine) (limits' : ScriptLimits) : Machine :=
  ⟨m.state.above [] (limits'.stackSize - m.limits.stackSize), limits'⟩

theorem Stack.toList_above_nil (room : Nat) (s : Stack) : (s.above [] room).toList = s.toList := by
  simp only [above, toList, List.append_nil]

theorem Stack.topIsTrue_above_nil (room : Nat) (s : Stack) :
    (s.above [] room).topIsTrue = s.topIsTrue := by
  simp only [above, topIsTrue, List.append_nil]

theorem Machine.withLimits_holding (h : limits ≤ limits') (main alt : List Bytes) :
    (holding limits main alt).withLimits limits' = holding limits' main alt := by
  have hroom : limits.stackSize + (limits'.stackSize - limits.stackSize) = limits'.stackSize :=
    Nat.add_sub_cancel' h.stackSize
  simp only [withLimits, holding, Stacks.above, Stack.above, List.append_nil, hroom]

/-- Limits are there to fail by: no operation goes another way because one of them is near. -/
theorem relaxes_of_le (h : limits ≤ limits') :
    Relaxes limits limits' [] (limits'.stackSize - limits.stackSize)
      fun e => e.isLimitFailure = true where
  ground :=
    { fits := Nat.zero_le _
      overflow := fun _ => rfl
      underflow := fun _ => rfl
      index := fun _ _ => rfl }
  numberWidth := ⟨h.numberWidth, fun _ _ hkept => absurd rfl hkept⟩
  scriptSize := h.scriptSize
  elementSize := h.elementSize
  operations := h.operations
  kept _ hkept := absurd rfl hkept

theorem Machine.run_withLimits {m : Machine} (h : m.limits ≤ limits') (script : Bytes)
    (hresult : ∀ e, (m.run script).outcome = .error e → e.isLimitFailure = false) :
    ((m.withLimits limits').run script).outcome = (m.run script).outcome ∧
      (m.withLimits limits').after ((m.withLimits limits').run script) =
        (m.after (m.run script)).withLimits limits' := by
  have hkept (e : Failure) (he : (m.run script).outcome = .error e) :
      ¬ e.isLimitFailure = true := by
    rw [hresult e he]
    exact Bool.false_ne_true
  obtain ⟨houtcome, hstate⟩ := (relaxes_of_le h).run script (fun _ _ _ => rfl) hkept
  exact ⟨houtcome, congrArg (Machine.mk · limits') hstate⟩

theorem Run.isLimitFailure_of_verdict {r : Run}
    (h : ∀ e, r.verdict = .error e → e.isLimitFailure = false) {e : Failure}
    (he : r.outcome = .error e) : e.isLimitFailure = false := by
  cases hs : e.isScriptFailure with
  | true => exact Failure.isLimitFailure_of_isScriptFailure hs
  | false =>
    apply h
    rw [verdict, he]
    simp only [hs, Bool.false_eq_true, if_false]

theorem Run.verdict_above {r r' : Run} {room : Nat} (houtcome : r'.outcome = r.outcome)
    (hstate : r'.state = r.state.above [] room) : r'.verdict = r.verdict := by
  have htop : r'.state.main.topIsTrue = r.state.main.topIsTrue := by
    rw [hstate]
    exact r.state.main.topIsTrue_above_nil room
  rw [verdict, verdict, houtcome, htop]

theorem verify_of_le (h : limits ≤ limits') (signature publicKey : Bytes)
    (hresult : ∀ e, verify limits signature publicKey = .error e → e.isLimitFailure = false) :
    verify limits' signature publicKey = verify limits signature publicKey := by
  have hnew : (Machine.new limits).withLimits limits' = .new limits' :=
    Machine.withLimits_holding h [] []
  unfold verify runPair at hresult ⊢
  rw [← hnew]
  cases hfirst : ((Machine.new limits).run signature).outcome with
  | error e =>
    simp only [hfirst] at hresult ⊢
    have hm := Machine.run_withLimits (m := .new limits) h signature fun e he =>
      Run.isLimitFailure_of_verdict hresult he
    simp only [hm.1, hfirst]
    exact Run.verdict_above hm.1 (congrArg Machine.state hm.2)
  | ok u =>
    simp only [hfirst] at hresult ⊢
    have hm := Machine.run_withLimits (m := .new limits) h signature fun e he => by
      rw [hfirst] at he
      cases he
    let second := (Machine.new limits).after ((Machine.new limits).run signature)
    have hn := Machine.run_withLimits (m := second) h publicKey fun e he =>
      Run.isLimitFailure_of_verdict hresult he
    simp only [hm.1, hm.2, hfirst]
    exact Run.verdict_above hn.1 (congrArg Machine.state hn.2)

/-- What a script does under limits that it does not meet, it also does under higher ones, and so
does a pair of scripts. -/
theorem execute_of_limits_le (h : limits ≤ limits') :
    (∀ (main alt alt' : List Bytes) (script : Bytes),
      let r := (Machine.holding limits main alt).execute script
      let r' := (Machine.holding limits' main alt').execute script
      (∀ e, r.1 = .error e → e.isLimitFailure = false) →
        r'.1 = r.1 ∧ r'.2.main.toList = r.2.main.toList ∧ r'.2.alt.toList = r.2.alt.toList) ∧
    ∀ signature publicKey : Bytes,
      (∀ e, verify limits signature publicKey = .error e → e.isLimitFailure = false) →
        verify limits' signature publicKey = verify limits signature publicKey := by
  constructor
  case left =>
    intro main alt alt' script r r' hresult
    obtain ⟨houtcome, hafter⟩ :=
      Machine.run_withLimits (m := .holding limits main alt) h script hresult
    rw [Machine.withLimits_holding h] at houtcome hafter
    -- an old alt stack is cleared before a script sees it
    have hr : r' = (r.1, r.2.withLimits limits') := Prod.ext houtcome hafter
    rw [hr]
    exact ⟨rfl, Stack.toList_above_nil _ _, Stack.toList_above_nil _ _⟩
  case right =>
    exact verify_of_le h

def tight : ScriptLimits where
  scriptSize := 5
  stackSize := 3
  elementSize := 2
  operations := 2
  numberWidth := 1

/-- Pushes an item of two bytes, sets it aside and compares the two numbers under it. -/
def comparing : Bytes :=
  [0x02, 0xab, 0xcd, 0x6b, 0x9d]

theorem execute_of_limits_le_tight :
    tight ≤ {} ∧
      let r := (Machine.holding {} [[2], [7]] []).execute comparing
      r.1 = .error (.scriptInvalid (.numEqualVerify 2 7)) ∧ r.2.main.toList = [] ∧
        r.2.alt.toList = [[0xab, 0xcd]] ∧
        verify {} [0x52, 0x53] [0x93, 0x55, 0x87] = .ok true := by
  have hle : tight ≤ {} :=
    ⟨by decide, by decide, by decide, by decide, by decide⟩
  have hrun : (Machine.holding tight [[2], [7]] [[9]]).execute comparing =
      (.error (.scriptInvalid (.numEqualVerify 2 7)),
        ⟨⟨⟨[], 3⟩, ⟨[[0xab, 0xcd]], 3⟩⟩, tight⟩) := by
    decide +kernel
  have hverify : verify tight [0x52, 0x53] [0x93, 0x55, 0x87] = .ok true := by
    decide +kernel
  obtain ⟨hexecute, hjudge⟩ := execute_of_limits_le hle
  have hr := hexecute [[2], [7]] [[9]] [] comparing fun e he => by
    rw [hrun] at he
    cases he
    rfl
  have hv := hjudge [0x52, 0x53] [0x93, 0x55, 0x87] fun e he => by
    rw [hverify] at he
    cases he
  rw [hrun] at hr
  rw [hverify] at hv
  exact ⟨hle, hr.1, hr.2.1, hr.2.2, hv⟩

end Script

end ScriptLedger
