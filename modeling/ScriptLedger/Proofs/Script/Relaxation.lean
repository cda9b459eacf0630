import ScriptLedger.Proofs.Script.Follows
import ScriptLedger.Proofs.Script.Step

namespace ScriptLedger

open Stateful

def Script.Stacks.above (under : List Bytes) (room : Nat) (s : Script.Stacks) : Script.Stacks :=
  ⟨s.main.above under room, s.alt.above [] room⟩

namespace Follows

open Script

variable {under : List Bytes} {room : Nat} {lost : Failure → Prop} {α : Type} {x y : StackM α}

theorem onMain (hx : Follows (Stack.above under room) lost x y) :
    Follows (Stacks.above under room) lost (Script.onMain x) (Script.onMain y) where
  ok h := by
    obtain ⟨t, ht, rfl⟩ := onMain_eq_ok_iff.mp h
    exact onMain_ok (hx.ok ht)
  error h hkept := by
    obtain ⟨t, ht, rfl⟩ := onMain_eq_error_iff.mp h
    exact onMain_error (hx.error ht hkept)

theorem onAlt (hx : Follows (Stack.above [] room) lost x y) :
    Follows (Stacks.above under room) lost (Script.onAlt x) (Script.onAlt y) where
  ok h := by
    obtain ⟨t, ht, rfl⟩ := onAlt_eq_ok_iff.mp h
    exact onAlt_ok (hx.ok ht)
  error h hkept := by
    obtain ⟨t, ht, rfl⟩ := onAlt_eq_error_iff.mp h
    exact onAlt_error (hx.error ht hkept)

end Follows

namespace Script

namespace Ground

variable {under : List Bytes} {room : Nat} {lost : Failure → Prop} {width width' : Nat}
  (h : Ground under room lost)

/-- The depth of the stack is the one thing that items below always change. -/
theorem depth (hunder : under = []) : h.Carries Operation.depth Operation.depth := by
  subst hunder
  have hsize (s : Stack) :
      Operation.depth (s.above [] room) = Stack.pushNumber s.size (s.above [] room) := by
    have hs : (s.above [] room).size = s.size := by
      simp only [Stack.above, Stack.size, List.append_nil]
    rw [Operation.depth, bind_ok (x := get) rfl, hs]
  constructor
  case ok =>
    intro s a t hs
    rw [hsize]
    exact (h.push _).ok hs
  case error =>
    intro s e t hs hkept
    rw [hsize]
    exact (h.push _).error hs hkept

/-- Going on above the ground as on it, as it can be said of operations. Under the alt stack lies
nothing. -/
def judgement (h : Ground under room lost) (hw : Widens lost width width') :
    Judgement width width' where
  one _ x y := h.Carries x y
  both x y := Follows (Stacks.above under room) lost x y
  item _ := True
  allowed _ := True
  item_of_narrow _ := trivial
  item_of_le _ _ := trivial
  pure := .pure
  push _ hf := (h.push _).bind fun _ => hf
  pop _ hf := h.pop.bind fun x => hf x trivial
  peek _ hf := (h.peek _).bind fun x => hf x trivial
  remove _ hf := (h.remove _).bind fun x => hf x trivial
  require hf := (h.require _).bind fun _ => hf
  width_le := hw.le
  tooWide := hw.tooWide
  overflow _ := .throw _
  checkIndex hf := (h.checkIndex _).bind hf
  reject _ := .throw _
  refuse _ := .throw _
  onMain := .onMain
  toAlt := h.pop.onMain.bind fun x => (h.bottom.push x).onAlt
  fromAlt := h.bottom.pop.onAlt.bind fun x => (h.push x).onMain
  answer b hx := hx.seqRight (.pure b)
  refuseBoth _ := .throw _

theorem judgement_pushes (hw : Widens lost width width') {size size' : Nat} (hle : size ≤ size')
    (hsize : ∀ x, ¬ lost (.limitExceeded x) → size = size') :
    (h.judgement hw).Pushes size size' where
  le := hle
  item_of_le _ := trivial
  overlong := by
    intro p hlong _
    constructor
    case ok =>
      intro s a t hs
      cases hs
    case error =>
      intro s e t hs hkept
      cases hs
      rw [← hsize _ hkept, if_pos hlong]
      rfl

end Ground

/-- How the limits and the ground of a run may change without a change in what it does, apart from
the failures that are lost. -/
structure Relaxes (limits limits' : ScriptLimits) (under : List Bytes) (room : Nat)
    (lost : Failure → Prop) : Prop where
  ground : Ground under room lost
  numberWidth : Widens lost limits.numberWidth limits'.numberWidth
  scriptSize : limits.scriptSize ≤ limits'.scriptSize
  elementSize : limits.elementSize ≤ limits'.elementSize
  operations : limits.operations ≤ limits'.operations
  kept : ∀ x, ¬ lost (.limitExceeded x) → limits.scriptSize = limits'.scriptSize ∧
    limits.elementSize = limits'.elementSize ∧ limits.operations = limits'.operations

namespace Relaxes

variable {limits limits' : ScriptLimits} {under : List Bytes} {room : Nat} {lost : Failure → Prop}
  (h : Relaxes limits limits' under room lost)

include h

theorem runInstruction {op : UInt8} (rest : Bytes) (hdepth : op = 0x74 → under = []) :
    Follows (Stacks.above under room) lost (runInstruction limits op rest)
      (Script.runInstruction limits' op rest) := by
  have hsize (x : Excess) (hkept : ¬ lost (.limitExceeded x)) := (h.kept x hkept).2.1
  apply (h.ground.judgement h.numberWidth).runInstruction
  case hpushes => exact h.ground.judgement_pushes h.numberWidth h.elementSize hsize
  case hdepth => exact fun hop => h.ground.depth (hdepth hop)
  case hallowed => exact fun _ _ _ => trivial

/-- Step by step, the run on the ground does what the run below it does. -/
theorem runFrom (position position' operations : Nat) (fetched fetched' : List Fetch)
    (script : Bytes) (state : Stacks)
    (hdepth : ∀ i ∈ (Instruction.split script).instructions, i.opcode = 0x74 → under = [])
    (hkept : ∀ e, (runFrom limits position operations fetched script state).outcome = .error e →
      ¬ lost e) :
    let r := Script.runFrom limits position operations fetched script state
    let r' := Script.runFrom limits' position' operations fetched' script (state.above under room)
    r'.outcome = r.outcome ∧ r'.state = r.state.above under room := by
  -- The two runs stay in step with the split of the script, because an instruction that runs takes
  -- just the bytes of its push.
  fun_induction Script.runFrom limits position operations fetched script state
    generalizing position' fetched' with
  | case1 position operations fetched state =>
    rw [Script.runFrom]
    exact ⟨rfl, rfl⟩
  | case2 position operations fetched state op rest fetched₁ operations₁ hexceeded =>
    obtain ⟨_, _, hsame⟩ := h.kept _ (hkept _ rfl)
    rw [hsame] at hexceeded ⊢
    rw [runFrom_exceeded limits' hexceeded]
    exact ⟨rfl, rfl⟩
  | case3 position operations fetched state op rest fetched₁ operations₁ hwithin e t hs =>
    have hle := h.operations
    have hwithin' : ¬ limits'.operations < countOperation op operations := by omega
    -- An instruction that fails may be cut off and so not be in the split; `OP_DEPTH` never is.
    have hop : op = 0x74 → under = [] := by
      intro hop
      have hc : Opcode.category op ≠ .constant := by
        rw [hop]
        decide
      have hread := read_of_not_constant hc rest
      rw [Instruction.split_cons_ok hread] at hdepth
      exact hdepth _ List.mem_cons_self hop
    have hs' := (h.runInstruction rest hop).error hs (hkept e rfl)
    rw [runFrom_error limits' hwithin' hs']
    exact ⟨rfl, rfl⟩
  | case4 position operations fetched state op rest fetched₁ operations₁ hwithin taken t hs ih =>
    have hle := h.operations
    have hwithin' : ¬ limits'.operations < countOperation op operations := by omega
    obtain ⟨push, hread, htaken⟩ := runInstruction_taken hs
    rw [Instruction.split_cons_ok hread, ← htaken] at hdepth
    have hs' := (h.runInstruction rest (hdepth ⟨op, push⟩ List.mem_cons_self)).ok hs
    rw [runFrom_ok limits' hwithin' hs']
    exact ih _ _ (fun i hi => hdepth i (List.mem_cons_of_mem _ hi)) hkept

omit h in
theorem run {m : Machine} (h : Relaxes m.limits limits' under room lost) (script : Bytes)
    (hdepth : ∀ i ∈ (Instruction.split script).instructions, i.opcode = 0x74 → under = [])
    (hkept : ∀ e, (m.run script).outcome = .error e → ¬ lost e) :
    let r := m.run script
    let r' := Machine.run ⟨m.state.above under room, limits'⟩ script
    r'.outcome = r.outcome ∧ r'.state = r.state.above under room := by
  unfold Machine.run at hkept ⊢
  by_cases hsize : m.limits.scriptSize < script.length
  case pos =>
    simp only [hsize, if_true] at hkept ⊢
    obtain ⟨hsame, _, _⟩ := h.kept _ (hkept _ rfl)
    rw [← hsame, if_pos hsize]
    exact ⟨rfl, rfl⟩
  case neg =>
    have hle := h.scriptSize
    have hsize' : ¬ limits'.scriptSize < script.length := by omega
    simp only [hsize, hsize', if_false] at hkept ⊢
    exact h.runFrom 0 0 0 [] [] script _ hdepth hkept

end Relaxes

end Script

end ScriptLedger
