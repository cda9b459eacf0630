import ScriptLedger.Proofs.Script.Keeps

namespace ScriptLedger

open Stateful

/-- Two stacks of one capacity, neither of them above it, without an item wider than `width`. -/
structure Script.Stacks.Bounded (capacity width : Nat) (s : Script.Stacks) : Prop where
  main : s.main.Bounded capacity width
  alt : s.alt.Bounded capacity width

namespace Keeps

open Script

variable {capacity width : Nat} {α : Type} {x : StackM α} {result : α → Prop}

theorem onMain (h : Keeps (Stack.Bounded capacity width) x result) :
    Keeps (Stacks.Bounded capacity width) (Script.onMain x) result where
  ok hs hx := by
    obtain ⟨t, ht, rfl⟩ := onMain_eq_ok_iff.mp hx
    obtain ⟨hbounded, hresult⟩ := h.ok hs.main ht
    exact ⟨⟨hbounded, hs.alt⟩, hresult⟩
  error hs hx := by
    obtain ⟨t, ht, rfl⟩ := onMain_eq_error_iff.mp hx
    exact ⟨h.error hs.main ht, hs.alt⟩

theorem onAlt (h : Keeps (Stack.Bounded capacity width) x result) :
    Keeps (Stacks.Bounded capacity width) (Script.onAlt x) result where
  ok hs hx := by
    obtain ⟨t, ht, rfl⟩ := onAlt_eq_ok_iff.mp hx
    obtain ⟨hbounded, hresult⟩ := h.ok hs.alt ht
    exact ⟨⟨hs.main, hbounded⟩, hresult⟩
  error hs hx := by
    obtain ⟨t, ht, rfl⟩ := onAlt_eq_error_iff.mp hx
    exact ⟨hs.main, h.error hs.alt ht⟩

end Keeps

namespace Script.Stack.Bounded

variable {capacity width : Nat}

theorem depth (hcapacity : capacity < 2 ^ 64) (hwidth : 32 ≤ width) :
    Keeps (Bounded capacity width) Operation.depth fun _ => True := by
  apply Keeps.get.bind
  intro s hs
  have hsize := hs.size_le
  have hlength : (Number.encode s.size).length ≤ 9 :=
    Number.length_encode_le (by rw [Int.natAbs_natCast]; omega)
  exact push (by omega)

/-- Keeping the stacks bounded, as it can be said of operations. -/
def judgement (capacity : Nat) {width : Nat} (hwidth : 32 ≤ width) (limit : Nat) :
    Judgement limit limit where
  one _ x _ := Keeps (Bounded capacity width) x fun _ => True
  both x _ := Keeps (Stacks.Bounded capacity width) x fun _ => True
  item x := x.length ≤ width
  allowed _ := True
  item_of_narrow h := Nat.le_trans h hwidth
  item_of_le := Nat.le_trans
  pure _ := .pure trivial
  push h hf := (push h).bind fun _ _ => hf
  pop _ hf := pop.bind hf
  peek _ hf := (peek _).bind hf
  remove _ hf := (remove _).bind hf
  require hf := (require _).bind fun _ _ => hf
  width_le := Nat.le_refl limit
  tooWide _ := .throw _
  overflow _ := .throw _
  checkIndex hf := (checkIndex _).bind fun i _ => hf i
  reject _ := .throw _
  refuse _ := .throw _
  onMain h := h.onMain
  toAlt := pop.onMain.bind fun _ h => (push h).onAlt
  fromAlt := pop.onAlt.bind fun _ h => (push h).onMain
  answer _ h := h.seqRight (.pure trivial)
  refuseBoth _ := .throw _

theorem judgement_pushes (capacity : Nat) {width : Nat} (hwidth : 32 ≤ width) (limit : Nat)
    {size : Nat} (h : size ≤ width) : (judgement capacity hwidth limit).Pushes size size where
  le := Nat.le_refl size
  item_of_le hx := Nat.le_trans hx h
  overlong _ _ := Keeps.throw _

end Script.Stack.Bounded

/-- The width of the widest item that a script can make: a push or a digest. -/
def ScriptLimits.itemWidth (limits : ScriptLimits) : Nat :=
  max limits.elementSize 32

namespace Script

variable {limits : ScriptLimits}

abbrev Stacks.Within (limits : ScriptLimits) (s : Stacks) : Prop :=
  s.Bounded limits.stackSize limits.itemWidth

theorem runInstruction_keeps (h : limits.stackSize < 2 ^ 64) (op : UInt8) (rest : Bytes) :
    Keeps (Stacks.Within limits) (runInstruction limits op rest) fun _ => True := by
  have hwidth : 32 ≤ limits.itemWidth := Nat.le_max_right _ _
  let J := Stack.Bounded.judgement limits.stackSize hwidth limits.numberWidth
  have hpushes : J.Pushes limits.elementSize limits.elementSize :=
    Stack.Bounded.judgement_pushes _ hwidth _ (Nat.le_max_left _ _)
  exact J.runInstruction hpushes (fun _ => Stack.Bounded.depth h hwidth) fun _ _ _ => trivial

theorem runFrom_within (h : limits.stackSize < 2 ^ 64) (position operations : Nat)
    (fetched : List Fetch) (script : Bytes) {state : Stacks} (hs : state.Within limits) :
    (runFrom limits position operations fetched script state).state.Within limits := by
  fun_induction runFrom limits position operations fetched script state with
  | case1 => exact hs
  | case2 => exact hs
  | case3 position operations fetched state op rest fetched₁ operations₁ _ e t hx =>
    exact (runInstruction_keeps h op rest).error hs hx
  | case4 position operations fetched state op rest fetched₁ operations₁ _ taken t hx ih =>
    exact ih ((runInstruction_keeps h op rest).ok hs hx).1

namespace Machine

inductive Call where
  | execute (script : Bytes)
  | reset
  deriving DecidableEq, Repr

def call (m : Machine) : Call → Machine
  | .execute script => (m.execute script).2
  | .reset => m.reset

def callAll (m : Machine) (calls : List Call) : Machine :=
  calls.foldl call m

structure Within (limits : ScriptLimits) (m : Machine) : Prop where
  limits_eq : m.limits = limits
  state : m.state.Within limits

theorem Within.new (limits : ScriptLimits) : (Machine.new limits).Within limits where
  limits_eq := rfl
  state :=
    { main := ⟨rfl, Nat.zero_le _, List.forall_mem_nil _⟩
      alt := ⟨rfl, Nat.zero_le _, List.forall_mem_nil _⟩ }

theorem Within.call {m : Machine} (hm : m.Within limits) (h : limits.stackSize < 2 ^ 64)
    (c : Call) : (m.call c).Within limits := by
  obtain ⟨rfl, hs⟩ := hm
  cases c with
  | execute script =>
    refine ⟨rfl, ?_⟩
    change (m.run script).state.Within m.limits
    unfold run
    split
    · exact ⟨hs.main, hs.alt.cleared⟩
    · exact runFrom_within h 0 0 [] script ⟨hs.main, hs.alt.cleared⟩
  | reset => exact ⟨rfl, hs.main.cleared, hs.alt.cleared⟩

theorem Within.callAll {m : Machine} (hm : m.Within limits) (h : limits.stackSize < 2 ^ 64)
    (calls : List Call) : (m.callAll calls).Within limits := by
  induction calls generalizing m with
  | nil => exact hm
  | cons c calls ih => exact ih (hm.call h c)

end Machine

/-- Whatever scripts do to a machine, and however they fail, no stack outgrows its capacity and no
item the widest push or digest. The capacity is a word of the machine, as all limits are: the
number of a depth beyond that might be wider than a digest. -/
theorem size_le_of_callAll (limits : ScriptLimits) (h : limits.stackSize < 2 ^ 64)
    (calls : List Machine.Call) :
    let m := (Machine.new limits).callAll calls
    m.main.size ≤ limits.stackSize ∧ m.alt.size ≤ limits.stackSize ∧
      ∀ item ∈ m.main.toList ++ m.alt.toList, item.length ≤ max limits.elementSize 32 := by
  intro m
  obtain ⟨_, hmain, halt⟩ := (Machine.Within.new limits).callAll h calls
  refine ⟨hmain.size_le, halt.size_le, fun item hitem => ?_⟩
  obtain hitem | hitem := List.mem_append.mp hitem
  · exact hmain.length_le item (List.mem_reverse.mp hitem)
  · exact halt.length_le item (List.mem_reverse.mp hitem)

/-- Fills the stack, gives up half way through `OP_TUCK` and goes on with what that left. -/
def Machine.tucking : List Machine.Call :=
  [.reset, .execute [0x51, 0x52, 0x53, 0x7d], .execute [0x6b, 0xa8]]

theorem size_le_of_callAll_tucking :
    let m := (Machine.new { stackSize := 3, elementSize := 1 }).callAll Machine.tucking
    m.main.toList.map List.length = [1, 32] ∧ m.alt.toList = [[2]] ∧
      m.main.size ≤ 3 ∧ m.alt.size ≤ 3 ∧
      ∀ item ∈ m.main.toList ++ m.alt.toList, item.length ≤ 32 := by
  intro m
  have hbound := size_le_of_callAll { stackSize := 3, elementSize := 1 } (by decide) Machine.tucking
  exact ⟨by decide +kernel, by decide +kernel, hbound⟩

end Script
end ScriptLedger
