import ScriptLedger.Proofs.Script.Judgement

namespace ScriptLedger

open Stateful

/-- Whether a failure is about the items that the stacks hold, and not about what was made of
them. -/
def Failure.isItemFailure : Failure → Bool
  | .stackUnderflow => true
  | .stackOverflow _ => true
  | .invalidStackIndex _ => true
  | .numberTooLong _ _ => true
  | _ => false

theorem Failure.isOperandFailure_of_item {e : Failure} (h : e.isItemFailure = true) :
    e.isOperandFailure = true := by
  cases e <;> first | rfl | cases h

theorem Failure.ne_overflow_of_item {e : Failure} (h : e.isItemFailure = true) :
    e ≠ .arithmeticOverflow := by
  rintro rfl
  cases h

def FailsAs {σ α : Type} (P : Failure → Prop) (x : Stateful σ α) : Prop :=
  ∀ ⦃s e t⦄, x s = .error e t → P e

namespace FailsAs

variable {σ α β : Type} {P : Failure → Prop}

theorem pure (a : α) : FailsAs P (pure a : Stateful σ α) :=
  fun _ _ _ h => nomatch h

theorem throw {e : Failure} (h : P e) : FailsAs P (throw e : Stateful σ α) := by
  intro s e' t he
  cases he
  exact h

theorem get : FailsAs P (get : Stateful σ σ) :=
  fun _ _ _ h => nomatch h

theorem bind {x : Stateful σ α} {f : α → Stateful σ β} (hx : FailsAs P x)
    (hf : ∀ a, FailsAs P (f a)) : FailsAs P (x >>= f) := by
  intro s e t h
  obtain hxe | ⟨a, u, _, hfe⟩ := bind_eq_error_iff.mp h
  · exact hx hxe
  · exact hf a hfe

theorem seqRight {x : Stateful σ α} (hx : FailsAs P x) (b : β) :
    FailsAs P (x *> Pure.pure b) :=
  hx.bind fun _ => .pure b

theorem onMain {x : Script.StackM α} (h : FailsAs P x) : FailsAs P (Script.onMain x) := by
  intro s e t hs
  obtain ⟨u, hx, _⟩ := Script.onMain_eq_error_iff.mp hs
  exact h hx

theorem onAlt {x : Script.StackM α} (h : FailsAs P x) : FailsAs P (Script.onAlt x) := by
  intro s e t hs
  obtain ⟨u, hx, _⟩ := Script.onAlt_eq_error_iff.mp hs
  exact h hx

end FailsAs

class CoversItems (P : Failure → Prop) : Prop where
  of_item : ∀ {e : Failure}, e.isItemFailure = true → P e

namespace FailsAs

open Script

variable {P : Failure → Prop} [CoversItems P] {width : Nat}

theorem push (item : Bytes) : FailsAs P (Stack.push item) := by
  intro s e t h
  unfold Stack.push at h
  split at h
  · cases h
  · cases h
    exact CoversItems.of_item rfl

theorem pop : FailsAs P Stack.pop := by
  intro ⟨items, capacity⟩ e t h
  cases items with
  | nil =>
    cases h
    exact CoversItems.of_item rfl
  | cons item items => cases h

theorem peek (depth : Nat) : FailsAs P (Stack.peek depth) := by
  intro s e t h
  unfold Stack.peek at h
  split at h
  · cases h
    exact CoversItems.of_item rfl
  · cases h

theorem remove (depth : Nat) : FailsAs P (Stack.remove depth) := by
  intro s e t h
  unfold Stack.remove at h
  split at h
  · cases h
    exact CoversItems.of_item rfl
  · cases h

theorem require (n : Nat) : FailsAs P (Stack.require n) := by
  intro s e t h
  unfold Stack.require at h
  split at h
  · cases h
  · cases h
    exact CoversItems.of_item rfl

theorem checkIndex (n : Int) : FailsAs P (Stack.checkIndex n) := by
  intro s e t h
  unfold Stack.checkIndex at h
  split at h
  · cases h
    exact CoversItems.of_item rfl
  · cases h

theorem depth : FailsAs P Operation.depth :=
  FailsAs.get.bind fun _ => push _

/-- Failing in ways that have a property, as it can be said of operations. Only numbers that may
take eight bytes get out of range. -/
def judgement (P : Failure → Prop) [CoversItems P] {width : Nat}
    (hoverflow : 8 ≤ width → P .arithmeticOverflow) : Judgement width width where
  one _ x _ := FailsAs P x
  both x _ := FailsAs P x
  item _ := True
  allowed := P
  item_of_narrow _ := trivial
  item_of_le _ _ := trivial
  pure a := .pure a
  push _ hf := (push _).bind fun _ => hf
  pop _ hf := pop.bind fun x => hf x trivial
  peek _ hf := (peek _).bind fun x => hf x trivial
  remove _ hf := (remove _).bind fun x => hf x trivial
  require hf := (require _).bind fun _ => hf
  width_le := Nat.le_refl width
  tooWide _ := .throw (CoversItems.of_item rfl)
  overflow h := .throw (hoverflow h)
  checkIndex hf := (checkIndex _).bind hf
  reject := .throw
  refuse := .throw
  onMain := .onMain
  toAlt := pop.onMain.bind fun x => (push x).onAlt
  fromAlt := pop.onAlt.bind fun x => (push x).onMain
  answer b h := h.seqRight b
  refuseBoth := .throw

theorem judgement_pushes (P : Failure → Prop) [CoversItems P]
    (hoverflow : 8 ≤ width → P .arithmeticOverflow) (size : Nat) :
    (judgement P hoverflow).Pushes size size where
  le := Nat.le_refl size
  item_of_le _ := trivial
  overlong _ h := FailsAs.throw h

end FailsAs

namespace Script

variable {limits : ScriptLimits} {op : UInt8} {rest : Bytes}

/-- What all faults of an instruction have in common, except that its numbers are too large, is
what all of its failures have in common, as long as numbers are narrow or may be too large. -/
theorem runInstruction_failsAs {P : Failure → Prop}
    (hfault : ∀ e, Fault limits op rest e → e ≠ .arithmeticOverflow → P e)
    (hoverflow : 8 ≤ limits.numberWidth → P .arithmeticOverflow) :
    FailsAs P (runInstruction limits op rest) := by
  have hitems : CoversItems P := by
    constructor
    intro e he
    exact hfault e (.operand (Failure.isOperandFailure_of_item he)) (Failure.ne_overflow_of_item he)
  apply (FailsAs.judgement P hoverflow).runInstruction
  case hpushes => exact FailsAs.judgement_pushes P hoverflow limits.elementSize
  case hdepth => exact fun _ => FailsAs.depth
  case hallowed =>
    intro e he hoperand
    apply hfault e he
    rintro rfl
    cases hoperand

theorem runInstruction_faulty (limits : ScriptLimits) (op : UInt8) (rest : Bytes) :
    FailsAs (Fault limits op rest) (runInstruction limits op rest) :=
  runInstruction_failsAs (fun _ h _ => h) (fun _ => .operand rfl)

end Script
end ScriptLedger
