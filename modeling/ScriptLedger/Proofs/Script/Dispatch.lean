import ScriptLedger.Proofs.Script.Acceptance
import ScriptLedger.Proofs.Script.Depth

namespace ScriptLedger.Script

open Instruction Operation

/-- The failures other than that an opcode has no meaning. -/
def Recognized (e : Failure) : Prop :=
  ∀ op c, e ≠ .unrecognizedOpcode op c

instance : CoversItems Recognized where
  of_item := by
    rintro _ h op c rfl
    cases h

/-- What runs the opcodes of a category, for the categories that have opcodes to run. -/
def handler? (limits : ScriptLimits) (op : UInt8) (rest : Bytes) : Category → Option (StacksM Nat)
  | .constant => some (onMain (runConstant op rest limits.elementSize))
  | .flow => some (onMain (runFlow op) *> pure 0)
  | .stack => some (runStack op limits.numberWidth *> pure 0)
  | .splice => some (onMain (runSplice op) *> pure 0)
  | .bitwise => some (onMain (runBitwise op) *> pure 0)
  | .arithmetic => some (onMain (runArithmetic op limits.numberWidth) *> pure 0)
  | .crypto => some (onMain (runCrypto op) *> pure 0)
  | .unimplemented | .disabled | .reserved | .unassigned => none

def Category.handled : List Category :=
  [.constant, .flow, .stack, .splice, .bitwise, .arithmetic, .crypto]

/-- Whether the handler of a category has a case for an opcode. -/
def Category.knows (op : UInt8) : Category → Bool
  | .constant =>
    Opcode.isDirectPush op || (Push.lengthWidth? op).isSome || (smallItem? op).isSome
  | .flow => (FlowOp.ofByte? op).isSome
  | .stack => (StackOp.ofByte? op).isSome
  | .splice => op == 0x82
  | .bitwise => (BitwiseOp.ofByte? op).isSome
  | .arithmetic => (ArithmeticOp.ofByte? op).isSome
  | .crypto => (CryptoOp.ofByte? op).isSome
  | .unimplemented | .disabled | .reserved | .unassigned => false

variable {limits : ScriptLimits} {op : UInt8} {rest : Bytes} {c : Category} {run : StacksM Nat}

/-- The table gives every opcode of a category with a handler to one that knows it. -/
theorem Category.knows_of_category (h : Opcode.category op ∈ handled) :
    (Opcode.category op).knows op = true := by
  have hall : ∀ e ∈ Opcode.table, e.category ∈ handled → e.category.knows e.code = true := by
    decide +kernel
  obtain ⟨e, he, rfl, hcategory⟩ | hunnamed := Opcode.named_or_unnamed op
  · rw [← hcategory] at h ⊢
    exact hall e he h
  · rw [hunnamed] at h ⊢
    split
    case isTrue hdirect => rw [knows, hdirect, Bool.true_or, Bool.true_or]
    case isFalse hdirect =>
      rw [if_neg hdirect] at h
      exact absurd h (by decide)

namespace Opcode

theorem category_of_range (low count : Nat)
    (hall : ∀ k < count, category (UInt8.ofNat (low + k)) = c) (hlow : low ≤ op.toNat)
    (hhigh : op.toNat < low + count) : category op = c := by
  have hop := hall (op.toNat - low) (by omega)
  rwa [Nat.add_sub_cancel' hlow, UInt8.ofNat_toNat] at hop

theorem category_of_smallItem (h : (smallItem? op).isSome = true) : category op = .constant := by
  unfold smallItem? at h
  split at h
  case isTrue hzero =>
    rw [hzero]
    rfl
  split at h
  case isTrue hminus =>
    rw [hminus]
    rfl
  split at h
  case isTrue hsmall =>
    obtain ⟨hlow, hhigh⟩ := hsmall
    rw [UInt8.le_iff_toNat_le] at hlow hhigh
    exact category_of_range 0x51 16 (by decide) hlow (Nat.lt_succ_of_le hhigh)
  case isFalse => cases h

theorem category_of_flowOp (h : (FlowOp.ofByte? op).isSome = true) : category op = .flow := by
  unfold FlowOp.ofByte? at h
  split at h
  case isTrue hnop =>
    obtain rfl | rfl | ⟨hlow, hhigh⟩ := hnop
    · rfl
    · rfl
    · rw [UInt8.le_iff_toNat_le] at hlow hhigh
      exact category_of_range 0xb3 7 (by decide) hlow (Nat.lt_succ_of_le hhigh)
  split at h
  case isTrue hverify =>
    rw [hverify]
    rfl
  split at h
  case isTrue hgiveUp =>
    rw [hgiveUp]
    rfl
  case isFalse => cases h

theorem category_of_stackOp (h : (StackOp.ofByte? op).isSome = true) : category op = .stack := by
  unfold StackOp.ofByte? at h
  split at h
  case h_20 => cases h
  all_goals rfl

theorem category_of_bitwiseOp (h : (BitwiseOp.ofByte? op).isSome = true) :
    category op = .bitwise := by
  unfold BitwiseOp.ofByte? at h
  split at h
  case h_3 => cases h
  all_goals rfl

theorem category_of_arithmeticOp (h : (ArithmeticOp.ofByte? op).isSome = true) :
    category op = .arithmetic := by
  unfold ArithmeticOp.ofByte? at h
  split at h
  case h_21 => cases h
  all_goals rfl

theorem category_of_cryptoOp (h : (CryptoOp.ofByte? op).isSome = true) : category op = .crypto := by
  unfold CryptoOp.ofByte? at h
  split at h
  case h_7 => cases h
  all_goals rfl

end Opcode

theorem Category.category_of_knows (h : c.knows op = true) : Opcode.category op = c := by
  cases c with
  | unimplemented | disabled | reserved | unassigned => cases h
  | constant =>
    rw [knows, Bool.or_eq_true, Bool.or_eq_true] at h
    obtain (hdirect | hwidth) | hitem := h
    · exact Opcode.category_of_isDirectPush hdirect
    · obtain ⟨width, hwidth⟩ := Option.isSome_iff_exists.1 hwidth
      exact Opcode.category_of_lengthWidth hwidth
    · exact Opcode.category_of_smallItem hitem
  | flow => exact Opcode.category_of_flowOp h
  | stack => exact Opcode.category_of_stackOp h
  | splice =>
    obtain rfl := beq_iff_eq.1 h
    rfl
  | bitwise => exact Opcode.category_of_bitwiseOp h
  | arithmetic => exact Opcode.category_of_arithmeticOp h
  | crypto => exact Opcode.category_of_cryptoOp h

theorem mem_handled (h : handler? limits op rest c = some run) : c ∈ Category.handled := by
  cases c with
  | unimplemented | disabled | reserved | unassigned => cases h
  | constant | flow | stack | splice | bitwise | arithmetic | crypto => decide

theorem runInstruction_eq_handler
    (h : handler? limits op rest (Opcode.category op) = some run) :
    runInstruction limits op rest = run := by
  unfold runInstruction
  cases hc : Opcode.category op with
  | unimplemented | disabled | reserved | unassigned =>
    rw [hc] at h
    cases h
  | constant | flow | stack | splice | bitwise | arithmetic | crypto =>
    rw [hc] at h
    cases h
    rfl

def Recognized.judgement (width : Nat) : Judgement width width :=
  FailsAs.judgement Recognized fun _ _ _ => nofun

theorem runConstant_recognized (h : Category.constant.knows op = true) :
    FailsAs Recognized (runConstant op rest limits.elementSize) := by
  apply (Recognized.judgement limits.numberWidth).runConstant
  · exact FailsAs.judgement_pushes Recognized _ limits.elementSize
  · rintro e hread o c rfl
    cases Push.isTruncated_of_read hread
  · exact fun _ _ _ _ _ => nofun
  · intro hread hitem
    -- A byte that carries no data and stands for no item is none that the handler knows.
    cases Push.found_of_read hread with
    | bare hdirect hwidth =>
      rw [Category.knows, hdirect, hwidth, hitem] at h
      cases h

theorem handler_recognized (hrun : handler? limits op rest c = some run)
    (h : c.knows op = true) : FailsAs Recognized run := by
  let J := Recognized.judgement limits.numberWidth
  cases c with
  | unimplemented | disabled | reserved | unassigned => cases hrun
  | constant =>
    cases hrun
    exact (runConstant_recognized h).onMain
  | flow =>
    cases hrun
    obtain ⟨o, ho⟩ := Option.isSome_iff_exists.1 h
    have hfails : FailsAs Recognized o.run :=
      J.flowOp o (fun _ _ _ => nofun) fun _ _ _ => nofun
    rw [runFlow, ho]
    exact hfails.onMain.seqRight 0
  | stack =>
    cases hrun
    obtain ⟨o, ho⟩ := Option.isSome_iff_exists.1 h
    have hfails : FailsAs Recognized (o.run limits.numberWidth) := J.stackOp o fun _ => FailsAs.depth
    rw [runStack, ho]
    exact hfails.seqRight 0
  | splice =>
    cases hrun
    have hfails : FailsAs Recognized pushSize := J.pushSize
    rw [runSplice, if_pos (beq_iff_eq.1 h)]
    exact hfails.onMain.seqRight 0
  | bitwise =>
    cases hrun
    obtain ⟨o, ho⟩ := Option.isSome_iff_exists.1 h
    have hfails : FailsAs Recognized o.run := J.bitwiseOp o fun _ _ _ _ _ => nofun
    rw [runBitwise, ho]
    exact hfails.onMain.seqRight 0
  | arithmetic =>
    cases hrun
    obtain ⟨o, ho⟩ := Option.isSome_iff_exists.1 h
    have hfails : FailsAs Recognized (o.run limits.numberWidth) :=
      J.arithmeticOp o fun _ _ _ _ _ => nofun
    rw [runArithmetic, ho]
    exact hfails.onMain.seqRight 0
  | crypto =>
    cases hrun
    obtain ⟨o, ho⟩ := Option.isSome_iff_exists.1 h
    have hfails : FailsAs Recognized o.run := J.cryptoOp o
    rw [runCrypto, ho]
    exact hfails.onMain.seqRight 0

/-- A handler refuses an opcode that it has no case for, before it touches a stack. -/
theorem handler_unrecognized (hrun : handler? limits op rest c = some run)
    (h : ¬ c.knows op = true) (s : Stacks) : run s = .error (.unrecognizedOpcode op c) s := by
  cases c with
  | unimplemented | disabled | reserved | unassigned => cases hrun
  | constant =>
    cases hrun
    simp only [Category.knows, Bool.or_eq_true, not_or, Option.not_isSome_iff_eq_none] at h
    obtain ⟨⟨hdirect, hwidth⟩, hitem⟩ := h
    have hbare : Push.Found op rest none := .bare (Bool.eq_false_iff.2 hdirect) hwidth
    have hread := hbare.read_eq
    apply onMain_error
    rw [runConstant, hread, hitem]
    rfl
  | flow =>
    cases hrun
    have hnone := Option.not_isSome_iff_eq_none.1 h
    rw [runFlow, hnone]
    rfl
  | stack =>
    cases hrun
    have hnone := Option.not_isSome_iff_eq_none.1 h
    rw [runStack, hnone]
    rfl
  | splice =>
    cases hrun
    rw [runSplice, if_neg fun hop => h (beq_iff_eq.2 hop)]
    rfl
  | bitwise =>
    cases hrun
    have hnone := Option.not_isSome_iff_eq_none.1 h
    rw [runBitwise, hnone]
    rfl
  | arithmetic =>
    cases hrun
    have hnone := Option.not_isSome_iff_eq_none.1 h
    rw [runArithmetic, hnone]
    rfl
  | crypto =>
    cases hrun
    have hnone := Option.not_isSome_iff_eq_none.1 h
    rw [runCrypto, hnone]
    rfl

/-- Only opcodes that the table has no use for are not recognized. -/
theorem category_of_unrecognized {o : UInt8} {s t : Stacks}
    (h : runInstruction limits op rest s = .error (.unrecognizedOpcode o c) t) :
    o = op ∧ Opcode.category op = c ∧ (c = .reserved ∨ c = .unassigned) := by
  have hop : o = op ∧ Opcode.category op = c := by
    cases runInstruction_faulty limits op rest h with
    | cut hread => cases Push.isTruncated_of_read hread
    | operand hkind => cases hkind
    | unrecognized hc => exact ⟨rfl, hc⟩
  obtain ⟨rfl, rfl⟩ := hop
  refine ⟨rfl, rfl, ?_⟩
  cases hrun : handler? limits o rest (Opcode.category o) with
  | some run =>
    have hknown := Category.knows_of_category (mem_handled hrun)
    rw [runInstruction_eq_handler hrun] at h
    exact absurd rfl (handler_recognized hrun hknown h _ _)
  | none =>
    unfold runInstruction at h
    cases hc : Opcode.category o with
    | constant | flow | stack | splice | bitwise | arithmetic | crypto =>
      rw [hc] at hrun
      cases hrun
    | unimplemented | disabled =>
      rw [hc] at h
      cases h
    | reserved => exact .inl rfl
    | unassigned => exact .inr rfl

theorem Machine.exists_boundary_of_unrecognized {m : Machine} {script : Bytes} {o : UInt8}
    (h : (m.execute script).1 = .error (.unrecognizedOpcode o c)) :
    Opcode.category o = c ∧ (c = .reserved ∨ c = .unassigned) ∧
      ∃ f, (m.run script).fetches.getLast? = some f ∧ f.opcode = o ∧
        f.position ∈ (split script).boundaries ∧ script[f.position]? = some o := by
  have hsize : script.length ≤ m.limits.scriptSize := by
    apply size_le_of_outcome
    intro cause he
    cases h.symm.trans he
  obtain ⟨front, op, rest, rfl, hwhole, -, hstop, hfetches⟩ := exists_stop_of_error hsize h
  have hlast := congrArg List.getLast? hfetches
  rw [List.getLast?_concat] at hlast
  generalize (m.run (front ++ op :: rest)).state = t at hstop
  cases hstop with
  | failed hs =>
    obtain ⟨rfl, hcategory, hunused⟩ := category_of_unrecognized hs
    have hplace : front.length < (front ++ o :: rest).length := by
      rw [List.length_append, List.length_cons]
      omega
    refine ⟨hcategory, hunused, _, hlast, rfl, ?boundary, ?opcode⟩
    case boundary =>
      refine Split.mem_boundariesFrom_iff.2 ⟨front.length, (Nat.zero_add _).symm, hplace, ?_⟩
      rw [List.take_left]
      exact hwhole
    case opcode =>
      rw [List.getElem?_append_right (Nat.le_refl _), Nat.sub_self]
      rfl

/-- The handlers divide the opcodes as the table does: an instruction is run by the handler of its
category, which knows it, and every other handler refuses it with a category of its own and leaves
the stacks alone. So only a reserved or an unassigned byte where an instruction starts is not
recognized. -/
theorem handlers_agree_with_table :
    (∀ limits op rest c run, handler? limits op rest c = some run →
      (c = Opcode.category op →
        runInstruction limits op rest = run ∧
          ∀ s t o c', run s ≠ .error (.unrecognizedOpcode o c') t) ∧
      (c ≠ Opcode.category op → ∀ s, run s = .error (.unrecognizedOpcode op c) s)) ∧
    ∀ (m : Machine) (script : Bytes) (o : UInt8) (c : Category),
      (m.execute script).1 = .error (.unrecognizedOpcode o c) →
        Opcode.category o = c ∧ (c = .reserved ∨ c = .unassigned) ∧
          ∃ f, (m.run script).fetches.getLast? = some f ∧ f.opcode = o ∧
            f.position ∈ (split script).boundaries ∧ script[f.position]? = some o := by
  refine ⟨fun limits op rest c run hrun => ⟨?own, ?other⟩, fun m script o c h =>
    Machine.exists_boundary_of_unrecognized h⟩
  case own =>
    rintro rfl
    have hknown := Category.knows_of_category (mem_handled hrun)
    exact ⟨runInstruction_eq_handler hrun, fun s t o c' h =>
      handler_recognized hrun hknown h o c' rfl⟩
  case other =>
    intro hne
    exact handler_unrecognized hrun fun hknown => hne (Category.category_of_knows hknown).symm

theorem handlers_agree_with_table_reserved :
    let m := Machine.new {}
    let script : Bytes := [0x01, 0x50, 0x50, 0x51]
    (∀ s, (runStack 0x93 8 *> pure 0 : StacksM Nat) s =
      .error (.unrecognizedOpcode 0x93 .stack) s) ∧
    (∀ s t o c, (onMain (runArithmetic 0x93 8) *> pure 0 : StacksM Nat) s ≠
      .error (.unrecognizedOpcode o c) t) ∧
    (m.execute script).1 = .error (.unrecognizedOpcode 0x50 .reserved) ∧
    ∃ f, (m.run script).fetches.getLast? = some f ∧ f.opcode = 0x50 ∧
      f.position ∈ (split script).boundaries ∧ script[f.position]? = some 0x50 := by
  intro m script
  have hfails : (m.execute script).1 = .error (.unrecognizedOpcode 0x50 .reserved) := by
    decide +kernel
  obtain ⟨hhandlers, hscripts⟩ := handlers_agree_with_table
  have hother := hhandlers { numberWidth := 8 } 0x93 [] .stack _ rfl
  have hown := hhandlers { numberWidth := 8 } 0x93 [] .arithmetic _ rfl
  exact ⟨hother.2 (by decide), (hown.1 (by decide)).2, hfails, (hscripts m script _ _ hfails).2.2⟩

end ScriptLedger.Script
