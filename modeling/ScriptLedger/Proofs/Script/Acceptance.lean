import ScriptLedger.Proofs.Script.Walk

namespace ScriptLedger.Script

open Stateful

variable {limits : ScriptLimits} {op : UInt8} {rest : Bytes} {push : Option Push} {s t : Stacks}
  {taken : Nat} {e : Failure}

namespace Number

/-- Zero or negative zero, of any width. -/
def IsZero (item : Bytes) : Prop :=
  ∃ n, item = List.replicate n 0 ∨ item = List.replicate n 0 ++ [0x80]

theorem isZero_singleton_iff {b : UInt8} : IsZero [b] ↔ b = 0 ∨ b = 0x80 := by
  constructor
  · rintro ⟨n, h | h⟩
    · exact .inl (List.eq_of_mem_replicate (h ▸ List.mem_singleton_self b))
    · cases n with
      | zero => exact .inr (List.singleton_inj.mp h)
      | succ n => cases n <;> cases h
  · rintro (rfl | rfl)
    · exact ⟨1, .inl rfl⟩
    · exact ⟨0, .inr rfl⟩

theorem isZero_cons_iff {b : UInt8} {bs : Bytes} (hbs : bs ≠ []) :
    IsZero (b :: bs) ↔ b = 0 ∧ IsZero bs := by
  constructor
  · rintro ⟨n, h | h⟩
    · cases n with
      | zero => cases h
      | succ n =>
        obtain ⟨hb, hmore⟩ := List.cons.inj h
        exact ⟨hb, n, .inl hmore⟩
    · cases n with
      | zero => exact absurd (List.cons.inj h).2 hbs
      | succ n =>
        obtain ⟨hb, hmore⟩ := List.cons.inj h
        exact ⟨hb, n, .inr hmore⟩
  · rintro ⟨rfl, n, rfl | rfl⟩
    · exact ⟨n + 1, .inl rfl⟩
    · exact ⟨n + 1, .inr rfl⟩

theorem truth_eq_false_iff {item : Bytes} : truth item = false ↔ IsZero item := by
  induction item with
  | nil => exact iff_of_true rfl ⟨0, .inl rfl⟩
  | cons b bs ih =>
    cases bs with
    | nil =>
      change (b != 0 && b != 0x80) = false ↔ _
      rw [isZero_singleton_iff, Bool.and_eq_false_iff, bne_eq_false_iff_eq, bne_eq_false_iff_eq]
    | cons c cs =>
      change (b != 0 || truth (c :: cs)) = false ↔ _
      rw [isZero_cons_iff (List.cons_ne_nil c cs), Bool.or_eq_false_iff, ih, bne_eq_false_iff_eq]

end Number

namespace Stack

variable {u : Stack} {top : Bytes} {below : List Bytes}

theorem toList_eq_append_iff : u.toList = below ++ [top] ↔ u.items = top :: below.reverse := by
  rw [toList, List.reverse_eq_iff, List.reverse_append]
  rfl

theorem topIsTrue_cases (u : Stack) :
    (u.toList = [] ∧ u.topIsTrue = false) ∨
      ∃ below top, u.toList = below ++ [top] ∧ u.topIsTrue = Number.truth top := by
  obtain ⟨items, capacity⟩ := u
  cases items with
  | nil => exact .inl ⟨rfl, rfl⟩
  | cons top items => exact .inr ⟨items.reverse, top, List.reverse_cons, rfl⟩

theorem topIsTrue_of_top (h : u.toList = below ++ [top]) : u.topIsTrue = Number.truth top := by
  rw [topIsTrue, toList_eq_append_iff.mp h]
  rfl

theorem topIsTrue_eq_true_iff :
    u.topIsTrue = true ↔ ∃ below top, u.toList = below ++ [top] ∧ ¬ Number.IsZero top := by
  constructor
  · intro h
    obtain ⟨_, hfalse⟩ | ⟨below, top, hlist, htruth⟩ := u.topIsTrue_cases
    · rw [h] at hfalse
      cases hfalse
    · refine ⟨below, top, hlist, fun hzero => ?_⟩
      rw [h, Number.truth_eq_false_iff.mpr hzero] at htruth
      cases htruth
  · rintro ⟨below, top, hlist, hzero⟩
    rw [topIsTrue_of_top hlist]
    exact Bool.ne_false_iff.mp (mt Number.truth_eq_false_iff.mp hzero)

theorem topIsTrue_eq_false_iff :
    u.topIsTrue = false ↔
      u.toList = [] ∨ ∃ below top, u.toList = below ++ [top] ∧ Number.IsZero top := by
  constructor
  · intro h
    obtain ⟨hempty, _⟩ | ⟨below, top, hlist, htruth⟩ := u.topIsTrue_cases
    · exact .inl hempty
    · exact .inr ⟨below, top, hlist, Number.truth_eq_false_iff.mp (htruth.symm.trans h)⟩
  · rintro (hempty | ⟨below, top, hlist, hzero⟩)
    · rw [topIsTrue, List.reverse_eq_nil_iff.mp hempty]
      rfl
    · rw [topIsTrue_of_top hlist]
      exact Number.truth_eq_false_iff.mpr hzero

end Stack

/-- An instruction that nothing speaks against: its opcode has a handler and is not the one that
always gives up, and its push is narrow enough. -/
structure Instruction.Runnable (limits : ScriptLimits) (i : Instruction) : Prop where
  category : Opcode.category i.opcode ∉ [.unimplemented, .disabled, .reserved, .unassigned]
  opcode : i.opcode ≠ 0x6a
  data_le : ∀ p, i.push = some p → p.data.length ≤ limits.elementSize

/-- A script that is as short as the limits demand and consists of whole instructions that nothing
speaks against, with no more operations than the limits allow. -/
structure Runnable (limits : ScriptLimits) (script : Bytes) : Prop where
  size_le : script.length ≤ limits.scriptSize
  whole : (Instruction.split script).failure = none
  instructions : ∀ i ∈ (Instruction.split script).instructions, i.Runnable limits
  operations_le : (Instruction.split script).operations ≤ limits.operations

theorem data_le_of_runConstant {size : Nat} {p : Push} {u v : Stack}
    (hread : Push.read? op rest = .ok (some p))
    (h : Operation.runConstant op rest size u = .ok taken v) : p.data.length ≤ size := by
  rw [Operation.runConstant, hread] at h
  by_contra hwide
  obtain ⟨_, _, hfound, h⟩ := bind_eq_ok_iff.mp h
  cases hfound
  simp only [if_pos (Nat.not_le.mp hwide)] at h
  cases h

theorem Instruction.runnable_of_ok (hread : Push.read? op rest = .ok push)
    (h : runInstruction limits op rest s = .ok taken t) :
    Instruction.Runnable limits ⟨op, push⟩ := by
  have hgiveUp : op ≠ 0x6a := by
    rintro rfl
    cases h
  by_cases hc : Opcode.category op = .constant
  case pos =>
    refine ⟨by rw [hc]; decide, hgiveUp, fun p hp => ?_⟩
    obtain rfl : push = some p := hp
    rw [runInstruction, hc] at h
    cases hrun : Operation.runConstant op rest limits.elementSize s.main with
    | ok taken' u => exact data_le_of_runConstant hread hrun
    | error e u => cases (onMain_error hrun).symm.trans h
  case neg =>
    rw [read_of_not_constant hc] at hread
    cases hread
    refine ⟨fun hmem => ?_, hgiveUp, fun p hp => ?_⟩
    · rw [runInstruction] at h
      simp only [List.mem_cons, List.not_mem_nil, or_false] at hmem
      obtain hc | hc | hc | hc := hmem
      all_goals
        rw [hc] at h
        cases h
    · cases hp

theorem runnable_of_runFrom (limits : ScriptLimits) (position operations : Nat)
    (fetched : List Fetch) (script : Bytes) (s : Stacks) (hbefore : operations ≤ limits.operations)
    (h : (runFrom limits position operations fetched script s).outcome = .ok ()) :
    (∀ i ∈ (Instruction.split script).instructions, i.Runnable limits) ∧
      operations + (Instruction.split script).operations ≤ limits.operations := by
  fun_induction runFrom limits position operations fetched script s with
  | case1 position operations fetched s =>
    rw [Instruction.split_nil]
    exact ⟨List.forall_mem_nil _, hbefore⟩
  | case2 => cases h
  | case3 => cases h
  | case4 position operations fetched s op rest fetched₁ operations₁ hwithin taken t hs ih =>
    obtain ⟨push, hread, htaken⟩ := runInstruction_taken hs
    obtain ⟨hmore, hcount⟩ := ih (Nat.not_lt.mp hwithin) h
    rw [htaken] at hmore hcount
    rw [Instruction.split_cons_ok hread]
    refine ⟨List.forall_mem_cons.mpr ⟨Instruction.runnable_of_ok hread hs, hmore⟩, ?_⟩
    rw [Split.operations, List.map_cons, ← Opcode.operations_cons]
    exact hcount

namespace Machine

variable {m : Machine} {script : Bytes}

/-- The opcode at which a machine stops in a script, behind whole instructions that it runs, and the
failure of its instruction. -/
structure FailsAt (m : Machine) (script : Bytes) (op : UInt8) (e : Failure) : Prop where
  outcome : (m.execute script).1 = .error e
  instruction : ∃ front rest, script = front ++ op :: rest ∧
    (Instruction.split front).failure = none ∧
    (m.execute front).1 = .ok () ∧
    runInstruction m.limits op rest (m.execute front).2.state =
      .error e (m.execute script).2.state

theorem size_le_of_outcome (h : ∀ cause, (m.execute script).1 ≠ .error (.limitExceeded cause)) :
    script.length ≤ m.limits.scriptSize := by
  by_contra hsize
  apply h
  unfold execute run
  rw [if_pos (Nat.not_le.mp hsize)]

theorem runnable_of_ok (h : (m.execute script).1 = .ok ()) : Runnable m.limits script := by
  have hsize : script.length ≤ m.limits.scriptSize := by
    apply size_le_of_outcome
    intro cause he
    cases h.symm.trans he
  change (m.run script).outcome = .ok () at h
  rw [run_of_size hsize] at h
  obtain ⟨hwhole, _⟩ := failure_of_runFrom m.limits 0 0 [] script
    { m.state with alt := m.alt.cleared }
  obtain ⟨hinstructions, hcount⟩ := runnable_of_runFrom m.limits 0 0 [] script _ (Nat.zero_le _) h
  rw [Nat.zero_add] at hcount
  exact ⟨hsize, hwhole h, hinstructions, hcount⟩

/-- A script that rejects stops at an opcode that can reject, for a cause of that opcode. -/
theorem failsAt_rejection_iff {c : Rejection} :
    m.FailsAt script c.opcode (.scriptInvalid c) ↔
      (m.execute script).1 = .error (.scriptInvalid c) := by
  refine ⟨FailsAt.outcome, fun h => ?_⟩
  have hsize : script.length ≤ m.limits.scriptSize := by
    apply size_le_of_outcome
    intro cause he
    cases h.symm.trans he
  obtain ⟨front, op, rest, hscript, hwhole, hok, hstop, _⟩ := exists_stop_of_error hsize h
  cases hstop with
  | failed hs =>
    -- Of all that can go wrong in an instruction, only a rejection is told as one.
    have hcode : c.opcode = op := by
      cases runInstruction_faulty m.limits op rest hs with
      | cut hread => cases Push.isTruncated_of_read hread
      | operand hkind => cases hkind
      | rejected _ hcode => exact hcode
    subst hcode
    exact ⟨h, front, rest, hscript, hwhole, hok, hs⟩

example :
    [Rejection.verify, .returned, .equalVerify [] [1], .numEqualVerify 0 1].map
        (fun c => Opcode.display c.opcode) =
      ["OP_VERIFY", "OP_RETURN", "OP_EQUALVERIFY", "OP_NUMEQUALVERIFY"] := by
  decide +kernel

end Machine

section

variable {r : Run}

theorem Run.verdict_eq_true_iff :
    r.verdict = .ok true ↔ r.outcome = .ok () ∧ r.state.main.topIsTrue = true := by
  unfold verdict
  cases r.outcome with
  | ok u => simp
  | error e => cases e <;> simp [Failure.isScriptFailure]

theorem Run.verdict_eq_false_iff :
    r.verdict = .ok false ↔
      (r.outcome = .ok () ∧ r.state.main.topIsTrue = false) ∨
        ∃ c, r.outcome = .error (.scriptInvalid c) := by
  unfold verdict
  cases r.outcome with
  | ok u => simp
  | error e => cases e <;> simp [Failure.isScriptFailure]

theorem Run.verdict_eq_error_iff :
    r.verdict = .error e ↔ r.outcome = .error e ∧ ∀ c, e ≠ .scriptInvalid c := by
  unfold verdict
  cases r.outcome with
  | ok u => simp
  | error e' => cases e' <;> simp [Failure.isScriptFailure] <;> rintro rfl <;> simp

end

section

variable {signature publicKey : Bytes}

theorem runPair_of_ok (h : ((Machine.new limits).execute signature).1 = .ok ()) :
    (runPair limits signature publicKey).1 =
      ((Machine.new limits).execute signature).2.run publicKey := by
  change ((Machine.new limits).run signature).outcome = .ok () at h
  unfold runPair
  simp only [h]
  rfl

theorem runPair_of_error (h : ((Machine.new limits).execute signature).1 = .error e) :
    (runPair limits signature publicKey).1.outcome = .error e := by
  change ((Machine.new limits).run signature).outcome = .error e at h
  unfold runPair
  simp only [h]

theorem runPair_outcome_eq_ok_iff :
    let first := (Machine.new limits).execute signature
    (runPair limits signature publicKey).1.outcome = .ok () ↔
      first.1 = .ok () ∧ (first.2.execute publicKey).1 = .ok () := by
  intro first
  cases hfirst : first.1 with
  | ok u =>
    rw [runPair_of_ok hfirst]
    exact (and_iff_right rfl).symm
  | error e =>
    rw [runPair_of_error hfirst]
    refine iff_of_false (fun h => ?_) (fun h => ?_)
    · cases h
    · cases h.1

theorem runPair_outcome_eq_error_iff :
    let first := (Machine.new limits).execute signature
    (runPair limits signature publicKey).1.outcome = .error e ↔
      first.1 = .error e ∨ first.1 = .ok () ∧ (first.2.execute publicKey).1 = .error e := by
  intro first
  cases hfirst : first.1 with
  | ok u =>
    rw [runPair_of_ok hfirst]
    simp only [reduceCtorEq, false_or, true_and]
    exact Iff.rfl
  | error e' =>
    rw [runPair_of_error hfirst]
    simp only [reduceCtorEq, false_and, or_false]

/-- What holds of the main stack in the end of a pair that ends well. -/
theorem runPair_ends_iff (p : Stack → Prop) :
    let first := (Machine.new limits).execute signature
    let second := first.2.execute publicKey
    (runPair limits signature publicKey).1.outcome = .ok () ∧
        p (runPair limits signature publicKey).1.state.main ↔
      first.1 = .ok () ∧ second.1 = .ok () ∧ p second.2.main := by
  intro first second
  refine (and_congr_left' runPair_outcome_eq_ok_iff).trans (and_assoc.trans ?_)
  apply and_congr_right
  intro hfirst
  rw [runPair_of_ok hfirst]
  rfl

theorem runPair_rejects_iff :
    let m := Machine.new limits
    let first := m.execute signature
    (∃ c, (runPair limits signature publicKey).1.outcome = .error (.scriptInvalid c)) ↔
      ∃ c, m.FailsAt signature c.opcode (.scriptInvalid c) ∨
        first.1 = .ok () ∧ first.2.FailsAt publicKey c.opcode (.scriptInvalid c) := by
  intro m first
  apply exists_congr
  intro c
  rw [Machine.failsAt_rejection_iff, Machine.failsAt_rejection_iff]
  exact runPair_outcome_eq_error_iff

end

/-- A pair of scripts is accepted only if nothing speaks against either of them and the item on top
in the end is not zero. It is rejected exactly when both end well without such an item, or the first
instruction that fails is one that can reject and does. Every other failure is passed on. -/
theorem verify_sound (limits : ScriptLimits) (signature publicKey : Bytes) :
    let m := Machine.new limits
    let first := m.execute signature
    let second := first.2.execute publicKey
    (verify limits signature publicKey = .ok true →
      Runnable limits signature ∧ Runnable limits publicKey ∧
        ∃ below top, second.2.main.toList = below ++ [top] ∧ ¬ Number.IsZero top) ∧
    (verify limits signature publicKey = .ok false ↔
      (first.1 = .ok () ∧ second.1 = .ok () ∧
        (second.2.main.toList = [] ∨
          ∃ below top, second.2.main.toList = below ++ [top] ∧ Number.IsZero top)) ∨
      ∃ c, m.FailsAt signature c.opcode (.scriptInvalid c) ∨
        first.1 = .ok () ∧ first.2.FailsAt publicKey c.opcode (.scriptInvalid c)) ∧
    ∀ e, verify limits signature publicKey = .error e ↔
      (first.1 = .error e ∨ first.1 = .ok () ∧ second.1 = .error e) ∧
        ∀ c, e ≠ .scriptInvalid c := by
  intro m first second
  refine ⟨fun h => ?_, ?_, fun e => ?_⟩
  case refine_1 =>
    obtain ⟨hfirst, hsecond, htop⟩ :=
      (runPair_ends_iff (·.topIsTrue = true)).mp (Run.verdict_eq_true_iff.mp h)
    exact ⟨Machine.runnable_of_ok hfirst, Machine.runnable_of_ok hsecond,
      Stack.topIsTrue_eq_true_iff.mp htop⟩
  case refine_2 =>
    rw [← Stack.topIsTrue_eq_false_iff]
    exact Run.verdict_eq_false_iff.trans
      (or_congr (runPair_ends_iff (·.topIsTrue = false)) runPair_rejects_iff)
  case refine_3 =>
    exact Run.verdict_eq_error_iff.trans (and_congr_left' runPair_outcome_eq_error_iff)

def five : Bytes :=
  [0x01, 0x05]

theorem verify_sound_five :
    verify {} five comparison = .ok true ∧ Runnable {} five ∧ Runnable {} comparison ∧
      ∃ below top,
        (((Machine.new {}).execute five).2.execute comparison).2.main.toList = below ++ [top] ∧
          ¬ Number.IsZero top := by
  have haccepted : verify {} five comparison = .ok true := by decide +kernel
  obtain ⟨hsound, _⟩ := verify_sound {} five comparison
  exact ⟨haccepted, hsound haccepted⟩

end ScriptLedger.Script
