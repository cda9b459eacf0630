import ScriptLedger.Proofs.Script.Fate
import ScriptLedger.Proofs.Script.Relaxation

namespace ScriptLedger.Script

open Stateful

structure Effect where
  operands : Nat
  results : Nat
  altOperands : Nat
  altResults : Nat
  deriving DecidableEq, Repr

/-- The account of an opcode. One of them looks whether the top item is true. -/
def Opcode.effect (op : UInt8) (topIsTrue : Bool) : Effect :=
  if isPush op then ⟨0, 1, 0, 0⟩
  else match op with
    | 0x69 => ⟨1, 0, 0, 0⟩
    | 0x6b => ⟨1, 0, 0, 1⟩
    | 0x6c => ⟨0, 1, 1, 0⟩
    | 0x6d => ⟨2, 0, 0, 0⟩
    | 0x6e => ⟨2, 4, 0, 0⟩
    | 0x6f => ⟨3, 6, 0, 0⟩
    | 0x70 => ⟨4, 6, 0, 0⟩
    | 0x71 => ⟨6, 6, 0, 0⟩
    | 0x72 => ⟨4, 4, 0, 0⟩
    | 0x73 => ⟨1, if topIsTrue then 2 else 1, 0, 0⟩
    | 0x74 => ⟨0, 1, 0, 0⟩
    | 0x75 => ⟨1, 0, 0, 0⟩
    | 0x76 => ⟨1, 2, 0, 0⟩
    | 0x77 => ⟨2, 1, 0, 0⟩
    | 0x78 => ⟨2, 3, 0, 0⟩
    | 0x79 => ⟨1, 1, 0, 0⟩
    | 0x7a => ⟨1, 0, 0, 0⟩
    | 0x7b => ⟨3, 3, 0, 0⟩
    | 0x7c => ⟨2, 2, 0, 0⟩
    | 0x7d => ⟨2, 3, 0, 0⟩
    | 0x82 => ⟨1, 2, 0, 0⟩
    | 0x87 => ⟨2, 1, 0, 0⟩
    | 0x88 => ⟨2, 0, 0, 0⟩
    | 0x8b | 0x8c | 0x8f | 0x90 | 0x91 | 0x92 => ⟨1, 1, 0, 0⟩
    | 0x93 | 0x94 | 0x9a | 0x9b | 0x9c | 0x9e | 0x9f | 0xa0 | 0xa1 | 0xa2 | 0xa3 | 0xa4 =>
      ⟨2, 1, 0, 0⟩
    | 0x9d => ⟨2, 0, 0, 0⟩
    | 0xa5 => ⟨3, 1, 0, 0⟩
    | 0xa6 | 0xa7 | 0xa8 | 0xa9 | 0xaa => ⟨1, 1, 0, 0⟩
    | _ => ⟨0, 0, 0, 0⟩

theorem Opcode.named_or_unnamed (op : UInt8) :
    (∃ e ∈ table, e.code = op ∧ e.category = category op) ∨
      category op = if isDirectPush op then .constant else .unassigned := by
  unfold category
  cases hf : find? op with
  | none => exact .inr rfl
  | some e => exact .inl ⟨e, List.mem_of_find?_eq_some hf, code_of_find? hf, rfl⟩

/-- What is true of every named opcode of a category is true of every opcode of it, unless it also
has opcodes without a name. -/
theorem Opcode.of_category {P : UInt8 → Prop} {op : UInt8} {c : Category}
    (hall : ∀ e ∈ table, e.category = c → P e.code) (hconstant : c ≠ .constant)
    (hunassigned : c ≠ .unassigned) (h : category op = c) : P op := by
  obtain ⟨e, he, rfl, hcategory⟩ | hunnamed := named_or_unnamed op
  · exact hall e he (hcategory.trans h)
  · rw [h] at hunnamed
    split at hunnamed
    · exact absurd hunnamed hconstant
    · exact absurd hunnamed hunassigned

theorem Opcode.isPush_of_constant {op : UInt8} (h : category op = .constant) :
    isPush op = true := by
  have hall : ∀ e ∈ table, e.category = .constant → isPush e.code = true := by decide +kernel
  obtain ⟨e, he, rfl, hcategory⟩ | hunnamed := named_or_unnamed op
  · exact hall e he (hcategory.trans h)
  · rw [h] at hunnamed
    split at hunnamed
    case isTrue hdirect =>
      simp only [isDirectPush, Bool.and_eq_true, decide_eq_true_eq] at hdirect
      exact decide_eq_true (UInt8.le_trans hdirect.2 (by decide))
    case isFalse => cases hunnamed

theorem Opcode.effect_of_constant {op : UInt8} {b : Bool} (h : category op = .constant) :
    effect op b = ⟨0, 1, 0, 0⟩ :=
  if_pos (isPush_of_constant h)

/-- What becomes of a computation on both stacks with a given account: it fails whatever room there
is, or it leaves as many items as the account says once they fit. -/
inductive Ends {α : Type} (x : StacksM α) (effect : Effect) (s : Stacks) : Prop where
  | fails {e : Failure} (he : ∀ capacity, e ≠ .stackOverflow capacity)
      (hshort : e = .stackUnderflow ↔
        s.main.size < effect.operands ∨ s.alt.size < effect.altOperands)
      (hx : ∀ room, outcome x (s.above [] room) = .error e)
  | settles {a : α} {main alt : List Bytes}
      (hfit : effect.operands ≤ s.main.size ∧ effect.altOperands ≤ s.alt.size)
      (hmain : main.length + effect.operands = s.main.size + effect.results)
      (halt : alt.length + effect.altOperands = s.alt.size + effect.altResults)
      (hok : ∀ room, main.length ≤ s.main.capacity + room → alt.length ≤ s.alt.capacity + room →
        x (s.above [] room) = .ok a ⟨⟨main, s.main.capacity + room⟩, ⟨alt, s.alt.capacity + room⟩⟩)
      (hover : ∀ capacity,
        capacity = s.main.capacity ∧ capacity < main.length ∨
          capacity = s.alt.capacity ∧ capacity < alt.length →
        outcome x s = .error (.stackOverflow capacity))

/-- A computation that is short of items exactly when there are fewer than its account demands,
overflows exactly when it would end well with more room and leave more than a stack holds, and
changes the depths by its account. -/
structure DepthExact {α : Type} (x : StacksM α) (effect : Effect) (s : Stacks) : Prop where
  underflow_iff : outcome x s = .error .stackUnderflow ↔
    s.main.size < effect.operands ∨ s.alt.size < effect.altOperands
  overflow_iff : ∀ capacity, outcome x s = .error (.stackOverflow capacity) ↔
    (∃ room a, outcome x (s.above [] room) = .ok a) ∧
      (capacity = s.main.capacity ∧
          s.main.capacity + effect.operands < s.main.size + effect.results ∨
        capacity = s.alt.capacity ∧
          s.alt.capacity + effect.altOperands < s.alt.size + effect.altResults)
  not_overflow : effect.results ≤ effect.operands → effect.altResults ≤ effect.altOperands →
    ∀ capacity, outcome x s ≠ .error (.stackOverflow capacity)
  ok : ∀ {a t}, x s = .ok a t →
    t.main.size + effect.operands = s.main.size + effect.results ∧
      t.alt.size + effect.altOperands = s.alt.size + effect.altResults

section

variable {α β : Type} {x : StacksM α} {y : StackM α} {effect : Effect} {s : Stacks}
  {operands results : Nat}

theorem Stack.above_nil (room : Nat) (u : Stack) :
    u.above [] room = ⟨u.items, u.capacity + room⟩ := by
  rw [above, List.append_nil]

theorem Stacks.above_nil (room : Nat) (s : Stacks) :
    s.above [] room = ⟨⟨s.main.items, s.main.capacity + room⟩,
      ⟨s.alt.items, s.alt.capacity + room⟩⟩ := by
  rw [above, Stack.above_nil, Stack.above_nil]

theorem Stacks.above_nil_zero (s : Stacks) : s.above [] 0 = s :=
  above_nil 0 s

theorem DepthExact.of_fails {e : Failure} (he : ∀ capacity, e ≠ .stackOverflow capacity)
    (hshort : e = .stackUnderflow ↔
      s.main.size < effect.operands ∨ s.alt.size < effect.altOperands)
    (hx : ∀ room, outcome x (s.above [] room) = .error e) : DepthExact x effect s := by
  have hx₀ : outcome x s = .error e := s.above_nil_zero ▸ hx 0
  constructor
  case underflow_iff => rw [hx₀, Except.error.injEq, hshort]
  case overflow_iff =>
    intro capacity
    apply iff_of_false
    · rw [hx₀, Except.error.injEq]
      exact he capacity
    · rintro ⟨⟨room, a, hok⟩, -⟩
      cases hok.symm.trans (hx room)
  case not_overflow =>
    intro _ _ capacity
    rw [hx₀, ne_eq, Except.error.injEq]
    exact he capacity
  case ok =>
    intro a t hok
    cases (outcome_ok hok).symm.trans hx₀

theorem ok_or_overflow {a : α} {main alt : List Bytes}
    (hok : ∀ room, main.length ≤ s.main.capacity + room → alt.length ≤ s.alt.capacity + room →
      x (s.above [] room) = .ok a ⟨⟨main, s.main.capacity + room⟩, ⟨alt, s.alt.capacity + room⟩⟩)
    (hover : ∀ capacity,
      capacity = s.main.capacity ∧ capacity < main.length ∨
        capacity = s.alt.capacity ∧ capacity < alt.length →
      outcome x s = .error (.stackOverflow capacity)) :
    x s = .ok a ⟨⟨main, s.main.capacity⟩, ⟨alt, s.alt.capacity⟩⟩ ∨
      ∃ capacity, (capacity = s.main.capacity ∧ capacity < main.length ∨
          capacity = s.alt.capacity ∧ capacity < alt.length) ∧
        outcome x s = .error (.stackOverflow capacity) := by
  obtain hmain | hmain := Nat.lt_or_ge s.main.capacity main.length
  · exact .inr ⟨_, .inl ⟨rfl, hmain⟩, hover _ (.inl ⟨rfl, hmain⟩)⟩
  obtain halt | halt := Nat.lt_or_ge s.alt.capacity alt.length
  · exact .inr ⟨_, .inr ⟨rfl, halt⟩, hover _ (.inr ⟨rfl, halt⟩)⟩
  · exact .inl (s.above_nil_zero ▸ hok 0 hmain halt)

theorem Ends.exact (h : Ends x effect s) (hmain : s.main.size ≤ s.main.capacity)
    (halt : s.alt.size ≤ s.alt.capacity) : DepthExact x effect s := by
  cases h with
  | fails he hshort hx => exact .of_fails he hshort hx
  | @settles a main' alt' hfit hmain' halt' hok hover =>
    have hroomy : outcome x (s.above [] (main'.length + alt'.length)) = .ok a :=
      outcome_ok (hok _ (by omega) (by omega))
    have hends := ok_or_overflow hok hover
    constructor
    case underflow_iff =>
      refine iff_of_false ?_ (by omega)
      obtain hx | ⟨_, _, hx⟩ := hends
      · rw [outcome_ok hx]
        exact nofun
      · rw [hx]
        exact nofun
    case overflow_iff =>
      intro capacity
      constructor
      · intro h
        obtain hx | ⟨_, hfull, hx⟩ := hends
        · cases (outcome_ok hx).symm.trans h
        · cases hx.symm.trans h
          exact ⟨⟨_, _, hroomy⟩, by omega⟩
      · rintro ⟨-, hfull⟩
        exact hover capacity (by omega)
    case not_overflow =>
      intro hresults haltResults capacity h
      obtain hx | ⟨_, hfull, _⟩ := hends
      · cases (outcome_ok hx).symm.trans h
      · omega
    case ok =>
      intro a t h
      obtain hx | ⟨_, _, hx⟩ := hends
      · cases hx.symm.trans h
        exact ⟨hmain', halt'⟩
      · cases (outcome_ok h).symm.trans hx

theorem outcome_onMain (y : StackM α) (s : Stacks) : outcome (onMain y) s = outcome y s.main := by
  unfold outcome onMain
  cases y s.main <;> rfl

theorem outcome_above_of_breaks {e : Failure} (hy : Breaks y s.main.items e)
    (hmain : s.main.size ≤ s.main.capacity) (room : Nat) :
    outcome (onMain y) (s.above [] room) = .error e := by
  obtain ⟨t, ht⟩ := hy (Nat.le_add_right_of_le hmain : s.main.items.length ≤ _ + room)
  rw [outcome_onMain, Stacks.above_nil]
  exact outcome_error ht

theorem Fate.ends_onMain (h : Fate y operands results s.main.items)
    (hmain : s.main.size ≤ s.main.capacity) (halt : s.alt.size ≤ s.alt.capacity) :
    Ends (onMain y) ⟨operands, results, 0, 0⟩ s := by
  cases h with
  | short hshort hy =>
    exact .fails (e := .stackUnderflow) (fun _ => nofun) (iff_of_true rfl (.inl hshort))
      (outcome_above_of_breaks hy hmain)
  | @unfit e hfit he hy =>
    apply Ends.fails _ _ (outcome_above_of_breaks hy hmain)
    · rintro capacity rfl
      cases he
    · apply iff_of_false
      · rintro rfl
        cases he
      · exact not_or.mpr ⟨Nat.not_lt.mpr hfit, Nat.not_lt_zero _⟩
  | @turns a out hfit hout hy =>
    have hok (room : Nat) (hroom : out.length ≤ s.main.capacity + room)
        (_ : s.alt.items.length ≤ s.alt.capacity + room) : onMain y (s.above [] room) =
          .ok a ⟨⟨out, s.main.capacity + room⟩, ⟨s.alt.items, s.alt.capacity + room⟩⟩ := by
      have hsize : s.main.items.length ≤ s.main.capacity + room := Nat.le_add_right_of_le hmain
      rw [Stacks.above_nil]
      exact onMain_ok (hy.ok hsize hroom)
    apply Ends.settles ⟨hfit, Nat.zero_le _⟩ hout rfl hok
    rintro capacity (⟨rfl, hfull⟩ | ⟨rfl, hfull⟩)
    · obtain ⟨t, ht⟩ := hy.overflow hmain hfull
      rw [outcome_onMain]
      exact outcome_error ht
    · exact absurd halt (Nat.not_le.mpr hfull)

theorem outcome_seqRight (x : StacksM α) (b : β) (s : Stacks) :
    outcome (x *> (pure b : StacksM β)) s = (outcome x s).map fun _ => b := by
  rw [seqRight_eq_bind]
  cases h : x s with
  | ok a t =>
    have hpure : (x >>= fun _ => (pure b : StacksM β)) s = .ok b t := bind_ok h
    rw [outcome_ok h, outcome_ok hpure]
    rfl
  | error e t =>
    rw [outcome_error h, outcome_error (bind_error h)]
    rfl

theorem Ends.seqRight {x : StacksM α} (h : Ends x effect s) (b : β) :
    Ends (x *> (pure b : StacksM β)) effect s := by
  cases h with
  | fails he hshort hx =>
    refine .fails he hshort fun room => ?_
    rw [outcome_seqRight, hx room]
    rfl
  | settles hfit hmain halt hok hover =>
    apply Ends.settles (a := b) hfit hmain halt
    case hok =>
      intro room hroom hroom'
      rw [seqRight_eq_bind, bind_ok (hok room hroom hroom')]
      rfl
    case hover =>
      intro capacity hfull
      rw [outcome_seqRight, hover capacity hfull]
      rfl

end

namespace Operation

variable {op : UInt8} {width : Nat} {b : Bool} {s : Stacks}
  (hmain : s.main.size ≤ s.main.capacity) (halt : s.alt.size ≤ s.alt.capacity)

include hmain halt

theorem runFlow_ends (h : Opcode.category op = .flow) :
    Ends (onMain (runFlow op)) (Opcode.effect op b) s := by
  have hop : op ∈ [0x61, 0x69, 0x6a, 0xb0, 0xb3, 0xb4, 0xb5, 0xb6, 0xb7, 0xb8, 0xb9] :=
    Opcode.of_category (P := (· ∈ _)) (by decide +kernel) (by decide) (by decide) h
  simp only [List.mem_cons, List.not_mem_nil, or_false] at hop
  obtain rfl | rfl | rfl | rfl | rfl | rfl | rfl | rfl | rfl | rfl | rfl := hop
  all_goals first
    | exact FlowOp.nop_fate.ends_onMain hmain halt
    | exact FlowOp.verify_fate.ends_onMain hmain halt
    | exact FlowOp.giveUp_fate.ends_onMain hmain halt

theorem moveToAlt_ends : Ends moveToAlt ⟨1, 0, 0, 1⟩ s := by
  cases hs : s.main.items with
  | nil =>
    apply Ends.fails (e := .stackUnderflow) (fun _ => nofun)
    case hshort => exact iff_of_true rfl (.inl (by simp [Stack.size, hs]))
    case hx =>
      intro room
      rw [Stacks.above_nil, hs]
      exact outcome_error (bind_error (onMain_error (Stack.pop_nil _)))
  | cons x rest =>
    have hsize : s.main.size = rest.length + 1 := congrArg List.length hs
    have hpush := Turns.push x s.alt.items
    have hok (room : Nat) (_ : rest.length ≤ s.main.capacity + room)
        (hroom : (x :: s.alt.items).length ≤ s.alt.capacity + room) : moveToAlt (s.above [] room) =
          .ok () ⟨⟨rest, s.main.capacity + room⟩, ⟨x :: s.alt.items, s.alt.capacity + room⟩⟩ := by
      rw [Stacks.above_nil, hs]
      exact (moveToAlt_of_cons rfl).trans (onAlt_ok (hpush.ok (Nat.le_of_succ_le hroom) hroom))
    apply Ends.settles ⟨hsize ▸ Nat.succ_pos _, Nat.zero_le _⟩ hsize.symm rfl hok
    rintro capacity (⟨rfl, hfull⟩ | ⟨rfl, hfull⟩)
    · omega
    · obtain ⟨t, ht⟩ := hpush.overflow halt hfull
      exact outcome_error ((moveToAlt_of_cons hs).trans (onAlt_error ht))

theorem moveFromAlt_ends : Ends moveFromAlt ⟨0, 1, 1, 0⟩ s := by
  cases hs : s.alt.items with
  | nil =>
    apply Ends.fails (e := .stackUnderflow) (fun _ => nofun)
    case hshort => exact iff_of_true rfl (.inr (by simp [Stack.size, hs]))
    case hx =>
      intro room
      rw [Stacks.above_nil, hs]
      exact outcome_error (bind_error (onAlt_error (Stack.pop_nil _)))
  | cons x rest =>
    have hsize : s.alt.size = rest.length + 1 := congrArg List.length hs
    have hpush := Turns.push x s.main.items
    have hok (room : Nat) (hroom : (x :: s.main.items).length ≤ s.main.capacity + room)
        (_ : rest.length ≤ s.alt.capacity + room) : moveFromAlt (s.above [] room) =
          .ok () ⟨⟨x :: s.main.items, s.main.capacity + room⟩, ⟨rest, s.alt.capacity + room⟩⟩ := by
      rw [Stacks.above_nil, hs]
      exact (moveFromAlt_of_cons rfl).trans (onMain_ok (hpush.ok (Nat.le_of_succ_le hroom) hroom))
    apply Ends.settles ⟨Nat.zero_le _, hsize ▸ Nat.succ_pos _⟩ rfl hsize.symm hok
    rintro capacity (⟨rfl, hfull⟩ | ⟨rfl, hfull⟩)
    · obtain ⟨t, ht⟩ := hpush.overflow hmain hfull
      exact outcome_error ((moveFromAlt_of_cons hs).trans (onMain_error ht))
    · omega

theorem runStack_ends (h : Opcode.category op = .stack) :
    Ends (runStack op width) (Opcode.effect op s.main.topIsTrue) s := by
  have hsome : (StackOp.ofByte? op).isSome = true :=
    Opcode.of_category (P := fun op => (StackOp.ofByte? op).isSome = true) (by decide +kernel)
      (by decide) (by decide) h
  obtain ⟨o, ho⟩ := Option.isSome_iff_exists.mp hsome
  clear h hsome
  unfold StackOp.ofByte? at ho
  split at ho <;> cases ho
  case h_1 => exact moveToAlt_ends hmain halt
  case h_2 => exact moveFromAlt_ends hmain halt
  case h_3 => exact drop2_fate.ends_onMain hmain halt
  case h_4 => exact dup2_fate.ends_onMain hmain halt
  case h_5 => exact dup3_fate.ends_onMain hmain halt
  case h_6 => exact over2_fate.ends_onMain hmain halt
  case h_7 => exact rot2_fate.ends_onMain hmain halt
  case h_8 => exact swap2_fate.ends_onMain hmain halt
  case h_9 => exact ifDup_fate.ends_onMain hmain halt
  case h_10 => exact depth_fate.ends_onMain hmain halt
  case h_11 => exact drop1_fate.ends_onMain hmain halt
  case h_12 => exact dup1_fate.ends_onMain hmain halt
  case h_13 => exact nip_fate.ends_onMain hmain halt
  case h_14 => exact over1_fate.ends_onMain hmain halt
  case h_15 => exact pick_fate.ends_onMain hmain halt
  case h_16 => exact roll_fate.ends_onMain hmain halt
  case h_17 => exact rot1_fate.ends_onMain hmain halt
  case h_18 => exact swap1_fate.ends_onMain hmain halt
  case h_19 => exact tuck_fate.ends_onMain hmain halt

theorem runSplice_ends (h : Opcode.category op = .splice) :
    Ends (onMain (runSplice op)) (Opcode.effect op b) s := by
  have hop : op = 0x82 :=
    Opcode.of_category (P := (· = 0x82)) (by decide +kernel) (by decide) (by decide) h
  subst hop
  exact pushSize_fate.ends_onMain hmain halt

theorem runBitwise_ends (h : Opcode.category op = .bitwise) :
    Ends (onMain (runBitwise op)) (Opcode.effect op b) s := by
  have hop : op ∈ [0x87, 0x88] :=
    Opcode.of_category (P := (· ∈ _)) (by decide +kernel) (by decide) (by decide) h
  simp only [List.mem_cons, List.not_mem_nil, or_false] at hop
  obtain rfl | rfl := hop
  · exact BitwiseOp.equal_fate.ends_onMain hmain halt
  · exact BitwiseOp.equalVerify_fate.ends_onMain hmain halt

theorem runArithmetic_ends (h : Opcode.category op = .arithmetic) :
    Ends (onMain (runArithmetic op width)) (Opcode.effect op b) s := by
  have hsome : (ArithmeticOp.ofByte? op).isSome = true :=
    Opcode.of_category (P := fun op => (ArithmeticOp.ofByte? op).isSome = true) (by decide +kernel)
      (by decide) (by decide) h
  obtain ⟨o, ho⟩ := Option.isSome_iff_exists.mp hsome
  clear h hsome
  unfold ArithmeticOp.ofByte? at ho
  split at ho <;> cases ho
  all_goals first
    | exact (SignOp.fate _).ends_onMain hmain halt
    | exact (UnaryOp.fate _).ends_onMain hmain halt
    | exact (LogicOp.fate _).ends_onMain hmain halt
    | exact (BinaryOp.fate _).ends_onMain hmain halt
    | exact within_fate.ends_onMain hmain halt

theorem runCrypto_ends (h : Opcode.category op = .crypto) :
    Ends (onMain (runCrypto op)) (Opcode.effect op b) s := by
  have hop : op ∈ [0xa6, 0xa7, 0xa8, 0xa9, 0xaa, 0xab] :=
    Opcode.of_category (P := (· ∈ _)) (by decide +kernel) (by decide) (by decide) h
  simp only [List.mem_cons, List.not_mem_nil, or_false] at hop
  obtain rfl | rfl | rfl | rfl | rfl | rfl := hop
  all_goals first
    | exact (hashTop_fate _).ends_onMain hmain halt
    | exact CryptoOp.separator_fate.ends_onMain hmain halt

end Operation

open Operation in
theorem runInstruction_ends {limits : ScriptLimits} {op : UInt8} {rest : Bytes} {s : Stacks}
    (hop : Opcode.category op ∉ [.unimplemented, .disabled, .reserved, .unassigned])
    (hmain : s.main.size ≤ s.main.capacity) (halt : s.alt.size ≤ s.alt.capacity) :
    Ends (runInstruction limits op rest) (Opcode.effect op s.main.topIsTrue) s := by
  unfold runInstruction
  cases hc : Opcode.category op with
  | constant =>
    rw [Opcode.effect_of_constant hc]
    exact (runConstant_fate rest limits.elementSize).ends_onMain hmain halt
  | flow => exact (runFlow_ends hmain halt hc).seqRight 0
  | stack => exact (runStack_ends hmain halt hc).seqRight 0
  | splice => exact (runSplice_ends hmain halt hc).seqRight 0
  | bitwise => exact (runBitwise_ends hmain halt hc).seqRight 0
  | arithmetic => exact (runArithmetic_ends hmain halt hc).seqRight 0
  | crypto => exact (runCrypto_ends hmain halt hc).seqRight 0
  | _ =>
    rw [hc] at hop
    exact absurd hop (by decide)

/-- Every opcode that has a handler reports too few and too many items exactly: by the number of its
operands and by the depth that it would leave, and never for what it does in between. -/
theorem runInstruction_depthExact (limits : ScriptLimits) {op : UInt8} (rest : Bytes) {s : Stacks}
    (hop : Opcode.category op ∉ [.unimplemented, .disabled, .reserved, .unassigned])
    (hmain : s.main.size ≤ s.main.capacity) (halt : s.alt.size ≤ s.alt.capacity) :
    DepthExact (runInstruction limits op rest) (Opcode.effect op s.main.topIsTrue) s :=
  (runInstruction_ends hop hmain halt).exact hmain halt

theorem runInstruction_depthExact_full :
    let s : Stacks := ⟨⟨[[2], [1]], 2⟩, ⟨[], 0⟩⟩
    outcome (runInstruction {} 0x7d []) s = .error (.stackOverflow 2) ∧
      outcome (runInstruction {} 0x7b []) s = .error .stackUnderflow ∧
      ∀ capacity, outcome (runInstruction {} 0x7c []) s ≠ .error (.stackOverflow capacity) := by
  intro s
  have hmain : s.main.size ≤ s.main.capacity := by decide
  have halt : s.alt.size ≤ s.alt.capacity := by decide
  have htuck : ∃ room a, outcome (runInstruction {} 0x7d []) (s.above [] room) = .ok a :=
    ⟨1, 0, by decide⟩
  refine ⟨?tuck, ?rot, ?swap⟩
  case tuck =>
    exact ((runInstruction_depthExact {} [] (by decide) hmain halt).overflow_iff 2).mpr
      ⟨htuck, .inl (by decide)⟩
  case rot =>
    exact (runInstruction_depthExact {} [] (by decide) hmain halt).underflow_iff.mpr
      (.inl (by decide))
  case swap =>
    exact (runInstruction_depthExact {} [] (by decide) hmain halt).not_overflow (by decide)
      (by decide)

end ScriptLedger.Script
