import Mathlib.Algebra.GroupWithZero.Nat
import ScriptLedger.Proofs.Script.Overflow
import ScriptLedger.Proofs.Script.PushForm

namespace ScriptLedger

open Stateful

/-- Two computations that end alike: both leave the same state, and if they fail, they do so in the
same way or reject, each for a cause of its own. -/
inductive EndsAlike {σ α : Type} :
    EStateM.Result Failure σ α → EStateM.Result Failure σ α → Prop where
  | ok (a : α) (s : σ) : EndsAlike (.ok a s) (.ok a s)
  | failed (e : Failure) (s : σ) : EndsAlike (.error e s) (.error e s)
  | rejected (cause cause' : Rejection) (s : σ) :
      EndsAlike (.error (.scriptInvalid cause) s) (.error (.scriptInvalid cause') s)

theorem EndsAlike.bind {σ α β : Type} {x : Stateful σ α} {f g : α → Stateful σ β} {s : σ}
    (h : ∀ a t, x s = .ok a t → EndsAlike (f a t) (g a t)) :
    EndsAlike ((x >>= f) s) ((x >>= g) s) := by
  cases hx : x s with
  | ok a t =>
    rw [bind_ok hx, bind_ok hx]
    exact h a t hx
  | error e t =>
    rw [bind_error hx, bind_error hx]
    exact .failed e t

theorem EndsAlike.onMain {α : Type} {x y : Script.StackM α} {s : Script.Stacks}
    (h : EndsAlike (x s.main) (y s.main)) :
    EndsAlike (Script.onMain x s) (Script.onMain y s) := by
  unfold Script.onMain
  generalize x s.main = r, y s.main = r' at h
  cases h with
  | ok a t => exact .ok a _
  | failed e t => exact .failed e _
  | rejected cause cause' t => exact .rejected cause cause' _

namespace Script

open Operation

variable {limits : ScriptLimits} {op : UInt8} {ops ops' : List UInt8} {s : Stacks} {u : Stack}
  {items mid out before after below : List Bytes} {capacity width : Nat}

/-- Runs opcodes that carry no data, one after the other. -/
def runOpcodes (limits : ScriptLimits) : List UInt8 → StacksM Unit
  | [] => pure ()
  | op :: ops => do
    let _ ← runInstruction limits op []
    runOpcodes limits ops

theorem runOpcodes_append (limits : ScriptLimits) (ops ops' : List UInt8) :
    runOpcodes limits (ops ++ ops') =
      (runOpcodes limits ops >>= fun _ => runOpcodes limits ops') := by
  induction ops with
  | nil => rfl
  | cons op ops ih =>
    rw [List.cons_append, runOpcodes, ih, runOpcodes, bind_assoc]

/-- A script of opcodes without data runs them one after the other, as long as it is not stopped for
too many operations. -/
theorem runFrom_opcodes (position operations : Nat) (fetched : List Fetch)
    (hbare : ∀ op ∈ ops, Push.read? op [] = .ok none)
    (hroom : operations + ops.length ≤ limits.operations) (s : Stacks) :
    let r := runFrom limits position operations fetched ops s
    r.outcome = outcome (runOpcodes limits ops) s ∧
      r.state = Stateful.after (runOpcodes limits ops) s := by
  induction ops generalizing position operations fetched s with
  | nil =>
    rw [runFrom]
    exact ⟨rfl, rfl⟩
  | cons op ops ih =>
    obtain ⟨hop, hops⟩ := List.forall_mem_cons.mp hbare
    rw [List.length_cons] at hroom
    have hcount := countOperation_le op operations
    have hwithin : ¬ limits.operations < countOperation op operations := by omega
    have halone : runInstruction limits op ops = runInstruction limits op [] :=
      runInstruction_append hop ops
    rw [runOpcodes]
    cases hrun : runInstruction limits op [] s with
    | error e t =>
      rw [← halone] at hrun
      rw [runFrom_error limits hwithin hrun, ← halone, outcome_error (bind_error hrun),
        after_error (bind_error hrun)]
      exact ⟨rfl, rfl⟩
    | ok taken t =>
      obtain ⟨push, hread, rfl⟩ := runInstruction_taken hrun
      cases hop.symm.trans hread
      rw [← halone] at hrun
      rw [runFrom_ok limits hwithin hrun, ← halone, outcome_congr (bind_ok hrun),
        after_congr (bind_ok hrun)]
      exact ih _ _ _ hops (by omega) t

abbrev Opcode.Does (limits : ScriptLimits) (op : UInt8) (x : StackM Unit) : Prop :=
  runInstruction limits op [] = onMain x *> pure 0

theorem onMain_bind {α β : Type} (x : StackM α) (f : α → StackM β) :
    onMain (x >>= f) = (onMain x >>= fun a => onMain (f a)) := by
  funext s
  cases hx : x s.main with
  | ok a t =>
    rw [bind_ok (onMain_ok hx)]
    simp only [onMain, bind_ok hx]
  | error e t => rw [bind_error (onMain_error hx), onMain_error (bind_error hx)]

theorem runOpcodes_singleton {x : StackM Unit} (h : Opcode.Does limits op x) :
    runOpcodes limits [op] = onMain x := by
  rw [runOpcodes, h, runOpcodes, seqRight_eq_bind, bind_assoc]
  exact bind_pure _

theorem runOpcodes_pair {op' : UInt8} {x y : StackM Unit} (hx : Opcode.Does limits op x)
    (hy : Opcode.Does limits op' y) : runOpcodes limits [op, op'] = onMain (x >>= fun _ => y) := by
  have happend := runOpcodes_append limits [op] [op']
  rwa [runOpcodes_singleton hx, runOpcodes_singleton hy, ← onMain_bind] at happend

namespace Operation

theorem pop_eq_ok {t : Stack} {item : Bytes} (h : Stack.pop u = .ok item t) :
    u = ⟨item :: t.items, t.capacity⟩ := by
  obtain ⟨items, capacity⟩ := u
  cases items with
  | nil => cases h
  | cons item' rest =>
    cases h
    rfl

/-- A truth value that is pushed and checked is a check. -/
theorem alike_of_test {p : Prop} [Decidable p] {b : Bool} (hb : b = true ↔ p) (cause : Rejection)
    (hroom : u.size < u.capacity) :
    EndsAlike ((if p then pure () else throw (.scriptInvalid cause) : StackM Unit) u)
      ((Stack.pushBool b >>= fun _ => FlowOp.run .verify) u) := by
  have hpush : Stack.pushBool b u = .ok () ⟨[if b then 1 else 0] :: u.items, u.capacity⟩ :=
    Stack.push_of_room hroom _
  rw [bind_ok hpush]
  by_cases hp : p
  case pos =>
    rw [if_pos hp, hb.mpr hp]
    exact .ok () u
  case neg =>
    rw [if_neg hp, Bool.eq_false_iff.mpr (mt hb.mp hp)]
    exact .rejected cause .verify u

theorem equalVerify_alike (h : u.size ≤ u.capacity) :
    EndsAlike (BitwiseOp.run .equalVerify u)
      ((BitwiseOp.run .equal >>= fun _ => FlowOp.run .verify) u) := by
  simp only [BitwiseOp.run, bind_assoc]
  apply EndsAlike.bind
  intro _ t hrequire
  obtain rfl := require_eq_ok hrequire
  apply EndsAlike.bind
  intro b t hb
  obtain rfl := pop_eq_ok hb
  apply EndsAlike.bind
  intro a v ha
  obtain rfl := pop_eq_ok ha
  exact alike_of_test beq_iff_eq _ (Nat.lt_of_succ_lt h)

theorem numEqualVerify_alike (h : u.size ≤ u.capacity) :
    EndsAlike (BinaryOp.run .equalVerify width u)
      ((BinaryOp.run .equal width >>= fun _ => FlowOp.run .verify) u) := by
  simp only [BinaryOp.run, BinaryOp.pushResult, bind_assoc]
  apply EndsAlike.bind
  intro _ t hrequire
  obtain rfl := require_eq_ok hrequire
  apply EndsAlike.bind
  intro b t hb
  obtain ⟨_, rfl, _⟩ := popNumber_eq_ok hb
  apply EndsAlike.bind
  intro a v ha
  obtain ⟨_, rfl, _⟩ := popNumber_eq_ok ha
  exact alike_of_test beq_iff_eq _ (Nat.lt_of_succ_lt h)

/-- A digest of a digest is one digest of the item, with the same need for room. -/
theorem hashTop_hashTop {m n : Nat} (digest : Bytes → Digest m) (digest' : Bytes → Digest n) :
    (hashTop digest >>= fun _ => hashTop digest') =
      hashTop fun item => digest' (digest item).bytes := by
  funext u
  obtain ⟨items, capacity⟩ := u
  cases items with
  | nil => rfl
  | cons item rest =>
    simp only [hashTop, bind_assoc]
    rw [bind_ok (Stack.pop_cons item rest capacity), bind_ok (Stack.pop_cons item rest capacity)]
    by_cases hroom : (⟨rest, capacity⟩ : Stack).size < capacity
    case pos =>
      have hpush (bytes : Bytes) :
          Stack.push bytes ⟨rest, capacity⟩ = .ok () ⟨bytes :: rest, capacity⟩ :=
        Stack.push_of_room hroom bytes
      rw [bind_ok (hpush _), bind_ok (Stack.pop_cons _ _ _), hpush]
    case neg =>
      have hpush (bytes : Bytes) :
          Stack.push bytes ⟨rest, capacity⟩ = .error (.stackOverflow capacity) ⟨rest, capacity⟩ :=
        Stack.push_of_full (Nat.not_lt.mp hroom) bytes
      rw [bind_error (hpush _), hpush]

end Operation

theorem Opcode.category_ofNumber {n : Int} (hlow : -1 ≤ n) (hhigh : n ≤ 16) :
    category (ofNumber n) = .constant := by
  interval_cases n <;> rfl

/-- Opcodes that turn the items on the main stack into others and leave the alt stack alone. -/
def Leads (limits : ScriptLimits) (capacity : Nat) (ops : List UInt8) (items out : List Bytes) :
    Prop :=
  ∀ alt, runOpcodes limits ops ⟨⟨items, capacity⟩, alt⟩ = .ok () ⟨⟨out, capacity⟩, alt⟩

namespace Leads

theorem append (h : Leads limits capacity ops items mid) (h' : Leads limits capacity ops' mid out) :
    Leads limits capacity (ops ++ ops') items out := by
  intro alt
  rw [runOpcodes_append, bind_ok (h alt)]
  exact h' alt

theorem of_turns {x : StackM Unit} (hop : Opcode.Does limits op x) (h : Turns x items () out)
    (hin : items.length ≤ capacity) (hout : out.length ≤ capacity) :
    Leads limits capacity [op] items out := by
  intro alt
  rw [runOpcodes_singleton hop]
  exact onMain_ok (h.ok hin hout)

theorem shuffle (before after below : List Bytes) (hop : Opcode.category op = .stack)
    (h : Operation.shuffle? op before = some after)
    (hin : below.length + before.length ≤ capacity)
    (hout : below.length + after.length ≤ capacity) :
    Leads limits capacity [op] (before.reverse ++ below) (after.reverse ++ below) := by
  obtain ⟨x, hx, hturns⟩ := Operation.exists_turns_of_shuffle h limits.numberWidth below
  have hdoes : Opcode.Does limits op x := by
    rw [Opcode.Does, runInstruction, hop, ← hx]
  apply of_turns hdoes hturns
  · rwa [List.length_append, List.length_reverse, Nat.add_comm]
  · rwa [List.length_append, List.length_reverse, Nat.add_comm]

theorem number {n : Int} (hlow : -1 ≤ n) (hhigh : n ≤ 16) (hroom : items.length < capacity) :
    Leads limits capacity [Opcode.ofNumber n] items (Number.encode n :: items) := by
  intro alt
  have hsize : (⟨items, capacity⟩ : Stack).size < (⟨items, capacity⟩ : Stack).capacity := hroom
  have hrun : Operation.runConstant (Opcode.ofNumber n) [] limits.elementSize ⟨items, capacity⟩ =
      .ok 0 ⟨Number.encode n :: items, capacity⟩ := by
    rw [Operation.runConstant_ofNumber _ _ hlow hhigh, if_pos hsize, Stack.withItems, Stack.toList,
      List.reverse_append, List.reverse_reverse]
    rfl
  have hstep : runInstruction limits (Opcode.ofNumber n) [] ⟨⟨items, capacity⟩, alt⟩ =
      .ok 0 ⟨⟨Number.encode n :: items, capacity⟩, alt⟩ := by
    rw [runInstruction, Opcode.category_ofNumber hlow hhigh]
    exact onMain_ok (s := ⟨⟨items, capacity⟩, alt⟩) hrun
  exact bind_ok hstep

theorem decode_encode_index {n : Nat} (hn : n ≤ 16) (hwidth : 1 ≤ width) :
    Number.decode width (Number.encode n) = .ok (n : Int) := by
  have hlength : (Number.encode n).length ≤ 1 := Number.length_encode_le_of_lt (k := 0) (by omega)
  exact Number.decode_eq_ok_iff.mpr ⟨by omega, Number.value_encode n⟩

theorem pick (n : Nat) (upper : List Bytes) (item : Bytes) (lower : List Bytes)
    (hlength : upper.length = n) (hn : n ≤ 16) (hwidth : 1 ≤ limits.numberWidth)
    (hroom : (upper ++ item :: lower).length < capacity) :
    Leads limits capacity [Opcode.ofNumber n, 0x79] (upper ++ item :: lower)
      (item :: (upper ++ item :: lower)) := by
  subst hlength
  have hturns : Turns (Operation.pick limits.numberWidth) _ () (item :: (upper ++ item :: lower)) :=
    Operation.pick_turns (decode_encode_index hn hwidth)
  exact (number (by omega) (by omega) hroom).append
    (of_turns rfl hturns hroom hroom)

theorem roll (n : Nat) (upper : List Bytes) (item : Bytes) (lower : List Bytes)
    (hlength : upper.length = n) (hn : n ≤ 16) (hwidth : 1 ≤ limits.numberWidth)
    (hroom : (upper ++ item :: lower).length < capacity) :
    Leads limits capacity [Opcode.ofNumber n, 0x7a] (upper ++ item :: lower)
      (item :: (upper ++ lower)) := by
  subst hlength
  have hturns : Turns (Operation.roll limits.numberWidth) _ () (item :: (upper ++ lower)) :=
    Operation.roll_turns (decode_encode_index hn hwidth)
  apply (number (by omega) (by omega) hroom).append
  apply of_turns rfl hturns hroom
  rw [List.length_append, List.length_cons] at hroom
  rw [List.length_cons, List.length_append]
  omega

end Leads

/-- Other opcodes that do the same to the items on top of the main stack, as long as that holds the
operands and has some room. -/
structure Abbreviation where
  opcodes : List UInt8
  operands : Nat
  room : Nat

namespace Opcode

def checked? : UInt8 → Option (List UInt8)
  | 0x88 => some [0x87, 0x69]
  | 0x9d => some [0x9c, 0x69]
  | _ => none

def hashed? : UInt8 → Option (List UInt8)
  | 0xa9 => some [0xa8, 0xa6]
  | 0xaa => some [0xa8, 0xa8]
  | _ => none

def moved? : UInt8 → Option Abbreviation
  | 0x6e => some ⟨[0x78, 0x78], 2, 2⟩
  | 0x71 => some ⟨[ofNumber 5, 0x7a, ofNumber 5, 0x7a], 6, 1⟩
  | 0x72 => some ⟨[ofNumber 3, 0x7a, ofNumber 3, 0x7a], 4, 1⟩
  | 0x76 => some ⟨[ofNumber 0, 0x79], 1, 1⟩
  | 0x77 => some ⟨[0x7c, 0x75], 2, 0⟩
  | 0x78 => some ⟨[ofNumber 1, 0x79], 2, 1⟩
  | 0x7b => some ⟨[ofNumber 2, 0x7a], 3, 1⟩
  | 0x7c => some ⟨[ofNumber 1, 0x7a], 2, 1⟩
  | 0x7d => some ⟨[0x7c, 0x78], 2, 1⟩
  | _ => none

/-- How often an opcode runs until the items are back where they were, and how many it moves. -/
def period? : UInt8 → Option (Nat × Nat)
  | 0x71 => some (3, 6)
  | 0x72 => some (2, 4)
  | 0x7b => some (3, 3)
  | 0x7c => some (2, 2)
  | _ => none

end Opcode

namespace Leads

variable {a : Abbreviation} {n operands : Nat}

theorem swap1 (x₁ x₂ : Bytes) (below : List Bytes) (hroom : below.length + 2 ≤ capacity) :
    Leads limits capacity [0x7c] (x₂ :: x₁ :: below) (x₁ :: x₂ :: below) :=
  shuffle [x₁, x₂] [x₂, x₁] below rfl rfl hroom hroom

theorem dup2 (x₁ x₂ : Bytes) (below : List Bytes) (hroom : below.length + 4 ≤ capacity) :
    Leads limits capacity [0x6e] (x₂ :: x₁ :: below) (x₂ :: x₁ :: x₂ :: x₁ :: below) :=
  shuffle [x₁, x₂] [x₁, x₂, x₁, x₂] below rfl rfl (Nat.le_of_add_right_le (k := 2) hroom) hroom

theorem over1 (x₁ x₂ : Bytes) (below : List Bytes) (hroom : below.length + 3 ≤ capacity) :
    Leads limits capacity [0x78] (x₂ :: x₁ :: below) (x₁ :: x₂ :: x₁ :: below) :=
  shuffle [x₁, x₂] [x₁, x₂, x₁] below rfl rfl (Nat.le_of_succ_le hroom) hroom

theorem of_moved (h : Opcode.moved? op = some a) (hlength : before.length = a.operands)
    (hwidth : 1 ≤ limits.numberWidth) (below : List Bytes)
    (hroom : below.length + (a.operands + a.room) ≤ capacity) :
    ∃ out, Leads limits capacity [op] (before.reverse ++ below) out ∧
      Leads limits capacity a.opcodes (before.reverse ++ below) out := by
  have fits (n : Nat) (hn : n ≤ a.operands + a.room) : below.length + n ≤ capacity :=
    Nat.le_trans (Nat.add_le_add_left hn _) hroom
  -- The operands are named bottom first, as in the table of shuffles; an index counts from the top.
  unfold Opcode.moved? at h
  split at h <;> cases h
  case h_1 =>
    match before, hlength with
    | [x₁, x₂], _ =>
      have hall := fits 4 (by decide)
      exact ⟨_, dup2 x₁ x₂ below hall,
        (over1 x₁ x₂ below (fits 3 (by decide))).append (over1 x₂ x₁ (x₁ :: below) hall)⟩
  case h_2 =>
    match before, hlength with
    | [x₁, x₂, x₃, x₄, x₅, x₆], _ =>
      have hin := fits 6 (by decide)
      have hall := fits 7 (by decide)
      exact ⟨_, shuffle [x₁, x₂, x₃, x₄, x₅, x₆] [x₃, x₄, x₅, x₆, x₁, x₂] below rfl rfl hin hin,
        (roll 5 [x₆, x₅, x₄, x₃, x₂] x₁ below rfl (by decide) hwidth hall).append
          (roll 5 [x₁, x₆, x₅, x₄, x₃] x₂ below rfl (by decide) hwidth hall)⟩
  case h_3 =>
    match before, hlength with
    | [x₁, x₂, x₃, x₄], _ =>
      have hin := fits 4 (by decide)
      have hall := fits 5 (by decide)
      exact ⟨_, shuffle [x₁, x₂, x₃, x₄] [x₃, x₄, x₁, x₂] below rfl rfl hin hin,
        (roll 3 [x₄, x₃, x₂] x₁ below rfl (by decide) hwidth hall).append
          (roll 3 [x₁, x₄, x₃] x₂ below rfl (by decide) hwidth hall)⟩
  case h_4 =>
    match before, hlength with
    | [x], _ =>
      exact ⟨_, shuffle [x] [x, x] below rfl rfl (fits 1 (by decide)) (fits 2 (by decide)),
        pick 0 [] x below rfl (by decide) hwidth (fits 2 (by decide))⟩
  case h_5 =>
    match before, hlength with
    | [x₁, x₂], _ =>
      have hin := fits 2 (by decide)
      have hout := fits 1 (by decide)
      exact ⟨_, shuffle [x₁, x₂] [x₂] below rfl rfl hin hout,
        (swap1 x₁ x₂ below hin).append (shuffle [x₁] [] (x₂ :: below) rfl rfl hin hout)⟩
  case h_6 =>
    match before, hlength with
    | [x₁, x₂], _ =>
      have hall := fits 3 (by decide)
      exact ⟨_, over1 x₁ x₂ below hall, pick 1 [x₂] x₁ below rfl (by decide) hwidth hall⟩
  case h_7 =>
    match before, hlength with
    | [x₁, x₂, x₃], _ =>
      have hin := fits 3 (by decide)
      exact ⟨_, shuffle [x₁, x₂, x₃] [x₂, x₃, x₁] below rfl rfl hin hin,
        roll 2 [x₃, x₂] x₁ below rfl (by decide) hwidth (fits 4 (by decide))⟩
  case h_8 =>
    match before, hlength with
    | [x₁, x₂], _ =>
      exact ⟨_, swap1 x₁ x₂ below (fits 2 (by decide)),
        roll 1 [x₂] x₁ below rfl (by decide) hwidth (fits 3 (by decide))⟩
  case h_9 =>
    match before, hlength with
    | [x₁, x₂], _ =>
      have hin := fits 2 (by decide)
      have hall := fits 3 (by decide)
      exact ⟨_, shuffle [x₁, x₂] [x₂, x₁, x₂] below rfl rfl hin hall,
        (swap1 x₁ x₂ below hin).append (over1 x₂ x₁ below hall)⟩

theorem of_period (h : Opcode.period? op = some (n, operands))
    (hlength : before.length = operands) (below : List Bytes)
    (hroom : below.length + operands ≤ capacity) :
    Leads limits capacity (List.replicate n op) (before.reverse ++ below)
      (before.reverse ++ below) := by
  unfold Opcode.period? at h
  split at h <;> cases h
  case h_1 =>
    match before, hlength with
    | [x₁, x₂, x₃, x₄, x₅, x₆], _ =>
      have hturn (x₁ x₂ x₃ x₄ x₅ x₆ : Bytes) : Leads limits capacity [0x71]
          (x₆ :: x₅ :: x₄ :: x₃ :: x₂ :: x₁ :: below)
          (x₂ :: x₁ :: x₆ :: x₅ :: x₄ :: x₃ :: below) :=
        shuffle [x₁, x₂, x₃, x₄, x₅, x₆] [x₃, x₄, x₅, x₆, x₁, x₂] below rfl rfl hroom hroom
      exact (hturn _ _ _ _ _ _).append ((hturn _ _ _ _ _ _).append (hturn _ _ _ _ _ _))
  case h_2 =>
    match before, hlength with
    | [x₁, x₂, x₃, x₄], _ =>
      have hturn (x₁ x₂ x₃ x₄ : Bytes) : Leads limits capacity [0x72]
          (x₄ :: x₃ :: x₂ :: x₁ :: below) (x₂ :: x₁ :: x₄ :: x₃ :: below) :=
        shuffle [x₁, x₂, x₃, x₄] [x₃, x₄, x₁, x₂] below rfl rfl hroom hroom
      exact (hturn _ _ _ _).append (hturn _ _ _ _)
  case h_3 =>
    match before, hlength with
    | [x₁, x₂, x₃], _ =>
      have hturn (x₁ x₂ x₃ : Bytes) : Leads limits capacity [0x7b] (x₃ :: x₂ :: x₁ :: below)
          (x₁ :: x₃ :: x₂ :: below) :=
        shuffle [x₁, x₂, x₃] [x₂, x₃, x₁] below rfl rfl hroom hroom
      exact (hturn _ _ _).append ((hturn _ _ _).append (hturn _ _ _))
  case h_4 =>
    match before, hlength with
    | [x₁, x₂], _ => exact (swap1 x₁ x₂ below hroom).append (swap1 x₂ x₁ below hroom)

end Leads

theorem exists_named {n : Nat} (h : n ≤ items.length) :
    ∃ before below : List Bytes, before.length = n ∧ items = before.reverse ++ below := by
  refine ⟨(items.take n).reverse, items.drop n, ?_, ?_⟩
  · rw [List.length_reverse, List.length_take_of_le h]
  · rw [List.reverse_reverse, List.take_append_drop]

theorem checked_alike (h : Opcode.checked? op = some ops) (hmain : s.main.size ≤ s.main.capacity) :
    EndsAlike (runOpcodes limits [op] s) (runOpcodes limits ops s) := by
  unfold Opcode.checked? at h
  split at h <;> cases h
  case h_1 =>
    have hcheck : runOpcodes limits [0x88] = onMain (BitwiseOp.run .equalVerify) :=
      runOpcodes_singleton rfl
    have htest : runOpcodes limits [0x87, 0x69] =
        onMain (BitwiseOp.run .equal >>= fun _ => FlowOp.run .verify) :=
      runOpcodes_pair rfl rfl
    rw [hcheck, htest]
    exact (equalVerify_alike hmain).onMain
  case h_2 =>
    have hcheck : runOpcodes limits [0x9d] =
        onMain (BinaryOp.run .equalVerify limits.numberWidth) :=
      runOpcodes_singleton rfl
    have htest : runOpcodes limits [0x9c, 0x69] =
        onMain (BinaryOp.run .equal limits.numberWidth >>= fun _ => FlowOp.run .verify) :=
      runOpcodes_pair rfl rfl
    rw [hcheck, htest]
    exact (numEqualVerify_alike hmain).onMain

theorem runOpcodes_hashed (h : Opcode.hashed? op = some ops) :
    runOpcodes limits [op] = runOpcodes limits ops := by
  unfold Opcode.hashed? at h
  split at h <;> cases h
  case h_1 =>
    have honce : runOpcodes limits [0xa9] = onMain (hashTop Digest.hash160) :=
      runOpcodes_singleton rfl
    have htwice : runOpcodes limits [0xa8, 0xa6] =
        onMain (hashTop Digest.sha256 >>= fun _ => hashTop Digest.ripemd160) :=
      runOpcodes_pair rfl rfl
    rw [honce, htwice, hashTop_hashTop]
    rfl
  case h_2 =>
    have honce : runOpcodes limits [0xaa] = onMain (hashTop Digest.hash256) :=
      runOpcodes_singleton rfl
    have htwice : runOpcodes limits [0xa8, 0xa8] =
        onMain (hashTop Digest.sha256 >>= fun _ => hashTop Digest.sha256) :=
      runOpcodes_pair rfl rfl
    rw [honce, htwice, hashTop_hashTop]
    rfl

/-- Compound opcodes do what the opcodes that they stand for do. A check ends as a truth value that
is pushed and checked, also where it fails, a double digest is a digest of a digest, and the opcodes
that move items are index operations or shorter moves if there is room for the index or the copy.
Moves that only reorder come back to where they started. The opcodes in a row are a script. -/
theorem runOpcodes_compound (limits : ScriptLimits) (s : Stacks)
    (hmain : s.main.size ≤ s.main.capacity) :
    (∀ op ops, Opcode.checked? op = some ops →
      EndsAlike (runOpcodes limits [op] s) (runOpcodes limits ops s)) ∧
    (∀ op ops, Opcode.hashed? op = some ops →
      runOpcodes limits [op] s = runOpcodes limits ops s) ∧
    (∀ op a, Opcode.moved? op = some a → 1 ≤ limits.numberWidth → a.operands ≤ s.main.size →
      s.main.size + a.room ≤ s.main.capacity →
        ∃ t, runOpcodes limits [op] s = .ok () t ∧ runOpcodes limits a.opcodes s = .ok () t) ∧
    (∀ op n operands, Opcode.period? op = some (n, operands) → operands ≤ s.main.size →
      runOpcodes limits (List.replicate n op) s = .ok () s) ∧
    ∀ ops, (∀ op ∈ ops, Push.read? op [] = .ok none) → ops.length ≤ limits.operations →
      let r := runFrom limits 0 0 [] ops s
      r.outcome = outcome (runOpcodes limits ops) s ∧
        r.state = Stateful.after (runOpcodes limits ops) s := by
  obtain ⟨⟨items, capacity⟩, alt⟩ := s
  refine ⟨?checked, ?hashed, ?moved, ?period, ?script⟩
  case checked =>
    intro op ops h
    exact checked_alike h hmain
  case hashed =>
    intro op ops h
    rw [runOpcodes_hashed h]
  case moved =>
    intro op a h hwidth hin hroom
    obtain ⟨before, below, hlength, rfl⟩ := exists_named hin
    have hsize : below.length + (a.operands + a.room) ≤ capacity := by
      simp only [Stack.size, List.length_append, List.length_reverse, hlength] at hroom
      omega
    obtain ⟨out, hone, hmany⟩ := Leads.of_moved h hlength hwidth below hsize
    exact ⟨_, hone alt, hmany alt⟩
  case period =>
    intro op n operands h hin
    obtain ⟨before, below, hlength, rfl⟩ := exists_named hin
    have hsize : below.length + operands ≤ capacity := by
      simp only [Stack.size, List.length_append, List.length_reverse, hlength] at hmain
      omega
    exact Leads.of_period h hlength below hsize alt
  case script =>
    intro ops hbare hroom
    exact runFrom_opcodes 0 0 [] hbare (by omega) _

theorem runOpcodes_compound_six :
    let limits : ScriptLimits := {}
    let s : Stacks := ⟨⟨[[6], [5], [4], [3], [2], [1]], 7⟩, ⟨[[8]], 2⟩⟩
    s.main.size ≤ s.main.capacity ∧
      EndsAlike (runOpcodes limits [0x88] s) (runOpcodes limits [0x87, 0x69] s) ∧
      runOpcodes limits [0xaa] s = runOpcodes limits [0xa8, 0xa8] s ∧
      (∃ t, runOpcodes limits [0x71] s = .ok () t ∧
        runOpcodes limits [0x55, 0x7a, 0x55, 0x7a] s = .ok () t) ∧
      runOpcodes limits [0x71, 0x71, 0x71] s = .ok () s ∧
      (runFrom limits 0 0 [] [0x71, 0x71, 0x71] s).state = s := by
  intro limits s
  obtain ⟨hchecked, hhashed, hmoved, hperiod, hscript⟩ := runOpcodes_compound limits s (by decide)
  have hback : runOpcodes limits [0x71, 0x71, 0x71] s = .ok () s :=
    hperiod 0x71 3 6 rfl (by decide)
  have hbare : ∀ op ∈ List.replicate 3 0x71, Push.read? op [] = .ok none := by
    intro op hop
    rw [List.eq_of_mem_replicate hop]
    rfl
  obtain ⟨-, hstate⟩ := hscript [0x71, 0x71, 0x71] hbare (by decide)
  refine ⟨by decide, hchecked 0x88 [0x87, 0x69] rfl, hhashed 0xaa [0xa8, 0xa8] rfl,
    hmoved 0x71 ⟨[0x55, 0x7a, 0x55, 0x7a], 6, 1⟩ rfl (by decide) (by decide) (by decide), hback, ?_⟩
  rw [hstate, Stateful.after, hback]

end Script
end ScriptLedger
