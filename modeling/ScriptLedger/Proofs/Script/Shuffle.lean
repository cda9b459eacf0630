import ScriptLedger.Proofs.Script.Turns
import ScriptLedger.Proofs.Script.Value

namespace ScriptLedger.Script

open Stateful

def Stack.withItems (s : Stack) (items : List Bytes) : Stack :=
  { s with items := items.reverse }

theorem Stack.items_eq_of_toList {s : Stack} {below items : List Bytes}
    (h : s.toList = below ++ items) : s.items = items.reverse ++ below.reverse := by
  rw [← List.reverse_append, ← h, toList, List.reverse_reverse]

theorem Stack.push_withItems {s : Stack} (h : s.size < s.capacity) (item : Bytes) :
    push item s = .ok () (s.withItems (s.toList ++ [item])) := by
  rw [push_of_room h, withItems, List.reverse_append, toList, List.reverse_reverse]
  rfl

namespace Operation

section

variable {x x₁ x₂ x₃ x₄ x₅ x₆ : Bytes} {items below : List Bytes}

theorem drop1_turns : Turns drop1 (x :: below) () below :=
  .pop_bind .pure

theorem drop2_turns : Turns drop2 (x₂ :: x₁ :: below) () below := by
  apply Turns.require_bind (Nat.le_add_left 2 below.length)
  exact .pop_bind (.pop_bind .pure)

theorem dup1_turns : Turns dup1 (x :: below) () (x :: x :: below) :=
  .top_bind (.push x _)

theorem dup2_turns : Turns dup2 (x₂ :: x₁ :: below) () (x₂ :: x₁ :: x₂ :: x₁ :: below) := by
  apply Turns.require_bind (Nat.le_add_left 2 below.length)
  apply Turns.peek_bind rfl
  apply Turns.peek_bind rfl
  exact .push_push x₁ x₂ _

theorem dup3_turns :
    Turns dup3 (x₃ :: x₂ :: x₁ :: below) () (x₃ :: x₂ :: x₁ :: x₃ :: x₂ :: x₁ :: below) := by
  apply Turns.require_bind (Nat.le_add_left 3 below.length)
  apply Turns.peek_bind rfl
  apply Turns.peek_bind rfl
  apply Turns.peek_bind rfl
  exact .push_push_push x₁ x₂ x₃ _

theorem over1_turns : Turns over1 (x₂ :: x₁ :: below) () (x₁ :: x₂ :: x₁ :: below) := by
  apply Turns.require_bind (Nat.le_add_left 2 below.length)
  apply Turns.pop_bind
  apply Turns.top_bind
  exact .push_push x₂ x₁ _

theorem over2_turns : Turns over2 (x₄ :: x₃ :: x₂ :: x₁ :: below) ()
    (x₂ :: x₁ :: x₄ :: x₃ :: x₂ :: x₁ :: below) := by
  apply Turns.require_bind (Nat.le_add_left 4 below.length)
  apply Turns.peek_bind rfl
  apply Turns.peek_bind rfl
  exact .push_push x₁ x₂ _

theorem swap1_turns : Turns swap1 (x₂ :: x₁ :: below) () (x₁ :: x₂ :: below) := by
  apply Turns.require_bind (Nat.le_add_left 2 below.length)
  exact .remove_bind rfl (.push x₁ _)

theorem rot1_turns : Turns rot1 (x₃ :: x₂ :: x₁ :: below) () (x₁ :: x₃ :: x₂ :: below) := by
  apply Turns.require_bind (Nat.le_add_left 3 below.length)
  exact .remove_bind rfl (.push x₁ _)

theorem swap2_turns :
    Turns swap2 (x₄ :: x₃ :: x₂ :: x₁ :: below) () (x₂ :: x₁ :: x₄ :: x₃ :: below) := by
  apply Turns.require_bind (Nat.le_add_left 4 below.length)
  apply Turns.remove_bind rfl
  apply Turns.remove_bind rfl
  exact .push_push x₁ x₂ _

theorem rot2_turns : Turns rot2 (x₆ :: x₅ :: x₄ :: x₃ :: x₂ :: x₁ :: below) ()
    (x₂ :: x₁ :: x₆ :: x₅ :: x₄ :: x₃ :: below) := by
  apply Turns.require_bind (Nat.le_add_left 6 below.length)
  apply Turns.remove_bind rfl
  apply Turns.remove_bind rfl
  exact .push_push x₁ x₂ _

theorem nip_turns : Turns nip (x₂ :: x₁ :: below) () (x₂ :: below) :=
  .remove_bind rfl .pure

theorem tuck_turns : Turns tuck (x₂ :: x₁ :: below) () (x₂ :: x₁ :: x₂ :: below) := by
  apply Turns.require_bind (Nat.le_add_left 2 below.length)
  apply Turns.pop_bind
  apply Turns.pop_bind
  exact .push_push_push x₂ x₁ x₂ _

theorem ifDup_turns_of_true (h : Number.truth x = true) :
    Turns ifDup (x :: below) () (x :: x :: below) := by
  apply Turns.top_bind
  rw [if_pos h]
  exact .push x _

theorem ifDup_turns_of_false (h : Number.truth x = false) :
    Turns ifDup (x :: below) () (x :: below) := by
  apply Turns.top_bind
  rw [if_neg (Bool.not_eq_true _ ▸ h)]
  exact .pure

theorem depth_turns : Turns depth items () (Number.encode items.length :: items) where
  ok := (Turns.push _ items).ok
  overflow := (Turns.push _ items).overflow

theorem moveToAlt_of_cons {s : Stacks} (h : s.main.items = x :: below) :
    moveToAlt s = onAlt (Stack.push x) { s with main := ⟨below, s.main.capacity⟩ } := by
  have hpop : Stack.pop s.main = .ok x ⟨below, s.main.capacity⟩ := by
    simp only [Stack.pop, h]
  exact bind_ok (onMain_ok hpop)

theorem moveFromAlt_of_cons {s : Stacks} (h : s.alt.items = x :: below) :
    moveFromAlt s = onMain (Stack.push x) { s with alt := ⟨below, s.alt.capacity⟩ } := by
  have hpop : Stack.pop s.alt = .ok x ⟨below, s.alt.capacity⟩ := by
    simp only [Stack.pop, h]
  exact bind_ok (onAlt_ok hpop)

end

/-- What an opcode makes of the items on top of the main stack, bottom first, as the comments of
stack languages put it. -/
def shuffle? : UInt8 → List Bytes → Option (List Bytes)
  | 0x6d, [_, _] => some []
  | 0x6e, [x₁, x₂] => some [x₁, x₂, x₁, x₂]
  | 0x6f, [x₁, x₂, x₃] => some [x₁, x₂, x₃, x₁, x₂, x₃]
  | 0x70, [x₁, x₂, x₃, x₄] => some [x₁, x₂, x₃, x₄, x₁, x₂]
  | 0x71, [x₁, x₂, x₃, x₄, x₅, x₆] => some [x₃, x₄, x₅, x₆, x₁, x₂]
  | 0x72, [x₁, x₂, x₃, x₄] => some [x₃, x₄, x₁, x₂]
  | 0x73, [x] => some (if Number.truth x then [x, x] else [x])
  | 0x75, [_] => some []
  | 0x76, [x] => some [x, x]
  | 0x77, [_, x₂] => some [x₂]
  | 0x78, [x₁, x₂] => some [x₁, x₂, x₁]
  | 0x7b, [x₁, x₂, x₃] => some [x₂, x₃, x₁]
  | 0x7c, [x₁, x₂] => some [x₂, x₁]
  | 0x7d, [x₁, x₂] => some [x₂, x₁, x₂]
  | _, _ => none

variable {op : UInt8} {before after below : List Bytes}

theorem exists_turns_of_shuffle (h : shuffle? op before = some after) (width : Nat)
    (below : List Bytes) :
    ∃ x, runStack op width = onMain x ∧
      Turns x (before.reverse ++ below) () (after.reverse ++ below) := by
  unfold shuffle? at h
  split at h <;> cases h
  case h_1 => exact ⟨drop2, rfl, drop2_turns⟩
  case h_2 => exact ⟨dup2, rfl, dup2_turns⟩
  case h_3 => exact ⟨dup3, rfl, dup3_turns⟩
  case h_4 => exact ⟨over2, rfl, over2_turns⟩
  case h_5 => exact ⟨rot2, rfl, rot2_turns⟩
  case h_6 => exact ⟨swap2, rfl, swap2_turns⟩
  case h_7 x =>
    refine ⟨ifDup, rfl, ?_⟩
    cases htruth : Number.truth x with
    | true => exact ifDup_turns_of_true htruth
    | false => exact ifDup_turns_of_false htruth
  case h_8 => exact ⟨drop1, rfl, drop1_turns⟩
  case h_9 => exact ⟨dup1, rfl, dup1_turns⟩
  case h_10 => exact ⟨nip, rfl, nip_turns⟩
  case h_11 => exact ⟨over1, rfl, over1_turns⟩
  case h_12 => exact ⟨rot1, rfl, rot1_turns⟩
  case h_13 => exact ⟨swap1, rfl, swap1_turns⟩
  case h_14 => exact ⟨tuck, rfl, tuck_turns⟩

theorem runStack_of_shuffle {width : Nat} {s : Stacks} (h : shuffle? op before = some after)
    (hmain : s.main.size ≤ s.main.capacity) (hitems : s.main.toList = below ++ before)
    (hroom : below.length + after.length ≤ s.main.capacity) :
    runStack op width s = .ok () { s with main := s.main.withItems (below ++ after) } := by
  obtain ⟨x, hx, hturns⟩ := exists_turns_of_shuffle h width below.reverse
  rw [← Stack.items_eq_of_toList hitems] at hturns
  rw [hx, onMain_ok (hturns.ok hmain (by simpa [Nat.add_comm] using hroom)), Stack.withItems,
    List.reverse_append]

def reordering : List UInt8 :=
  [0x71, 0x72, 0x7b, 0x7c]

theorem length_of_reordering (hop : op ∈ reordering) (h : shuffle? op before = some after) :
    after.length = before.length := by
  unfold shuffle? at h
  split at h <;> cases h
  all_goals first
    | rfl
    | exact absurd hop (by decide)

theorem runStack_depth (width : Nat) {s : Stacks} (h : s.main.size < s.main.capacity) :
    runStack 0x74 width s =
      .ok () { s with main := s.main.withItems (s.main.toList ++ [Number.encode s.main.size]) } :=
  onMain_ok (x := depth) (Stack.push_withItems h (Number.encode s.main.size))

theorem runStack_toAlt (width : Nat) {s : Stacks} {x : Bytes} (h : s.main.toList = below ++ [x])
    (hroom : s.alt.size < s.alt.capacity) :
    runStack 0x6b width s =
      .ok () ⟨s.main.withItems below, s.alt.withItems (s.alt.toList ++ [x])⟩ := by
  have hitems : s.main.items = x :: below.reverse := Stack.items_eq_of_toList h
  exact (moveToAlt_of_cons hitems).trans (onAlt_ok (Stack.push_withItems hroom x))

theorem runStack_fromAlt (width : Nat) {s : Stacks} {x : Bytes} (h : s.alt.toList = below ++ [x])
    (hroom : s.main.size < s.main.capacity) :
    runStack 0x6c width s =
      .ok () ⟨s.main.withItems (s.main.toList ++ [x]), s.alt.withItems below⟩ := by
  have hitems : s.alt.items = x :: below.reverse := Stack.items_eq_of_toList h
  exact (moveFromAlt_of_cons hitems).trans (onMain_ok (Stack.push_withItems hroom x))

/-- The opcodes that move items do to the stacks what their comments say and nothing else: those
of the table if what they leave fits, those that only reorder on a full stack as well, and the
others if there is room for one more item where they push it. -/
theorem runStack_shuffles (width : Nat) (s : Stacks) (hmain : s.main.size ≤ s.main.capacity) :
    (∀ op before after below, shuffle? op before = some after →
      s.main.toList = below ++ before → below.length + after.length ≤ s.main.capacity →
        runStack op width s = .ok () { s with main := s.main.withItems (below ++ after) }) ∧
    (∀ op ∈ reordering, ∀ before after below, shuffle? op before = some after →
      s.main.toList = below ++ before →
        runStack op width s = .ok () { s with main := s.main.withItems (below ++ after) }) ∧
    (s.main.size < s.main.capacity → ∃ item, Number.Shortest s.main.size item ∧
      runStack 0x74 width s =
        .ok () { s with main := s.main.withItems (s.main.toList ++ [item]) }) ∧
    (∀ x below, s.main.toList = below ++ [x] → s.alt.size < s.alt.capacity →
      runStack 0x6b width s =
        .ok () ⟨s.main.withItems below, s.alt.withItems (s.alt.toList ++ [x])⟩) ∧
    (∀ x below, s.alt.toList = below ++ [x] → s.main.size < s.main.capacity →
      runStack 0x6c width s =
        .ok () ⟨s.main.withItems (s.main.toList ++ [x]), s.alt.withItems below⟩) := by
  refine ⟨?table, ?reorder, ?depth, ?toAlt, ?fromAlt⟩
  case table =>
    intro op before after below h hitems hroom
    exact runStack_of_shuffle h hmain hitems hroom
  case reorder =>
    intro op hop before after below h hitems
    apply runStack_of_shuffle h hmain hitems
    rw [length_of_reordering hop h, ← List.length_append, ← hitems, Stack.toList,
      List.length_reverse]
    exact hmain
  case depth =>
    intro hroom
    exact ⟨_, Number.shortest_encode _, runStack_depth width hroom⟩
  case toAlt =>
    intro x below h hroom
    exact runStack_toAlt width h hroom
  case fromAlt =>
    intro x below h hroom
    exact runStack_fromAlt width h hroom

theorem runStack_shuffles_full :
    let s : Stacks := ⟨⟨[[6], [5], [4], [3], [2], [1]], 6⟩, ⟨[[7]], 2⟩⟩
    runStack 0x71 4 s = .ok () ⟨⟨[[2], [1], [6], [5], [4], [3]], 6⟩, ⟨[[7]], 2⟩⟩ ∧
      runStack 0x72 4 s = .ok () ⟨⟨[[4], [3], [6], [5], [2], [1]], 6⟩, ⟨[[7]], 2⟩⟩ ∧
      runStack 0x77 4 s = .ok () ⟨⟨[[6], [4], [3], [2], [1]], 6⟩, ⟨[[7]], 2⟩⟩ ∧
      runStack 0x6b 4 s = .ok () ⟨⟨[[5], [4], [3], [2], [1]], 6⟩, ⟨[[6], [7]], 2⟩⟩ := by
  intro s
  obtain ⟨htable, hreorder, -, htoAlt, -⟩ := runStack_shuffles 4 s (by decide)
  exact ⟨hreorder 0x71 (by decide) [[1], [2], [3], [4], [5], [6]] _ [] rfl rfl,
    hreorder 0x72 (by decide) [[3], [4], [5], [6]] _ [[1], [2]] rfl rfl,
    htable 0x77 [[5], [6]] _ [[1], [2], [3], [4]] rfl rfl (by decide),
    htoAlt [6] [[1], [2], [3], [4], [5]] rfl (by decide)⟩

end Operation

end ScriptLedger.Script
