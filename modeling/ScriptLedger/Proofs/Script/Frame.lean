import Mathlib.Control.Monad.Basic
import ScriptLedger.Proofs.Script.Relaxation

namespace ScriptLedger

/-- Whether a stack was too shallow or too full for what was asked of it. -/
def Failure.isStackFailure : Failure → Bool
  | .stackUnderflow => true
  | .stackOverflow _ => true
  | .invalidStackIndex _ => true
  | _ => false

namespace Script

theorem Stack.toList_above (below : List Bytes) (room : Nat) (s : Stack) :
    (s.above below.reverse room).toList = below ++ s.toList := by
  simp only [above, toList, List.reverse_append, List.reverse_reverse]

/-- The machine with items, bottom first, under those of its main stack, and with room for them. -/
def Machine.above (m : Machine) (below : List Bytes) : Machine :=
  ⟨m.state.above below.reverse below.length,
    { m.limits with stackSize := m.limits.stackSize + below.length }⟩

theorem ground_of_stackFailure (below : List Bytes) :
    Ground below.reverse below.length fun e => e.isStackFailure = true where
  fits := Nat.le_of_eq List.length_reverse
  overflow _ := rfl
  underflow h := absurd rfl h
  index _ h := absurd rfl h

theorem relaxes_stackSize (limits : ScriptLimits) (below : List Bytes) :
    Relaxes limits { limits with stackSize := limits.stackSize + below.length } below.reverse
      below.length fun e => e.isStackFailure = true where
  ground := ground_of_stackFailure below
  numberWidth := ⟨Nat.le_refl _, fun _ _ _ => rfl⟩
  scriptSize := Nat.le_refl _
  elementSize := Nat.le_refl _
  operations := Nat.le_refl _
  kept _ _ := ⟨rfl, rfl, rfl⟩

theorem Machine.toList_main_above (m : Machine) (below : List Bytes) :
    (m.above below).main.toList = below ++ m.main.toList :=
  m.main.toList_above below below.length

theorem Machine.toList_alt_above (m : Machine) (below : List Bytes) :
    (m.above below).alt.toList = m.alt.toList :=
  m.alt.toList_above [] below.length

theorem execute_above_eq (m : Machine) (below : List Bytes) {script : Bytes}
    (hdepth : ∀ i ∈ (Instruction.split script).instructions, i.opcode ≠ 0x74)
    (hresult : ∀ e, (m.execute script).1 = .error e → e.isStackFailure = false) :
    (m.above below).execute script = ((m.execute script).1, (m.execute script).2.above below) := by
  have hkept (e : Failure) (he : (m.run script).outcome = .error e) :
      ¬ e.isStackFailure = true := by
    rw [hresult e he]
    exact Bool.false_ne_true
  obtain ⟨houtcome, hstate⟩ := (relaxes_stackSize m.limits below).run script
    (fun i hi h => absurd h (hdepth i hi)) hkept
  unfold Machine.execute
  exact Prod.ext houtcome (congrArg (Machine.mk · _) hstate)

/-- Without `OP_DEPTH`, what lies under the items that a script works on is neither seen nor
touched, as long as the script does not fail by the size of a stack. -/
theorem execute_above (m : Machine) (below : List Bytes) (script : Bytes)
    (hdepth : ∀ i ∈ (Instruction.split script).instructions, i.opcode ≠ 0x74)
    (hresult : ∀ e, (m.execute script).1 = .error e → e.isStackFailure = false) :
    let r := m.execute script
    let r' := (m.above below).execute script
    r'.1 = r.1 ∧ r'.2.main.toList = below ++ r.2.main.toList ∧
      r'.2.alt.toList = r.2.alt.toList := by
  intro r r'
  have hr : r' = (r.1, r.2.above below) := execute_above_eq m below hdepth hresult
  rw [hr]
  exact ⟨rfl, r.2.toList_main_above below, r.2.toList_alt_above below⟩

def Machine.narrow : Machine :=
  ⟨⟨⟨[[7], [5]], 3⟩, .empty 3⟩, { stackSize := 3 }⟩

/-- Rolls the lower item up, sets it aside, puts a new one under what is left and gives up. -/
def shuffling : Bytes :=
  [0x51, 0x7a, 0x6b, 0x01, 0x2a, 0x7c, 0x6a]

theorem execute_above_shuffling :
    (∀ i ∈ (Instruction.split shuffling).instructions, i.opcode ≠ 0x74) ∧
      (Machine.narrow.execute shuffling).1 = .error (.scriptInvalid .returned) ∧
      let r := (Machine.narrow.above [[1], [2]]).execute shuffling
      r.1 = .error (.scriptInvalid .returned) ∧ r.2.main.toList = [[1], [2], [42], [7]] ∧
        r.2.alt.toList = [[5]] := by
  have hrun : Machine.narrow.execute shuffling =
      (.error (.scriptInvalid .returned), ⟨⟨⟨[[7], [42]], 3⟩, ⟨[[5]], 3⟩⟩, { stackSize := 3 }⟩) := by
    decide +kernel
  have hdepth : ∀ i ∈ (Instruction.split shuffling).instructions, i.opcode ≠ 0x74 := by
    decide +kernel
  have hresult (e : Failure) (he : (Machine.narrow.execute shuffling).1 = .error e) :
      e.isStackFailure = false := by
    rw [hrun] at he
    cases he
    rfl
  have habove := execute_above Machine.narrow [[1], [2]] shuffling hdepth hresult
  rw [hrun] at habove ⊢
  exact ⟨hdepth, rfl, habove⟩

end Script

end ScriptLedger
