import ScriptLedger.Settings.Validation

namespace ScriptLedger

abbrev Assignment := Limit → Option Nat

namespace Settings

def overlay (s : Settings) (a : Assignment) : Settings where
  script :=
    { scriptSize := (a .scriptSize).getD s.script.scriptSize
      stackSize := (a .stackSize).getD s.script.stackSize
      elementSize := (a .elementSize).getD s.script.elementSize
      operations := (a .operations).getD s.script.operations
      numberWidth := (a .numberWidth).getD s.script.numberWidth }
  recordSize := (a .recordSize).getD s.recordSize

theorem get_overlay (s : Settings) (a : Assignment) (l : Limit) :
    (s.overlay a).get l = (a l).getD (s.get l) := by
  cases l <;> rfl

theorem overlay_get (s t : Settings) : s.overlay (fun l => some (t.get l)) = t := by
  apply ext_get
  intro l
  rw [get_overlay, Option.getD_some]

/-- What is asked of settings, in the order in which it is looked at. -/
inductive Demand where
  | nonzero (l : Limit)
  | numberWidth
  | recordSize
  deriving DecidableEq, Repr

namespace Demand

def all : List Demand :=
  Limit.all.map .nonzero ++ [.numberWidth, .recordSize]

theorem mem_all (d : Demand) : d ∈ all := by
  cases d with
  | nonzero l => exact List.mem_append_left _ (List.mem_map_of_mem l.mem_all)
  | numberWidth | recordSize => decide

def Met (s : Settings) : Demand → Prop
  | nonzero l => s.get l ≠ 0
  | numberWidth => s.script.numberWidth ≤ 8
  | recordSize => s.recordSize < 0x100000000

instance (s : Settings) : DecidablePred (Met s)
  | nonzero _ => inferInstanceAs (Decidable (_ ≠ _))
  | numberWidth => inferInstanceAs (Decidable (_ ≤ _))
  | recordSize => inferInstanceAs (Decidable (_ < _))

def complaint (s : Settings) : Demand → BadSetting
  | nonzero l => .zero l.key
  | numberWidth => .numberTooWide s.script.numberWidth 8
  | recordSize => .recordTooWide s.recordSize

end Demand

variable {s : Settings} {d : Demand}

/-- Settings are checked by looking for the first demand that they do not meet. -/
theorem check_eq_find? (s : Settings) :
    check s = match Demand.all.find? fun d => ¬ d.Met s with
      | none => .ok ()
      | some d => .error (.badSetting (d.complaint s)) := by
  have hzero : ((fun d => decide (¬ Demand.Met s d)) ∘ Demand.nonzero) =
      fun l => s.get l == 0 := by
    funext l
    simp only [Function.comp_apply, Demand.Met, ne_eq, Decidable.not_not]
    rfl
  have hwidth : ¬ Demand.numberWidth.Met s ↔ Script.Number.maxWidth < s.script.numberWidth :=
    Nat.not_le
  have hrecord : ¬ Demand.recordSize.Met s ↔ widestRecord < s.recordSize :=
    Nat.not_lt
  rw [check, Demand.all, List.find?_append, List.find?_map, hzero]
  cases Limit.all.find? fun l => s.get l == 0 with
  | some l => rfl
  | none =>
    simp only [Option.map_none, Option.none_or, List.find?_cons, List.find?_nil, hwidth, hrecord]
    split
    case isTrue h =>
      rw [decide_eq_true h]
      rfl
    case isFalse h =>
      rw [decide_eq_false h]
      split
      case isTrue h => rw [decide_eq_true h]; rfl
      case isFalse h => rw [decide_eq_false h]

theorem check_eq_ok_iff : check s = .ok () ↔ ∀ d : Demand, d.Met s := by
  rw [check_eq_find?]
  cases hfind : Demand.all.find? fun d => ¬ d.Met s with
  | none =>
    simp only [List.find?_eq_none, decide_eq_true_eq, Decidable.not_not] at hfind
    exact iff_of_true rfl fun d => hfind d d.mem_all
  | some d =>
    have hd := List.find?_some hfind
    simp only [decide_eq_true_eq] at hd
    exact iff_of_false nofun fun h => hd (h d)

theorem check_of_first {before after : List Demand} (hall : Demand.all = before ++ d :: after)
    (hbefore : ∀ e ∈ before, e.Met s) (hd : ¬ d.Met s) :
    check s = .error (.badSetting (d.complaint s)) := by
  have hfind : (Demand.all.find? fun d => ¬ d.Met s) = some d := by
    rw [List.find?_eq_some_iff_append]
    refine ⟨decide_eq_true hd, before, after, hall, fun e he => ?_⟩
    simp [hbefore e he]
  rw [check_eq_find?, hfind]

end Settings

end ScriptLedger
