import ScriptLedger.Proofs.Script.Places

namespace ScriptLedger.Script

open Guarded

variable {σ : Type} {limits : ScriptLimits} {op : UInt8} {rest script : Bytes}
  {place turns operations : Nat}

section

variable {push : Option Push} {p : Push}

theorem exists_drop_eq_cons (h : place < script.length) :
    ∃ op rest, script.drop place = op :: rest :=
  ⟨_, _, List.drop_eq_getElem_cons h⟩

theorem length_of_drop (h : script.drop place = op :: rest) :
    script.length = place + 1 + rest.length := by
  have hlength := congrArg List.length h
  rw [List.length_drop, List.length_cons] at hlength
  omega

theorem drop_behind (h : script.drop place = op :: rest) (n : Nat) :
    script.drop (place + 1 + n) = rest.drop n := by
  rw [← List.drop_drop, ← List.drop_drop, h, List.drop_one, List.tail_cons]

theorem getElem?_of_drop (h : script.drop place = op :: rest) : script[place]? = some op := by
  rw [← Nat.add_zero place, ← List.getElem?_drop, h, List.getElem?_cons_zero]

theorem from?_of_drop (h : script.drop place = op :: rest) :
    script.from? (place + 1) = some rest := by
  have hle : place + 1 ≤ script.length := by
    rw [length_of_drop h]
    exact Nat.le_add_right _ _
  rw [Bytes.from?_of_le hle, ← Nat.add_zero (place + 1), drop_behind h, List.drop_zero]

theorem slice_of_drop (h : script.drop place = op :: rest) (hfound : Push.Found op rest (some p)) :
    script.slice? (place + 1 + p.lengthWidth) (place + 1 + p.lengthWidth + p.data.length) =
      some p.data := by
  have hsize : p.lengthWidth + p.data.length ≤ rest.length := hfound.size_le
  have hle : place + 1 + p.lengthWidth + p.data.length ≤ script.length := by
    rw [length_of_drop h]
    omega
  rw [Bytes.slice?_of_le hle, drop_behind h, hfound.data_eq]

theorem add_dataSize_le (h : script.drop place = op :: rest) (hread : Push.read? op rest = .ok push) :
    place + 1 + Instruction.dataSize ⟨op, push⟩ ≤ script.length := by
  rw [length_of_drop h]
  exact Nat.add_le_add_left (Push.found_of_read hread).size_le _

theorem lt_add_dataSize (i : Instruction) : place < place + 1 + i.dataSize :=
  Nat.lt_of_lt_of_le (Nat.lt_succ_self _) (Nat.le_add_right _ _)

end

/-- Steps that fail or lead from an opcode to the place behind its instruction. -/
def ByInstruction (script : Bytes) (step : Nat → Guarded σ Nat) : Prop :=
  ∀ ⦃place op rest s⦄, script.drop place = op :: rest →
    (∃ e t, step place s = .error (.failure e) t) ∨
      ∃ push t, Push.read? op rest = .ok push ∧
        step place s = .ok (place + 1 + Instruction.dataSize ⟨op, push⟩) t

/-- However long a push says that its data is, an instruction that is there ends in the script. -/
theorem ByInstruction.advances {step : Nat → Guarded σ Nat} (h : ByInstruction script step) :
    Walk.Advances script.length step where
  defined := by
    intro place s stop t hplace hstep
    obtain ⟨op, rest, hdrop⟩ := exists_drop_eq_cons hplace
    obtain ⟨e, t', hfails⟩ | ⟨push, t', -, hruns⟩ := @h place op rest s hdrop
    · rw [hfails] at hstep
      cases hstep
      exact ⟨e, rfl⟩
    · rw [hruns] at hstep
      cases hstep
  advances := by
    intro place next s t hplace hstep
    obtain ⟨op, rest, hdrop⟩ := exists_drop_eq_cons hplace
    obtain ⟨e, t', hfails⟩ | ⟨push, t', hread, hruns⟩ := @h place op rest s hdrop
    · rw [hfails] at hstep
      cases hstep
    · rw [hruns] at hstep
      cases hstep
      exact ⟨lt_add_dataSize _, add_dataSize_le hdrop hread⟩

/-- What a run has come to: what the stacks hold, and how many operations were started. -/
structure Progress where
  held : Stacks
  operations : Nat

/-- A computation on the stacks. -/
def onStacks {α : Type} (x : Guarded Stacks α) : Guarded Progress α := fun p =>
  match x p.held with
  | .ok a t => .ok a { p with held := t }
  | .error stop t => .error stop { p with held := t }

theorem onStacks_ok {α : Type} {x : Guarded Stacks α} {p : Progress} {a : α} {t : Stacks}
    (h : x p.held = .ok a t) : onStacks x p = .ok a { p with held := t } := by
  rw [onStacks, h]

theorem onStacks_error {α : Type} {x : Guarded Stacks α} {p : Progress} {stop : Stop} {t : Stacks}
    (h : x p.held = .error stop t) : onStacks x p = .error stop { p with held := t } := by
  rw [onStacks, h]

/-- One turn of the interpreter, from the place of an opcode to the one behind its instruction. -/
def turn (limits : ScriptLimits) (script : Bytes) (place : Nat) : Guarded Progress Nat := do
  let op ← need script[place]?
  let row ← need Opcode.rows[op.toNat]?
  modify fun p => { p with operations := countOperation op p.operations }
  if limits.operations < (← get).operations then
    throw (.failure (.limitExceeded (.operations limits.operations)))
  else
    let taken ← onStacks (runInstructionAt limits op row.category script (place + 1))
    return place + 1 + taken

theorem turn_eq (limits : ScriptLimits) (h : script.drop place = op :: rest) (s : Stacks)
    (operations : Nat) :
    turn limits script place ⟨s, operations⟩ =
      if limits.operations < countOperation op operations then
        .error (.failure (.limitExceeded (.operations limits.operations)))
          ⟨s, countOperation op operations⟩
      else match runInstruction limits op rest s with
        | .error e t => .error (.failure e) ⟨t, countOperation op operations⟩
        | .ok taken t => .ok (place + 1 + taken) ⟨t, countOperation op operations⟩ := by
  rw [turn, need_bind (getElem?_of_drop h), need_bind (Opcode.rows_getElem? op)]
  simp only [runInstructionAt_eq limits op (from?_of_drop h)]
  change (if limits.operations < countOperation op operations then _ else _ :
    Guarded Progress Nat) ⟨s, countOperation op operations⟩ = _
  split
  · rfl
  · cases hs : runInstruction limits op rest s with
    | error e t => exact bind_error (onStacks_error (total_error hs))
    | ok taken t => exact bind_ok (onStacks_ok (total_ok hs))

theorem turn_byInstruction (limits : ScriptLimits) (script : Bytes) :
    ByInstruction script (turn limits script) := by
  intro place op rest ⟨s, operations⟩ hdrop
  rw [turn_eq limits hdrop]
  by_cases hexceeded : limits.operations < countOperation op operations
  · exact .inl ⟨_, _, if_pos hexceeded⟩
  rw [if_neg hexceeded]
  cases hs : runInstruction limits op rest s with
  | error e t => exact .inl ⟨e, _, rfl⟩
  | ok taken t =>
    obtain ⟨push, hread, rfl⟩ := runInstruction_taken hs
    exact .inr ⟨push, _, hread, rfl⟩

def Machine.walk (m : Machine) (script : Bytes) : Walk Progress :=
  let start : Progress := ⟨{ m.state with alt := m.alt.cleared }, 0⟩
  if m.limits.scriptSize < script.length then
    ⟨.error (.failure (.limitExceeded (.script script.length m.limits.scriptSize))), start, []⟩
  else Walk.run script.length (turn m.limits script) script.length 0 start

/-- The places at which a run looks for the end of a script, at `last`: those of the opcodes that it
comes to, and the end if it gets there. -/
def Run.places (last : Nat) (r : Run) : List Nat :=
  r.fetches.map (·.position) ++
    match r.outcome with
    | .ok () => [last]
    | .error _ => []

/-- A walk that goes as a run of the interpreter does. -/
structure Retraces (script : Bytes) (w : Walk Progress) (r : Run) : Prop where
  outcome : w.outcome = r.outcome.mapError .failure
  held : w.state.held = r.state
  places : w.places = r.places script.length

theorem Retraces.cons {w : Walk Progress} {position : Nat} {s : Stacks} (place : Nat) (op : UInt8)
    (depth : Nat) (h : Retraces script w (runFrom limits position operations [] rest s)) :
    Retraces script ⟨w.outcome, w.state, place :: w.places⟩
      (runFrom limits position operations [⟨place, op, depth⟩] rest s) := by
  have happend := runFrom_append limits position operations [⟨place, op, depth⟩] [] rest s
  rw [List.nil_append] at happend
  rw [happend]
  exact ⟨h.outcome, h.held, congrArg (place :: ·) h.places⟩

theorem retraces_runFrom (limits : ScriptLimits) (hplace : place ≤ script.length)
    (hturns : script.length ≤ place + turns) (operations : Nat) (s : Stacks) :
    Retraces script (Walk.run script.length (turn limits script) turns place ⟨s, operations⟩)
      (runFrom limits place operations [] (script.drop place) s) := by
  revert operations s
  refine Walk.turns_induction ?atEnd ?before turns place hplace hturns
  case atEnd =>
    intro turns operations s
    rw [Walk.run_of_le (Nat.le_refl _), List.drop_length, runFrom]
    exact ⟨rfl, rfl, rfl⟩
  case before =>
    intro turns place hlt ih operations s
    obtain ⟨op, rest, hdrop⟩ := exists_drop_eq_cons hlt
    have hturn := turn_eq limits hdrop s operations
    rw [hdrop]
    by_cases hexceeded : limits.operations < countOperation op operations
    · rw [if_pos hexceeded] at hturn
      rw [Walk.run_of_error hlt hturn, runFrom_exceeded limits hexceeded]
      exact ⟨rfl, rfl, rfl⟩
    rw [if_neg hexceeded] at hturn
    cases hs : runInstruction limits op rest s with
    | error e t =>
      rw [hs] at hturn
      rw [Walk.run_of_error hlt hturn, runFrom_error limits hexceeded hs]
      exact ⟨rfl, rfl, rfl⟩
    | ok taken t =>
      rw [hs] at hturn
      obtain ⟨push, hread, rfl⟩ := runInstruction_taken hs
      rw [Walk.run_of_ok hlt hturn, runFrom_ok limits hexceeded hs, ← drop_behind hdrop]
      exact .cons place op s.main.size
        (ih _ (lt_add_dataSize _) (add_dataSize_le hdrop hread) _ t)

theorem Machine.retraces_walk (m : Machine) (script : Bytes) :
    Retraces script (m.walk script) (m.run script) := by
  unfold walk run
  split
  · exact ⟨rfl, rfl, rfl⟩
  · exact retraces_runFrom m.limits (Nat.zero_le _) (Nat.le_add_left _ _) 0 _

theorem Machine.safe_walk (m : Machine) (script : Bytes) : (m.walk script).Safe script.length := by
  unfold walk
  split
  · exact .nil _
  · exact (turn_byInstruction m.limits script).advances.safe _

def listTurn (script : Bytes) (place : Nat) : Guarded (List String) Nat := do
  let op ← need script[place]?
  let row ← need Opcode.rows[op.toNat]?
  let rest ← need (script.from? (place + 1))
  match ← Push.extentAt op rest with
  | some (width, length) =>
    let first := place + 1 + width
    let data ← need (script.slice? first (first + length))
    let name := if Opcode.isDirectPush op then [] else [row.shown]
    modify (· ++ (name ++ if data.isEmpty then [] else [Hex.encode data]))
    return first + length
  | none =>
    modify (· ++ [row.shown])
    return place + 1

theorem listTurn_eq (h : script.drop place = op :: rest) (words : List String) :
    listTurn script place words =
      match Push.read? op rest with
      | .error e => .error (.failure e) words
      | .ok push =>
        let i : Instruction := ⟨op, push⟩
        .ok (place + 1 + i.dataSize) (words ++ i.words) := by
  rw [listTurn, need_bind (getElem?_of_drop h), need_bind (Opcode.rows_getElem? op),
    need_bind (from?_of_drop h), Push.extentAt_eq]
  cases hread : Push.read? op rest with
  | error e => rfl
  | ok push =>
    cases push with
    | none => rfl
    | some p =>
      have hslice := slice_of_drop h (Push.found_of_read hread)
      have hnext := Nat.add_assoc (place + 1) p.lengthWidth p.data.length
      change (need (script.slice? (place + 1 + p.lengthWidth)
        (place + 1 + p.lengthWidth + p.data.length)) >>= _ : Guarded (List String) Nat) words = _
      rw [need_bind hslice]
      exact congrArg (EStateM.Result.ok · (words ++ Instruction.words ⟨op, some p⟩)) hnext

theorem listTurn_byInstruction (script : Bytes) : ByInstruction script (listTurn script) := by
  intro place op rest words hdrop
  rw [listTurn_eq hdrop]
  cases hread : Push.read? op rest with
  | error e => exact .inl ⟨e, _, rfl⟩
  | ok push => exact .inr ⟨push, _, rfl, rfl⟩

def listWalk (script : Bytes) : Walk (List String) :=
  Walk.run script.length (listTurn script) script.length 0 []

/-- A walk that adds what a script is split into to the words already there. -/
structure Lists (words : List String) (w : Walk (List String)) (found : Split) : Prop where
  outcome : w.outcome = match found.failure with
    | none => .ok ()
    | some e => .error (.failure e)
  words : w.state = words ++ found.instructions.flatMap Instruction.words

theorem lists_split (hplace : place ≤ script.length) (hturns : script.length ≤ place + turns)
    (words : List String) :
    Lists words (Walk.run script.length (listTurn script) turns place words)
      (Instruction.split (script.drop place)) := by
  revert words
  refine Walk.turns_induction ?atEnd ?before turns place hplace hturns
  case atEnd =>
    intro turns words
    rw [Walk.run_of_le (Nat.le_refl _), List.drop_length, Instruction.split_nil]
    exact ⟨rfl, (List.append_nil words).symm⟩
  case before =>
    intro turns place hlt ih words
    obtain ⟨op, rest, hdrop⟩ := exists_drop_eq_cons hlt
    have hturn := listTurn_eq hdrop words
    rw [hdrop]
    cases hread : Push.read? op rest with
    | error e =>
      rw [hread] at hturn
      rw [Walk.run_of_error hlt hturn, Instruction.split_cons_error hread]
      exact ⟨rfl, (List.append_nil words).symm⟩
    | ok push =>
      rw [hread] at hturn
      have hlater := ih _ (lt_add_dataSize _) (add_dataSize_le hdrop hread)
        (words ++ Instruction.words ⟨op, push⟩)
      rw [drop_behind hdrop] at hlater
      rw [Walk.run_of_ok hlt hturn, Instruction.split_cons_ok hread]
      exact ⟨hlater.outcome, hlater.words.trans (List.append_assoc _ _ _)⟩

theorem disassemble_eq_listWalk (script : Bytes) :
    (disassemble script).mapError .failure =
      (listWalk script).outcome.map fun _ => " ".intercalate (listWalk script).state := by
  obtain ⟨houtcome, hwords⟩ : Lists [] (listWalk script) (Instruction.split script) :=
    lists_split (Nat.zero_le _) (Nat.le_add_left _ _) []
  rw [houtcome, hwords, disassemble]
  cases (Instruction.split script).failure with
  | none => rfl
  | some e => rfl

theorem safe_listWalk (script : Bytes) : (listWalk script).Safe script.length :=
  (listTurn_byInstruction script).advances.safe _

/-- The loops of the interpreter and of the listing stay inside the script, whatever the script, the
machine and its limits: every place, slice and difference that they need exists, they only go
forward and not behind the end, and they take no more turns than the script has bytes. -/
theorem loops_in_bounds (m : Machine) (script : Bytes) :
    (Retraces script (m.walk script) (m.run script) ∧ (m.walk script).Safe script.length) ∧
    ((disassemble script).mapError .failure =
        ((listWalk script).outcome.map fun _ => " ".intercalate (listWalk script).state) ∧
      (listWalk script).Safe script.length) :=
  ⟨⟨m.retraces_walk script, m.safe_walk script⟩,
    disassemble_eq_listWalk script, safe_listWalk script⟩

example :
    let script : Bytes := [0x51, 0x4e, 0xff, 0xff, 0xff, 0xff, 0x00]
    (listWalk script).places = [0, 1] ∧
      (listWalk script).outcome =
        .error (.failure (.truncated (.pushData 0x4e 0xffffffff 1))) ∧
      listTurn script 7 [] = .error .undefined [] :=
  ⟨rfl, rfl, rfl⟩

end ScriptLedger.Script
