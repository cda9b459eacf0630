import ScriptLedger.Proofs.Script.Fault
import ScriptLedger.Proofs.Script.Halt

namespace ScriptLedger.Script

variable {limits : ScriptLimits} {op : UInt8} {rest : Bytes} {push : Option Push} {s t : Stacks}
  {position place : Nat} {e : Failure}

theorem read_of_truncated {cause : Shortage}
    (h : runInstruction limits op rest s = .error (.truncated cause) t) :
    Push.read? op rest = .error (.truncated cause) := by
  cases runInstruction_faulty limits op rest h with
  | cut h => exact h
  | operand h => cases h

namespace Instruction

/-- The recursion of `split`, as an induction over scripts. -/
theorem split_induction {motive : Bytes → Prop} (nil : motive [])
    (cut : ∀ op rest e, Push.read? op rest = .error e → motive (op :: rest))
    (cons : ∀ op rest push, Push.read? op rest = .ok push →
      motive (rest.drop (dataSize ⟨op, push⟩)) → motive (op :: rest))
    (script : Bytes) : motive script := by
  apply splitOnto.induct (motive := fun _ script => motive script) _ _ _ [] script
  · exact fun _ => nil
  · exact fun _ op rest e h => cut op rest e h
  · exact fun _ op rest push h ih => cons op rest push h ih

/-- The places where instructions start, the first one at `position`, and behind them that of one
more if it is cut off. -/
def starts (cut : Bool) (position : Nat) : List Instruction → List Nat
  | [] => if cut then [position] else []
  | i :: rest => position :: starts cut (position + i.size) rest

end Instruction

namespace Split

open Instruction

/-- The places at which a walk over a script that stands at `position` reads an opcode: where the
instructions start, the one that is cut off included. -/
def boundariesFrom (position : Nat) (found : Split) : List Nat :=
  starts found.failure.isSome position found.instructions

def boundaries (found : Split) : List Nat :=
  found.boundariesFrom 0

theorem boundariesFrom_nil : (split []).boundariesFrom position = [] := by
  rw [split_nil]
  rfl

theorem boundariesFrom_cut (h : Push.read? op rest = .error e) :
    (split (op :: rest)).boundariesFrom position = [position] := by
  rw [split_cons_error h]
  rfl

theorem boundariesFrom_cons (h : Push.read? op rest = .ok push) :
    (split (op :: rest)).boundariesFrom position =
      position :: (split (rest.drop (dataSize ⟨op, push⟩))).boundariesFrom
        (position + size ⟨op, push⟩) := by
  rw [split_cons_ok h]
  rfl

/-- A walk reads an opcode where it stands and where whole instructions from there lead to. -/
theorem mem_boundariesFrom_iff {script : Bytes} :
    place ∈ (split script).boundariesFrom position ↔
      ∃ n, place = position + n ∧ n < script.length ∧ (split (script.take n)).failure = none := by
  induction script using split_induction generalizing position with
  | nil => simp [boundariesFrom_nil]
  | cut op rest e h =>
    rw [boundariesFrom_cut h, List.mem_singleton]
    constructor
    · rintro rfl
      exact ⟨0, rfl, Nat.zero_lt_succ _, by rw [List.take_zero, split_nil]⟩
    · rintro ⟨n, rfl, _, hwhole⟩
      cases n with
      | zero => rfl
      | succ n =>
        -- What is cut off in the whole script is cut off in any part of it.
        obtain ⟨push, hread, _⟩ := whole_cons hwhole
        have happend := Push.read_append hread (rest.drop n)
        rw [List.take_append_drop, h] at happend
        cases happend
  | cons op rest push h ih =>
    have hfound := Push.found_of_read h
    rw [boundariesFrom_cons h, List.mem_cons, ih]
    constructor
    · rintro (rfl | ⟨n, rfl, hn, hwhole⟩)
      · exact ⟨0, rfl, Nat.zero_lt_succ _, by rw [List.take_zero, split_nil]⟩
      · refine ⟨size ⟨op, push⟩ + n, Nat.add_assoc _ _ _, ?_, ?_⟩
        · rw [List.length_drop] at hn
          rw [List.length_cons, size]
          omega
        · rw [size, Nat.add_assoc, Nat.add_comm 1, List.take_succ_cons, List.take_add,
            split_cons_take h]
          exact hwhole
    · rintro ⟨n, rfl, hn, hwhole⟩
      cases n with
      | zero => exact .inl rfl
      | succ n =>
        obtain ⟨push', hread, hmore⟩ := whole_cons hwhole
        have happend := Push.read_append hread (rest.drop n)
        rw [List.take_append_drop, h] at happend
        cases happend
        have hle := (Push.found_of_read hread).size_le
        rw [List.length_take] at hle
        rw [List.drop_take] at hmore
        refine .inr ⟨n - dataSize ⟨op, push⟩, ?_, ?_, hmore⟩
        · rw [size]
          omega
        · rw [List.length_cons] at hn
          rw [List.length_drop]
          omega

theorem pairwise_boundariesFrom (script : Bytes) :
    ((split script).boundariesFrom position).Pairwise (· < ·) := by
  induction script using split_induction generalizing position with
  | nil =>
    rw [boundariesFrom_nil]
    exact .nil
  | cut op rest e h =>
    rw [boundariesFrom_cut h]
    exact List.pairwise_singleton _ _
  | cons op rest push h ih =>
    rw [boundariesFrom_cons h]
    refine .cons (fun place hplace => ?_) ih
    obtain ⟨n, rfl, _⟩ := mem_boundariesFrom_iff.mp hplace
    rw [size]
    omega

theorem isTruncated_of_failure {script : Bytes} (h : (split script).failure = some e) :
    e.isTruncated = true := by
  induction script using split_induction with
  | nil =>
    rw [split_nil] at h
    cases h
  | cut op rest e' hread =>
    rw [split_cons_error hread] at h
    cases h
    exact Push.isTruncated_of_read hread
  | cons op rest push hread ih =>
    rw [split_cons_ok hread] at h
    exact ih h

end Split

open Instruction

/-- The opcodes that a run comes to, the first one at `position`: they stand in the script where
they are fetched, and that is where the script is split, in order and without a gap. -/
structure FetchesAlong (position : Nat) (script : Bytes) (fetches : List Fetch) : Prop where
  positions : fetches.map (·.position) <+: (split script).boundariesFrom position
  opcodes : ∀ f ∈ fetches, ∃ n, f.position = position + n ∧ script[n]? = some f.opcode

theorem FetchesAlong.cons {fetches : List Fetch} (h : Push.read? op rest = .ok push)
    (hf : FetchesAlong (position + size ⟨op, push⟩) (rest.drop (dataSize ⟨op, push⟩)) fetches)
    (depth : Nat) : FetchesAlong position (op :: rest) (⟨position, op, depth⟩ :: fetches) where
  positions := by
    rw [Split.boundariesFrom_cons h]
    exact List.prefix_cons_iff.mpr (.inr ⟨_, rfl, hf.positions⟩)
  opcodes := by
    intro f hmem
    obtain rfl | hmem := List.mem_cons.mp hmem
    · exact ⟨0, rfl, rfl⟩
    · obtain ⟨n, hn, hopcode⟩ := hf.opcodes f hmem
      refine ⟨size ⟨op, push⟩ + n, hn.trans (Nat.add_assoc _ _ _), ?_⟩
      rw [List.getElem?_drop] at hopcode
      rw [size, Nat.add_assoc, Nat.add_comm 1, List.getElem?_cons_succ, hopcode]

/-- The opcode that a run stands before is fetched, whether its instruction is whole or not. -/
theorem FetchesAlong.single (position : Nat) (op : UInt8) (rest : Bytes) (depth : Nat) :
    FetchesAlong position (op :: rest) [⟨position, op, depth⟩] where
  positions := by
    cases h : Push.read? op rest with
    | error e =>
      rw [Split.boundariesFrom_cut h]
      exact List.prefix_rfl
    | ok push =>
      rw [Split.boundariesFrom_cons h]
      exact List.prefix_append [position] _
  opcodes := by
    intro f hmem
    obtain rfl := List.mem_singleton.mp hmem
    exact ⟨0, rfl, rfl⟩

theorem exists_fetchesAlong (limits : ScriptLimits) (position operations : Nat)
    (fetched : List Fetch) (script : Bytes) (s : Stacks) :
    let r := runFrom limits position operations fetched script s
    ∃ fetches, r.fetches = fetched.reverse ++ fetches ∧ FetchesAlong position script fetches ∧
      (r.outcome = .ok () →
        fetches.map (·.position) = (split script).boundariesFrom position) := by
  fun_induction runFrom limits position operations fetched script s with
  | case1 position operations fetched s =>
    refine ⟨[], (List.append_nil _).symm, ⟨List.nil_prefix, List.forall_mem_nil _⟩, fun _ => ?_⟩
    rw [Split.boundariesFrom_nil]
    rfl
  | case2 position operations fetched s op rest fetched₁ operations₁ hexceeded =>
    refine ⟨_, List.reverse_cons, .single position op rest _, fun h => ?_⟩
    cases h
  | case3 position operations fetched s op rest fetched₁ operations₁ hwithin e t hs =>
    refine ⟨_, List.reverse_cons, .single position op rest _, fun h => ?_⟩
    cases h
  | case4 position operations fetched s op rest fetched₁ operations₁ hwithin taken t hs ih =>
    obtain ⟨push, hread, rfl⟩ := runInstruction_taken hs
    obtain ⟨fetches, heq, halong, hend⟩ := ih
    rw [Nat.add_assoc] at halong
    refine ⟨⟨position, op, s.main.size⟩ :: fetches, ?_, halong.cons hread _, fun hok => ?_⟩
    · rw [heq, List.reverse_cons, List.append_assoc]
      rfl
    · rw [List.map_cons, hend hok, Split.boundariesFrom_cons hread, Nat.add_assoc]
      rfl

theorem failure_of_runFrom (limits : ScriptLimits) (position operations : Nat)
    (fetched : List Fetch) (script : Bytes) (s : Stacks) :
    let r := runFrom limits position operations fetched script s
    (r.outcome = .ok () → (split script).failure = none) ∧
    ∀ cause, r.outcome = .error (.truncated cause) →
      (split script).failure = some (.truncated cause) := by
  fun_induction runFrom limits position operations fetched script s with
  | case1 =>
    rw [split_nil]
    refine ⟨fun _ => rfl, fun cause h => ?_⟩
    cases h
  | case2 =>
    refine ⟨fun h => ?_, fun cause h => ?_⟩
    · cases h
    · cases h
  | case3 position operations fetched s op rest fetched₁ operations₁ hwithin e t hs =>
    refine ⟨fun h => ?_, fun cause h => ?_⟩
    · cases h
    · cases h
      rw [split_cons_error (read_of_truncated hs)]
  | case4 position operations fetched s op rest fetched₁ operations₁ hwithin taken t hs ih =>
    obtain ⟨push, hread, rfl⟩ := runInstruction_taken hs
    rw [split_cons_ok hread]
    exact ih

theorem disassemble_of_whole {script : Bytes} (h : (split script).failure = none) :
    ∃ text, disassemble script = .ok text := by
  unfold disassemble
  simp only [h]
  exact ⟨_, rfl⟩

theorem disassemble_eq_error_iff {script : Bytes} :
    disassemble script = .error e ↔ (split script).failure = some e := by
  unfold disassemble
  cases h : (split script).failure with
  | none => simp only [h, reduceCtorEq]
  | some e' => simp only [h, Except.error.injEq, Option.some.injEq]

/-- A run fetches opcodes only where the listing of a script starts an instruction, one after the
other from the first on, and all of them if it ends well. So what runs can be listed, what is cut
off for a run is cut off in the same way for the listing, and what cannot be listed does not run. -/
theorem fetches_prefix_boundaries (m : Machine) (script : Bytes)
    (hsize : script.length ≤ m.limits.scriptSize) :
    let fetches := (m.run script).fetches
    let boundaries := (split script).boundaries
    (boundaries.Pairwise (· < ·) ∧ ∀ place, place ∈ boundaries ↔
      place < script.length ∧ (split (script.take place)).failure = none) ∧
    fetches.map (·.position) <+: boundaries ∧
    (∀ f ∈ fetches, script[f.position]? = some f.opcode) ∧
    ((m.execute script).1 = .ok () →
      fetches.map (·.position) = boundaries ∧ ∃ text, disassemble script = .ok text) ∧
    (∀ cause, (m.execute script).1 = .error (.truncated cause) →
      disassemble script = .error (.truncated cause)) ∧
    ∀ e, disassemble script = .error e →
      e.isTruncated = true ∧ (m.execute script).1 ≠ .ok () := by
  have hrun := Machine.run_of_size hsize
  obtain ⟨fetches, heq, halong, hend⟩ :=
    exists_fetchesAlong m.limits 0 0 [] script { m.state with alt := m.alt.cleared }
  obtain ⟨hwhole, hcut⟩ :=
    failure_of_runFrom m.limits 0 0 [] script { m.state with alt := m.alt.cleared }
  rw [← hrun] at heq hend hwhole hcut
  rw [List.reverse_nil, List.nil_append] at heq
  rw [← heq] at halong hend
  refine ⟨⟨Split.pairwise_boundariesFrom script, fun place => ?_⟩, halong.positions, fun f hf => ?_,
    fun hok => ⟨hend hok, disassemble_of_whole (hwhole hok)⟩,
    fun cause h => disassemble_eq_error_iff.mpr (hcut cause h), fun e he => ?_⟩
  · simp [Split.boundaries, Split.mem_boundariesFrom_iff]
  · obtain ⟨n, hn, hopcode⟩ := halong.opcodes f hf
    rw [hn, Nat.zero_add]
    exact hopcode
  · have hfailure := disassemble_eq_error_iff.mp he
    refine ⟨Split.isTruncated_of_failure hfailure, fun hok => ?_⟩
    rw [hwhole hok] at hfailure
    cases hfailure

/-- Pushes two bytes that would be instructions if they were not data, then one, and then bytes that
are not all there. -/
def misleading : Bytes :=
  [0x4c, 0x02, 0x51, 0x05, 0x51, 0x05, 0xaa]

theorem fetches_prefix_boundaries_misleading :
    let m := Machine.new { scriptSize := 7 }
    misleading.length ≤ m.limits.scriptSize ∧
      (split misleading).boundaries = [0, 4, 5] ∧
      (m.run misleading).fetches.map (·.position) <+: [0, 4, 5] ∧
      (m.execute misleading).1 = .error (.truncated (.pushData 0x05 5 1)) ∧
      disassemble misleading = .error (.truncated (.pushData 0x05 5 1)) := by
  intro m
  have hsize : misleading.length ≤ m.limits.scriptSize := by decide
  have hboundaries : (split misleading).boundaries = [0, 4, 5] := by decide +kernel
  have hcut : (m.execute misleading).1 = .error (.truncated (.pushData 0x05 5 1)) := by
    decide +kernel
  obtain ⟨_, hprefix, _, _, hlisting, _⟩ := fetches_prefix_boundaries m misleading hsize
  rw [hboundaries] at hprefix
  exact ⟨hsize, hboundaries, hprefix, hcut, hlisting _ hcut⟩

end ScriptLedger.Script
