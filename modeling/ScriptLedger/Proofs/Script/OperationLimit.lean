import ScriptLedger.Proofs.Script.Capacity
import ScriptLedger.Proofs.Script.Walk

namespace ScriptLedger

def ScriptLimits.allowing (limits : ScriptLimits) (operations : Nat) : ScriptLimits :=
  { limits with operations }

namespace Script

open Stateful

variable {limits : ScriptLimits} {op : UInt8} {script rest : Bytes} {s t : Stacks}
  {position operations limit : Nat} {fetched : List Fetch} {e : Failure}

/-- An opcode about to run, with the stacks that it finds. -/
structure Moment where
  position : Nat
  opcode : UInt8
  state : Stacks

namespace Moment

def fetch (x : Moment) : Fetch :=
  ⟨x.position, x.opcode, x.state.main.size⟩

def counted (xs : List Moment) : List Moment :=
  xs.filter fun x => !Opcode.isPush x.opcode

end Moment

/-- What a run comes to if no number of operations is too many. -/
def momentsFrom (limits : ScriptLimits) (position : Nat) (script : Bytes) (state : Stacks) :
    List Moment :=
  match script with
  | [] => []
  | op :: rest =>
    ⟨position, op, state⟩ ::
      match runInstruction limits op rest state with
      | .error _ _ => []
      | .ok taken state => momentsFrom limits (position + 1 + taken) (rest.drop taken) state
termination_by script.length
decreasing_by simp only [List.length_drop, List.length_cons]; omega

/-- How the second run, under a limit, ends next to the first: in the same way, or stopped at a
moment of the first for one operation too many. -/
def Stopped (limit : Nat) (r r' : Run) : Option Moment → Prop
  | none => r' = r
  | some x => r'.outcome = .error (.limitExceeded (.operations limit)) ∧ r'.state = x.state

namespace Moment

variable {x : Moment} {xs : List Moment}

theorem getElem?_counted_cons (h : countOperation x.opcode operations ≤ limit) :
    (counted (x :: xs))[limit - operations]? =
      (counted xs)[limit - countOperation x.opcode operations]? := by
  unfold counted countOperation at *
  cases hpush : Opcode.isPush x.opcode with
  | true => simp [hpush]
  | false =>
    rw [hpush] at h
    have hindex : limit - operations = limit - (operations + 1) + 1 := by
      change operations + 1 ≤ limit at h
      omega
    simp [hpush, hindex]

theorem getElem?_counted_exceeded (hbefore : operations ≤ limit)
    (h : limit < countOperation x.opcode operations) :
    (counted (x :: xs))[limit - operations]? = some x := by
  unfold counted countOperation at *
  cases hpush : Opcode.isPush x.opcode with
  | true =>
    rw [hpush] at h
    exact absurd h (Nat.not_lt.mpr hbefore)
  | false =>
    rw [hpush] at h
    have hindex : limit - operations = 0 := Nat.sub_eq_zero_of_le (Nat.le_of_lt_succ h)
    simp [hpush, hindex]

end Moment

section

variable {free : Nat}

theorem within_of_room (limits : ScriptLimits) (hroom : operations + (op :: rest).length ≤ free) :
    ¬ (limits.allowing free).operations < countOperation op operations := by
  have hcount := countOperation_le op operations
  rw [List.length_cons] at hroom
  change ¬ free < _
  omega

theorem room_drop (hroom : operations + (op :: rest).length ≤ free) (taken : Nat) :
    countOperation op operations + (rest.drop taken).length ≤ free := by
  have hcount := countOperation_le op operations
  rw [List.length_cons] at hroom
  rw [List.length_drop]
  omega

/-- A run under a limit is the run that nothing stops for too many operations, or it stops where
that one comes to the first operation above the limit. -/
theorem runFrom_allowing (position operations : Nat) (fetched : List Fetch) (script : Bytes)
    (s : Stacks) (hroom : operations + script.length ≤ free) (hbefore : operations ≤ limit) :
    Stopped limit (runFrom (limits.allowing free) position operations fetched script s)
      (runFrom (limits.allowing limit) position operations fetched script s)
      (Moment.counted (momentsFrom limits position script s))[limit - operations]? := by
  -- `operations` grows as the counted moments are passed, so that the index always names the first
  -- operation above the limit.
  fun_induction momentsFrom limits position script s generalizing operations fetched with
  | case1 =>
    rw [runFrom, runFrom]
    rfl
  | case2 position s op rest ih =>
    by_cases hexceeded : limit < countOperation op operations
    case pos =>
      rw [Moment.getElem?_counted_exceeded hbefore hexceeded,
        runFrom_exceeded (limits.allowing limit) hexceeded]
      exact ⟨rfl, rfl⟩
    case neg =>
      have hwithin := within_of_room limits hroom
      rw [Moment.getElem?_counted_cons (Nat.not_lt.mp hexceeded)]
      cases hs : runInstruction limits op rest s with
      | error e t =>
        rw [runFrom_error (limits.allowing free) hwithin hs,
          runFrom_error (limits.allowing limit) hexceeded hs]
        rfl
      | ok taken t =>
        rw [runFrom_ok (limits.allowing free) hwithin hs,
          runFrom_ok (limits.allowing limit) hexceeded hs]
        exact ih taken t _ _ (room_drop hroom taken) (Nat.not_lt.mp hexceeded)

theorem fetches_runFrom (position operations : Nat) (fetched : List Fetch) (script : Bytes)
    (s : Stacks) (hroom : operations + script.length ≤ free) :
    (runFrom (limits.allowing free) position operations fetched script s).fetches =
      fetched.reverse ++ (momentsFrom limits position script s).map Moment.fetch := by
  fun_induction momentsFrom limits position script s generalizing operations fetched with
  | case1 =>
    rw [runFrom]
    exact (List.append_nil _).symm
  | case2 position s op rest ih =>
    have hwithin := within_of_room limits hroom
    cases hs : runInstruction limits op rest s with
    | error e t =>
      rw [runFrom_error (limits.allowing free) hwithin hs, List.reverse_cons]
      rfl
    | ok taken t =>
      rw [runFrom_ok (limits.allowing free) hwithin hs,
        ih taken t _ _ (room_drop hroom taken), List.reverse_cons, List.append_assoc]
      rfl

theorem runInstruction_ne_exceeded (h : runInstruction limits op rest s = .error e t) (n : Nat) :
    e ≠ .limitExceeded (.operations n) := by
  rintro rfl
  cases runInstruction_faulty limits op rest h with
  | cut hread => cases Push.isTruncated_of_read hread
  | operand hkind => cases hkind

theorem outcome_runFrom (position operations : Nat) (fetched : List Fetch) (script : Bytes)
    (s : Stacks) (hroom : operations + script.length ≤ free) (n : Nat) :
    (runFrom (limits.allowing free) position operations fetched script s).outcome ≠
      .error (.limitExceeded (.operations n)) := by
  fun_induction momentsFrom limits position script s generalizing operations fetched with
  | case1 =>
    rw [runFrom]
    intro h
    cases h
  | case2 position s op rest ih =>
    have hwithin := within_of_room limits hroom
    cases hs : runInstruction limits op rest s with
    | error e t =>
      rw [runFrom_error (limits.allowing free) hwithin hs]
      exact fun h => runInstruction_ne_exceeded hs n (Except.error.inj h)
    | ok taken t =>
      rw [runFrom_ok (limits.allowing free) hwithin hs]
      exact ih taken t _ _ (room_drop hroom taken)

theorem runFrom_take (position operations : Nat) (fetched : List Fetch) (script : Bytes)
    (s : Stacks) (hroom : operations + script.length ≤ free) :
    ∀ x ∈ momentsFrom limits position script s, ∃ n, x.position = position + n ∧
      let r := runFrom (limits.allowing free) position operations fetched (script.take n) s
      r.outcome = .ok () ∧ r.state = x.state := by
  fun_induction momentsFrom limits position script s generalizing operations fetched with
  | case1 => exact List.forall_mem_nil _
  | case2 position s op rest ih =>
    refine List.forall_mem_cons.mpr ⟨⟨0, rfl, ?_⟩, ?_⟩
    · rw [List.take_zero, runFrom]
      exact ⟨rfl, rfl⟩
    have hwithin := within_of_room limits hroom
    cases hs : runInstruction limits op rest s with
    | error e t => exact List.forall_mem_nil _
    | ok taken t =>
      intro x hx
      obtain ⟨n, hn, hrun⟩ := ih taken t _ (⟨position, op, s.main.size⟩ :: fetched)
        (room_drop hroom taken) x hx
      refine ⟨taken + n + 1, by omega, ?_⟩
      rw [List.take_succ_cons, List.take_add, runFrom_cons_take hwithin hs]
      exact hrun

end

namespace Machine

def allowing (m : Machine) (operations : Nat) : Machine :=
  { m with limits := m.limits.allowing operations }

def moments (m : Machine) (script : Bytes) : List Moment :=
  if m.limits.scriptSize < script.length then []
  else momentsFrom m.limits 0 script { m.state with alt := m.alt.cleared }

variable {m : Machine}

theorem limits_callAll (m : Machine) (calls : List Call) : (m.callAll calls).limits = m.limits := by
  induction calls generalizing m with
  | nil => rfl
  | cons c calls ih =>
    have hcall : (m.call c).limits = m.limits := by
      cases c with
      | execute script => rfl
      | reset => rfl
    exact (ih (m.call c)).trans hcall

theorem moments_of_size (h : script.length ≤ m.limits.scriptSize) :
    m.moments script = momentsFrom m.limits 0 script { m.state with alt := m.alt.cleared } :=
  if_neg (Nat.not_lt.mpr h)

theorem run_allowing_of_size (h : script.length ≤ m.limits.scriptSize) (operations : Nat) :
    (m.allowing operations).run script =
      runFrom (m.limits.allowing operations) 0 0 [] script { m.state with alt := m.alt.cleared } :=
  run_of_size (m := m.allowing operations) h

theorem moments_of_lt (h : m.limits.scriptSize < script.length) : m.moments script = [] :=
  if_pos h

theorem run_allowing_of_lt (h : m.limits.scriptSize < script.length) (operations : Nat) :
    (m.allowing operations).run script =
      ⟨.error (.limitExceeded (.script script.length m.limits.scriptSize)),
        { m.state with alt := m.alt.cleared }, []⟩ :=
  if_pos h

theorem fetches_run_allowing (m : Machine) (script : Bytes) :
    ((m.allowing script.length).run script).fetches = (m.moments script).map Moment.fetch := by
  by_cases hsize : m.limits.scriptSize < script.length
  case pos =>
    rw [run_allowing_of_lt hsize, moments_of_lt hsize]
    rfl
  case neg =>
    rw [Nat.not_lt] at hsize
    rw [run_allowing_of_size hsize, moments_of_size hsize]
    exact fetches_runFrom 0 0 [] script _ (by omega)

theorem outcome_run_allowing (m : Machine) (script : Bytes) (n : Nat) :
    ((m.allowing script.length).run script).outcome ≠ .error (.limitExceeded (.operations n)) := by
  by_cases hsize : m.limits.scriptSize < script.length
  case pos =>
    rw [run_allowing_of_lt hsize]
    intro h
    cases h
  case neg =>
    rw [run_allowing_of_size (Nat.not_lt.mp hsize)]
    exact outcome_runFrom 0 0 [] script _ (by omega) n

theorem run_take_of_moment {x : Moment} (hx : x ∈ m.moments script) :
    let r := (m.allowing script.length).run (script.take x.position)
    r.outcome = .ok () ∧ r.state = x.state := by
  by_cases hsize : m.limits.scriptSize < script.length
  case pos =>
    rw [moments_of_lt hsize] at hx
    cases hx
  case neg =>
    rw [Nat.not_lt] at hsize
    rw [moments_of_size hsize] at hx
    have htake : (script.take x.position).length ≤ m.limits.scriptSize := by
      rw [List.length_take]
      omega
    have hroom : 0 + script.length ≤ script.length := by omega
    obtain ⟨n, hn, hrun⟩ := runFrom_take 0 0 [] script _ hroom x hx
    rw [Nat.zero_add] at hn
    rw [run_allowing_of_size htake, hn]
    exact hrun

theorem positions_moments (m : Machine) (script : Bytes) :
    (m.moments script).map (·.position) <+: (Instruction.split script).boundaries := by
  by_cases hsize : m.limits.scriptSize < script.length
  case pos =>
    rw [moments_of_lt hsize]
    exact List.nil_prefix
  case neg =>
    rw [Nat.not_lt] at hsize
    obtain ⟨fetches, heq, halong, -⟩ := exists_fetchesAlong (m.limits.allowing script.length) 0 0 []
      script { m.state with alt := m.alt.cleared }
    have hpositions := halong.positions
    rw [List.reverse_nil, List.nil_append] at heq
    rw [← heq, ← run_allowing_of_size hsize, fetches_run_allowing, List.map_map] at hpositions
    exact hpositions

theorem stopped_run (m : Machine) (script : Bytes) :
    Stopped m.limits.operations ((m.allowing script.length).run script) (m.run script)
      (Moment.counted (m.moments script))[m.limits.operations]? := by
  by_cases hsize : m.limits.scriptSize < script.length
  case pos =>
    rw [moments_of_lt hsize, run_allowing_of_lt hsize]
    exact if_pos hsize
  case neg =>
    rw [Nat.not_lt] at hsize
    rw [moments_of_size hsize, run_allowing_of_size hsize, run_of_size hsize]
    exact runFrom_allowing 0 0 [] script _ (by omega) (Nat.zero_le _)

theorem length_counted_moments (m : Machine) (script : Bytes) :
    (Moment.counted (m.moments script)).length =
      ((m.allowing script.length).run script).operations := by
  rw [Run.operations, fetches_run_allowing, Moment.counted, ← List.countP_eq_length_filter,
    Opcode.operations, List.map_map, List.countP_map]
  rfl

end Machine

open Machine

/-- The limit for operations is exact, whatever a machine has run before. A run that may start as
many operations as the script has bytes is never stopped for them. If it starts no more of them than
the limit allows, a run under the limit is the same; otherwise that one fails at the first operation
above the limit, on the stacks that the other has there. Operations are the opcodes that are no
pushes, at places where the script is split. -/
theorem execute_allowing (m : Machine) (calls : List Call) (script : Bytes) :
    let start := m.callAll calls
    let free := start.allowing script.length
    let moments := start.moments script
    (moments.map Moment.fetch = (free.run script).fetches ∧
      moments.map (·.position) <+: (Instruction.split script).boundaries ∧
      ∀ x ∈ moments, let r := free.run (script.take x.position)
        r.outcome = .ok () ∧ r.state = x.state) ∧
    (∀ n, (free.execute script).1 ≠ .error (.limitExceeded (.operations n))) ∧
    ((free.run script).operations ≤ m.limits.operations →
      (start.execute script).1 = (free.execute script).1 ∧
        (start.execute script).2.state = (free.execute script).2.state) ∧
    (m.limits.operations < (free.run script).operations →
      ∃ x, (Moment.counted moments)[m.limits.operations]? = some x ∧
        (start.execute script).1 =
          .error (.limitExceeded (.operations m.limits.operations)) ∧
        (start.execute script).2.state = x.state) := by
  intro start free moments
  have hlimits : start.limits = m.limits := limits_callAll m calls
  have hstopped := stopped_run start script
  have hlength := length_counted_moments start script
  rw [hlimits] at hstopped
  refine ⟨⟨(fetches_run_allowing start script).symm, positions_moments start script,
    fun x hx => run_take_of_moment hx⟩, outcome_run_allowing start script, fun hle => ?within,
    fun hlt => ?above⟩
  case within =>
    rw [← hlength] at hle
    rw [List.getElem?_eq_none hle] at hstopped
    have hrun : start.run script = free.run script := hstopped
    exact ⟨congrArg Run.outcome hrun, congrArg Run.state hrun⟩
  case above =>
    rw [← hlength] at hlt
    have hget := List.getElem?_eq_getElem hlt
    rw [hget] at hstopped
    exact ⟨_, hget, hstopped⟩

theorem execute_allowing_two :
    let start := (Machine.new { operations := 2 }).callAll [.execute [0x51, 0x76, 0x76]]
    let script : Bytes := [0x76, 0x52, 0x93, 0x53, 0x87]
    let shorter : Bytes := [0x76, 0x52, 0x93, 0x53]
    2 < ((start.allowing 5).run script).operations ∧
      (start.execute script).1 = .error (.limitExceeded (.operations 2)) ∧
      (start.execute script).2.main.toList = [[1], [1], [1], [3], [3]] ∧
      ((start.allowing 4).run shorter).operations ≤ 2 ∧
      (start.execute shorter).1 = ((start.allowing 4).execute shorter).1 ∧
      (start.execute shorter).2.state = ((start.allowing 4).execute shorter).2.state := by
  intro start script shorter
  have habove : 2 < ((start.allowing 5).run script).operations := by decide +kernel
  have hwithin : ((start.allowing 4).run shorter).operations ≤ 2 := by decide +kernel
  obtain ⟨-, -, -, hscript⟩ :=
    execute_allowing (.new { operations := 2 }) [.execute [0x51, 0x76, 0x76]] script
  obtain ⟨-, -, hshorter, -⟩ :=
    execute_allowing (.new { operations := 2 }) [.execute [0x51, 0x76, 0x76]] shorter
  obtain ⟨_, -, hstopped, -⟩ := hscript habove
  obtain ⟨houtcome, hstate⟩ := hshorter hwithin
  exact ⟨habove, hstopped, by decide +kernel, hwithin, houtcome, hstate⟩

end Script
end ScriptLedger
