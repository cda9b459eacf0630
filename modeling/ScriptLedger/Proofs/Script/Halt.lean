import ScriptLedger.Proofs.Script.Append

namespace ScriptLedger.Script

variable {limits : ScriptLimits} {position operations : Nat} {fetched : List Fetch}
  {op : UInt8} {rest : Bytes} {push : Option Push} {s t : Stacks} {taken : Nat} {e : Failure}

theorem Push.Found.length_take (h : Found op rest push) :
    (rest.take (Instruction.dataSize ⟨op, push⟩)).length = Instruction.dataSize ⟨op, push⟩ := by
  rw [List.length_take, Nat.min_eq_left h.size_le]

theorem Push.Found.take (h : Found op rest push) :
    Found op (rest.take (Instruction.dataSize ⟨op, push⟩)) push := by
  cases h with
  | direct hd hn =>
    have hsize : Instruction.dataSize ⟨op, some ⟨0, rest.take op.toNat⟩⟩ = op.toNat := by
      simp only [Instruction.dataSize, size, List.length_take]
      omega
    rw [hsize]
    have hdata : (rest.take op.toNat).take op.toNat = rest.take op.toNat := by
      rw [List.take_take, Nat.min_self]
    have hn' : op.toNat ≤ (rest.take op.toNat).length := by
      rw [List.length_take]
      omega
    have hfound := Found.direct hd hn'
    rwa [hdata] at hfound
  | @sized width hd hw hn =>
    have hsize : Instruction.dataSize
        ⟨op, some ⟨width, (rest.drop width).take (LittleEndian.decode (rest.take width))⟩⟩ =
          width + LittleEndian.decode (rest.take width) := by
      simp only [Instruction.dataSize, size, List.length_take, List.length_drop]
      omega
    rw [hsize]
    have hfield : (rest.take (width + LittleEndian.decode (rest.take width))).take width =
        rest.take width := by
      rw [List.take_take, Nat.min_eq_left (Nat.le_add_right _ _)]
    have hn' : width + LittleEndian.decode
        ((rest.take (width + LittleEndian.decode (rest.take width))).take width) ≤
          (rest.take (width + LittleEndian.decode (rest.take width))).length := by
      rw [hfield, List.length_take]
      omega
    have hfound := Found.sized hd hw hn'
    rw [hfield, List.drop_take, Nat.add_sub_cancel_left, List.take_take, Nat.min_self] at hfound
    exact hfound
  | bare hd hw => exact .bare hd hw

/-- Why an opcode ends a run: it starts one operation too many, or its instruction fails. The
state is the one that it leaves. -/
inductive Stops (limits : ScriptLimits) (operations : Nat) (op : UInt8) (rest : Bytes)
    (s : Stacks) : Failure → Stacks → Prop where
  | exceeded (h : limits.operations < countOperation op operations) :
      Stops limits operations op rest s (.limitExceeded (.operations limits.operations)) s
  | failed {e : Failure} {t : Stacks} (h : runInstruction limits op rest s = .error e t) :
      Stops limits operations op rest s e t

theorem split_cons_take (h : Push.read? op rest = .ok push) (more : Bytes) :
    Instruction.split (op :: (rest.take (Instruction.dataSize ⟨op, push⟩) ++ more)) =
      ⟨⟨op, push⟩ :: (Instruction.split more).instructions, (Instruction.split more).failure⟩ := by
  have hfound := Push.found_of_read h
  have hread := (hfound.take.append more).read_eq
  rw [Instruction.split_cons_ok hread, List.drop_left' hfound.length_take]

/-- A run goes on behind an instruction in the same way whatever follows it. -/
theorem runFrom_cons_take (hwithin : ¬ limits.operations < countOperation op operations)
    (hs : runInstruction limits op rest s = .ok taken t) (more : Bytes) :
    runFrom limits position operations fetched (op :: (rest.take taken ++ more)) s =
      runFrom limits (position + 1 + taken) (countOperation op operations)
        (⟨position, op, s.main.size⟩ :: fetched) more t := by
  obtain ⟨push, hread, rfl⟩ := runInstruction_taken hs
  have hfound := Push.found_of_read hread
  have hcut (bs : Bytes) :
      runInstruction limits op (rest.take (Instruction.dataSize ⟨op, push⟩) ++ bs) =
        runInstruction limits op (rest.take (Instruction.dataSize ⟨op, push⟩)) :=
    runInstruction_append hfound.take.read_eq bs
  have hrest := hcut (rest.drop (Instruction.dataSize ⟨op, push⟩))
  rw [List.take_append_drop] at hrest
  rw [hrest, ← hcut more] at hs
  rw [runFrom_ok limits hwithin hs, List.drop_left' hfound.length_take]

/-- A run that fails has run whole instructions up to the opcode that stops it. -/
theorem exists_stop_of_error (script : Bytes)
    (h : (runFrom limits position operations fetched script s).outcome = .error e) :
    ∃ front op rest, script = front ++ op :: rest ∧
      (Instruction.split front).failure = none ∧
      let r := runFrom limits position operations fetched script s
      let r₀ := runFrom limits position operations fetched front s
      r₀.outcome = .ok () ∧
        Stops limits (operations + (Instruction.split front).operations) op rest r₀.state e
          r.state ∧
        r.fetches = r₀.fetches ++ [⟨position + front.length, op, r₀.state.main.size⟩] := by
  fun_induction runFrom limits position operations fetched script s with
  | case1 => cases h
  | case2 position operations fetched s op rest fetched₁ operations₁ hexceeded =>
    cases h
    refine ⟨[], op, rest, rfl, by rw [Instruction.split_nil], ?_⟩
    rw [runFrom, Instruction.split_nil]
    exact ⟨rfl, .exceeded hexceeded, by rw [List.reverse_cons]; rfl⟩
  | case3 position operations fetched s op rest fetched₁ operations₁ hwithin e' t hs =>
    cases h
    refine ⟨[], op, rest, rfl, by rw [Instruction.split_nil], ?_⟩
    rw [runFrom, Instruction.split_nil]
    exact ⟨rfl, .failed hs, by rw [List.reverse_cons]; rfl⟩
  | case4 position operations fetched s op rest fetched₁ operations₁ hwithin taken t hs ih =>
    obtain ⟨front, op', rest', hscript, hwhole, hok, hstop, hfetches⟩ := ih h
    obtain ⟨push, hread, htaken⟩ := runInstruction_taken hs
    have hsplit := split_cons_take hread front
    have hlength := (Push.found_of_read hread).length_take
    have hcount := Opcode.operations_cons op
      ((Instruction.split front).instructions.map (·.opcode)) operations
    rw [← htaken] at hsplit hlength
    refine ⟨op :: (rest.take taken ++ front), op', rest', ?_, by rw [hsplit]; exact hwhole, ?_⟩
    · rw [List.cons_append, List.append_assoc, ← hscript, List.take_append_drop]
    rw [runFrom_cons_take hwithin hs, hsplit]
    refine ⟨hok, ?_, ?_⟩
    · rw [Split.operations, List.map_cons, ← hcount]
      exact hstop
    · rw [hfetches, List.length_cons, List.length_append, hlength]
      have hposition : position + 1 + taken + front.length =
          position + (taken + front.length + 1) := by omega
      rw [hposition]

theorem Machine.exists_stop_of_error {m : Machine} {script : Bytes}
    (hsize : script.length ≤ m.limits.scriptSize) (h : (m.run script).outcome = .error e) :
    ∃ front op rest, script = front ++ op :: rest ∧
      (Instruction.split front).failure = none ∧
      (m.run front).outcome = .ok () ∧
      Stops m.limits (Instruction.split front).operations op rest (m.run front).state e
        (m.run script).state ∧
      (m.run script).fetches =
        (m.run front).fetches ++ [⟨front.length, op, (m.run front).state.main.size⟩] := by
  have hrun := run_of_size hsize
  rw [hrun] at h
  obtain ⟨front, op, rest, hscript, hwhole, hok, hstop, hfetches⟩ :=
    Script.exists_stop_of_error script h
  have hle : front.length ≤ m.limits.scriptSize := by
    rw [hscript, List.length_append] at hsize
    exact Nat.le_of_add_right_le hsize
  have hfront := run_of_size hle
  rw [← hfront] at hok
  rw [← hrun, ← hfront, Nat.zero_add] at hstop hfetches
  exact ⟨front, op, rest, hscript, hwhole, hok, hstop, hfetches⟩

end ScriptLedger.Script
