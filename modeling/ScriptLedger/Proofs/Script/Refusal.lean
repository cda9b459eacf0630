import ScriptLedger.Proofs.Script.Halt
import ScriptLedger.Proofs.Script.Judgement

namespace ScriptLedger

open Stateful

/-- Whether a failure is about the instruction itself or about operands that are missing, and not
about what the operands are or about room for a result. -/
def Failure.isRefusal : Failure → Bool
  | .truncated _ => true
  | .limitExceeded _ => true
  | .stackUnderflow => true
  | .unrecognizedOpcode _ _ => true
  | .notImplemented _ => true
  | .disabledOpcode _ => true
  | _ => false

namespace Script

/-- The stacks that a computation can meet that counts on so much, in a run that began at
`origin`. -/
def Known.Fits (origin s : Stack) : Known → Prop
  | .untouched => s = origin
  | .holds n => n ≤ s.size

namespace Known.Fits

variable {k : Known} {origin s : Stack}

theorem count_le (h : k.Fits origin s) : k.count ≤ s.size := by
  cases k with
  | untouched => exact Nat.zero_le _
  | holds n => exact h

/-- Only the first to come to the stack can find too few items. -/
theorem eq_origin {n : Nat} (h : k.Fits origin s) (hk : k.Allows n) (hs : s.size < n) :
    s = origin := by
  cases k with
  | untouched => exact h
  | holds m => exact absurd (Nat.le_trans hk h) (Nat.not_le.mpr hs)

end Known.Fits

/-- A computation that, when it is refused, leaves the stack that the run began with, and what can
be counted on behind it. -/
structure Checks {α : Type} (k : Known) (x : StackM α) (after : α → Known) : Prop where
  ok : ∀ {origin s a t}, k.Fits origin s → x s = .ok a t → (after a).Fits origin t
  error : ∀ {origin s e t}, k.Fits origin s → x s = .error e t → e.isRefusal = true → t = origin

theorem isRefusal_of_push {x : Bytes} {s t : Stack} {e : Failure}
    (h : Stack.push x s = .error e t) : e.isRefusal = false := by
  unfold Stack.push at h
  split at h
  · cases h
  · cases h
    rfl

namespace Checks

variable {α β : Type} {k : Known} {x : StackM α} {after : α → Known}

theorem of_cases
    (h : ∀ origin s, k.Fits origin s →
      (∃ a t, x s = .ok a t ∧ (after a).Fits origin t) ∨
        ∃ e t, x s = .error e t ∧ (e.isRefusal = true → t = origin)) :
    Checks k x after where
  ok := by
    intro origin s a t hs hx
    obtain ⟨_, _, hx', ht⟩ | ⟨_, _, hx', _⟩ := h origin s hs
    · cases hx.symm.trans hx'
      exact ht
    · cases hx.symm.trans hx'
  error := by
    intro origin s e t hs hx he
    obtain ⟨_, _, hx', _⟩ | ⟨_, _, hx', ht⟩ := h origin s hs
    · cases hx.symm.trans hx'
    · cases hx.symm.trans hx'
      exact ht he

theorem of_not_refused (h : ∀ {s e t}, x s = .error e t → e.isRefusal = false) :
    Checks k x fun _ => .holds 0 where
  ok _ _ := Nat.zero_le _
  error _ hx he := by
    rw [h hx] at he
    cases he

theorem throw {e : Failure} (h : e.isRefusal = false) :
    Checks k (throw e : StackM α) fun _ => .holds 0 := by
  apply of_not_refused
  intro s e' t hx
  cases hx
  exact h

theorem refuse (e : Failure) : Checks .untouched (MonadExcept.throw e : StackM α) after :=
  of_cases fun _ s hs => .inr ⟨e, s, rfl, fun _ => hs⟩

theorem bind {f : α → StackM β} {after' : β → Known} (hx : Checks k x after)
    (hf : ∀ a, Checks (after a) (f a) after') : Checks k (x >>= f) after' where
  ok hs h := by
    obtain ⟨a, t, hxa, hfa⟩ := bind_eq_ok_iff.mp h
    exact (hf a).ok (hx.ok hs hxa) hfa
  error hs h he := by
    obtain hxe | ⟨a, t, hxa, hfe⟩ := bind_eq_error_iff.mp h
    · exact hx.error hs hxe he
    · exact (hf a).error (hx.ok hs hxa) hfe he

theorem push (item : Bytes) : Checks k (Stack.push item) fun _ => .holds (k.count + 1) := by
  apply of_cases
  intro origin s hs
  by_cases hroom : s.size < s.capacity
  case pos => exact .inl ⟨_, _, Stack.push_of_room hroom item, Nat.succ_le_succ hs.count_le⟩
  case neg => exact .inr ⟨_, _, Stack.push_of_full (Nat.not_lt.mp hroom) item, nofun⟩

theorem pop (hk : k.Allows 1) : Checks k Stack.pop fun _ => .holds (k.count - 1) := by
  apply of_cases
  intro origin ⟨items, capacity⟩ hs
  cases items with
  | nil => exact .inr ⟨_, _, Stack.pop_nil capacity, fun _ => hs.eq_origin hk Nat.zero_lt_one⟩
  | cons item rest =>
    exact .inl ⟨_, _, Stack.pop_cons item rest capacity, Nat.sub_le_sub_right hs.count_le 1⟩

theorem peek {depth : Nat} (hk : k.Allows (depth + 1)) :
    Checks k (Stack.peek depth) fun _ => k := by
  apply of_cases
  intro origin s hs
  cases hitem : s.items[depth]? with
  | none =>
    have hsize := Nat.lt_succ_of_le (List.getElem?_eq_none_iff.mp hitem)
    exact .inr ⟨_, _, Stack.peek_of_none hitem, fun _ => hs.eq_origin hk hsize⟩
  | some item => exact .inl ⟨_, _, Stack.peek_of_some hitem, hs⟩

theorem remove {depth : Nat} (hk : k.Allows (depth + 1)) :
    Checks k (Stack.remove depth) fun _ => .holds (k.count - 1) := by
  apply of_cases
  intro origin s hs
  cases hitem : s.items[depth]? with
  | none =>
    have hsize := Nat.lt_succ_of_le (List.getElem?_eq_none_iff.mp hitem)
    exact .inr ⟨_, _, Stack.remove_of_none hitem, fun _ => hs.eq_origin hk hsize⟩
  | some item =>
    obtain ⟨hdepth, _⟩ := List.getElem?_eq_some_iff.mp hitem
    refine .inl ⟨_, _, Stack.remove_of_some hitem, ?_⟩
    change k.count - 1 ≤ (s.items.eraseIdx depth).length
    rw [List.length_eraseIdx_of_lt hdepth]
    exact Nat.sub_le_sub_right hs.count_le 1

theorem require (n : Nat) : Checks .untouched (Stack.require n) fun _ => .holds n := by
  apply of_cases
  intro origin s hs
  by_cases hn : n ≤ s.size
  case pos => exact .inl ⟨_, _, Stack.require_of_le hn, hn⟩
  case neg => exact .inr ⟨_, _, Stack.require_of_lt (Nat.not_le.mp hn), fun _ => hs⟩

theorem checkIndex (n : Int) : Checks k (Stack.checkIndex n) fun i => .holds (i + 1) := by
  apply of_cases
  intro origin s _
  unfold Stack.checkIndex
  split
  case isTrue => exact .inr ⟨_, _, rfl, nofun⟩
  case isFalse h =>
    refine .inl ⟨_, _, rfl, ?_⟩
    change n.toNat < s.size
    omega

end Checks

/-- A computation on both stacks that has changed nothing when it is refused. -/
def RefusesUntouched {α : Type} (x : StacksM α) : Prop :=
  ∀ ⦃s e t⦄, x s = .error e t → e.isRefusal = true → t = s

namespace RefusesUntouched

variable {α β : Type}

theorem throw (e : Failure) : RefusesUntouched (throw e : StacksM α) := by
  intro s e' t hs _
  cases hs
  rfl

theorem onMain {x : StackM α} {after : α → Known} (h : Checks .untouched x after) :
    RefusesUntouched (onMain x) := by
  intro s e t hs he
  obtain ⟨u, hx, rfl⟩ := onMain_eq_error_iff.mp hs
  rw [h.error rfl hx he]

theorem onAlt {x : StackM α} {after : α → Known} (h : Checks .untouched x after) :
    RefusesUntouched (onAlt x) := by
  intro s e t hs he
  obtain ⟨u, hx, rfl⟩ := onAlt_eq_error_iff.mp hs
  rw [h.error rfl hx he]

theorem bind {x : StacksM α} {f : α → StacksM β} (hx : RefusesUntouched x)
    (hf : ∀ a s e t, f a s = .error e t → e.isRefusal = false) : RefusesUntouched (x >>= f) := by
  intro s e t h he
  obtain hxe | ⟨a, u, _, hfe⟩ := bind_eq_error_iff.mp h
  · exact hx hxe he
  · cases he.symm.trans (hf a u e t hfe)

end RefusesUntouched

theorem isRefusal_of_onMain_push {item : Bytes} {s t : Stacks} {e : Failure}
    (h : onMain (Stack.push item) s = .error e t) : e.isRefusal = false := by
  obtain ⟨u, hx, _⟩ := onMain_eq_error_iff.mp h
  exact isRefusal_of_push hx

theorem isRefusal_of_onAlt_push {item : Bytes} {s t : Stacks} {e : Failure}
    (h : onAlt (Stack.push item) s = .error e t) : e.isRefusal = false := by
  obtain ⟨u, hx, _⟩ := onAlt_eq_error_iff.mp h
  exact isRefusal_of_push hx

namespace Checks

theorem depth : Checks .untouched Operation.depth fun _ => .holds 0 :=
  of_not_refused isRefusal_of_push

/-- Refusing before anything is changed, as it can be said of operations. -/
def judgement (width : Nat) : Judgement width width where
  one k x _ := Checks k x fun _ => .holds 0
  both x _ := RefusesUntouched x
  item _ := True
  allowed _ := True
  item_of_narrow _ := trivial
  item_of_le _ _ := trivial
  pure _ := of_not_refused nofun
  push _ hf := (push _).bind fun _ => hf
  pop hk hf := (pop hk).bind fun x => hf x trivial
  peek hk hf := (peek hk).bind fun x => hf x trivial
  remove hk hf := (remove hk).bind fun x => hf x trivial
  require hf := (require _).bind fun _ => hf
  width_le := Nat.le_refl width
  tooWide _ := .throw rfl
  overflow _ := .throw rfl
  checkIndex hf := (checkIndex _).bind hf
  reject _ := .throw rfl
  refuse _ := .refuse _
  onMain := .onMain
  toAlt := RefusesUntouched.bind (.onMain (pop trivial)) fun _ _ _ _ => isRefusal_of_onAlt_push
  fromAlt := RefusesUntouched.bind (.onAlt (pop trivial)) fun _ _ _ _ => isRefusal_of_onMain_push
  answer _ h := h.bind fun _ _ _ _ => nofun
  refuseBoth _ := .throw _

theorem judgement_pushes (width size : Nat) : (judgement width).Pushes size size where
  le := Nat.le_refl size
  item_of_le _ := trivial
  overlong _ _ := refuse _

end Checks

/-- An instruction that is refused has not touched the stacks. -/
theorem runInstruction_untouched (limits : ScriptLimits) (op : UInt8) (rest : Bytes) :
    RefusesUntouched (runInstruction limits op rest) :=
  (Checks.judgement limits.numberWidth).runInstruction (Checks.judgement_pushes _ _)
    (fun _ => Checks.depth) fun _ _ _ => trivial

theorem Stops.eq_of_isRefusal {limits : ScriptLimits} {operations : Nat} {op : UInt8}
    {rest : Bytes} {s t : Stacks} {e : Failure} (h : Stops limits operations op rest s e t)
    (he : e.isRefusal = true) : t = s := by
  cases h with
  | exceeded => rfl
  | failed h => exact runInstruction_untouched limits op rest h he

namespace Machine

variable {m : Machine} {script : Bytes} {e : Failure}

theorem execute_nil (m : Machine) :
    m.execute [] = (.ok (), { m with state := { m.state with alt := m.alt.cleared } }) := by
  unfold execute
  rw [run_of_size (Nat.zero_le _), runFrom]
  rfl

theorem execute_oversized (h : m.limits.scriptSize < script.length) :
    (m.execute script).2 = (m.execute []).2 := by
  rw [execute_nil]
  unfold execute run
  rw [if_pos h]
  rfl

/-- The run of a script that is refused is the run of the whole instructions in front of some
opcode, which it fetches and no more. -/
theorem exists_front_of_refused (hsize : script.length ≤ m.limits.scriptSize)
    (h : (m.run script).outcome = .error e) (he : e.isRefusal = true) :
    ∃ front op rest, script = front ++ op :: rest ∧
      (Instruction.split front).failure = none ∧
      (m.run front).outcome = .ok () ∧
      (m.run script).state = (m.run front).state ∧
      (m.run script).fetches =
        (m.run front).fetches ++ [⟨front.length, op, (m.run front).state.main.size⟩] := by
  obtain ⟨front, op, rest, hscript, hwhole, hok, hstop, hfetches⟩ := exists_stop_of_error hsize h
  exact ⟨front, op, rest, hscript, hwhole, hok, hstop.eq_of_isRefusal he, hfetches⟩

end Machine

/-- A script that is refused leaves what the whole instructions in front of the refused one leave:
if the script itself is too long none of them, and otherwise all up to the last opcode fetched. -/
theorem execute_refused (m : Machine) (script : Bytes) {e : Failure}
    (h : (m.execute script).1 = .error e) (he : e.isRefusal = true) :
    ∃ p, p < script.length ∧ (Instruction.split (script.take p)).failure = none ∧
      m.execute (script.take p) = (.ok (), (m.execute script).2) ∧
      (m.limits.scriptSize < script.length → p = 0) ∧
      (script.length ≤ m.limits.scriptSize → ∃ fetch, fetch.position = p ∧
        (m.run script).fetches = (m.run (script.take p)).fetches ++ [fetch]) := by
  by_cases hsize : m.limits.scriptSize < script.length
  case pos =>
    refine ⟨0, Nat.zero_lt_of_lt hsize, by rw [List.take_zero, Instruction.split_nil], ?_,
      fun _ => rfl, fun hle => absurd hsize (Nat.not_lt.mpr hle)⟩
    rw [List.take_zero, Machine.execute_oversized hsize, Machine.execute_nil]
  case neg =>
    obtain ⟨front, op, rest, hscript, hwhole, hok, hstate, hfetches⟩ :=
      Machine.exists_front_of_refused (Nat.not_lt.mp hsize) h he
    have htake : script.take front.length = front := by
      rw [hscript, List.take_left]
    have hlt : front.length < script.length := by
      rw [hscript, List.length_append, List.length_cons]
      omega
    refine ⟨front.length, hlt, ?_⟩
    rw [htake]
    exact ⟨hwhole, Prod.ext hok (congrArg (Machine.mk · m.limits) hstate.symm),
      fun hover => absurd hover hsize, fun _ => ⟨_, rfl, hfetches⟩⟩

def Machine.lonely : Machine :=
  ⟨⟨⟨[[7]], 3⟩, .empty 3⟩, { stackSize := 3 }⟩

/-- Sets a one aside and then adds what is no longer there. -/
def overreaching : Bytes :=
  [0x51, 0x6b, 0x93, 0x51]

theorem execute_refused_overreaching :
    (Machine.lonely.execute overreaching).1 = .error .stackUnderflow ∧
      (Machine.lonely.execute overreaching).2.main.toList = [[7]] ∧
      (Machine.lonely.execute overreaching).2.alt.toList = [[1]] ∧
      ∃ p, p < overreaching.length ∧
        (Instruction.split (overreaching.take p)).failure = none ∧
        Machine.lonely.execute (overreaching.take p) =
          (.ok (), (Machine.lonely.execute overreaching).2) := by
  have herror : (Machine.lonely.execute overreaching).1 = .error .stackUnderflow := by
    decide +kernel
  obtain ⟨p, hp, hwhole, hexecute, _⟩ := execute_refused Machine.lonely overreaching herror rfl
  exact ⟨herror, by decide +kernel, by decide +kernel, p, hp, hwhole, hexecute⟩

end Script
end ScriptLedger
