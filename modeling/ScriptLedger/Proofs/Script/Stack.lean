import ScriptLedger.Proofs.Script.Index

namespace ScriptLedger.Script.Stack

open Stateful

inductive Call where
  | push (item : Bytes)
  | pushByte (b : UInt8)
  | pushBool (b : Bool)
  | pop
  | top
  | peek (depth : Nat)
  | remove (depth : Nat)
  | require (n : Nat)
  | clear
  deriving DecidableEq, Repr

abbrev Answer := Except Failure (Option Bytes)

def Call.run : Call → StackM (Option Bytes)
  | .push item => do
    Stack.push item
    return none
  | .pushByte b => do
    Stack.pushByte b
    return none
  | .pushBool b => do
    Stack.pushBool b
    return none
  | .pop => do return some (← Stack.pop)
  | .top => do return some (← Stack.top)
  | .peek depth => do return some (← Stack.peek depth)
  | .remove depth => do return some (← Stack.remove depth)
  | .require n => do
    Stack.require n
    return none
  | .clear => do
    Stack.clear
    return none

/-- The answers to calls made in order, also behind calls that fail, and the stack that is left. -/
def callAll (s : Stack) : List Call → List Answer × Stack
  | [] => ([], s)
  | c :: calls =>
    let later := (after c.run s).callAll calls
    (outcome c.run s :: later.1, later.2)

/-- The item that a call puts on top. -/
def Call.item? : Call → Option Bytes
  | .push item => some item
  | .pushByte b => some [b]
  | .pushBool b => some [if b then 1 else 0]
  | _ => none

/-- When a call fails: a push to a full list, and asking for more items than there are. -/
def Call.Refused (capacity : Nat) (items : List Bytes) : Call → Prop
  | .push _ | .pushByte _ | .pushBool _ => items.length = capacity
  | .pop | .top => items = []
  | .peek depth | .remove depth => items.length ≤ depth
  | .require n => items.length < n
  | .clear => False

def Call.refusal (capacity : Nat) (c : Call) : Failure :=
  match c.item? with
  | some _ => .stackOverflow capacity
  | none => .stackUnderflow

/-- What a call does to a list of at most `capacity` items whose end is the top: the answer to it
and the list that it leaves. -/
inductive Does (capacity : Nat) : Call → List Bytes → Answer → List Bytes → Prop where
  | pushed {c : Call} {item : Bytes} {items : List Bytes} (h : c.item? = some item)
      (hroom : items.length < capacity) : Does capacity c items (.ok none) (items ++ [item])
  | popped (item : Bytes) (items : List Bytes) :
      Does capacity .pop (items ++ [item]) (.ok (some item)) items
  | seen (item : Bytes) (items : List Bytes) :
      Does capacity .top (items ++ [item]) (.ok (some item)) (items ++ [item])
  | peeked (lower : List Bytes) (item : Bytes) (upper : List Bytes) :
      Does capacity (.peek upper.length) (lower ++ item :: upper) (.ok (some item))
        (lower ++ item :: upper)
  | removed (lower : List Bytes) (item : Bytes) (upper : List Bytes) :
      Does capacity (.remove upper.length) (lower ++ item :: upper) (.ok (some item))
        (lower ++ upper)
  | enough {n : Nat} {items : List Bytes} (h : n ≤ items.length) :
      Does capacity (.require n) items (.ok none) items
  | cleared (items : List Bytes) : Does capacity .clear items (.ok none) []
  | refused {c : Call} {items : List Bytes} (h : c.Refused capacity items) :
      Does capacity c items (.error (c.refusal capacity)) items

inductive DoesAll (capacity : Nat) : List Bytes → List Call → List Answer → List Bytes → Prop where
  | nil (items : List Bytes) : DoesAll capacity items [] [] items
  | cons {c : Call} {calls : List Call} {items mid out : List Bytes} {a : Answer}
      {answers : List Answer} (h : Does capacity c items a mid)
      (hrest : DoesAll capacity mid calls answers out) :
      DoesAll capacity items (c :: calls) (a :: answers) out

variable {capacity : Nat} {c : Call} {calls : List Call} {items out : List Bytes} {a : Answer}
  {answers : List Answer} {s : Stack} {item : Bytes}

theorem toList_withItems (s : Stack) (items : List Bytes) : (s.withItems items).toList = items :=
  List.reverse_reverse items

theorem withItems_toList (s : Stack) : s.withItems s.toList = s := by
  rw [withItems, toList, List.reverse_reverse]

theorem length_toList (s : Stack) : s.toList.length = s.size :=
  List.length_reverse

theorem Call.run_of_item (h : c.item? = some item) :
    c.run = do
      Stack.push item
      return none := by
  cases c with
  | push | pushByte | pushBool =>
    cases h
    rfl
  | pop | top | peek | remove | require | clear => cases h

theorem items_at_split {lower upper : List Bytes} (h : s.toList = lower ++ item :: upper) :
    s.items[upper.length]? = some item ∧
      (⟨s.items.eraseIdx upper.length, s.capacity⟩ : Stack) = s.withItems (lower ++ upper) := by
  have hitems : s.items = upper.reverse ++ item :: lower.reverse := by
    rw [items_eq_of_toList h, List.reverse_cons, List.append_assoc]
    rfl
  rw [hitems, ← List.length_reverse, Operation.getElem?_between, Operation.eraseIdx_between,
    withItems, List.reverse_append]
  exact ⟨rfl, rfl⟩

theorem run_of_refused (h : c.Refused s.capacity s.toList) :
    c.run s = .error (c.refusal s.capacity) s := by
  have hfull (h : s.toList.length = s.capacity) (item : Bytes) :
      Stack.push item s = .error (.stackOverflow s.capacity) s := by
    rw [length_toList] at h
    exact push_of_full (Nat.le_of_eq h.symm) item
  have hdepth {depth : Nat} (h : s.toList.length ≤ depth) : s.items[depth]? = none := by
    rw [length_toList] at h
    exact List.getElem?_eq_none h
  cases c with
  | push | pushByte | pushBool => exact bind_error (hfull h _)
  | pop =>
    obtain ⟨items, capacity⟩ := s
    cases List.reverse_eq_nil_iff.mp h
    exact bind_error (pop_nil capacity)
  | top => exact bind_error (peek_of_none (hdepth (Nat.le_of_eq (congrArg List.length h))))
  | peek depth => exact bind_error (peek_of_none (hdepth h))
  | remove depth => exact bind_error (remove_of_none (hdepth h))
  | require n =>
    rw [Call.Refused, length_toList] at h
    exact bind_error (require_of_lt h)
  | clear => exact h.elim

theorem Does.run (h : Does s.capacity c s.toList a out) :
    outcome c.run s = a ∧ after c.run s = s.withItems out := by
  generalize hl : s.toList = items at h
  -- A call that ends well, from its run.
  have hok {c : Call} {o : Option Bytes} {t : Stack} (hrun : c.run s = .ok o t)
      (ht : t = s.withItems out) : outcome c.run s = .ok o ∧ after c.run s = s.withItems out :=
    ⟨outcome_ok hrun, (after_ok hrun).trans ht⟩
  cases h with
  | @pushed _ item _ hitem hroom =>
    rw [← hl, length_toList] at hroom
    have hpush := push_withItems hroom item
    rw [hl] at hpush
    refine hok ?_ rfl
    rw [c.run_of_item hitem]
    exact bind_ok hpush
  | popped item rest =>
    have hitems : s.items = item :: out.reverse := items_eq_of_toList hl
    have hpop : Stack.pop s = .ok item (s.withItems out) := by
      rw [Stack.pop, hitems]
      rfl
    exact hok (bind_ok hpop) rfl
  | seen item rest =>
    have hsplit : s.toList = rest ++ item :: [] := hl
    obtain ⟨hitem, -⟩ := items_at_split hsplit
    exact hok (bind_ok (peek_of_some hitem)) (by rw [← hl, withItems_toList])
  | peeked lower item upper =>
    obtain ⟨hitem, -⟩ := items_at_split hl
    exact hok (bind_ok (peek_of_some hitem)) (by rw [← hl, withItems_toList])
  | removed lower item upper =>
    obtain ⟨hitem, hrest⟩ := items_at_split hl
    exact hok (bind_ok (remove_of_some hitem)) hrest
  | enough hn =>
    rw [← hl, length_toList] at hn
    exact hok (bind_ok (require_of_le hn)) (by rw [← hl, withItems_toList])
  | cleared => exact hok rfl rfl
  | refused hrefused =>
    rw [← hl] at hrefused
    have hrun := run_of_refused hrefused
    rw [← hl, withItems_toList]
    exact ⟨outcome_error hrun, after_error hrun⟩

theorem exists_does (c : Call) (h : items.length ≤ capacity) :
    ∃ a out, Does capacity c items a out := by
  have hpush {c : Call} {item : Bytes} (hitem : c.item? = some item)
      (hrefused : items.length = capacity → c.Refused capacity items) :
      ∃ a out, Does capacity c items a out := by
    obtain hroom | hfull := Nat.lt_or_eq_of_le h
    · exact ⟨_, _, .pushed hitem hroom⟩
    · exact ⟨_, _, .refused (hrefused hfull)⟩
  have hlast : items = [] ∨ ∃ rest item, items = rest ++ [item] := by
    simpa only [List.concat_eq_append] using List.eq_nil_or_concat items
  cases c with
  | push | pushByte | pushBool => exact hpush rfl id
  | pop =>
    obtain rfl | ⟨rest, item, rfl⟩ := hlast
    · exact ⟨_, _, .refused rfl⟩
    · exact ⟨_, _, .popped item rest⟩
  | top =>
    obtain rfl | ⟨rest, item, rfl⟩ := hlast
    · exact ⟨_, _, .refused rfl⟩
    · exact ⟨_, _, .seen item rest⟩
  | peek depth =>
    obtain hlt | hle := Nat.lt_or_ge depth items.length
    · obtain ⟨lower, item, upper, rfl, rfl⟩ := Operation.exists_split_below hlt
      exact ⟨_, _, .peeked lower item upper⟩
    · exact ⟨_, _, .refused hle⟩
  | remove depth =>
    obtain hlt | hle := Nat.lt_or_ge depth items.length
    · obtain ⟨lower, item, upper, rfl, rfl⟩ := Operation.exists_split_below hlt
      exact ⟨_, _, .removed lower item upper⟩
    · exact ⟨_, _, .refused hle⟩
  | require n =>
    obtain hlt | hle := Nat.lt_or_ge items.length n
    · exact ⟨_, _, .refused hlt⟩
    · exact ⟨_, _, .enough hle⟩
  | clear => exact ⟨_, _, .cleared items⟩

theorem Does.length_le (h : Does capacity c items a out) (hle : items.length ≤ capacity) :
    out.length ≤ capacity := by
  cases h with
  | pushed _ hroom =>
    rw [List.length_append]
    exact hroom
  | popped item =>
    rw [List.length_append] at hle
    exact Nat.le_of_add_right_le hle
  | removed lower item upper =>
    rw [List.length_append, List.length_cons] at hle
    rw [List.length_append]
    omega
  | cleared => exact Nat.zero_le _
  | seen | peeked | enough | refused => exact hle

theorem Does.not_refused {o : Option Bytes} (h : Does capacity c items (.ok o) out) :
    ¬ c.Refused capacity items := by
  cases h with
  | pushed hitem hroom =>
    cases c with
    | push | pushByte | pushBool => exact Nat.ne_of_lt hroom
    | pop | top | peek | remove | require | clear => cases hitem
  | popped item => exact List.append_ne_nil_of_right_ne_nil out (List.cons_ne_nil item [])
  | seen item rest => exact List.append_ne_nil_of_right_ne_nil rest (List.cons_ne_nil item [])
  | peeked lower item upper | removed lower item upper =>
    rw [Call.Refused, List.length_append, List.length_cons]
    omega
  | enough hn => exact Nat.not_lt.mpr hn
  | cleared => exact id

theorem Does.failed_iff (h : Does capacity c items a out) :
    (∃ e, a = .error e) ↔ c.Refused capacity items := by
  cases a with
  | ok o => exact iff_of_false (fun ⟨_, he⟩ => nomatch he) h.not_refused
  | error e =>
    cases h with
    | refused hrefused => exact iff_of_true ⟨_, rfl⟩ hrefused

/-- One call to a stack answers and leaves what it does for the list of the items. -/
theorem does_call (h : s.size ≤ s.capacity) (c : Call) :
    Does s.capacity c s.toList (outcome c.run s) (after c.run s).toList ∧
      (after c.run s).capacity = s.capacity ∧
      (after c.run s).size ≤ (after c.run s).capacity := by
  rw [← length_toList] at h
  obtain ⟨a, out, hdoes⟩ := exists_does c h
  obtain ⟨rfl, hafter⟩ := hdoes.run
  rw [hafter, toList_withItems, ← length_toList, toList_withItems]
  exact ⟨hdoes, rfl, hdoes.length_le h⟩

theorem call_failed_iff (h : s.size ≤ s.capacity) (c : Call) :
    ((∃ e, outcome c.run s = .error e) ↔ c.Refused s.capacity s.toList) ∧
      ∀ e, outcome c.run s = .error e → after c.run s = s := by
  obtain ⟨hdoes, -, -⟩ := does_call h c
  have hfailed := hdoes.failed_iff
  exact ⟨hfailed, fun e he => after_error (run_of_refused (hfailed.mp ⟨e, he⟩))⟩

theorem callAll_keeps (h : s.size ≤ s.capacity) (calls : List Call) :
    (s.callAll calls).2.capacity = s.capacity ∧
      (s.callAll calls).2.size ≤ (s.callAll calls).2.capacity := by
  induction calls generalizing s with
  | nil => exact ⟨rfl, h⟩
  | cons c calls ih =>
    obtain ⟨-, hcapacity, hsize⟩ := does_call h c
    obtain ⟨hlater, hbound⟩ := ih hsize
    exact ⟨hlater.trans hcapacity, hbound⟩

/-- Calls to a stack answer and leave what they do for the list of its items, and nothing else
would do for the list. -/
theorem doesAll_iff (h : s.size ≤ s.capacity) :
    DoesAll s.capacity s.toList calls answers out ↔
      answers = (s.callAll calls).1 ∧ out = (s.callAll calls).2.toList := by
  induction calls generalizing s answers with
  | nil =>
    constructor
    · rintro ⟨⟩
      exact ⟨rfl, rfl⟩
    · rintro ⟨rfl, rfl⟩
      exact .nil _
  | cons c calls ih =>
    obtain ⟨hdoes, hcapacity, hsize⟩ := does_call h c
    have hlater (answers : List Answer) := @ih answers (after c.run s) hsize
    rw [hcapacity] at hlater
    constructor
    · intro hall
      cases hall with
      | @cons _ _ _ mid _ _ _ hfirst hrest =>
        obtain ⟨rfl, hafter⟩ := hfirst.run
        rw [← toList_withItems s mid, ← hafter] at hrest
        obtain ⟨rfl, rfl⟩ := (hlater _).mp hrest
        exact ⟨rfl, rfl⟩
    · rintro ⟨rfl, rfl⟩
      exact .cons hdoes ((hlater _).mpr ⟨rfl, rfl⟩)

/-- A stack is a list with its end as top that is never longer than its capacity: whatever calls
are made, it answers and leaves what they do for the list. A call fails exactly when it is to put
an item on a full list or asks for more items than there are, and then it changes nothing. -/
theorem callAll_refines_list (capacity : Nat) (calls : List Call) :
    let (answers, s) := (Stack.empty capacity).callAll calls
    (∀ as items, DoesAll capacity [] calls as items ↔ as = answers ∧ items = s.toList) ∧
      s.toList.length ≤ capacity ∧
      ∀ c : Call, ((∃ e, outcome c.run s = .error e) ↔ c.Refused capacity s.toList) ∧
        ∀ e, outcome c.run s = .error e → after c.run s = s := by
  have hempty : (Stack.empty capacity).size ≤ (Stack.empty capacity).capacity := Nat.zero_le _
  obtain ⟨hcapacity, hsize⟩ := callAll_keeps hempty calls
  refine ⟨fun as items => doesAll_iff hempty, ?bounded, fun c => ?next⟩
  case bounded =>
    rw [length_toList]
    exact Nat.le_trans hsize (Nat.le_of_eq hcapacity)
  case next =>
    have hnext := call_failed_iff hsize c
    rw [hcapacity] at hnext
    exact hnext

def Call.crowding : List Call :=
  [.pushBool true, .pushByte 7, .push [1, 2], .peek 1, .remove 2, .remove 1, .top, .pop, .pop,
    .require 1, .push []]

theorem callAll_refines_list_crowding :
    let (answers, s) := (Stack.empty 2).callAll Call.crowding
    answers = [.ok none, .ok none, .error (.stackOverflow 2), .ok (some [1]),
        .error .stackUnderflow, .ok (some [1]), .ok (some [7]), .ok (some [7]),
        .error .stackUnderflow, .error .stackUnderflow, .ok none] ∧
      DoesAll 2 [] Call.crowding answers [[]] ∧ s.toList.length ≤ 2 ∧
      outcome (Call.remove 1).run s = .error .stackUnderflow ∧
      after (Call.remove 1).run s = s := by
  obtain ⟨hall, hlength, hnext⟩ := callAll_refines_list 2 Call.crowding
  obtain ⟨-, hunchanged⟩ := hnext (.remove 1)
  exact ⟨rfl, (hall _ _).mpr ⟨rfl, rfl⟩, hlength, rfl, hunchanged .stackUnderflow rfl⟩

end ScriptLedger.Script.Stack
