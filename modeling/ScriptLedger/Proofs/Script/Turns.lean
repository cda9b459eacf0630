import ScriptLedger.Proofs.Script.Follows

namespace ScriptLedger.Script

open Stateful

/-- A stack computation that answers `a` and turns `items` into `out` as long as these fit, and
overflows if they do not. What it does before does not matter. -/
structure Turns {α : Type} (x : StackM α) (items : List Bytes) (a : α) (out : List Bytes) :
    Prop where
  ok : ∀ {capacity}, items.length ≤ capacity → out.length ≤ capacity →
    x ⟨items, capacity⟩ = .ok a ⟨out, capacity⟩
  overflow : ∀ {capacity}, items.length ≤ capacity → capacity < out.length →
    ∃ s, x ⟨items, capacity⟩ = .error (.stackOverflow capacity) s

/-- A stack computation that fails in one way on `items`, whatever the capacity of the stack that
holds them. -/
def Breaks {α : Type} (x : StackM α) (items : List Bytes) (e : Failure) : Prop :=
  ∀ ⦃capacity⦄, items.length ≤ capacity → ∃ s, x ⟨items, capacity⟩ = .error e s

variable {α β : Type} {x : StackM α} {f : α → StackM β} {items mid out : List Bytes} {a : α} {b : β}
  {e : Failure} {item : Bytes} {n depth width : Nat}

namespace Turns

theorem of_le (hout : out.length ≤ items.length)
    (h : ∀ capacity, x ⟨items, capacity⟩ = .ok a ⟨out, capacity⟩) : Turns x items a out where
  ok _ _ := h _
  overflow hitems hover := absurd (Nat.lt_of_le_of_lt hitems hover) (Nat.not_lt.mpr hout)

theorem pure : Turns (pure a) items a items :=
  of_le (Nat.le_refl _) fun _ => rfl

/-- The items in between are no more than those at one of the ends, so that there is no peak that
could fail by itself. -/
theorem bind (hx : Turns x items a mid) (hf : Turns (f a) mid b out)
    (hmid : mid.length ≤ max items.length out.length) : Turns (x >>= f) items b out where
  ok hitems hout := by
    have hroom := Nat.le_trans hmid (Nat.max_le.mpr ⟨hitems, hout⟩)
    rw [bind_ok (hx.ok hitems hroom)]
    exact hf.ok hroom hout
  overflow := by
    intro capacity hitems hover
    by_cases hroom : mid.length ≤ capacity
    case pos =>
      rw [bind_ok (hx.ok hitems hroom)]
      exact hf.overflow hroom hover
    case neg =>
      obtain ⟨s, hs⟩ := hx.overflow hitems (Nat.not_le.mp hroom)
      exact ⟨s, bind_error hs⟩

/-- A computation that does not need room, before any other. -/
theorem bind_of_le (hx : Turns x items a mid) (hmid : mid.length ≤ items.length)
    (hf : Turns (f a) mid b out) : Turns (x >>= f) items b out :=
  hx.bind hf (Nat.le_trans hmid (Nat.le_max_left _ _))

theorem push (item : Bytes) (items : List Bytes) :
    Turns (Stack.push item) items () (item :: items) where
  ok _ hroom := Stack.push_of_room (s := ⟨items, _⟩) hroom item
  overflow _ hover := ⟨_, Stack.push_of_full (s := ⟨items, _⟩) (Nat.le_of_lt_succ hover) item⟩

theorem push_bind {f : Unit → StackM β} (hf : Turns (f ()) (item :: items) b out)
    (hout : items.length < out.length) : Turns (Stack.push item >>= f) items b out :=
  (push item items).bind hf (Nat.le_trans hout (Nat.le_max_right _ _))

theorem push_push (item item' : Bytes) (items : List Bytes) :
    Turns (do Stack.push item; Stack.push item') items () (item' :: item :: items) :=
  push_bind (push item' _) (Nat.lt_succ_of_lt (Nat.lt_succ_self _))

theorem push_push_push (item item' item'' : Bytes) (items : List Bytes) :
    Turns (do Stack.push item; Stack.push item'; Stack.push item'') items ()
      (item'' :: item' :: item :: items) :=
  push_bind (push_push item' item'' _)
    (Nat.lt_succ_of_lt (Nat.lt_succ_of_lt (Nat.lt_succ_self _)))

theorem pop (item : Bytes) (items : List Bytes) : Turns Stack.pop (item :: items) item items :=
  of_le (Nat.le_succ _) fun _ => rfl

theorem peek (h : items[depth]? = some item) : Turns (Stack.peek depth) items item items :=
  of_le (Nat.le_refl _) fun _ => Stack.peek_of_some h

theorem remove (h : items[depth]? = some item) :
    Turns (Stack.remove depth) items item (items.eraseIdx depth) :=
  of_le (List.length_eraseIdx_le items depth) fun _ => Stack.remove_of_some h

theorem require (h : n ≤ items.length) : Turns (Stack.require n) items () items :=
  of_le (Nat.le_refl _) fun _ => Stack.require_of_le h

theorem ofExcept {r : Except Failure α} (h : r = .ok a) :
    Turns (MonadExcept.ofExcept r : StackM α) items a items := by
  subst h
  exact pure

theorem pop_bind {f : Bytes → StackM β} (hf : Turns (f item) items b out) :
    Turns (Stack.pop >>= f) (item :: items) b out :=
  (pop item items).bind_of_le (Nat.le_succ _) hf

theorem popNumber {number : Int} (h : Number.decode width item = .ok number)
    (items : List Bytes) : Turns (Stack.popNumber width) (item :: items) number items :=
  pop_bind (ofExcept h)

theorem popIndex {i : Nat} (h : Number.decode width item = .ok (i : Int)) (hi : i < items.length) :
    Turns (Stack.popIndex width) (item :: items) i items := by
  have hcheck : ¬ ((i : Int) < 0 ∨ (items.length : Int) ≤ i) := by omega
  rw [Stack.popIndex_eq]
  apply (popNumber h items).bind_of_le (Nat.le_succ _)
  exact of_le (Nat.le_refl _) fun _ => if_neg hcheck

theorem peek_bind {f : Bytes → StackM β} (h : items[depth]? = some item)
    (hf : Turns (f item) items b out) : Turns (Stack.peek depth >>= f) items b out :=
  (peek h).bind_of_le (Nat.le_refl _) hf

theorem top_bind {f : Bytes → StackM β} (hf : Turns (f item) (item :: items) b out) :
    Turns (Stack.top >>= f) (item :: items) b out :=
  peek_bind rfl hf

theorem remove_bind {f : Bytes → StackM β} (h : items[depth]? = some item)
    (hf : Turns (f item) (items.eraseIdx depth) b out) :
    Turns (Stack.remove depth >>= f) items b out :=
  (remove h).bind_of_le (List.length_eraseIdx_le items depth) hf

theorem require_bind {f : Unit → StackM β} (h : n ≤ items.length) (hf : Turns (f ()) items b out) :
    Turns (Stack.require n >>= f) items b out :=
  (require h).bind_of_le (Nat.le_refl _) hf

end Turns

namespace Breaks

theorem throw : Breaks (throw e : StackM α) items e :=
  fun _ _ => ⟨_, rfl⟩

theorem bind (h : Breaks x items e) : Breaks (x >>= f) items e := by
  intro capacity hitems
  obtain ⟨s, hs⟩ := h hitems
  exact ⟨s, bind_error hs⟩

theorem bind_of_turns (hx : Turns x items a mid) (hf : Breaks (f a) mid e)
    (hmid : mid.length ≤ items.length) : Breaks (x >>= f) items e := by
  intro capacity hitems
  have hroom := Nat.le_trans hmid hitems
  rw [bind_ok (hx.ok hitems hroom)]
  exact hf hroom

theorem ofExcept {r : Except Failure α} (h : r = .error e) :
    Breaks (MonadExcept.ofExcept r : StackM α) items e := by
  subst h
  exact throw

theorem pop : Breaks Stack.pop [] .stackUnderflow :=
  fun capacity _ => ⟨_, Stack.pop_nil capacity⟩

theorem popNumber (h : Number.decode width item = .error e) (items : List Bytes) :
    Breaks (Stack.popNumber width) (item :: items) e :=
  bind_of_turns (.pop item items) (ofExcept h) (Nat.le_succ _)

theorem popIndex_of_number (h : Breaks (Stack.popNumber width) items e) :
    Breaks (Stack.popIndex width) items e := by
  rw [Stack.popIndex_eq]
  exact h.bind

theorem popIndex {n : Int} (h : Number.decode width item = .ok n)
    (hbad : n < 0 ∨ (items.length : Int) ≤ n) :
    Breaks (Stack.popIndex width) (item :: items) (.invalidStackIndex n) := by
  rw [Stack.popIndex_eq]
  apply bind_of_turns (.popNumber h items) _ (Nat.le_succ _)
  exact fun _ _ => ⟨_, if_pos hbad⟩

theorem peek (h : items.length ≤ depth) : Breaks (Stack.peek depth) items .stackUnderflow :=
  fun _ _ => ⟨_, Stack.peek_of_none (List.getElem?_eq_none h)⟩

theorem remove (h : items.length ≤ depth) : Breaks (Stack.remove depth) items .stackUnderflow :=
  fun _ _ => ⟨_, Stack.remove_of_none (List.getElem?_eq_none h)⟩

theorem require (h : items.length < n) : Breaks (Stack.require n) items .stackUnderflow :=
  fun _ _ => ⟨_, Stack.require_of_lt h⟩

end Breaks

end ScriptLedger.Script
