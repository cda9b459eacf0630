import ScriptLedger.Proofs.Script.Judgement

namespace ScriptLedger

open Stateful

/-- A computation that, from the image of a state, does what another does from that state, unless
the other fails in a way that is lost on the image. -/
structure Follows {σ τ α : Type} (lift : σ → τ) (lost : Failure → Prop) (x : Stateful σ α)
    (y : Stateful τ α) : Prop where
  ok : ∀ {s a t}, x s = .ok a t → y (lift s) = .ok a (lift t)
  error : ∀ {s e t}, x s = .error e t → ¬ lost e → y (lift s) = .error e (lift t)

namespace Follows

variable {σ τ α β : Type} {lift : σ → τ} {lost : Failure → Prop}

theorem pure (a : α) : Follows lift lost (pure a) (pure a) where
  ok h := by
    cases h
    rfl
  error h := nomatch h

theorem throw (e : Failure) :
    Follows lift lost (throw e : Stateful σ α) (throw e : Stateful τ α) where
  ok h := nomatch h
  error h _ := by
    cases h
    rfl

theorem bind {x : Stateful σ α} {y : Stateful τ α} {f : α → Stateful σ β} {g : α → Stateful τ β}
    (hx : Follows lift lost x y) (hf : ∀ a, Follows lift lost (f a) (g a)) :
    Follows lift lost (x >>= f) (y >>= g) where
  ok h := by
    obtain ⟨a, t, hxa, hfa⟩ := bind_eq_ok_iff.mp h
    rw [bind_ok (hx.ok hxa)]
    exact (hf a).ok hfa
  error h hkept := by
    obtain hxe | ⟨a, t, hxa, hfe⟩ := bind_eq_error_iff.mp h
    · exact bind_error (hx.error hxe hkept)
    · rw [bind_ok (hx.ok hxa)]
      exact (hf a).error hfe hkept

theorem seqRight {x : Stateful σ α} {y : Stateful τ α} {x' : Stateful σ β} {y' : Stateful τ β}
    (h : Follows lift lost x y) (h' : Follows lift lost x' y') :
    Follows lift lost (x *> x') (y *> y') :=
  h.bind fun _ => h'

end Follows

namespace Script

/-- The stack with items under its own and room for more. -/
def Stack.above (under : List Bytes) (room : Nat) (s : Stack) : Stack :=
  ⟨s.items ++ under, s.capacity + room⟩

/-- What must be lost so that all else on a stack goes on above items and with more room: a push
that fails for want of room, and, if there are items below, a reach below the bottom. -/
structure Ground (under : List Bytes) (room : Nat) (lost : Failure → Prop) : Prop where
  fits : under.length ≤ room
  overflow : ∀ capacity, lost (.stackOverflow capacity)
  underflow : ¬ lost .stackUnderflow → under = []
  index : ∀ n, ¬ lost (.invalidStackIndex n) → under = []

namespace Ground

variable {under : List Bytes} {room : Nat} {lost : Failure → Prop} (h : Ground under room lost)

include h in
theorem bottom : Ground [] room lost where
  fits := Nat.zero_le room
  overflow := h.overflow
  underflow _ := rfl
  index _ _ := rfl

abbrev Carries {α : Type} (_ : Ground under room lost) (x y : StackM α) : Prop :=
  Follows (Stack.above under room) lost x y

theorem push (item : Bytes) : h.Carries (Stack.push item) (Stack.push item) where
  ok := by
    intro s a t hs
    have hfits := h.fits
    unfold Stack.push at hs
    split at hs
    case isTrue hroom =>
      cases hs
      apply Stack.push_of_room
      simp only [Stack.above, Stack.size, List.length_append] at hroom ⊢
      omega
    case isFalse => cases hs
  error := by
    intro s e t hs hkept
    unfold Stack.push at hs
    split at hs
    case isTrue => cases hs
    case isFalse =>
      cases hs
      exact absurd (h.overflow _) hkept

theorem pop : h.Carries Stack.pop Stack.pop where
  ok := by
    intro ⟨items, capacity⟩ a t hs
    cases items with
    | nil => cases hs
    | cons item rest =>
      cases hs
      rfl
  error := by
    intro ⟨items, capacity⟩ e t hs hkept
    cases items with
    | nil =>
      cases hs
      have hunder := h.underflow hkept
      subst hunder
      rfl
    | cons item rest => cases hs

theorem require (n : Nat) : h.Carries (Stack.require n) (Stack.require n) where
  ok := by
    intro s a t hs
    unfold Stack.require at hs
    split at hs
    case isTrue hn =>
      cases hs
      apply Stack.require_of_le
      simp only [Stack.above, Stack.size, List.length_append] at hn ⊢
      omega
    case isFalse => cases hs
  error := by
    intro s e t hs hkept
    unfold Stack.require at hs
    split at hs
    case isTrue => cases hs
    case isFalse hn =>
      cases hs
      have hunder := h.underflow hkept
      subst hunder
      apply Stack.require_of_lt
      simp only [Stack.above, Stack.size, List.append_nil] at hn ⊢
      omega

theorem peek (n : Nat) : h.Carries (Stack.peek n) (Stack.peek n) where
  ok := by
    intro s a t hs
    unfold Stack.peek at hs
    split at hs
    case h_1 => cases hs
    case h_2 item hitem =>
      cases hs
      obtain ⟨hn, _⟩ := List.getElem?_eq_some_iff.mp hitem
      have habove : (s.items ++ under)[n]? = some a := by
        rw [List.getElem?_append_left hn, hitem]
      simp only [Stack.peek, Stack.above, habove]
  error := by
    intro s e t hs hkept
    unfold Stack.peek at hs
    split at hs
    case h_1 hnone =>
      cases hs
      have hunder := h.underflow hkept
      subst hunder
      simp only [Stack.peek, Stack.above, List.append_nil, hnone]
    case h_2 => cases hs

theorem remove (n : Nat) : h.Carries (Stack.remove n) (Stack.remove n) where
  ok := by
    intro s a t hs
    unfold Stack.remove at hs
    split at hs
    case h_1 => cases hs
    case h_2 item hitem =>
      cases hs
      obtain ⟨hn, _⟩ := List.getElem?_eq_some_iff.mp hitem
      have habove : (s.items ++ under)[n]? = some a := by
        rw [List.getElem?_append_left hn, hitem]
      simp only [Stack.remove, Stack.above, habove, List.eraseIdx_append_of_lt_length hn]
  error := by
    intro s e t hs hkept
    unfold Stack.remove at hs
    split at hs
    case h_1 hnone =>
      cases hs
      have hunder := h.underflow hkept
      subst hunder
      simp only [Stack.remove, Stack.above, List.append_nil, hnone]
    case h_2 => cases hs

theorem checkIndex (n : Int) : h.Carries (Stack.checkIndex n) (Stack.checkIndex n) where
  ok := by
    intro s a t hs
    unfold Stack.checkIndex at hs
    split at hs
    case isTrue => cases hs
    case isFalse hn =>
      cases hs
      apply if_neg
      simp only [Stack.above, Stack.size, List.length_append] at hn ⊢
      omega
  error := by
    intro s e t hs hkept
    unfold Stack.checkIndex at hs
    split at hs
    case isTrue hn =>
      cases hs
      have hunder := h.index n hkept
      subst hunder
      apply if_pos
      simpa only [Stack.above, Stack.size, List.append_nil] using hn
    case isFalse => cases hs

end Ground

/-- Two widths of numbers: the second is as wide, and wider only if reading a number that is too
long is lost. -/
structure Widens (lost : Failure → Prop) (width width' : Nat) : Prop where
  le : width ≤ width'
  numberTooLong : ∀ size limit, ¬ lost (.numberTooLong size limit) → width = width'

/-- Where reading a number that is too long is not lost, it is read under one width only. -/
theorem Widens.tooWide {σ τ α : Type} {lift : σ → τ} {lost : Failure → Prop} {width width' : Nat}
    {x : Bytes} {g : Int → Stateful τ α} (hw : Widens lost width width')
    (h : min width 8 < x.length) :
    Follows lift lost (throw (.numberTooLong x.length (min width 8)) : Stateful σ α)
      (ofExcept (Number.decode width' x) >>= g) where
  ok hs := nomatch hs
  error hs hkept := by
    cases hs
    rw [← hw.numberTooLong _ _ hkept, Number.decode_of_lt_length h]
    rfl

end Script
end ScriptLedger
