import ScriptLedger.Proofs.Script.Judgement

namespace ScriptLedger

open Stateful

/-- A computation that keeps an invariant whether it ends well or fails, and what its results are
like. -/
structure Keeps {σ α : Type} (inv : σ → Prop) (x : Stateful σ α) (post : α → Prop) : Prop where
  ok : ∀ {s a t}, inv s → x s = .ok a t → inv t ∧ post a
  error : ∀ {s e t}, inv s → x s = .error e t → inv t

namespace Keeps

variable {σ α β : Type} {inv : σ → Prop} {post : α → Prop} {post' : β → Prop}

theorem of_cases {x : Stateful σ α}
    (h : ∀ s, inv s → (∃ a t, x s = .ok a t ∧ inv t ∧ post a) ∨ ∃ e t, x s = .error e t ∧ inv t) :
    Keeps inv x post where
  ok := by
    intro s a t hs hx
    obtain ⟨_, _, hx', ht, ha⟩ | ⟨_, _, hx', _⟩ := h s hs
    · cases hx.symm.trans hx'
      exact ⟨ht, ha⟩
    · cases hx.symm.trans hx'
  error := by
    intro s e t hs hx
    obtain ⟨_, _, hx', _⟩ | ⟨_, _, hx', ht⟩ := h s hs
    · cases hx.symm.trans hx'
    · cases hx.symm.trans hx'
      exact ht

theorem pure {a : α} (h : post a) : Keeps inv (pure a) post where
  ok hs hx := by
    cases hx
    exact ⟨hs, h⟩
  error _ hx := nomatch hx

theorem throw (e : Failure) : Keeps inv (throw e : Stateful σ α) post where
  ok _ hx := nomatch hx
  error hs hx := by
    cases hx
    exact hs

theorem get : Keeps inv (get : Stateful σ σ) inv where
  ok hs hx := by
    cases hx
    exact ⟨hs, hs⟩
  error _ hx := nomatch hx

theorem bind {x : Stateful σ α} {f : α → Stateful σ β} (hx : Keeps inv x post)
    (hf : ∀ a, post a → Keeps inv (f a) post') : Keeps inv (x >>= f) post' where
  ok hs h := by
    obtain ⟨a, t, hxa, hfa⟩ := bind_eq_ok_iff.mp h
    obtain ⟨ht, ha⟩ := hx.ok hs hxa
    exact (hf a ha).ok ht hfa
  error hs h := by
    obtain hxe | ⟨a, t, hxa, hfe⟩ := bind_eq_error_iff.mp h
    · exact hx.error hs hxe
    · obtain ⟨ht, ha⟩ := hx.ok hs hxa
      exact (hf a ha).error ht hfe

theorem seqRight {x : Stateful σ α} {y : Stateful σ β} (hx : Keeps inv x post)
    (hy : Keeps inv y post') : Keeps inv (x *> y) post' :=
  hx.bind fun _ _ => hy

end Keeps

namespace Script

structure Stack.Bounded (capacity width : Nat) (s : Stack) : Prop where
  capacity_eq : s.capacity = capacity
  size_le : s.size ≤ capacity
  length_le : ∀ item ∈ s.items, item.length ≤ width

namespace Stack.Bounded

variable {capacity width : Nat}

theorem of_subset {s : Stack} (h : s.Bounded capacity width) {items : List Bytes}
    (hsize : items.length ≤ s.size) (hsub : items ⊆ s.items) :
    Bounded capacity width { s with items } where
  capacity_eq := h.capacity_eq
  size_le := Nat.le_trans hsize h.size_le
  length_le item hitem := h.length_le item (hsub hitem)

theorem cleared {s : Stack} (h : s.Bounded capacity width) : s.cleared.Bounded capacity width :=
  h.of_subset (Nat.zero_le _) (List.nil_subset _)

theorem push {item : Bytes} (h : item.length ≤ width) :
    Keeps (Bounded capacity width) (Stack.push item) fun _ => True := by
  apply Keeps.of_cases
  intro s hs
  by_cases hroom : s.size < s.capacity
  case pos =>
    refine .inl ⟨_, _, Stack.push_of_room hroom item, ⟨hs.capacity_eq, ?_, ?_⟩, trivial⟩
    · rw [← hs.capacity_eq]
      exact hroom
    · exact List.forall_mem_cons.mpr ⟨h, hs.length_le⟩
  case neg => exact .inr ⟨_, _, Stack.push_of_full (Nat.not_lt.mp hroom) item, hs⟩

theorem pop : Keeps (Bounded capacity width) Stack.pop fun item => item.length ≤ width := by
  apply Keeps.of_cases
  intro ⟨items, room⟩ hs
  cases items with
  | nil => exact .inr ⟨_, _, Stack.pop_nil room, hs⟩
  | cons item rest =>
    have hrest := hs.of_subset (Nat.le_succ rest.length) (List.subset_cons_self item rest)
    exact .inl ⟨_, _, Stack.pop_cons item rest room, hrest, hs.length_le item List.mem_cons_self⟩

theorem peek (n : Nat) :
    Keeps (Bounded capacity width) (Stack.peek n) fun item => item.length ≤ width := by
  apply Keeps.of_cases
  intro s hs
  cases hitem : s.items[n]? with
  | none => exact .inr ⟨_, _, Stack.peek_of_none hitem, hs⟩
  | some item =>
    have hlength := hs.length_le item (List.mem_of_getElem? hitem)
    exact .inl ⟨_, _, Stack.peek_of_some hitem, hs, hlength⟩

theorem remove (n : Nat) :
    Keeps (Bounded capacity width) (Stack.remove n) fun item => item.length ≤ width := by
  apply Keeps.of_cases
  intro s hs
  cases hitem : s.items[n]? with
  | none => exact .inr ⟨_, _, Stack.remove_of_none hitem, hs⟩
  | some item =>
    have hrest := hs.of_subset (List.length_eraseIdx_le s.items n) List.eraseIdx_subset
    have hlength := hs.length_le item (List.mem_of_getElem? hitem)
    exact .inl ⟨_, _, Stack.remove_of_some hitem, hrest, hlength⟩

theorem require (n : Nat) :
    Keeps (Bounded capacity width) (Stack.require n) fun _ => True := by
  apply Keeps.of_cases
  intro s hs
  by_cases hn : n ≤ s.size
  case pos => exact .inl ⟨_, _, Stack.require_of_le hn, hs, trivial⟩
  case neg => exact .inr ⟨_, _, Stack.require_of_lt (Nat.not_le.mp hn), hs⟩

theorem checkIndex (n : Int) :
    Keeps (Bounded capacity width) (Stack.checkIndex n) fun _ => True := by
  apply Keeps.of_cases
  intro s hs
  unfold Stack.checkIndex
  split
  case isTrue => exact .inr ⟨_, _, rfl, hs⟩
  case isFalse => exact .inl ⟨_, _, rfl, hs, trivial⟩

end Stack.Bounded

end Script
end ScriptLedger
