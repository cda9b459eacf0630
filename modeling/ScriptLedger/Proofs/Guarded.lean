import Mathlib.Data.List.Perm.Subperm
import Mathlib.Data.Nat.PSub
import ScriptLedger.Bytes
import ScriptLedger.Stateful

namespace ScriptLedger

/-- Why a computation stops whose operations need not have a result: it fails as any other, it
comes to an operation that has no result, or it takes more turns than it is given. -/
inductive Stop where
  | failure (e : Failure)
  | undefined
  | endless
  deriving DecidableEq, Repr

abbrev Guarded (σ : Type) := EStateM Stop σ

namespace Guarded

variable {σ α β : Type} {s t : σ} {a : α}

def total (x : Stateful σ α) : Guarded σ α := fun s =>
  match x s with
  | .ok a t => .ok a t
  | .error e t => .error (.failure e) t

def need : Option α → Guarded σ α
  | some a => pure a
  | none => throw .undefined

theorem total_pure (a : α) : total (pure a : Stateful σ α) = pure a := rfl

theorem total_bind (x : Stateful σ α) (f : α → Stateful σ β) :
    total (x >>= f) = total x >>= fun a => total (f a) := by
  funext s
  cases h : x s with
  | ok a t => simp only [total, bind, EStateM.bind, h]
  | error e t => simp only [total, bind, EStateM.bind, h]

theorem total_ok {x : Stateful σ α} (h : x s = .ok a t) : total x s = .ok a t := by
  simp only [total, h]

theorem total_error {x : Stateful σ α} {e : Failure} (h : x s = .error e t) :
    total x s = .error (.failure e) t := by
  simp only [total, h]

theorem get_bind (f : σ → Guarded σ β) (s : σ) : (get >>= f) s = f s s := rfl

theorem need_bind {r : Option α} (h : r = some a) (f : α → Guarded σ β) : need r >>= f = f a := by
  subst h
  rfl

theorem bind_ok {x : Guarded σ α} {f : α → Guarded σ β} (h : x s = .ok a t) :
    (x >>= f) s = f a t := by
  simp only [bind, EStateM.bind, h]

theorem bind_error {x : Guarded σ α} {f : α → Guarded σ β} {stop : Stop}
    (h : x s = .error stop t) : (x >>= f) s = .error stop t := by
  simp only [bind, EStateM.bind, h]

end Guarded

namespace Bytes

variable {bs : Bytes} {first last : Nat}

def from? (bs : Bytes) (first : Nat) : Option Bytes :=
  if first ≤ bs.length then some (bs.drop first) else none

/-- The bytes from a place up to another one, unless they are out of order or behind the end. -/
def slice? (bs : Bytes) (first last : Nat) : Option Bytes :=
  if first ≤ last ∧ last ≤ bs.length then some ((bs.take last).drop first) else none

theorem from?_of_le (h : first ≤ bs.length) : bs.from? first = some (bs.drop first) :=
  if_pos h

theorem slice?_of_le {length : Nat} (h : first + length ≤ bs.length) :
    bs.slice? first (first + length) = some ((bs.drop first).take length) := by
  rw [slice?, if_pos ⟨Nat.le_add_right _ _, h⟩, List.drop_take, Nat.add_sub_cancel_left]

end Bytes

/-- How a loop over places went: how it ended, the state that it left and the places at which it
looked whether the end was reached. -/
structure Walk (σ : Type) where
  outcome : Except Stop Unit
  state : σ
  places : List Nat

namespace Walk

variable {σ : Type} {size turns place next : Nat} {step : Nat → Guarded σ Nat} {s t : σ}
  {stop : Stop}

/-- Steps from place to place until the end is reached, at `size`, or the turns are used up. -/
def run (size : Nat) (step : Nat → Guarded σ Nat) : Nat → Nat → σ → Walk σ
  | 0, place, s => ⟨if size ≤ place then .ok () else .error .endless, s, [place]⟩
  | turns + 1, place, s =>
    if size ≤ place then ⟨.ok (), s, [place]⟩
    else match step place s with
      | .error stop t => ⟨.error stop, t, [place]⟩
      | .ok next t =>
        let later := run size step turns next t
        { later with places := place :: later.places }

theorem run_of_le (h : size ≤ place) : run size step turns place s = ⟨.ok (), s, [place]⟩ := by
  cases turns with
  | zero => rw [run, if_pos h]
  | succ turns => rw [run, if_pos h]

theorem run_of_error (h : place < size) (hs : step place s = .error stop t) :
    run size step (turns + 1) place s = ⟨.error stop, t, [place]⟩ := by
  rw [run, if_neg (Nat.not_le.mpr h), hs]

theorem run_of_ok (h : place < size) (hs : step place s = .ok next t) :
    run size step (turns + 1) place s =
      ⟨(run size step turns next t).outcome, (run size step turns next t).state,
        place :: (run size step turns next t).places⟩ := by
  rw [run, if_neg (Nat.not_le.mpr h), hs]

/-- Steps that have a result, or fail, wherever the end is not reached, and that lead on but not
behind the end. -/
structure Advances (size : Nat) (step : Nat → Guarded σ Nat) : Prop where
  defined : ∀ {place s stop t}, place < size → step place s = .error stop t →
    ∃ e, stop = .failure e
  advances : ∀ {place next s t}, place < size → step place s = .ok next t →
    place < next ∧ next ≤ size

/-- The turns that a loop took: it looked for the end at a place that was before it. -/
def turnsTaken (size : Nat) (w : Walk σ) : Nat :=
  (w.places.filter (· < size)).length

/-- A loop all of whose operations had a result and that came to its end, at ever greater places
but none behind the end, in no more turns than there are places before it. -/
structure Safe (size : Nat) (w : Walk σ) : Prop where
  defined : w.outcome ≠ .error .undefined
  ended : w.outcome ≠ .error .endless
  places_le : ∀ place ∈ w.places, place ≤ size
  increasing : w.places.Pairwise (· < ·)
  turnsTaken_le : w.turnsTaken size ≤ size

theorem Safe.nil {e : Failure} (s : σ) : Safe size ⟨.error (.failure e), s, []⟩ where
  defined := by simp
  ended := by simp
  places_le := List.forall_mem_nil _
  increasing := .nil
  turnsTaken_le := Nat.zero_le _

/-- Ever greater places before the end are no more than there are. -/
theorem length_filter_le {places : List Nat} (h : places.Pairwise (· < ·)) (size : Nat) :
    (places.filter (· < size)).length ≤ size := by
  have hnodup : (places.filter (· < size)).Nodup := (h.imp Nat.ne_of_lt).filter _
  have hsubset : places.filter (· < size) ⊆ List.range size := by
    intro place hplace
    obtain ⟨-, hlt⟩ := List.mem_filter.mp hplace
    exact List.mem_range.mpr (of_decide_eq_true hlt)
  have hlength := (hnodup.subperm hsubset).length_le
  rwa [List.length_range] at hlength

/-- Turns enough to get to the end, as an induction: at the end, and at a place before it from all
later places. -/
@[elab_as_elim]
theorem turns_induction {motive : Nat → Nat → Prop} (atEnd : ∀ turns, motive turns size)
    (before : ∀ turns place, place < size →
      (∀ next, place < next → next ≤ size → motive turns next) → motive (turns + 1) place)
    (turns place : Nat) (hplace : place ≤ size) (hturns : size ≤ place + turns) :
    motive turns place := by
  induction turns generalizing place with
  | zero =>
    obtain rfl : place = size := Nat.le_antisymm hplace hturns
    exact atEnd 0
  | succ turns ih =>
    obtain hlt | rfl := Nat.lt_or_eq_of_le hplace
    · exact before turns place hlt fun next hnext hle => ih next hle (by omega)
    · exact atEnd (turns + 1)

theorem Advances.run_places (h : Advances size step) (hplace : place ≤ size)
    (hturns : size ≤ place + turns) (s : σ) :
    let w := run size step turns place s
    (∀ stop, w.outcome = .error stop → ∃ e, stop = .failure e) ∧
      (∀ p ∈ w.places, place ≤ p ∧ p ≤ size) ∧ w.places.Pairwise (· < ·) := by
  have hhere {place : Nat} (hle : place ≤ size) : ∀ p ∈ [place], place ≤ p ∧ p ≤ size :=
    List.forall_mem_singleton.mpr ⟨Nat.le_refl _, hle⟩
  revert s
  refine turns_induction ?atEnd ?before turns place hplace hturns
  case atEnd =>
    intro turns s
    rw [run_of_le (Nat.le_refl _)]
    exact ⟨fun stop he => (nomatch he), hhere (Nat.le_refl _), List.pairwise_singleton _ _⟩
  case before =>
    intro turns place hlt ih s
    cases hs : step place s with
    | error stop t =>
      rw [run_of_error hlt hs]
      refine ⟨fun stop' he => ?_, hhere (Nat.le_of_lt hlt), List.pairwise_singleton _ _⟩
      cases he
      exact h.defined hlt hs
    | ok next t =>
      obtain ⟨hnext, hle⟩ := h.advances hlt hs
      obtain ⟨hdefined, hplaces, hincreasing⟩ := ih next hnext hle t
      have hlater : ∀ p ∈ (run size step turns next t).places, place < p :=
        fun p hp => Nat.lt_of_lt_of_le hnext (hplaces p hp).1
      rw [run_of_ok hlt hs]
      refine ⟨hdefined, List.forall_mem_cons.mpr ⟨⟨Nat.le_refl _, Nat.le_of_lt hlt⟩, fun p hp => ?_⟩,
        .cons hlater hincreasing⟩
      exact ⟨Nat.le_of_lt (hlater p hp), (hplaces p hp).2⟩

theorem Advances.safe (h : Advances size step) (s : σ) : (run size step size 0 s).Safe size := by
  obtain ⟨hdefined, hplaces, hincreasing⟩ :=
    h.run_places (Nat.zero_le size) (Nat.le_add_left _ _) s
  refine ⟨fun he => ?_, fun he => ?_, fun p hp => (hplaces p hp).2, hincreasing,
    length_filter_le hincreasing size⟩
  · obtain ⟨e, he⟩ := hdefined _ he
    cases he
  · obtain ⟨e, he⟩ := hdefined _ he
    cases he

end Walk

end ScriptLedger
