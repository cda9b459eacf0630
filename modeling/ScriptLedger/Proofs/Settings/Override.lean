import ScriptLedger.Proofs.Settings.Limits
import ScriptLedger.Proofs.Text.Decimal
import ScriptLedger.Settings.Override

namespace ScriptLedger

open Stateful

/-- What a variable gives: nothing when it is not set, and otherwise the number that its text
spells. -/
inductive Environment.Gives (environment : Environment) (name : String) : Option Nat → Prop where
  | nothing (h : environment name = none) : Gives environment name none
  | number {text : String} {n : Nat} (h : environment name = some text)
      (hn : Text.Decimal.Spells text.toList n) : Gives environment name (some n)

def Environment.number? (environment : Environment) (name : String) : Option Nat :=
  (environment name).bind fun text => (Text.Decimal.parse (Text.trim text.toList)).toOption

/-- A variable that is set to a text which is no number. -/
structure Environment.Garbled (environment : Environment) (name text : String) : Prop where
  eq : environment name = some text
  not_spells : ∀ n, ¬ Text.Decimal.Spells text.toList n

theorem Environment.gives_or_garbled (environment : Environment) (name : String) :
    environment.Gives name (environment.number? name) ∨ ∃ text, environment.Garbled name text := by
  rw [number?]
  cases henvironment : environment name with
  | none => exact .inl (.nothing henvironment)
  | some text =>
    rw [Option.bind_some]
    cases hparse : Text.Decimal.parse (Text.trim text.toList) with
    | ok n => exact .inl (.number henvironment (Text.Decimal.parse_trim_eq_ok_iff.mp hparse))
    | error cause =>
      refine .inr ⟨text, henvironment, fun n hn => ?_⟩
      rw [Text.Decimal.parse_trim_eq_ok_iff.mpr hn] at hparse
      cases hparse

theorem Environment.Garbled.exists_cause {environment : Environment} {name text : String}
    (h : environment.Garbled name text) :
    ∃ cause, Text.Decimal.parse (Text.trim text.toList) = .error cause := by
  cases hparse : Text.Decimal.parse (Text.trim text.toList) with
  | ok n => exact absurd (Text.Decimal.parse_trim_eq_ok_iff.mp hparse) (h.not_spells n)
  | error cause => exact ⟨cause, rfl⟩

def Assignment.within (a : Assignment) (ls : List Limit) : Assignment := fun l =>
  if l ∈ ls then a l else none

namespace Settings

variable {start : String} {environment : Environment} {a : Assignment} {l : Limit}
  {ls before later : List Limit}

theorem overlay_within_nil (s : Settings) (a : Assignment) : s.overlay (a.within []) = s := rfl

theorem overlay_within_all (s : Settings) (a : Assignment) :
    s.overlay (a.within Limit.all) = s.overlay a := rfl

theorem overlay_within_cons (s : Settings) (a : Assignment) (l : Limit) (ls : List Limit) :
    (s.overlay (a.within [l])).overlay (a.within ls) = s.overlay (a.within (l :: ls)) := by
  apply ext_get
  intro k
  simp only [get_overlay, Assignment.within, List.mem_cons, List.not_mem_nil, or_false]
  by_cases hl : k = l
  · subst hl
    by_cases hls : k ∈ ls
    · cases a k <;> simp [hls]
    · simp [hls]
  · simp [hl]

theorem overlay_within_singleton (s : Settings) (a : Assignment) (l : Limit) :
    s.overlay (a.within [l]) = ((a l).map fun n => s.set n l).getD s := by
  apply ext_get
  intro k
  simp only [get_overlay, Assignment.within, List.mem_singleton]
  by_cases hl : k = l
  · subst hl
    cases a k <;> simp [get_set]
  · cases a l <;> simp [get_set, hl]

theorem overrideLimit_of_gives (h : environment.Gives (variableName start l) (a l))
    (s : Settings) :
    overrideLimit start environment l s = .ok () (s.overlay (a.within [l])) := by
  rw [overlay_within_singleton]
  generalize a l = n? at h
  cases h with
  | nothing h =>
    simp only [overrideLimit, h]
    rfl
  | number h hn =>
    simp only [overrideLimit, h, Text.Decimal.parse_trim_eq_ok_iff.mpr hn]
    rfl

theorem overrideLimit_of_garbled {text : String} {cause : Text.Decimal.Error}
    (h : environment (variableName start l) = some text)
    (hparse : Text.Decimal.parse (Text.trim text.toList) = .error cause) (s : Settings) :
    overrideLimit start environment l s =
      .error (.badSetting (.badVariable (variableName start l) text cause)) s := by
  simp only [overrideLimit, h, hparse]
  rfl

theorem overrideLimit_congr {environment' : Environment}
    (h : environment' (variableName start l) = environment (variableName start l)) :
    overrideLimit start environment' l = overrideLimit start environment l := by
  simp only [overrideLimit, h]

theorem overrideAll_append (h : ∀ l ∈ before, environment.Gives (variableName start l) (a l))
    (s : Settings) :
    overrideAll start environment (before ++ later) s =
      overrideAll start environment later (s.overlay (a.within before)) := by
  induction before generalizing s with
  | nil => rw [List.nil_append, overlay_within_nil]
  | cons l before ih =>
    obtain ⟨hl, hbefore⟩ := List.forall_mem_cons.mp h
    rw [List.cons_append, overrideAll, bind_ok (overrideLimit_of_gives hl s), ih hbefore,
      overlay_within_cons]

theorem overrideAll_of_gives (h : ∀ l ∈ ls, environment.Gives (variableName start l) (a l))
    (s : Settings) :
    overrideAll start environment ls s = .ok () (s.overlay (a.within ls)) := by
  rw [← List.append_nil ls, overrideAll_append h, List.append_nil]
  rfl

theorem overrideAll_of_garbled {text : String} {cause : Text.Decimal.Error}
    (hbefore : ∀ k ∈ before, environment.Gives (variableName start k) (a k))
    (h : environment (variableName start l) = some text)
    (hparse : Text.Decimal.parse (Text.trim text.toList) = .error cause) (s : Settings) :
    overrideAll start environment (before ++ l :: later) s =
      .error (.badSetting (.badVariable (variableName start l) text cause))
        (s.overlay (a.within before)) := by
  rw [overrideAll_append hbefore, overrideAll]
  exact bind_error (overrideLimit_of_garbled h hparse _)

theorem overrideAll_congr {environment' : Environment}
    (h : ∀ l, environment' (variableName start l) = environment (variableName start l)) :
    overrideAll start environment' ls = overrideAll start environment ls := by
  induction ls with
  | nil => rfl
  | cons l ls ih => rw [overrideAll, overrideAll, overrideLimit_congr (h l), ih]

theorem override_of_gives (h : ∀ l, environment.Gives (variableName start l) (a l))
    (s : Settings) :
    override start environment s =
      (ofExcept (check (s.overlay a)) : SettingsM Unit) (s.overlay a) := by
  have hall := overrideAll_of_gives (fun l (_ : l ∈ Limit.all) => h l) s
  rw [override, bind_ok hall, overlay_within_all]
  rfl

theorem override_of_garbled {text : String} {cause : Text.Decimal.Error}
    (hall : Limit.all = before ++ l :: later)
    (hbefore : ∀ k ∈ before, environment.Gives (variableName start k) (a k))
    (h : environment (variableName start l) = some text)
    (hparse : Text.Decimal.parse (Text.trim text.toList) = .error cause) (s : Settings) :
    override start environment s =
      .error (.badSetting (.badVariable (variableName start l) text cause))
        (s.overlay (a.within before)) := by
  rw [override, hall]
  exact bind_error (overrideAll_of_garbled hbefore h hparse s)

/-- Either every variable gives something or there is a first one that is no number. -/
theorem gives_or_first_garbled (start : String) (environment : Environment) (ls : List Limit) :
    let a : Assignment := fun l => environment.number? (variableName start l)
    (∀ l ∈ ls, environment.Gives (variableName start l) (a l)) ∨
      ∃ before l later text, ls = before ++ l :: later ∧
        (∀ k ∈ before, environment.Gives (variableName start k) (a k)) ∧
        environment.Garbled (variableName start l) text := by
  intro a
  induction ls with
  | nil => exact .inl nofun
  | cons l ls ih =>
    obtain hl | ⟨text, hl⟩ := environment.gives_or_garbled (variableName start l)
    · obtain hls | ⟨before, k, later, text, rfl, hbefore, hk⟩ := ih
      · exact .inl (List.forall_mem_cons.mpr ⟨hl, hls⟩)
      · exact .inr ⟨l :: before, k, later, text, rfl, List.forall_mem_cons.mpr ⟨hl, hbefore⟩, hk⟩
    · exact .inr ⟨[], l, ls, text, rfl, nofun, hl⟩

/-- If every variable is a number or not set, those limits are replaced and the outcome is that of
the check. Otherwise the first variable that is no number is named, with the limits in front of it
replaced and no other. Other variables do not matter. -/
theorem override_exact (start : String) (environment : Environment) (s : Settings) :
    (∀ a : Assignment, (∀ l, environment.Gives (variableName start l) (a l)) →
      outcome (override start environment) s = check (s.overlay a) ∧
        after (override start environment) s = s.overlay a) ∧
    (∀ (a : Assignment) before l later text, Limit.all = before ++ l :: later →
      (∀ k ∈ before, environment.Gives (variableName start k) (a k)) →
      environment.Garbled (variableName start l) text →
      (∃ cause, Text.Decimal.parse (Text.trim text.toList) = .error cause ∧
        outcome (override start environment) s =
          .error (.badSetting (.badVariable (variableName start l) text cause))) ∧
        after (override start environment) s = s.overlay (a.within before)) ∧
    (∃ a : Assignment, (∀ l, environment.Gives (variableName start l) (a l)) ∨
      ∃ before l later text, Limit.all = before ++ l :: later ∧
        (∀ k ∈ before, environment.Gives (variableName start k) (a k)) ∧
        environment.Garbled (variableName start l) text) ∧
    ∀ environment' : Environment,
      (∀ l, environment' (variableName start l) = environment (variableName start l)) →
        override start environment' s = override start environment s := by
  refine ⟨?_, ?_, ?_, ?_⟩
  · intro a hgives
    have hrun := override_of_gives hgives s
    rw [outcome_congr hrun, after_congr hrun]
    exact ⟨outcome_ofExcept _ _, after_ofExcept _ _⟩
  · intro a before l later text hall hbefore hgarbled
    obtain ⟨cause, hparse⟩ := hgarbled.exists_cause
    have hrun := override_of_garbled hall hbefore hgarbled.eq hparse s
    exact ⟨⟨cause, hparse, outcome_error hrun⟩, after_error hrun⟩
  · obtain hgives | hfirst := gives_or_first_garbled start environment Limit.all
    · exact ⟨_, .inl fun l => hgives l l.mem_all⟩
    · exact ⟨_, .inr hfirst⟩
  · intro environment' h
    rw [override, override, overrideAll_congr h]

theorem override_exact_untidy :
    let full : Environment := fun name =>
      [("A_MAX_NUM_LEN", "+9"), ("B_MAX_OPS", "lots")].lookup name
    let untidy : Environment := fun name =>
      [("A_MAX_OPS", "lots"), ("A_MAX_STACK_SIZE", " 64 "), ("A_MAX_NUM_LEN", "4")].lookup name
    (outcome (override "A" full) {} = .error (.badSetting (.numberTooWide 9 8)) ∧
      after (override "A" full) {} = { script := { numberWidth := 9 } }) ∧
    (outcome (override "A" untidy) {} =
        .error (.badSetting (.badVariable "A_MAX_OPS" "lots" .invalidDigit)) ∧
      after (override "A" untidy) {} = { script := { stackSize := 64 } }) ∧
    override "A" (fun name => if name = "B" then some "lots" else untidy name) {} =
      override "A" untidy {} := by
  intro full untidy
  have hspells {cs : List Char} {n : Nat} (h : Text.Decimal.parse (Text.trim cs) = .ok n) :
      Text.Decimal.Spells cs n := Text.Decimal.parse_trim_eq_ok_iff.mp h
  have hfull := (override_exact "A" full {}).1 (fun l => if l = .numberWidth then some 9 else none)
    fun l => by
      cases l
      case numberWidth => exact .number rfl (hspells rfl)
      all_goals exact .nothing rfl
  obtain ⟨-, hfirst, -, hothers⟩ := override_exact "A" untidy {}
  have hlots : Text.Decimal.parse (Text.trim "lots".toList) = .error .invalidDigit := rfl
  have hgarbled : untidy.Garbled (variableName "A" .operations) "lots" := by
    refine ⟨rfl, fun n hn => ?_⟩
    rw [Text.Decimal.parse_trim_eq_ok_iff.mpr hn] at hlots
    cases hlots
  let a : Assignment := fun l => if l = .stackSize then some 64 else none
  have hbefore : ∀ l ∈ [Limit.scriptSize, .stackSize, .elementSize],
      untidy.Gives (variableName "A" l) (a l) := by
    simp only [List.forall_mem_cons, List.not_mem_nil]
    exact ⟨.nothing rfl, .number rfl (hspells rfl), .nothing rfl, nofun⟩
  obtain ⟨⟨cause, hcause, houtcome⟩, hafter⟩ := hfirst a
    [.scriptSize, .stackSize, .elementSize] .operations [.numberWidth, .recordSize] "lots" rfl
    hbefore hgarbled
  rw [hlots] at hcause
  cases hcause
  exact ⟨hfull, ⟨houtcome, hafter⟩, hothers _ fun l => by cases l <;> rfl⟩

end Settings

end ScriptLedger
