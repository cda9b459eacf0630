import Mathlib.Data.List.Nodup
import ScriptLedger.Proofs.Json.Form
import ScriptLedger.Proofs.Settings.Limits
import ScriptLedger.Settings.Document

namespace ScriptLedger

open Json

namespace Json

variable {κ α β : Type} [DecidableEq κ]

theorem lookup_map_of_injective {key : κ → String} (hkey : Function.Injective key) (f : α → β)
    (entries : List (κ × α)) (k : κ) :
    (entries.map fun e => (key e.1, f e.2)).lookup (key k) = (entries.lookup k).map f := by
  induction entries with
  | nil => rfl
  | cons e entries ih =>
    have hbeq : (key k == key e.1) = (k == e.1) := by
      rw [Bool.eq_iff_iff, beq_iff_eq, beq_iff_eq, hkey.eq_iff]
    rw [List.map_cons, List.lookup_cons, List.lookup_cons, ih, hbeq]
    cases k == e.1 <;> rfl

theorem lookup_eq_some_iff_mem {entries : List (κ × α)} (h : (entries.map Prod.fst).Nodup)
    {k : κ} {a : α} : entries.lookup k = some a ↔ (k, a) ∈ entries := by
  induction entries with
  | nil => simp
  | cons e entries ih =>
    obtain ⟨k', a'⟩ := e
    obtain ⟨hnotMem, hnodup⟩ := List.nodup_cons.mp h
    rw [List.lookup_cons, List.mem_cons, Prod.mk.injEq]
    by_cases hk : k = k'
    · subst hk
      have habsent : (k, a) ∉ entries := fun hmem =>
        hnotMem (List.mem_map.mpr ⟨_, hmem, rfl⟩)
      simp [habsent, eq_comm]
    · simp [beq_false_of_ne hk, hk, ih hnodup]

theorem Value.fields?_entries {key : κ → String} (hkey : Function.Injective key)
    (names : List κ) {f : α → Document} {entries : List (κ × α)}
    (h : (entries.map Prod.fst).Nodup) :
    fields? (names.map key) (Document.object (entries.map fun e => (key e.1, f e.2))).value =
      some (names.map fun k => (entries.lookup k).map fun a => (f a).value) := by
  have hkeys : ((entries.map fun e => (key e.1, f e.2)).map Prod.fst).Nodup := by
    rw [List.map_map]
    have hmap := h.map hkey
    rwa [List.map_map] at hmap
  rw [fields?_value _ hkeys, List.map_map]
  simp only [Function.comp_def, lookup_map_of_injective hkey, Option.map_map]

end Json

inductive Limit.Group where
  | script
  | block
  deriving DecidableEq, Repr

namespace Limit

def Group.key : Group → String
  | script => "script"
  | block => "block"

def Group.all : List Group :=
  [.script, .block]

theorem Group.mem_all (g : Group) : g ∈ all := by
  cases g <;> decide

theorem Group.key_injective : Function.Injective Group.key := by
  intro g h hkey
  cases g <;> cases h <;> first | rfl | exact absurd hkey (by decide)

theorem key_injective : Function.Injective key := by
  intro l k hkey
  cases l <;> cases k <;> first | rfl | exact absurd hkey (by decide)

def group : Limit → Group
  | recordSize => .block
  | _ => .script

end Limit

def Assignment.Fits (a : Assignment) : Prop :=
  ∀ l n, a l = some n → n < 0x10000000000000000

namespace Settings

variable {fs : List (Limit × Nat)}

def groupDocument (fs : List (Limit × Nat)) : Document :=
  .object (fs.map fun f => (f.1.key, .natural f.2))

theorem orElse_value {default : Nat} {n? : Option Nat}
    (h : ∀ n, n? = some n → n < 0x10000000000000000) :
    Limit.orElse default (n?.map fun n => (Document.natural n).value) = some (n?.getD default) := by
  cases n? with
  | none => rfl
  | some n => exact Value.natural?_value (h n rfl)

theorem scriptOfValue?_groupDocument (hnodup : (fs.map Prod.fst).Nodup)
    (hfits : Assignment.Fits fun l => fs.lookup l) :
    ScriptLimits.ofValue? (groupDocument fs).value =
      some (({} : Settings).overlay fun l => fs.lookup l).script := by
  have hfields := Value.fields?_entries Limit.key_injective
    [.scriptSize, .stackSize, .elementSize, .operations, .numberWidth] hnodup (f := .natural)
  rw [ScriptLimits.ofValue?]
  refine (congrArg (Option.bind · _) hfields).trans ?_
  simp only [List.map_cons, List.map_nil, Option.bind_some, orElse_value (hfits _)]
  rfl

theorem recordSizeOfValue?_groupDocument (hnodup : (fs.map Prod.fst).Nodup)
    (hfits : Assignment.Fits fun l => fs.lookup l) :
    recordSizeOfValue? (groupDocument fs).value =
      some (({} : Settings).overlay fun l => fs.lookup l).recordSize := by
  have hfields := Value.fields?_entries Limit.key_injective [.recordSize] hnodup (f := .natural)
  rw [recordSizeOfValue?]
  refine (congrArg (Option.bind · _) hfields).trans ?_
  exact orElse_value (hfits _)

/-- A document of some limits. Its parts stand in any order and in each of them the limits that
belong there, in any order too; nothing is repeated, and parts and limits can be left out. -/
structure Draft where
  groups : List (Limit.Group × List (Limit × Nat))
  groups_nodup : (groups.map Prod.fst).Nodup
  limits_nodup : ∀ g ∈ groups, (g.2.map Prod.fst).Nodup
  group_eq : ∀ g ∈ groups, ∀ f ∈ g.2, f.1.group = g.1
  lt : ∀ g ∈ groups, ∀ f ∈ g.2, f.2 < 0x10000000000000000

namespace Draft

def document (d : Draft) : Document :=
  .object (d.groups.map fun g => (g.1.key, groupDocument g.2))

def fields (d : Draft) (g : Limit.Group) : List (Limit × Nat) :=
  (d.groups.lookup g).getD []

def assigned (d : Draft) : Assignment := fun l =>
  (d.fields l.group).lookup l

variable (d : Draft)

theorem assigned_eq_some_iff {l : Limit} {n : Nat} :
    d.assigned l = some n ↔ ∃ g ∈ d.groups, (l, n) ∈ g.2 := by
  have hfields {g : Limit.Group} {fs : List (Limit × Nat)} :
      d.groups.lookup g = some fs ↔ (g, fs) ∈ d.groups :=
    lookup_eq_some_iff_mem d.groups_nodup
  rw [assigned, fields]
  cases hgroup : d.groups.lookup l.group with
  | none =>
    refine iff_of_false nofun ?_
    rintro ⟨g, hg, hmem⟩
    have hfound := hfields.mpr hg
    rw [← d.group_eq g hg _ hmem, hgroup] at hfound
    cases hfound
  | some fs =>
    have hfs := hfields.mp hgroup
    rw [Option.getD_some, lookup_eq_some_iff_mem (d.limits_nodup _ hfs)]
    refine ⟨fun hmem => ⟨_, hfs, hmem⟩, ?_⟩
    rintro ⟨g, hg, hmem⟩
    have hfound := hfields.mpr hg
    rw [← d.group_eq g hg _ hmem, hgroup, Option.some.injEq] at hfound
    rwa [hfound]

theorem read_part {β : Type} (part : Settings → β) {read : Value → Option β}
    (hread : ∀ fs : List (Limit × Nat), (fs.map Prod.fst).Nodup →
      (Assignment.Fits fun l => fs.lookup l) →
        read (groupDocument fs).value =
          some (part (({} : Settings).overlay fun l => fs.lookup l)))
    (g : Limit.Group) :
    (((d.groups.lookup g).map fun fs => (groupDocument fs).value).map read).getD
        (some (part {})) =
      some (part (({} : Settings).overlay fun l => (d.fields g).lookup l)) := by
  rw [fields]
  cases hgroup : d.groups.lookup g with
  | none => rfl
  | some fs =>
    have hfs : (g, fs) ∈ d.groups := (lookup_eq_some_iff_mem d.groups_nodup).mp hgroup
    have hnodup := d.limits_nodup _ hfs
    refine hread fs hnodup fun l n hl => ?_
    exact d.lt _ hfs _ ((lookup_eq_some_iff_mem hnodup).mp hl)

/-- Reading a document overlays the defaults with what it sets. -/
theorem ofValue?_document :
    ofValue? d.document.value = some (({} : Settings).overlay d.assigned) := by
  have hfields := Value.fields?_entries Limit.Group.key_injective [.script, .block]
    d.groups_nodup (f := groupDocument)
  have hscript := d.read_part Settings.script (fun _ => scriptOfValue?_groupDocument)
    .script
  have hblock := d.read_part Settings.recordSize
    (fun _ => recordSizeOfValue?_groupDocument) .block
  rw [ofValue?]
  refine (congrArg (Option.bind · _) hfields).trans ?_
  simp only [List.map_cons, List.map_nil, Option.bind_some, hscript, hblock]
  rfl

end Draft

section Written

variable {a : Assignment} {g : Limit.Group} {l : Limit} {n : Nat}

def entries (a : Assignment) (g : Limit.Group) : List (Limit × Nat) :=
  (Limit.all.filter fun l => l.group = g).filterMap fun l => (a l).map fun n => (l, n)

theorem mem_entries_iff : (l, n) ∈ entries a g ↔ l.group = g ∧ a l = some n := by
  simp only [entries, List.mem_filterMap, List.mem_filter, decide_eq_true_eq,
    Option.map_eq_some_iff, Prod.mk.injEq]
  constructor
  · rintro ⟨l, ⟨-, hgroup⟩, n, hn, rfl, rfl⟩
    exact ⟨hgroup, hn⟩
  · rintro ⟨hgroup, hn⟩
    exact ⟨l, ⟨l.mem_all, hgroup⟩, n, hn, rfl, rfl⟩

theorem nodup_entries (a : Assignment) (g : Limit.Group) :
    ((entries a g).map Prod.fst).Nodup := by
  have hall : Limit.all.Nodup := by decide
  rw [entries, List.map_filterMap]
  refine (hall.filter _).filterMap fun l l' k hl hl' => ?_
  simp only [Option.mem_def, Option.map_eq_some_iff] at hl hl'
  obtain ⟨-, ⟨_, _, rfl⟩, rfl⟩ := hl
  obtain ⟨-, ⟨_, _, rfl⟩, hk⟩ := hl'
  exact hk.symm

/-- The document that has both parts and in them the assigned limits in their order. -/
def Draft.ofAssignment (a : Assignment) (h : a.Fits) : Draft where
  groups := Limit.Group.all.map fun g => (g, entries a g)
  groups_nodup := by
    rw [List.map_map]
    exact (by decide : Limit.Group.all.Nodup).map Function.injective_id
  limits_nodup := by
    intro g hg
    obtain ⟨g, -, rfl⟩ := List.mem_map.mp hg
    exact nodup_entries a g
  group_eq := by
    intro g hg f hf
    obtain ⟨g, -, rfl⟩ := List.mem_map.mp hg
    exact (mem_entries_iff.mp hf).1
  lt := by
    intro g hg f hf
    obtain ⟨g, -, rfl⟩ := List.mem_map.mp hg
    exact h _ _ (mem_entries_iff.mp hf).2

theorem Draft.assigned_ofAssignment (h : a.Fits) : (Draft.ofAssignment a h).assigned = a := by
  funext l
  apply Option.ext
  intro n
  rw [Draft.assigned_eq_some_iff]
  constructor
  · rintro ⟨g, hg, hmem⟩
    obtain ⟨g, -, rfl⟩ := List.mem_map.mp hg
    exact (mem_entries_iff.mp hmem).2
  · intro hn
    exact ⟨_, List.mem_map_of_mem l.group.mem_all, mem_entries_iff.mpr ⟨rfl, hn⟩⟩

end Written

variable {text : String} {s : Settings}

theorem exists_document_eq (h : ∀ l, s.get l < 0x10000000000000000) :
    ∃ d : Draft, d.document = Form.document s ∧ d.assigned = fun l => some (s.get l) := by
  have hfits : Assignment.Fits fun l => some (s.get l) := by
    rintro l _ ⟨⟩
    exact h l
  exact ⟨.ofAssignment _ hfits, rfl, Draft.assigned_ofAssignment hfits⟩

theorem ofText_of_parse {d : Draft} (h : Value.parse? text = some d.document.value) :
    ofText text =
      (check (({} : Settings).overlay d.assigned)).map fun () =>
        ({} : Settings).overlay d.assigned := by
  have hread : Json.read? text = some (({} : Settings).overlay d.assigned) := by
    rw [Json.read?, h]
    exact d.ofValue?_document
  rw [ofText, hread]

theorem ofText_write (h : ∀ l, s.get l < 0x10000000000000000) :
    ofText (Json.write s) = (check s).map fun () => s := by
  obtain ⟨d, hdocument, hassigned⟩ := exists_document_eq h
  have hparse : Value.parse? (Json.write s) = some d.document.value := by
    rw [Json.write, ← hdocument, Value.parse?_render]
  rw [ofText_of_parse hparse, hassigned, overlay_get]

theorem check_of_ofText (h : ofText text = .ok s) : check s = .ok () := by
  rw [ofText] at h
  cases hread : (Json.read? text : Option Settings) with
  | none =>
    rw [hread] at h
    cases h
  | some t =>
    rw [hread] at h
    cases hcheck : check t with
    | error e =>
      simp only [hcheck, Except.map] at h
      cases h
    | ok u =>
      simp only [hcheck, Except.map, Except.ok.injEq] at h
      rw [← h, hcheck]

/-- Reading settings overlays the defaults with what a document sets, in whatever way it is spelled,
and then checks the result, the first demand that is not met being the failure. So whatever is read
passes the check, and settings that are written are read back exactly when they pass it. -/
theorem ofText_overlays :
    (∀ (d : Draft) (text : String), Value.parse? text = some d.document.value →
      let s := ({} : Settings).overlay d.assigned
      ((∀ e : Demand, e.Met s) → ofText text = .ok s) ∧
        ∀ before e after, Demand.all = before ++ e :: after → (∀ c ∈ before, c.Met s) →
          ¬ e.Met s → ofText text = .error (.badSetting (e.complaint s))) ∧
    (∀ d : Draft, Value.parse? d.document.render = some d.document.value) ∧
    (∀ a : Assignment, a.Fits → ∃ d : Draft, d.assigned = a) ∧
    (∀ text s, ofText text = .ok s → check s = .ok ()) ∧
    ∀ s : Settings, (∀ l, s.get l < 0x10000000000000000) →
      (ofText (Json.write s) = .ok s ↔ check s = .ok ()) ∧
        ∀ e, check s = .error e → ofText (Json.write s) = .error e := by
  refine ⟨?_, fun d => Value.parse?_render _, ?_, fun _ _ => check_of_ofText, ?_⟩
  · intro d text hparse s
    rw [ofText_of_parse hparse]
    constructor
    · intro hmet
      rw [check_eq_ok_iff.mpr hmet]
      rfl
    · intro before e after hall hbefore he
      rw [check_of_first hall hbefore he]
      rfl
  · intro a ha
    exact ⟨_, Draft.assigned_ofAssignment ha⟩
  · intro s hs
    refine ⟨⟨check_of_ofText, fun hcheck => ?_⟩, fun e hcheck => ?_⟩
    all_goals
      rw [ofText_write hs, hcheck]
      rfl

def Draft.ofOperations (n : Nat) (h : n < 0x10000000000000000) : Draft where
  groups := [(.script, [(.operations, n)])]
  groups_nodup := List.nodup_singleton _
  limits_nodup := by simp
  group_eq := by simp [Limit.group]
  lt := by simpa using h

theorem ofText_overlays_operations :
    ofText "\x7b\"script\":\x7b\"max_ops\":50\x7d\x7d" = .ok { script := { operations := 50 } } ∧
      ofText "\x7b\"script\":\x7b\"max_ops\":0\x7d\x7d" =
        .error (.badSetting (.zero "max_ops")) ∧
      (∃ d : Draft, d.assigned = fun l => if l = .recordSize then some 4294967296 else none) ∧
      check { script := { operations := 50 } } = .ok () ∧
      ofText (Json.write ({} : Settings)) = .ok {} := by
  obtain ⟨hread, hrender, hdraft, hchecked, hwrite⟩ := ofText_overlays
  have hsome := (hread (.ofOperations 50 (by decide)) _ (hrender _)).1
    (check_eq_ok_iff.mp rfl)
  have hzero := (hread (.ofOperations 0 (by decide)) _ (hrender _)).2
    [.nonzero .scriptSize, .nonzero .stackSize, .nonzero .elementSize] (.nonzero .operations)
    [.nonzero .numberWidth, .nonzero .recordSize, .numberWidth, .recordSize] rfl (by decide)
    (by decide)
  have hlarge : Assignment.Fits fun l => if l = .recordSize then some 4294967296 else none := by
    intro l n h
    dsimp only at h
    split at h
    · cases h
      decide
    · cases h
  have hdefault : ∀ l, ({} : Settings).get l < 0x10000000000000000 := by
    intro l
    cases l <;> decide
  exact ⟨hsome, hzero, hdraft _ hlarge, hchecked _ _ hsome, (hwrite {} hdefault).1.mpr rfl⟩

end Settings

end ScriptLedger
