import ScriptLedger.Ledger.Edit
import ScriptLedger.Proofs.Ledger.RoundTrip

namespace ScriptLedger.Transaction

open Wire Decoder

variable {a b t : Transaction} {r r' : Bytes}

/-- Whether two transactions say the same, whatever they are stamped with. -/
def SameContents (a b : Transaction) : Prop :=
  a.version = b.version ∧ a.inputs = b.inputs ∧ a.outputs = b.outputs ∧ a.lockTime = b.lockTime

instance (a b : Transaction) : Decidable (a.SameContents b) :=
  inferInstanceAs (Decidable (_ ∧ _))

structure LengthsFit (t : Transaction) : Prop where
  inputs : t.inputs.length < 2 ^ 64
  outputs : t.outputs.length < 2 ^ 64
  scripts : t.ScriptsWithin (2 ^ 64 - 1)

theorem SameContents.encode_eq (h : a.SameContents b) : a.encode = b.encode := by
  obtain ⟨hversion, hinputs, houtputs, hlockTime⟩ := h
  rw [encode, encode, hversion, hinputs, houtputs, hlockTime]

theorem sameContents_remade (t : Transaction) : t.remade.SameContents t :=
  ⟨rfl, rfl, rfl, rfl⟩

theorem sameContents_of_remade_eq (h : a.remade = b.remade) : a.SameContents b := by
  have hb := b.sameContents_remade
  rw [← h] at hb
  exact hb

theorem LengthsFit.reads (h : t.LengthsFit) :
    Reads (readWith (some (2 ^ 64 - 1))) t.encode t.remade :=
  reads_encode h.inputs h.outputs (by decide) h.scripts

/-- Where a binary form ends can be told from its own bytes, so two that start one byte string are
one. The reader that tells it takes every script that has a length. -/
theorem LengthsFit.sameContents_of_append_eq (ha : a.LengthsFit) (hb : b.LengthsFit)
    (h : a.encode ++ r = b.encode ++ r') : a.SameContents b := by
  obtain ⟨_, hremade, _⟩ := ha.reads.unique hb.reads h
  exact sameContents_of_remade_eq hremade

theorem LengthsFit.encode_eq_iff (ha : a.LengthsFit) (hb : b.LengthsFit) :
    a.encode = b.encode ↔ a.SameContents b := by
  refine ⟨fun h => ?_, SameContents.encode_eq⟩
  exact ha.sameContents_of_append_eq hb (congrArg (· ++ []) h)

theorem LengthsFit.encode_prefix_iff (ha : a.LengthsFit) (hb : b.LengthsFit) :
    a.encode <+: b.encode ↔ a.SameContents b := by
  constructor
  · rintro ⟨r, h⟩
    exact ha.sameContents_of_append_eq hb (h.trans (List.append_nil b.encode).symm)
  · intro h
    exact ⟨[], (List.append_nil a.encode).trans h.encode_eq⟩

/-- A change to a transaction: an edit, or any other change of its lists and of what is in them. -/
inductive Change where
  | edit (e : Edit)
  | setInputs (inputs : List Input)
  | setOutputs (outputs : List Output)
  deriving DecidableEq, Repr

def change (t : Transaction) : Change → Transaction
  | .edit e => t.edit e
  | .setInputs inputs => { t with inputs }
  | .setOutputs outputs => { t with outputs }

def changeAll (t : Transaction) (cs : List Change) : Transaction :=
  cs.foldl change t

theorem changeAll_append (t : Transaction) (cs ds : List Change) :
    t.changeAll (cs ++ ds) = (t.changeAll cs).changeAll ds :=
  List.foldl_append

def Change.restamp : Change :=
  .edit .refreshHash

theorem hash_change_restamp (t : Transaction) :
    (t.change .restamp).hash = (t.change .restamp).contentHash :=
  (contentHash_eq_of_encode_eq t.encode_refreshHash).symm

theorem hash_change_of_ne {c : Change} (t : Transaction) (h : c ≠ .restamp) :
    (t.change c).hash = t.hash := by
  cases c with
  | edit e =>
    cases e with
    | refreshHash => exact absurd rfl h
    | _ => rfl
  | setInputs => rfl
  | setOutputs => rfl

theorem hash_changeAll_of_ne {cs : List Change} (t : Transaction) (h : ∀ c ∈ cs, c ≠ .restamp) :
    (t.changeAll cs).hash = t.hash := by
  induction cs generalizing t with
  | nil => rfl
  | cons c cs ih =>
    obtain ⟨hc, hcs⟩ := List.forall_mem_cons.1 h
    exact (ih (t.change c) hcs).trans (hash_change_of_ne t hc)

theorem exists_last_restamp (cs : List Change) :
    ∃ before since, cs = before ++ since ∧ (∀ c ∈ since, c ≠ .restamp) ∧
      (before = [] ∨ ∃ earlier, before = earlier ++ [.restamp]) := by
  induction cs with
  | nil => exact ⟨[], [], rfl, by simp, .inl rfl⟩
  | cons c cs ih =>
    obtain ⟨before, since, rfl, hsince, rfl | ⟨earlier, rfl⟩⟩ := ih
    · by_cases hc : c = .restamp
      · exact ⟨[c], since, rfl, hsince, .inr ⟨[], by rw [hc]; rfl⟩⟩
      · exact ⟨[], c :: since, rfl, List.forall_mem_cons.2 ⟨hc, hsince⟩, .inl rfl⟩
    · exact ⟨c :: earlier ++ [.restamp], since, rfl, hsince, .inr ⟨c :: earlier, rfl⟩⟩

/-- A stamp is that of the state that was stamped last. -/
theorem hash_changeAll {before since : List Change} (hhash : t.hash = t.contentHash)
    (hsince : ∀ c ∈ since, c ≠ .restamp)
    (hbefore : before = [] ∨ ∃ earlier, before = earlier ++ [.restamp]) :
    (t.changeAll (before ++ since)).hash = (t.changeAll before).contentHash := by
  rw [changeAll_append, hash_changeAll_of_ne _ hsince]
  rcases hbefore with rfl | ⟨earlier, rfl⟩
  · exact hhash
  · rw [changeAll_append]
    exact hash_change_restamp _

/-- What a transaction says decides its binary form and its identifier: no other transaction starts
with that form, and one with that identifier is a collision of the digest. The identifier that a
transaction is stamped with is that of the state in which it was last stamped. -/
theorem identity_of_contents :
    (∀ a b : Transaction, a.LengthsFit → b.LengthsFit →
      (Format.encode a = Format.encode b ↔ a.SameContents b) ∧
      (Format.encode a <+: Format.encode b ↔ a.SameContents b) ∧
      (a.contentHash = b.contentHash ↔
        a.SameContents b ∨
          Format.encode a ≠ Format.encode b ∧
            Digest.hash256 (Format.encode a) = Digest.hash256 (Format.encode b))) ∧
    (∀ (t : Transaction) (hash : Hash256) (block : Option Hash256),
      Format.encode { t with hash, block } = Format.encode t ∧
      { t with hash, block }.contentHash = t.contentHash) ∧
    ∀ version inputs outputs lockTime (cs : List Change),
      let t := make version inputs outputs lockTime
      ∃ before since, cs = before ++ since ∧ (∀ c ∈ since, c ≠ .edit .refreshHash) ∧
        (before = [] ∨ ∃ earlier, before = earlier ++ [.edit .refreshHash]) ∧
        (t.changeAll cs).hash = (t.changeAll before).contentHash := by
  refine ⟨fun a b ha hb => ⟨ha.encode_eq_iff hb, ha.encode_prefix_iff hb, ?collision⟩,
    fun t hash block => ⟨rfl, contentHash_eq_of_encode_eq rfl⟩, fun _ _ _ _ cs => ?history⟩
  case collision =>
    constructor
    · intro h
      by_cases hsame : a.SameContents b
      · exact .inl hsame
      · exact .inr ⟨fun hencode => hsame ((ha.encode_eq_iff hb).1 hencode), h⟩
    · rintro (hsame | ⟨_, h⟩)
      · exact contentHash_eq_of_encode_eq hsame.encode_eq
      · exact h
  case history =>
    obtain ⟨before, since, rfl, hsince, hbefore⟩ := exists_last_restamp cs
    exact ⟨before, since, rfl, hsince, hbefore,
      hash_changeAll (hash_make _ _ _ _) hsince hbefore⟩

theorem identity_of_contents_border :
    let a := make 1 [⟨Digest.zero 32, 0, [0x07], 0⟩] [⟨5, []⟩] 0
    let b := make 1 [⟨Digest.zero 32, 0, [], 7⟩] [⟨5, []⟩] 0
    a.LengthsFit ∧ b.LengthsFit ∧ Format.encode a ≠ Format.encode b ∧
      ¬Format.encode b <+: Format.encode a := by
  intro a b
  have ha : a.LengthsFit := ⟨by decide, by decide, by decide⟩
  have hb : b.LengthsFit := ⟨by decide, by decide, by decide⟩
  obtain ⟨hencode, _⟩ := identity_of_contents.1 a b ha hb
  obtain ⟨_, hprefix, _⟩ := identity_of_contents.1 b a hb ha
  refine ⟨ha, hb, mt hencode.1 ?_, mt hprefix.1 ?_⟩
  · rintro ⟨_, hinputs, _⟩
    cases hinputs
  · rintro ⟨_, hinputs, _⟩
    cases hinputs

end ScriptLedger.Transaction
