import ScriptLedger.Proofs.Script.Shuffle
import ScriptLedger.Proofs.Script.Walk

namespace ScriptLedger

open Stateful

def Failure.isDepthFailure : Failure → Bool
  | .stackUnderflow => true
  | .stackOverflow _ => true
  | _ => false

theorem Failure.not_depthFailure_of_isTruncated {e : Failure} (h : e.isTruncated = true) :
    e.isDepthFailure = false := by
  cases e with
  | truncated cause => rfl
  | _ => cases h

namespace Script

/-- What becomes of a stack computation that replaces `operands` items by `results`: it is short of
items, it fails for another reason, or it turns the items into as many as that leaves. -/
inductive Fate {α : Type} (x : StackM α) (operands results : Nat) (items : List Bytes) : Prop where
  | short (h : items.length < operands) (hx : Breaks x items .stackUnderflow)
  | unfit {e : Failure} (h : operands ≤ items.length) (he : e.isDepthFailure = false)
      (hx : Breaks x items e)
  | turns {a : α} {out : List Bytes} (h : operands ≤ items.length)
      (hout : out.length + operands = items.length + results) (hx : Turns x items a out)

namespace Fate

variable {α β : Type} {x : StackM α} {f : α → StackM β} {items mid : List Bytes} {a : α}
  {e : Failure} {n k m width depth : Nat}

theorem pure (h : n ≤ items.length) (a : α) : Fate (pure a) n n items :=
  .turns h rfl .pure

theorem throw (h : n ≤ items.length) (he : e.isDepthFailure = false) :
    Fate (throw e : StackM α) n m items :=
  .unfit h he .throw

theorem push (h : n ≤ items.length) (item : Bytes) : Fate (Stack.push item) n (n + 1) items :=
  .turns h (by simp; omega) (.push item items)

theorem push_push (h : n ≤ items.length) (item item' : Bytes) :
    Fate (do Stack.push item; Stack.push item') n (n + 2) items :=
  .turns h (by simp; omega) (.push_push item item' items)

theorem push_push_push (h : n ≤ items.length) (item item' item'' : Bytes) :
    Fate (do Stack.push item; Stack.push item'; Stack.push item'') n (n + 3) items :=
  .turns h (by simp; omega) (.push_push_push item item' item'' items)

theorem bind_of_turns (hx : Turns x items a mid) (hmid : mid.length + n = items.length)
    (hf : Fate (f a) k m mid) : Fate (x >>= f) (k + n) m items := by
  have hle : mid.length ≤ items.length := Nat.le_of_add_right_le (Nat.le_of_eq hmid)
  cases hf with
  | short h hf => exact .short (by omega) (.bind_of_turns hx hf hle)
  | unfit h he hf => exact .unfit (by omega) he (.bind_of_turns hx hf hle)
  | turns h hout hf => exact .turns (by omega) (by omega) (hx.bind_of_le hle hf)

theorem require_bind {f : Unit → StackM β}
    (hf : n ≤ items.length → Fate (f ()) n m items) : Fate (Stack.require n >>= f) n m items := by
  obtain h | h := Nat.lt_or_ge items.length n
  · exact .short h (.bind (.require h))
  · exact bind_of_turns (n := 0) (.require h) rfl (hf h)

theorem pop_bind {f : Bytes → StackM β} (hf : ∀ item rest, Fate (f item) k m rest) :
    Fate (Stack.pop >>= f) (k + 1) m items := by
  cases items with
  | nil => exact .short (Nat.succ_pos k) (.bind .pop)
  | cons item rest => exact bind_of_turns (.pop item rest) rfl (hf item rest)

theorem peek_bind {f : Bytes → StackM β} (h : depth < n)
    (hf : ∀ item, Fate (f item) n m items) : Fate (Stack.peek depth >>= f) n m items := by
  obtain hin | hbeyond := Nat.lt_or_ge depth items.length
  · exact bind_of_turns (n := 0) (.peek (List.getElem?_eq_getElem hin)) rfl (hf _)
  · exact .short (Nat.lt_of_le_of_lt hbeyond h) (.bind (.peek hbeyond))

theorem top_bind {f : Bytes → StackM β} (hf : ∀ item, 1 ≤ items.length → Fate (f item) 1 m items) :
    Fate (Stack.top >>= f) 1 m items := by
  cases items with
  | nil => exact .short Nat.one_pos (.bind (.peek (Nat.le_refl 0)))
  | cons item rest => exact peek_bind Nat.one_pos fun item => hf item (Nat.succ_pos _)

theorem remove_bind {f : Bytes → StackM β}
    (hf : ∀ item rest, k ≤ rest.length → Fate (f item) k m rest) :
    Fate (Stack.remove k >>= f) (k + 1) m items := by
  obtain h | h := Nat.lt_or_ge k items.length
  · have hrest : (items.eraseIdx k).length + 1 = items.length := by
      rw [List.length_eraseIdx_of_lt h]
      omega
    exact bind_of_turns (.remove (List.getElem?_eq_getElem h)) hrest (hf _ _ (by omega))
  · exact .short (Nat.lt_succ_of_le h) (.bind (.remove h))

/-- The items that are left must be enough, since a result that is bad comes before a lack of
them. -/
theorem ofExcept_bind {r : Except Failure α} (h : k ≤ items.length)
    (he : ∀ e, r = .error e → e.isDepthFailure = false)
    (hf : ∀ a, r = .ok a → Fate (f a) k m items) :
    Fate ((MonadExcept.ofExcept r : StackM α) >>= f) k m items := by
  cases hr : r with
  | error e => exact .unfit h (he e hr) (.bind (.ofExcept rfl))
  | ok a => exact bind_of_turns (n := 0) (.ofExcept rfl) rfl (hf a hr)

theorem not_depthFailure_of_decode {item : Bytes} (h : Number.decode width item = .error e) :
    e.isDepthFailure = false := by
  unfold Number.decode at h
  split at h <;> cases h
  rfl

theorem popNumber_bind {f : Int → StackM β} (h : k ≤ items.length - 1)
    (hf : ∀ n rest, rest.length + 1 = items.length → Fate (f n) k m rest) :
    Fate (Stack.popNumber width >>= f) (k + 1) m items := by
  cases items with
  | nil => exact .short (Nat.succ_pos k) (.bind (.bind .pop))
  | cons item rest =>
    cases hn : Number.decode width item with
    | error e =>
      exact .unfit (Nat.succ_le_succ h) (not_depthFailure_of_decode hn) (.bind (.popNumber hn rest))
    | ok n => exact bind_of_turns (.popNumber hn rest) rfl (hf n rest rfl)

theorem popIndex_bind {f : Nat → StackM β}
    (hf : ∀ i rest, i < rest.length → Fate (f i) 0 m rest) :
    Fate (Stack.popIndex width >>= f) 1 m items := by
  cases items with
  | nil => exact .short Nat.one_pos (.bind (.popIndex_of_number (.bind .pop)))
  | cons item rest =>
    cases hn : Number.decode width item with
    | error e =>
      exact .unfit (Nat.succ_pos _) (not_depthFailure_of_decode hn)
        (.bind (.popIndex_of_number (.popNumber hn rest)))
    | ok n =>
      by_cases hbad : n < 0 ∨ (rest.length : Int) ≤ n
      case pos => exact .unfit (Nat.succ_pos _) rfl (.bind (.popIndex hn hbad))
      case neg =>
        obtain ⟨i, rfl⟩ := Int.eq_ofNat_of_zero_le (by omega : 0 ≤ n)
        have hi : i < rest.length := by omega
        exact bind_of_turns (.popIndex hn hi) rfl (hf i rest hi)

end Fate

namespace Operation

variable {op : UInt8} {items : List Bytes} {width : Nat}

theorem drop1_fate : Fate drop1 1 0 items :=
  .pop_bind fun _ _ => .pure (Nat.zero_le _) ()

theorem drop2_fate : Fate drop2 2 0 items :=
  .require_bind fun _ => .pop_bind fun _ _ => .pop_bind fun _ _ => .pure (Nat.zero_le _) ()

theorem dup1_fate : Fate dup1 1 2 items :=
  .top_bind fun x h => .push h x

theorem dup2_fate : Fate dup2 2 4 items :=
  .require_bind fun h => .peek_bind (by decide) fun x₁ => .peek_bind (by decide) fun x₂ =>
    .push_push h x₁ x₂

theorem dup3_fate : Fate dup3 3 6 items :=
  .require_bind fun h => .peek_bind (by decide) fun x₁ => .peek_bind (by decide) fun x₂ =>
    .peek_bind (by decide) fun x₃ => .push_push_push h x₁ x₂ x₃

theorem over1_fate : Fate over1 2 3 items :=
  .require_bind fun _ => .pop_bind fun x₂ _ => .top_bind fun x₁ h => .push_push h x₂ x₁

theorem over2_fate : Fate over2 4 6 items :=
  .require_bind fun h => .peek_bind (by decide) fun x₁ => .peek_bind (by decide) fun x₂ =>
    .push_push h x₁ x₂

theorem swap1_fate : Fate swap1 2 2 items :=
  .require_bind fun _ => .remove_bind fun x₁ _ h => .push h x₁

theorem rot1_fate : Fate rot1 3 3 items :=
  .require_bind fun _ => .remove_bind fun x₁ _ h => .push h x₁

theorem swap2_fate : Fate swap2 4 4 items :=
  .require_bind fun _ => .remove_bind fun x₁ _ _ => .remove_bind fun x₂ _ h => .push_push h x₁ x₂

theorem rot2_fate : Fate rot2 6 6 items :=
  .require_bind fun _ => .remove_bind fun x₁ _ _ => .remove_bind fun x₂ _ h => .push_push h x₁ x₂

theorem nip_fate : Fate nip 2 1 items :=
  .remove_bind fun _ _ h => .pure h ()

theorem tuck_fate : Fate tuck 2 3 items :=
  .require_bind fun _ => .pop_bind fun x₂ _ => .pop_bind fun x₁ _ =>
    .push_push_push (Nat.zero_le _) x₂ x₁ x₂

theorem depth_fate : Fate depth 0 1 items :=
  .turns (Nat.zero_le _) rfl depth_turns

theorem ifDup_fate : Fate ifDup 1 (if items.head?.any Number.truth then 2 else 1) items := by
  cases items with
  | nil => exact .short Nat.one_pos (.bind (.peek (Nat.le_refl 0)))
  | cons x rest =>
    cases hx : Number.truth x with
    | true => exact .turns (Nat.succ_pos _) (by simp [hx]) (ifDup_turns_of_true hx)
    | false => exact .turns (Nat.succ_pos _) (by simp [hx]) (ifDup_turns_of_false hx)

theorem pick_fate : Fate (pick width) 1 1 items := by
  apply Fate.popIndex_bind
  intro i rest hi
  have hpeek : rest[i]? = some rest[i] := List.getElem?_eq_getElem hi
  exact .turns (Nat.zero_le _) rfl (.peek_bind hpeek (.push _ _))

theorem roll_fate : Fate (roll width) 1 0 items := by
  apply Fate.popIndex_bind
  intro i rest hi
  have hremove : rest[i]? = some rest[i] := List.getElem?_eq_getElem hi
  refine .turns (Nat.zero_le _) ?_ (.remove_bind hremove (.push _ _))
  rw [List.length_cons, List.length_eraseIdx_of_lt hi]
  omega

theorem FlowOp.nop_fate : Fate (FlowOp.run .nop) 0 0 items :=
  .pure (Nat.zero_le _) ()

theorem FlowOp.verify_fate : Fate (FlowOp.run .verify) 1 0 items := by
  apply Fate.pop_bind
  intro item rest
  split
  · exact .pure (Nat.zero_le _) ()
  · exact .throw (Nat.zero_le _) rfl

theorem FlowOp.giveUp_fate : Fate (FlowOp.run .giveUp) 0 0 items :=
  .throw (Nat.zero_le _) rfl

theorem pushSize_fate : Fate pushSize 1 2 items :=
  .top_bind fun item h => .push h (Number.encode item.length)

theorem BitwiseOp.equal_fate : Fate (BitwiseOp.run .equal) 2 1 items :=
  .require_bind fun _ => .pop_bind fun _ _ => .pop_bind fun _ _ => .push (Nat.zero_le _) _

theorem BitwiseOp.equalVerify_fate : Fate (BitwiseOp.run .equalVerify) 2 0 items := by
  apply Fate.require_bind
  intro _
  apply Fate.pop_bind
  intro b _
  apply Fate.pop_bind
  intro a rest
  simp only
  split
  · exact .pure (Nat.zero_le _) ()
  · exact .throw (Nat.zero_le _) rfl

theorem pushChecked_fate (n : Int) : Fate (Stack.pushResult (Number.checked n)) 0 1 items := by
  apply Fate.ofExcept_bind (Nat.zero_le _)
  · intro e he
    unfold Number.checked at he
    split at he <;> cases he
    rfl
  · exact fun n _ => .push (Nat.zero_le _) (Number.encode n)

theorem SignOp.fate (o : SignOp) : Fate (o.run width) 1 1 items :=
  .pop_bind fun item _ => .ofExcept_bind (Nat.zero_le _) (fun _ => Fate.not_depthFailure_of_decode)
    fun _ _ => .push (Nat.zero_le _) (o.apply item)

theorem UnaryOp.fate (o : UnaryOp) : Fate (o.run width) 1 1 items := by
  apply Fate.popNumber_bind (Nat.zero_le _)
  intro n rest _
  cases o with
  | add1 => exact pushChecked_fate (n + 1)
  | sub1 => exact pushChecked_fate (n - 1)
  | not => exact .push (Nat.zero_le _) _
  | notZero => exact .push (Nat.zero_le _) _

theorem LogicOp.fate (o : LogicOp) : Fate o.run 2 1 items :=
  .require_bind fun _ => .pop_bind fun _ _ => .pop_bind fun _ _ => .push (Nat.zero_le _) _

def BinaryOp.results : BinaryOp → Nat
  | .equalVerify => 0
  | _ => 1

theorem BinaryOp.fate (o : BinaryOp) : Fate (o.run width) 2 o.results items := by
  apply Fate.require_bind
  intro h
  apply Fate.popNumber_bind (Nat.le_sub_one_of_lt h)
  intro b rest hrest
  apply Fate.popNumber_bind (Nat.zero_le _)
  intro a _ _
  cases o with
  | add => exact pushChecked_fate (a + b)
  | sub => exact pushChecked_fate (a - b)
  | equalVerify =>
    simp only [BinaryOp.pushResult]
    split
    · exact .pure (Nat.zero_le _) ()
    · exact .throw (Nat.zero_le _) rfl
  | _ => exact .push (Nat.zero_le _) _

theorem within_fate : Fate (within width) 3 1 items := by
  apply Fate.require_bind
  intro h
  apply Fate.popNumber_bind (by omega)
  intro upper rest hrest
  apply Fate.popNumber_bind (by omega)
  intro lower rest' _
  apply Fate.popNumber_bind (Nat.zero_le _)
  intro n _ _
  exact .push (Nat.zero_le _) _

theorem hashTop_fate {size : Nat} (digest : Bytes → Digest size) :
    Fate (hashTop digest) 1 1 items :=
  .pop_bind fun item _ => .push (Nat.zero_le _) (digest item).bytes

theorem CryptoOp.separator_fate : Fate (CryptoOp.run .separator) 0 0 items :=
  .pure (Nat.zero_le _) ()

theorem push_pure_fate {α : Type} (item : Bytes) (a : α) :
    Fate (Stack.push item >>= fun _ => pure a) 0 1 items :=
  .turns (Nat.zero_le _) rfl (.push_bind .pure (Nat.lt_succ_self _))

theorem runConstant_fate (rest : Bytes) (elementSize : Nat) :
    Fate (runConstant op rest elementSize) 0 1 items := by
  unfold runConstant
  apply Fate.ofExcept_bind (Nat.zero_le _)
  · exact fun e he => Failure.not_depthFailure_of_isTruncated (Push.isTruncated_of_read he)
  intro found _
  cases found with
  | none =>
    cases smallItem? op with
    | none => exact .throw (Nat.zero_le _) rfl
    | some item => exact push_pure_fate item 0
  | some p =>
    simp only
    split
    · exact .throw (Nat.zero_le _) rfl
    · exact push_pure_fate p.data p.size

end Operation

end Script
end ScriptLedger
