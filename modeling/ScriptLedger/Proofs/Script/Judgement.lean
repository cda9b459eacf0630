import ScriptLedger.Proofs.Script.Width
import ScriptLedger.Script.Machine

namespace ScriptLedger

namespace Script

def Stack.checkIndex (n : Int) : StackM Nat := fun s =>
  if n < 0 ∨ (s.size : Int) ≤ n then .error (.invalidStackIndex n) s else .ok n.toNat s

theorem Stack.popIndex_eq (width : Nat) : popIndex width = popNumber width >>= checkIndex := by
  unfold popIndex
  congr 1
  funext n s
  rw [Stateful.bind_ok (x := get) rfl, checkIndex]
  split
  · rfl
  · rfl

/-- What a computation can count on: that it is the first to come to the stack, or that the stack
holds so many items at least. -/
inductive Known where
  | untouched
  | holds (n : Nat)

namespace Known

def count : Known → Nat
  | .untouched => 0
  | .holds n => n

/-- Whether a computation may reach for `n` items. The first one may reach for any number. -/
def Allows (n : Nat) : Known → Prop
  | .untouched => True
  | .holds m => n ≤ m

instance (n : Nat) : (k : Known) → Decidable (k.Allows n)
  | .untouched => inferInstanceAs (Decidable True)
  | .holds m => inferInstanceAs (Decidable (n ≤ m))

end Known

/-- Something that can be said of computations on the stacks, or of pairs of them that differ in
the widths of their numbers, with a closure rule for each step that an operation takes. An operation
is walked through once, for all that can be said of it. -/
structure Judgement (width width' : Nat) where
  /-- What is said of computations on one stack, from what they can count on. -/
  one {α : Type} : Known → StackM α → StackM α → Prop
  /-- What is said of computations on both stacks. -/
  both {α : Type} : StacksM α → StacksM α → Prop
  /-- The items that a stack may hold. -/
  item : Bytes → Prop
  /-- The failures that operations may end in of their own accord, whatever the stacks hold. -/
  allowed : Failure → Prop
  item_of_narrow {x : Bytes} : x.length ≤ 32 → item x
  item_of_le {x y : Bytes} : x.length ≤ y.length → item y → item x
  pure {α : Type} {k : Known} (a : α) : one k (pure a) (pure a)
  push {α : Type} {k : Known} {x : Bytes} {f g : Unit → StackM α} :
    item x → one (.holds (k.count + 1)) (f ()) (g ()) →
      one k (Stack.push x >>= f) (Stack.push x >>= g)
  pop {α : Type} {k : Known} {f g : Bytes → StackM α} :
    k.Allows 1 → (∀ x, item x → one (.holds (k.count - 1)) (f x) (g x)) →
      one k (Stack.pop >>= f) (Stack.pop >>= g)
  peek {α : Type} {k : Known} {depth : Nat} {f g : Bytes → StackM α} :
    k.Allows (depth + 1) → (∀ x, item x → one k (f x) (g x)) →
      one k (Stack.peek depth >>= f) (Stack.peek depth >>= g)
  remove {α : Type} {k : Known} {depth : Nat} {f g : Bytes → StackM α} :
    k.Allows (depth + 1) → (∀ x, item x → one (.holds (k.count - 1)) (f x) (g x)) →
      one k (Stack.remove depth >>= f) (Stack.remove depth >>= g)
  require {α : Type} {n : Nat} {f g : Unit → StackM α} :
    one (.holds n) (f ()) (g ()) →
      one .untouched (Stack.require n >>= f) (Stack.require n >>= g)
  width_le : width ≤ width'
  tooWide {α : Type} {k : Known} {x : Bytes} {g : Int → StackM α} :
    min width 8 < x.length →
      one k (throw (.numberTooLong x.length (min width 8)))
        (MonadExcept.ofExcept (Number.decode width' x) >>= g)
  overflow {α : Type} {k : Known} :
    8 ≤ width → one k (throw .arithmeticOverflow : StackM α) (throw .arithmeticOverflow)
  checkIndex {α : Type} {k : Known} {n : Int} {f g : Nat → StackM α} :
    (∀ i, one (.holds (i + 1)) (f i) (g i)) →
      one k (Stack.checkIndex n >>= f) (Stack.checkIndex n >>= g)
  reject {α : Type} {k : Known} {c : Rejection} :
    allowed (.scriptInvalid c) →
      one k (throw (.scriptInvalid c) : StackM α) (throw (.scriptInvalid c))
  refuse {α : Type} {e : Failure} :
    allowed e → one .untouched (throw e : StackM α) (throw e)
  onMain {α : Type} {x y : StackM α} : one .untouched x y → both (onMain x) (onMain y)
  toAlt : both Operation.moveToAlt Operation.moveToAlt
  fromAlt : both Operation.moveFromAlt Operation.moveFromAlt
  answer {α β : Type} {x y : StacksM α} (b : β) :
    both x y → both (x *> Pure.pure b) (y *> Pure.pure b)
  refuseBoth {α : Type} {e : Failure} :
    allowed e → both (throw e : StacksM α) (throw e)

theorem Operation.SignOp.length_apply (o : SignOp) (item : Bytes) :
    (o.apply item).length = item.length := by
  cases o with
  | negate => exact Bytes.length_mapLast _ _
  | abs => exact Bytes.length_mapLast _ _

namespace Judgement

open Operation

variable {width width' : Nat} (J : Judgement width width') {k : Known} {α : Type} {op : UInt8}

theorem ite {p : Prop} [Decidable p] {x x' y y' : StackM α} (h : J.one k x y)
    (h' : J.one k x' y') : J.one k (if p then x else x') (if p then y else y') := by
  split
  · exact h
  · exact h'

theorem pushLast {x : Bytes} (h : J.item x) : J.one k (Stack.push x) (Stack.push x) := by
  rw [← bind_pure (Stack.push x)]
  exact J.push h (J.pure ())

theorem pushBool (b : Bool) : J.one k (Stack.pushBool b) (Stack.pushBool b) :=
  J.pushLast (J.item_of_narrow (by rw [List.length_singleton]; decide))

theorem pushNumber {n : Int} (h : n.natAbs < 2 ^ 64) :
    J.one k (Stack.pushNumber n) (Stack.pushNumber n) :=
  J.pushLast (J.item_of_narrow (Nat.le_trans (Number.length_encode_le h) (by decide)))

theorem pow_le_word (width : Nat) : 256 ^ min width 8 ≤ 2 ^ 64 :=
  Nat.pow_le_pow_right (n := 256) (by decide) (Nat.min_le_right width 8)

theorem pushResult {n : Int} (h : n.natAbs < 2 * 256 ^ min width 8) :
    J.one k (Stack.pushResult (Number.checked n)) (Stack.pushResult (Number.checked n)) := by
  unfold Number.checked
  split
  case isTrue hn =>
    unfold Number.InRange at hn
    exact J.pushNumber (by omega)
  case isFalse hn => exact J.overflow (Number.le_width_of_not_inRange h hn)

theorem decode {x : Bytes} {f g : Int → StackM α}
    (hf : ∀ n : Int, n.natAbs < 256 ^ min width 8 → J.one k (f n) (g n)) :
    J.one k (MonadExcept.ofExcept (Number.decode width x) >>= f)
      (MonadExcept.ofExcept (Number.decode width' x) >>= g) := by
  by_cases hsize : x.length ≤ min width 8
  case pos =>
    have hle := J.width_le
    have hsize' : x.length ≤ min width' 8 := by omega
    rw [Number.decode_of_length_le hsize, Number.decode_of_length_le hsize']
    exact hf _ (Number.natAbs_value_lt hsize)
  case neg =>
    have hwide := Nat.not_le.mp hsize
    rw [Number.decode_of_lt_length hwide]
    exact J.tooWide hwide

theorem popNumber {f g : Int → StackM α} (hk : k.Allows 1)
    (hf : ∀ n : Int, n.natAbs < 256 ^ min width 8 → J.one (.holds (k.count - 1)) (f n) (g n)) :
    J.one k (Stack.popNumber width >>= f) (Stack.popNumber width' >>= g) := by
  unfold Stack.popNumber
  rw [bind_assoc, bind_assoc]
  exact J.pop hk fun _ _ => J.decode hf

theorem popIndex {f g : Nat → StackM α} (hf : ∀ i, J.one (.holds (i + 1)) (f i) (g i)) :
    J.one .untouched (Stack.popIndex width >>= f) (Stack.popIndex width' >>= g) := by
  rw [Stack.popIndex_eq, Stack.popIndex_eq, bind_assoc, bind_assoc]
  exact J.popNumber trivial fun _ _ => J.checkIndex hf

/-- The depth of the stack is the one thing that does not come from its items. -/
theorem stackOp (o : StackOp) (hdepth : o = .depth → J.one .untouched depth depth) :
    J.both (o.run width) (o.run width') := by
  cases o with
  | toAlt => exact J.toAlt
  | fromAlt => exact J.fromAlt
  | drop2 =>
    apply J.onMain
    exact J.require <| J.pop (by decide) fun _ _ => J.pop (by decide) fun _ _ => J.pure ()
  | dup2 =>
    apply J.onMain
    exact J.require <| J.peek (by decide) fun x₁ h₁ => J.peek (by decide) fun x₂ h₂ =>
      J.push h₁ <| J.pushLast h₂
  | dup3 =>
    apply J.onMain
    exact J.require <| J.peek (by decide) fun x₁ h₁ => J.peek (by decide) fun x₂ h₂ =>
      J.peek (by decide) fun x₃ h₃ => J.push h₁ <| J.push h₂ <| J.pushLast h₃
  | over2 =>
    apply J.onMain
    exact J.require <| J.peek (by decide) fun x₁ h₁ => J.peek (by decide) fun x₂ h₂ =>
      J.push h₁ <| J.pushLast h₂
  | rot2 =>
    apply J.onMain
    exact J.require <| J.remove (by decide) fun x₁ h₁ => J.remove (by decide) fun x₂ h₂ =>
      J.push h₁ <| J.pushLast h₂
  | swap2 =>
    apply J.onMain
    exact J.require <| J.remove (by decide) fun x₁ h₁ => J.remove (by decide) fun x₂ h₂ =>
      J.push h₁ <| J.pushLast h₂
  | ifDup =>
    apply J.onMain
    exact J.peek trivial fun x h => J.ite (J.pushLast h) (J.pure ())
  | depth => exact J.onMain (hdepth rfl)
  | drop1 =>
    apply J.onMain
    exact J.pop trivial fun _ _ => J.pure ()
  | dup1 =>
    apply J.onMain
    exact J.peek trivial fun x h => J.pushLast h
  | nip =>
    apply J.onMain
    exact J.remove trivial fun _ _ => J.pure ()
  | over1 =>
    apply J.onMain
    exact J.require <| J.pop (by decide) fun x₂ h₂ => J.peek (by decide) fun x₁ h₁ =>
      J.push h₂ <| J.pushLast h₁
  | pick =>
    apply J.onMain
    exact J.popIndex fun i => J.peek (Nat.le_refl (i + 1)) fun x h => J.pushLast h
  | roll =>
    apply J.onMain
    exact J.popIndex fun i => J.remove (Nat.le_refl (i + 1)) fun x h => J.pushLast h
  | rot1 =>
    apply J.onMain
    exact J.require <| J.remove (by decide) fun x h => J.pushLast h
  | swap1 =>
    apply J.onMain
    exact J.require <| J.remove (by decide) fun x h => J.pushLast h
  | tuck =>
    apply J.onMain
    exact J.require <| J.pop (by decide) fun x₂ h₂ => J.pop (by decide) fun x₁ h₁ =>
      J.push h₂ <| J.push h₁ <| J.pushLast h₂

theorem flowOp (o : FlowOp) (hverify : o = .verify → J.allowed (.scriptInvalid .verify))
    (hgiveUp : o = .giveUp → J.allowed (.scriptInvalid .returned)) :
    J.one .untouched o.run o.run := by
  cases o with
  | nop => exact J.pure ()
  | verify => exact J.pop trivial fun x _ => J.ite (J.pure ()) (J.reject (hverify rfl))
  | giveUp => exact J.reject (hgiveUp rfl)

theorem pushSize : J.one .untouched pushSize pushSize :=
  J.peek trivial fun x h => J.pushLast (J.item_of_le (Number.length_encode_natCast_le x.length) h)

theorem bitwiseOp (o : BitwiseOp)
    (hrejected : o = .equalVerify → ∀ a b, J.allowed (.scriptInvalid (.equalVerify a b))) :
    J.one .untouched o.run o.run := by
  refine J.require <| J.pop (by decide) fun b _ => J.pop (by decide) fun a _ => ?_
  cases o with
  | equal => exact J.pushBool (a == b)
  | equalVerify => exact J.ite (J.pure ()) (J.reject (hrejected rfl a b))

theorem signOp (o : SignOp) : J.one .untouched (o.run width) (o.run width') :=
  J.pop trivial fun x h => J.decode fun _ _ =>
    J.pushLast (J.item_of_le (Nat.le_of_eq (o.length_apply x)) h)

theorem unaryOp (o : UnaryOp) : J.one .untouched (o.run width) (o.run width') := by
  apply J.popNumber (by decide)
  intro n hn
  have hpow : 0 < 256 ^ min width 8 := Nat.pow_pos (by decide)
  cases o with
  | add1 => exact J.pushResult (by omega)
  | sub1 => exact J.pushResult (by omega)
  | not | notZero => exact J.pushBool _

theorem logicOp (o : LogicOp) : J.one .untouched o.run o.run :=
  J.require <| J.pop (by decide) fun _ _ => J.pop (by decide) fun _ _ => J.pushBool _

theorem binaryOp (o : BinaryOp)
    (hrejected : o = .equalVerify → ∀ a b, J.allowed (.scriptInvalid (.numEqualVerify a b))) :
    J.one .untouched (o.run width) (o.run width') := by
  refine J.require <| J.popNumber (by decide) fun b hb => J.popNumber (by decide) fun a ha => ?_
  have hword := pow_le_word width
  cases o with
  | add | sub => exact J.pushResult (by omega)
  | equalVerify => exact J.ite (J.pure ()) (J.reject (hrejected rfl a b))
  | min | max => exact J.pushNumber (by omega)
  | equal | notEqual | less | greater | lessOrEqual | greaterOrEqual => exact J.pushBool _

theorem within : J.one .untouched (within width) (within width') :=
  J.require <| J.popNumber (by decide) fun _ _ => J.popNumber (by decide) fun _ _ =>
    J.popNumber (by decide) fun _ _ => J.pushBool _

theorem arithmeticOp (o : ArithmeticOp)
    (hrejected : o = .binary .equalVerify →
      ∀ a b, J.allowed (.scriptInvalid (.numEqualVerify a b))) :
    J.one .untouched (o.run width) (o.run width') := by
  cases o with
  | sign o => exact J.signOp o
  | unary o => exact J.unaryOp o
  | logic o => exact J.logicOp o
  | binary o => exact J.binaryOp o fun ho => hrejected (congrArg ArithmeticOp.binary ho)
  | within => exact J.within

theorem hashTop {size : Nat} (digest : Bytes → Digest size) (h : size ≤ 32) :
    J.one .untouched (hashTop digest) (hashTop digest) := by
  apply J.pop (by decide)
  intro x _
  apply J.pushLast
  apply J.item_of_narrow
  rw [(digest x).length_bytes]
  exact h

theorem cryptoOp (o : CryptoOp) : J.one .untouched o.run o.run := by
  cases o with
  | separator => exact J.pure ()
  | ripemd160 | sha1 | hash160 => exact J.hashTop _ (by decide)
  | sha256 | hash256 => exact J.hashTop _ (by decide)

end Judgement

namespace Operation

variable {op : UInt8}

theorem FlowOp.code_of_verify (ho : FlowOp.ofByte? op = some .verify) : op = 0x69 := by
  unfold FlowOp.ofByte? at ho
  split at ho
  · cases ho
  split at ho
  · assumption
  split at ho <;> cases ho

theorem FlowOp.code_of_giveUp (ho : FlowOp.ofByte? op = some .giveUp) : op = 0x6a := by
  unfold FlowOp.ofByte? at ho
  split at ho
  · cases ho
  split at ho
  · cases ho
  split at ho
  · assumption
  · cases ho

theorem StackOp.code_of_depth (ho : StackOp.ofByte? op = some .depth) : op = 0x74 := by
  unfold StackOp.ofByte? at ho
  split at ho <;> cases ho
  rfl

theorem BitwiseOp.code_of_equalVerify (ho : BitwiseOp.ofByte? op = some .equalVerify) :
    op = 0x88 := by
  unfold BitwiseOp.ofByte? at ho
  split at ho <;> cases ho
  rfl

theorem ArithmeticOp.code_of_equalVerify
    (ho : ArithmeticOp.ofByte? op = some (.binary .equalVerify)) : op = 0x9d := by
  unfold ArithmeticOp.ofByte? at ho
  split at ho <;> cases ho
  rfl

theorem length_smallItem_le {item : Bytes} (h : smallItem? op = some item) : item.length ≤ 1 := by
  unfold smallItem? at h
  split at h
  · cases h
    exact Nat.zero_le 1
  split at h
  · cases h
    exact Nat.le_refl 1
  split at h
  · cases h
    exact Nat.le_refl 1
  · cases h

end Operation

end Script

/-- Whether a failure is about what the stacks hold: operands that are missing or unfit, or no room
for a result. -/
def Failure.isOperandFailure : Failure → Bool
  | .stackUnderflow => true
  | .stackOverflow _ => true
  | .invalidStackIndex _ => true
  | .numberTooLong _ _ => true
  | .arithmeticOverflow => true
  | _ => false

def Rejection.opcode : Rejection → UInt8
  | .verify => 0x69
  | .returned => 0x6a
  | .equalVerify _ _ => 0x88
  | .numEqualVerify _ _ => 0x9d

namespace Script

/-- What can go wrong in an instruction: its push is cut off or too wide, the stacks do not hold
what it needs, it rejects, or its opcode does not run at all. -/
inductive Fault (limits : ScriptLimits) (op : UInt8) (rest : Bytes) : Failure → Prop where
  | cut {e : Failure} (h : Push.read? op rest = .error e) : Fault limits op rest e
  | wide {p : Push} (h : Push.read? op rest = .ok (some p))
      (hw : limits.elementSize < p.data.length) :
      Fault limits op rest (.limitExceeded (.element p.data.length limits.elementSize))
  | operand {e : Failure} (h : e.isOperandFailure = true) : Fault limits op rest e
  | rejected (c : Rejection) (h : c.opcode = op) : Fault limits op rest (.scriptInvalid c)
  | unrecognized {c : Category} (h : Opcode.category op = c) :
      Fault limits op rest (.unrecognizedOpcode op c)
  | notImplemented (h : Opcode.category op = .unimplemented) :
      Fault limits op rest (.notImplemented op)
  | disabled (h : Opcode.category op = .disabled) : Fault limits op rest (.disabledOpcode op)

/-- Nothing but missing bytes can be wrong with a push. -/
theorem Push.isTruncated_of_read {op : UInt8} {rest : Bytes} {e : Failure}
    (h : read? op rest = .error e) : e.isTruncated = true := by
  have hdata {width length : Nat} (h : some <$> readData op rest width length = .error e) :
      e.isTruncated = true := by
    unfold readData at h
    simp only at h
    split at h
    · cases h
      rfl
    · cases h
  unfold read? at h
  split at h
  · exact hdata h
  split at h
  · cases h
  · simp only at h
    split at h
    · cases h
      rfl
    · exact hdata h

/-- A judgement that goes for data that is pushed too, under two limits of its size. -/
structure Judgement.Pushes {width width' : Nat} (J : Judgement width width') (size size' : Nat) :
    Prop where
  le : size ≤ size'
  item_of_le {x : Bytes} : x.length ≤ size → J.item x
  overlong {p : Push} : size < p.data.length →
    J.allowed (.limitExceeded (.element p.data.length size)) →
      J.one .untouched (throw (.limitExceeded (.element p.data.length size)) : StackM Nat)
        (if size' < p.data.length then throw (.limitExceeded (.element p.data.length size'))
        else Stack.push p.data >>= fun _ => Pure.pure p.size)

namespace Judgement

open Operation

variable {width width' : Nat} (J : Judgement width width') {op : UInt8}

theorem result {α β : Type} {r : Except Failure β} {f g : β → StackM α}
    (he : ∀ e, r = .error e → J.allowed e)
    (hf : ∀ b, r = .ok b → J.one .untouched (f b) (g b)) :
    J.one .untouched (MonadExcept.ofExcept r >>= f) (MonadExcept.ofExcept r >>= g) := by
  cases r with
  | ok b => exact hf b rfl
  | error e => exact J.refuse (he e rfl)

theorem runConstant {rest : Bytes} {size size' : Nat} (hpushes : J.Pushes size size')
    (hcut : ∀ e, Push.read? op rest = .error e → J.allowed e)
    (hwide : ∀ p, Push.read? op rest = .ok (some p) → size < p.data.length →
      J.allowed (.limitExceeded (.element p.data.length size)))
    (hunrecognized : Push.read? op rest = .ok none → smallItem? op = none →
      J.allowed (.unrecognizedOpcode op .constant)) :
    J.one .untouched (runConstant op rest size) (runConstant op rest size') := by
  apply J.result hcut
  intro found hread
  cases found with
  | none =>
    cases hitem : smallItem? op with
    | none => exact J.refuse (hunrecognized hread hitem)
    | some x =>
      have hnarrow := J.item_of_narrow (Nat.le_trans (length_smallItem_le hitem) (by decide))
      exact J.push hnarrow (J.pure 0)
  | some p =>
    simp only
    by_cases hlong : size < p.data.length
    case pos =>
      rw [if_pos hlong]
      exact hpushes.overlong hlong (hwide p hread hlong)
    case neg =>
      have hlong' : ¬ size' < p.data.length :=
        fun h => hlong (Nat.lt_of_le_of_lt hpushes.le h)
      rw [if_neg hlong, if_neg hlong']
      exact J.push (hpushes.item_of_le (Nat.not_lt.mp hlong)) (J.pure p.size)

theorem runFlow (hrejected : ∀ c : Rejection, c.opcode = op → J.allowed (.scriptInvalid c))
    (hunrecognized : J.allowed (.unrecognizedOpcode op .flow)) :
    J.one .untouched (runFlow op) (runFlow op) := by
  unfold Operation.runFlow
  cases ho : FlowOp.ofByte? op with
  | none => exact J.refuse hunrecognized
  | some o =>
    refine J.flowOp o ?_ ?_
    · rintro rfl
      exact hrejected .verify (FlowOp.code_of_verify ho).symm
    · rintro rfl
      exact hrejected .returned (FlowOp.code_of_giveUp ho).symm

theorem runStack (hdepth : op = 0x74 → J.one .untouched depth depth)
    (hunrecognized : J.allowed (.unrecognizedOpcode op .stack)) :
    J.both (runStack op width) (runStack op width') := by
  unfold Operation.runStack
  cases ho : StackOp.ofByte? op with
  | none => exact J.refuseBoth hunrecognized
  | some o =>
    apply J.stackOp o
    rintro rfl
    exact hdepth (StackOp.code_of_depth ho)

theorem runSplice (hunrecognized : J.allowed (.unrecognizedOpcode op .splice)) :
    J.one .untouched (runSplice op) (runSplice op) :=
  J.ite J.pushSize (J.refuse hunrecognized)

theorem runBitwise (hrejected : ∀ c : Rejection, c.opcode = op → J.allowed (.scriptInvalid c))
    (hunrecognized : J.allowed (.unrecognizedOpcode op .bitwise)) :
    J.one .untouched (runBitwise op) (runBitwise op) := by
  unfold Operation.runBitwise
  cases ho : BitwiseOp.ofByte? op with
  | none => exact J.refuse hunrecognized
  | some o =>
    apply J.bitwiseOp o
    rintro rfl a b
    exact hrejected (.equalVerify a b) (BitwiseOp.code_of_equalVerify ho).symm

theorem runArithmetic (hrejected : ∀ c : Rejection, c.opcode = op → J.allowed (.scriptInvalid c))
    (hunrecognized : J.allowed (.unrecognizedOpcode op .arithmetic)) :
    J.one .untouched (runArithmetic op width) (runArithmetic op width') := by
  unfold Operation.runArithmetic
  cases ho : ArithmeticOp.ofByte? op with
  | none => exact J.refuse hunrecognized
  | some o =>
    apply J.arithmeticOp o
    rintro rfl a b
    exact hrejected (.numEqualVerify a b) (ArithmeticOp.code_of_equalVerify ho).symm

theorem runCrypto (hunrecognized : J.allowed (.unrecognizedOpcode op .crypto)) :
    J.one .untouched (runCrypto op) (runCrypto op) := by
  unfold Operation.runCrypto
  cases CryptoOp.ofByte? op with
  | none => exact J.refuse hunrecognized
  | some o => exact J.cryptoOp o

/-- What can be said of the steps of operations can be said of instructions, if it goes for the
data that they push, for the depth of the stack and for the ways that they refuse to run. -/
theorem runInstruction {limits limits' : ScriptLimits}
    (J : Judgement limits.numberWidth limits'.numberWidth) {rest : Bytes}
    (hpushes : J.Pushes limits.elementSize limits'.elementSize)
    (hdepth : op = 0x74 → J.one .untouched depth depth)
    (hallowed : ∀ e, Fault limits op rest e → e.isOperandFailure = false → J.allowed e) :
    J.both (runInstruction limits op rest) (runInstruction limits' op rest) := by
  have hrejected (c : Rejection) (h : c.opcode = op) : J.allowed (.scriptInvalid c) :=
    hallowed _ (.rejected c h) rfl
  have hunrecognized {c : Category} (h : Opcode.category op = c) :
      J.allowed (.unrecognizedOpcode op c) :=
    hallowed _ (.unrecognized h) rfl
  unfold Script.runInstruction
  cases hc : Opcode.category op with
  | constant =>
    apply J.onMain
    apply J.runConstant hpushes
    case hcut =>
      intro e h
      have hcut := Push.isTruncated_of_read h
      apply hallowed e (.cut h)
      cases e <;> first | rfl | cases hcut
    case hwide =>
      intro p h hwide
      exact hallowed _ (.wide h hwide) rfl
    case hunrecognized =>
      intro _ _
      exact hunrecognized hc
  | flow => exact J.answer 0 (J.onMain (J.runFlow hrejected (hunrecognized hc)))
  | stack => exact J.answer 0 (J.runStack hdepth (hunrecognized hc))
  | splice => exact J.answer 0 (J.onMain (J.runSplice (hunrecognized hc)))
  | bitwise => exact J.answer 0 (J.onMain (J.runBitwise hrejected (hunrecognized hc)))
  | arithmetic => exact J.answer 0 (J.onMain (J.runArithmetic hrejected (hunrecognized hc)))
  | crypto => exact J.answer 0 (J.onMain (J.runCrypto (hunrecognized hc)))
  | unimplemented => exact J.refuseBoth (hallowed _ (.notImplemented hc) rfl)
  | disabled => exact J.refuseBoth (hallowed _ (.disabled hc) rfl)
  | reserved | unassigned => exact J.refuseBoth (hunrecognized hc)

end Judgement

end Script
end ScriptLedger
