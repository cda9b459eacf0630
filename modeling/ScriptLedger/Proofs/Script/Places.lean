import ScriptLedger.Proofs.Guarded
import ScriptLedger.Proofs.Script.Stack
import ScriptLedger.Proofs.Script.Step

namespace ScriptLedger.Script

open Guarded

variable {σ α : Type} {limits : ScriptLimits} {op : UInt8} {rest script : Bytes} {width place : Nat}

namespace Stack

variable {s : Stack} {lower upper : List Bytes} {item : Bytes} {depth : Nat}

/-- The place, from the bottom, of the item `depth` places below the top. -/
def placeOf (depth : Nat) : Guarded Stack Nat := do
  let size := (← get).size
  if size ≤ depth then throw (.failure .stackUnderflow)
  else
    let last ← need (size.psub 1)
    need (last.psub depth)

def peekAt (depth : Nat) : Guarded Stack Bytes := do
  let place ← placeOf depth
  need (← get).toList[place]?

def removeAt (depth : Nat) : Guarded Stack Bytes := do
  let place ← placeOf depth
  let items := (← get).toList
  let item ← need items[place]?
  set ((← get).withItems (items.eraseIdx place))
  return item

theorem placeOf_of_le (h : s.size ≤ depth) :
    placeOf depth s = .error (.failure .stackUnderflow) s :=
  (get_bind _ s).trans (congrFun (if_pos h) s)

/-- Neither subtraction goes below zero. -/
theorem placeOf_of_split (h : s.toList = lower ++ item :: upper) :
    placeOf upper.length s = .ok lower.length s := by
  have hsize : s.size = lower.length + (upper.length + 1) := by
    rw [← length_toList, h, List.length_append, List.length_cons]
  have hlast : s.size.psub 1 = some (lower.length + upper.length) :=
    Nat.psub_eq_some.mpr hsize.symm
  have hplace : (lower.length + upper.length).psub upper.length = some lower.length :=
    Nat.psub_eq_some.mpr rfl
  have hdepth : ¬ s.size ≤ upper.length := by omega
  rw [placeOf, get_bind, if_neg hdepth, need_bind hlast, hplace]
  rfl

theorem peekAt_eq (depth : Nat) : peekAt depth = total (peek depth) := by
  funext s
  obtain hlt | hle := Nat.lt_or_ge depth s.toList.length
  case inl =>
    obtain ⟨lower, item, upper, hsplit, rfl⟩ := Operation.exists_split_below hlt
    obtain ⟨hitem, -⟩ := items_at_split hsplit
    rw [total_ok (peek_of_some hitem), peekAt, bind_ok (placeOf_of_split hsplit),
      get_bind, hsplit, Operation.getElem?_between]
    rfl
  case inr =>
    rw [length_toList] at hle
    rw [total_error (peek_of_none (List.getElem?_eq_none hle)), peekAt,
      bind_error (placeOf_of_le hle)]

theorem removeAt_eq (depth : Nat) : removeAt depth = total (remove depth) := by
  funext s
  obtain hlt | hle := Nat.lt_or_ge depth s.toList.length
  case inl =>
    obtain ⟨lower, item, upper, hsplit, rfl⟩ := Operation.exists_split_below hlt
    obtain ⟨hitem, hrest⟩ := items_at_split hsplit
    rw [total_ok (remove_of_some hitem), hrest, removeAt, bind_ok (placeOf_of_split hsplit),
      get_bind, hsplit, Operation.getElem?_between, Operation.eraseIdx_between]
    rfl
  case inr =>
    rw [length_toList] at hle
    rw [total_error (remove_of_none (List.getElem?_eq_none hle)), removeAt,
      bind_error (placeOf_of_le hle)]

end Stack

def onMainAt (x : Guarded Stack α) : Guarded Stacks α := fun s =>
  match x s.main with
  | .ok a t => .ok a { s with main := t }
  | .error stop t => .error stop { s with main := t }

theorem onMainAt_total (x : StackM α) : onMainAt (total x) = total (onMain x) := by
  funext s
  cases h : x s.main with
  | ok a t => rw [onMainAt, total_ok h, total_ok (onMain_ok h)]
  | error e t => rw [onMainAt, total_error h, total_error (onMain_error h)]

namespace Operation

open Stack

/-- The operations on items that are named by their depth, by the places of these. -/
def StackOp.runAt (width : Nat) : StackOp → Guarded Stacks Unit
  | .dup2 => onMainAt do
    total (require 2)
    let x₁ ← peekAt 1
    let x₂ ← peekAt 0
    total (push x₁)
    total (push x₂)
  | .dup3 => onMainAt do
    total (require 3)
    let x₁ ← peekAt 2
    let x₂ ← peekAt 1
    let x₃ ← peekAt 0
    total (push x₁)
    total (push x₂)
    total (push x₃)
  | .over2 => onMainAt do
    total (require 4)
    let x₁ ← peekAt 3
    let x₂ ← peekAt 2
    total (push x₁)
    total (push x₂)
  | .rot2 => onMainAt do
    total (require 6)
    let x₁ ← removeAt 5
    let x₂ ← removeAt 4
    total (push x₁)
    total (push x₂)
  | .swap2 => onMainAt do
    total (require 4)
    let x₁ ← removeAt 3
    let x₂ ← removeAt 2
    total (push x₁)
    total (push x₂)
  | .nip => onMainAt do
    let _ ← removeAt 1
  | .pick => onMainAt do
    let n ← total (popIndex width)
    total (push (← peekAt n))
  | .roll => onMainAt do
    let n ← total (popIndex width)
    total (push (← removeAt n))
  | .rot1 => onMainAt do
    total (require 3)
    total (push (← removeAt 2))
  | .swap1 => onMainAt do
    total (require 2)
    total (push (← removeAt 1))
  | .toAlt => total moveToAlt
  | .fromAlt => total moveFromAlt
  | .drop2 => total (onMain Operation.drop2)
  | .ifDup => total (onMain Operation.ifDup)
  | .depth => total (onMain Operation.depth)
  | .drop1 => total (onMain Operation.drop1)
  | .dup1 => total (onMain Operation.dup1)
  | .over1 => total (onMain Operation.over1)
  | .tuck => total (onMain Operation.tuck)

theorem StackOp.runAt_eq (width : Nat) (o : StackOp) : o.runAt width = total (o.run width) := by
  have hmain {x : Guarded Stack Unit} {y : StackM Unit} (h : x = total y) :
      onMainAt x = total (onMain y) := by
    rw [h, onMainAt_total]
  cases o with
  | dup2 => exact hmain (by simp only [Operation.dup2, total_bind, peekAt_eq])
  | dup3 => exact hmain (by simp only [Operation.dup3, total_bind, peekAt_eq])
  | over2 => exact hmain (by simp only [Operation.over2, total_bind, peekAt_eq])
  | rot2 => exact hmain (by simp only [Operation.rot2, total_bind, removeAt_eq])
  | swap2 => exact hmain (by simp only [Operation.swap2, total_bind, removeAt_eq])
  | nip => exact hmain (by simp only [Operation.nip, total_bind, total_pure, removeAt_eq])
  | pick => exact hmain (by simp only [Operation.pick, total_bind, peekAt_eq])
  | roll => exact hmain (by simp only [Operation.roll, total_bind, removeAt_eq])
  | rot1 => exact hmain (by simp only [Operation.rot1, total_bind, removeAt_eq])
  | swap1 => exact hmain (by simp only [Operation.swap1, total_bind, removeAt_eq])
  | toAlt | fromAlt | drop2 | ifDup | depth | drop1 | dup1 | over1 | tuck => rfl

def runStackAt (op : UInt8) (width : Nat) : Guarded Stacks Unit :=
  match StackOp.ofByte? op with
  | some o => o.runAt width
  | none => throw (.failure (.unrecognizedOpcode op .stack))

theorem runStackAt_eq (op : UInt8) (width : Nat) : runStackAt op width = total (runStack op width) := by
  unfold runStackAt runStack
  cases StackOp.ofByte? op with
  | some o => exact o.runAt_eq width
  | none => rfl

end Operation

namespace Push

variable {p : Push}

/-- The width of the length field of a push and the length of its data. -/
def extent (p : Push) : Nat × Nat :=
  (p.lengthWidth, p.data.length)

/-- `readData` without the data: there must be room for it behind the length field. -/
def extentWithin (op : UInt8) (rest : Bytes) (width length : Nat) :
    Guarded σ (Option (Nat × Nat)) := do
  let room ← need (rest.length.psub width)
  if room < length then throw (.failure (.truncated (.pushData op length room)))
  else return some (width, length)

def extentAt (op : UInt8) (rest : Bytes) : Guarded σ (Option (Nat × Nat)) :=
  if Opcode.isDirectPush op then extentWithin op rest 0 op.toNat
  else match lengthWidth? op with
    | none => return none
    | some width =>
      if rest.length < width then throw (.failure (.truncated (.pushLength width rest.length)))
      else extentWithin op rest width (LittleEndian.decode (rest.take width))

theorem extentWithin_eq {length : Nat} (h : width ≤ rest.length) :
    (extentWithin op rest width length : Guarded σ _) =
      total (MonadExcept.ofExcept
        (Option.map extent <$> (some <$> readData op rest width length))) := by
  have hroom : rest.length.psub width = some (rest.length - width) :=
    Nat.psub_eq_some.mpr (Nat.sub_add_cancel h)
  have hdata : ((rest.drop width).take length).length = min length (rest.length - width) := by
    rw [List.length_take, List.length_drop]
  rw [extentWithin, need_bind hroom, readData]
  by_cases hlength : rest.length - width < length
  · rw [if_pos hlength, hdata, if_pos (by omega)]
    rfl
  · rw [if_neg hlength, hdata, if_neg (by omega)]
    simp only [Functor.map, Except.map, Option.map, extent, hdata]
    rw [Nat.min_eq_left (Nat.not_lt.mp hlength)]
    rfl

theorem extentAt_eq (op : UInt8) (rest : Bytes) :
    (extentAt op rest : Guarded σ _) =
      total (MonadExcept.ofExcept (Option.map extent <$> read? op rest)) := by
  unfold extentAt read?
  split
  case isTrue => exact extentWithin_eq (Nat.zero_le _)
  case isFalse =>
    cases lengthWidth? op with
    | none => rfl
    | some width =>
      have hfield : (rest.take width).length < width ↔ rest.length < width := by
        rw [List.length_take]
        omega
      simp only [hfield]
      split
      case isTrue => rfl
      case isFalse h => exact extentWithin_eq (Nat.not_lt.mp h)

theorem Found.data_eq (h : Found op rest (some p)) :
    (rest.drop p.lengthWidth).take p.data.length = p.data := by
  have htake (bs : Bytes) (n : Nat) : bs.take (bs.take n).length = bs.take n := by
    rw [List.length_take, ← List.take_eq_take_min]
  cases h with
  | direct => exact htake rest op.toNat
  | sized => exact htake _ _

theorem Found.slice_eq (h : Found op rest (some p)) :
    rest.slice? p.lengthWidth (p.lengthWidth + p.data.length) = some p.data := by
  rw [Bytes.slice?_of_le h.size_le, h.data_eq]

end Push

namespace Operation

/-- `smallItem?` by the distance of the opcode from the number zero. -/
def smallItemAt (op : UInt8) : Guarded σ (Option Bytes) :=
  if op = 0x00 then return some []
  else if op = 0x4f then return some [0x81]
  else if 0x51 ≤ op ∧ op ≤ 0x60 then do
    let n ← need (op.toNat.psub 0x50)
    return some [UInt8.ofNat n]
  else return none

/-- `runConstant` on the script behind the opcode, of which it takes slices. -/
def runConstantAt (op : UInt8) (rest : Bytes) (elementSize : Nat) : Guarded Stack Nat := do
  match ← Push.extentAt op rest with
  | some (width, length) =>
    if elementSize < length then throw (.failure (.limitExceeded (.element length elementSize)))
    else
      let data ← need (rest.slice? width (width + length))
      total (Stack.push data)
      return width + length
  | none =>
    match ← smallItemAt op with
    | some item =>
      total (Stack.push item)
      return 0
    | none => throw (.failure (.unrecognizedOpcode op .constant))

theorem smallItemAt_eq (op : UInt8) : (smallItemAt op : Guarded σ _) = pure (smallItem? op) := by
  unfold smallItemAt smallItem?
  split
  case isTrue => rfl
  split
  case isTrue => rfl
  split
  case isFalse => rfl
  case isTrue h =>
    have hle : 0x50 ≤ op := UInt8.le_trans (by decide) h.1
    have hsub : op.toNat.psub 0x50 = some (op - 0x50).toNat := by
      rw [UInt8.toNat_sub_of_le _ _ hle]
      exact Nat.psub_eq_some.mpr (Nat.sub_add_cancel (UInt8.le_iff_toNat_le.mp hle))
    rw [need_bind hsub, UInt8.ofNat_toNat]

theorem runConstantAt_eq (op : UInt8) (rest : Bytes) (elementSize : Nat) :
    runConstantAt op rest elementSize = total (runConstant op rest elementSize) := by
  unfold runConstantAt runConstant
  rw [Push.extentAt_eq, smallItemAt_eq]
  cases h : Push.read? op rest with
  | error e => rfl
  | ok push =>
    cases push with
    | some p =>
      have hslice := (Push.found_of_read h).slice_eq
      change (if elementSize < p.data.length then _ else need _ >>= _) =
        total (if elementSize < p.data.length then _ else _)
      split
      · rfl
      · rw [need_bind hslice, total_bind]
        rfl
    | none =>
      cases smallItem? op with
      | some item => exact (total_bind (Stack.push item) fun _ => pure 0).symm
      | none => rfl

end Operation

namespace Opcode

/-- What the interpreter and the listing look up of a byte. -/
structure Row where
  category : Category
  shown : String
  deriving DecidableEq, Repr

def rows : List Row :=
  (List.range 256).map fun i => ⟨category (.ofNat i), display (.ofNat i)⟩

theorem rows_getElem? (op : UInt8) : rows[op.toNat]? = some ⟨category op, display op⟩ := by
  rw [rows, List.getElem?_map, List.getElem?_range op.toNat_lt, Option.map_some, UInt8.ofNat_toNat]

end Opcode

open Operation in
/-- `runInstruction` on what a script holds from a place on. -/
def runInstructionAt (limits : ScriptLimits) (op : UInt8) (category : Category) (script : Bytes)
    (place : Nat) : Guarded Stacks Nat :=
  match category with
  | .constant => do
    let rest ← need (script.from? place)
    onMainAt (runConstantAt op rest limits.elementSize)
  | .flow => total (onMain (runFlow op)) *> pure 0
  | .stack => runStackAt op limits.numberWidth *> pure 0
  | .splice => total (onMain (runSplice op)) *> pure 0
  | .bitwise => total (onMain (runBitwise op)) *> pure 0
  | .arithmetic => total (onMain (runArithmetic op limits.numberWidth)) *> pure 0
  | .crypto => total (onMain (runCrypto op)) *> pure 0
  | .unimplemented => throw (.failure (.notImplemented op))
  | .disabled => throw (.failure (.disabledOpcode op))
  | .reserved => throw (.failure (.unrecognizedOpcode op .reserved))
  | .unassigned => throw (.failure (.unrecognizedOpcode op .unassigned))

theorem runInstructionAt_eq (limits : ScriptLimits) (op : UInt8)
    (h : script.from? place = some rest) :
    runInstructionAt limits op (Opcode.category op) script place =
      total (runInstruction limits op rest) := by
  have hseq (x : StacksM Unit) : total x *> pure 0 = total (x *> pure 0) :=
    (total_bind x fun _ => pure 0).symm
  unfold runInstructionAt runInstruction
  cases Opcode.category op with
  | constant =>
    simp only
    rw [need_bind h, Operation.runConstantAt_eq, onMainAt_total]
  | stack =>
    simp only
    rw [Operation.runStackAt_eq, hseq]
  | flow | splice | bitwise | arithmetic | crypto => exact hseq _
  | unimplemented | disabled | reserved | unassigned => rfl

end ScriptLedger.Script
