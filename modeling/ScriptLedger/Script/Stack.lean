import ScriptLedger.Script.Number
import ScriptLedger.Stateful

namespace ScriptLedger.Script

/-- A stack of byte strings, top first, that holds at most `capacity` items. -/
structure Stack where
  items : List Bytes
  capacity : Nat
  deriving DecidableEq, Repr

/-- A computation on one stack; what it did before a failure stays done. -/
abbrev StackM := Stateful Stack

namespace Stack

def defaultCapacity : Nat := 1000

def empty (capacity : Nat) : Stack :=
  ⟨[], capacity⟩

def size (s : Stack) : Nat :=
  s.items.length

def isEmpty (s : Stack) : Bool :=
  s.items.isEmpty

/-- The items from bottom to top. -/
def toList (s : Stack) : List Bytes :=
  s.items.reverse

/-- The stack without its items. -/
def cleared (s : Stack) : Stack :=
  { s with items := [] }

def push (item : Bytes) : StackM Unit := fun s =>
  if s.size < s.capacity then .ok () { s with items := item :: s.items }
  else .error (.stackOverflow s.capacity) s

def pushByte (b : UInt8) : StackM Unit :=
  push [b]

/-- True is the byte one and false the byte zero. -/
def pushBool (b : Bool) : StackM Unit :=
  pushByte (if b then 1 else 0)

def pop : StackM Bytes := fun s =>
  match s.items with
  | [] => .error .stackUnderflow s
  | item :: rest => .ok item { s with items := rest }

/-- The item `depth` places below the top. -/
def peek (depth : Nat) : StackM Bytes := fun s =>
  match s.items[depth]? with
  | none => .error .stackUnderflow s
  | some item => .ok item s

def top : StackM Bytes :=
  peek 0

/-- Takes out the item `depth` places below the top. -/
def remove (depth : Nat) : StackM Bytes := fun s =>
  match s.items[depth]? with
  | none => .error .stackUnderflow s
  | some item => .ok item { s with items := s.items.eraseIdx depth }

/-- Fails unless at least `n` items are present. -/
def require (n : Nat) : StackM Unit := fun s =>
  if n ≤ s.size then .ok () s else .error .stackUnderflow s

def clear : StackM Unit := fun s =>
  .ok () s.cleared

/-- Pushes the items in order. -/
def pushAll : List Bytes → StackM Unit
  | [] => pure ()
  | item :: rest => do
    push item
    pushAll rest

/-- Pushes one item `n` times. -/
def fill (item : Bytes) (n : Nat) : StackM Unit :=
  pushAll (List.replicate n item)

/-- Builds a stack of the given capacity from its items, bottom first. -/
def ofList (capacity : Nat) (items : List Bytes) : Except Failure Stack :=
  match pushAll items (empty capacity) with
  | .ok _ s => .ok s
  | .error e _ => .error e

/-- Whether there is a top item and it is true. -/
def topIsTrue (s : Stack) : Bool :=
  s.items.head?.any Number.truth

/-- One line for each item from bottom to top, numbered from zero. -/
def display (s : Stack) : String :=
  "".intercalate (s.toList.zipIdx.map fun (item, i) =>
    Text.rightAligned 3 i ++ ") " ++ Hex.encode item ++ "\n")

theorem push_of_room {s : Stack} (h : s.size < s.capacity) (item : Bytes) :
    push item s = .ok () ⟨item :: s.items, s.capacity⟩ := by
  rw [push, if_pos h]

theorem push_of_full {s : Stack} (h : s.capacity ≤ s.size) (item : Bytes) :
    push item s = .error (.stackOverflow s.capacity) s := by
  rw [push, if_neg (by omega)]

theorem pop_cons (item : Bytes) (rest : List Bytes) (capacity : Nat) :
    pop ⟨item :: rest, capacity⟩ = .ok item ⟨rest, capacity⟩ := rfl

theorem pop_nil (capacity : Nat) : pop ⟨[], capacity⟩ = .error .stackUnderflow ⟨[], capacity⟩ := rfl

theorem peek_of_some {s : Stack} {depth : Nat} {item : Bytes} (h : s.items[depth]? = some item) :
    peek depth s = .ok item s := by
  simp only [peek, h]

theorem peek_of_none {s : Stack} {depth : Nat} (h : s.items[depth]? = none) :
    peek depth s = .error .stackUnderflow s := by
  simp only [peek, h]

theorem remove_of_some {s : Stack} {depth : Nat} {item : Bytes} (h : s.items[depth]? = some item) :
    remove depth s = .ok item ⟨s.items.eraseIdx depth, s.capacity⟩ := by
  simp only [remove, h]

theorem remove_of_none {s : Stack} {depth : Nat} (h : s.items[depth]? = none) :
    remove depth s = .error .stackUnderflow s := by
  simp only [remove, h]

theorem require_of_le {s : Stack} {n : Nat} (h : n ≤ s.size) : require n s = .ok () s := by
  rw [require, if_pos h]

theorem require_of_lt {s : Stack} {n : Nat} (h : s.size < n) :
    require n s = .error .stackUnderflow s := by
  rw [require, if_neg (by omega)]

end Stack

end ScriptLedger.Script
