import ScriptLedger.Wire.Format

namespace ScriptLedger.Wire

open Stateful

namespace Writer

variable {chunk held : Bytes} {room : Nat}

theorem put_unbounded : put chunk ⟨held, none⟩ = .ok () ⟨chunk.reverse ++ held, none⟩ := rfl

theorem put_of_le (h : chunk.length ≤ room) :
    put chunk ⟨held, some room⟩ = .ok () ⟨chunk.reverse ++ held, some (room - chunk.length)⟩ :=
  if_pos h

theorem put_of_lt (h : room < chunk.length) :
    put chunk ⟨held, some room⟩ =
      .error (.io "failed to write whole buffer") ⟨(chunk.take room).reverse ++ held, some 0⟩ :=
  if_neg (Nat.not_le.mpr h)

theorem put_nil : put [] = pure () := by
  funext ⟨held, room⟩
  cases room with
  | none => rfl
  | some room => exact put_of_le (Nat.zero_le room)

/-- Two chunks are taken as one is, wherever the room ends. -/
theorem put_append (bs cs : Bytes) : (put bs >>= fun _ => put cs) = put (bs ++ cs) := by
  funext ⟨held, room⟩
  -- The room may end in the first chunk, in the second, or behind both.
  cases room with
  | none =>
    rw [bind_ok put_unbounded, put_unbounded, put_unbounded, List.reverse_append, List.append_assoc]
  | some room =>
    by_cases hb : bs.length ≤ room
    case neg =>
      rw [Nat.not_le] at hb
      have hlt : room < (bs ++ cs).length := by
        rw [List.length_append]
        omega
      rw [bind_error (put_of_lt hb), put_of_lt hlt, List.take_append_of_le_length (Nat.le_of_lt hb)]
    case pos =>
      rw [bind_ok (put_of_le hb)]
      by_cases hc : cs.length ≤ room - bs.length
      case pos =>
        have hle : (bs ++ cs).length ≤ room := by
          rw [List.length_append]
          omega
        rw [put_of_le hc, put_of_le hle, List.reverse_append, List.append_assoc,
          List.length_append, Nat.sub_sub]
      case neg =>
        rw [Nat.not_le] at hc
        have hlt : room < (bs ++ cs).length := by
          rw [List.length_append]
          omega
        rw [put_of_lt hc, put_of_lt hlt, List.take_append, List.take_of_length_le hb,
          List.reverse_append, List.append_assoc]

end Writer

variable {α β : Type} {bs cs : Bytes} {a a' : α} {b : β} {x : Writer α}

/-- A writer that puts some bytes, however many chunks it makes of them, and answers a value. -/
def Writes (x : Writer α) (bs : Bytes) (a : α) : Prop :=
  x = do
    Writer.put bs
    return a

namespace Writes

theorem pure (a : α) : Writes (pure a) [] a := by
  rw [Writes, Writer.put_nil]
  rfl

theorem put (bs : Bytes) : Writes (Writer.put bs) bs () :=
  bind_pure_unit.symm

theorem chunk (bs : Bytes) (a : α) :
    Writes (do
      Writer.put bs
      return a) bs a := rfl

theorem bind {f : α → Writer β} (hx : Writes x bs a) (hf : Writes (f a) cs b) :
    Writes (x >>= f) (bs ++ cs) b := by
  unfold Writes at hx hf ⊢
  rw [hx, bind_assoc]
  simp only [pure_bind]
  rw [hf, ← bind_assoc, Writer.put_append]

theorem of_eq (h : Writes x bs a) (hb : bs = cs) (ha : a = a') : Writes x cs a' := by
  rw [← hb, ← ha]
  exact h

theorem map (f : α → β) (h : Writes x bs a) :
    Writes (x >>= fun a => Pure.pure (f a)) bs (f a) :=
  (h.bind (pure (f a))).of_eq (List.append_nil bs) rfl

theorem unbounded (h : Writes x bs a) :
    outcome x (.empty none) = .ok a ∧ (after x (.empty none)).contents = bs := by
  have hwrite : x (.empty none) = .ok a ⟨bs.reverse, none⟩ := by
    rw [h, Sink.empty, bind_ok Writer.put_unbounded, List.append_nil]
    rfl
  rw [outcome, after, hwrite]
  exact ⟨rfl, List.reverse_reverse bs⟩

theorem of_room {room : Nat} (h : Writes x bs a) (hroom : bs.length ≤ room) :
    outcome x (.empty (some room)) = .ok a ∧ (after x (.empty (some room))).contents = bs := by
  have hwrite : x (.empty (some room)) = .ok a ⟨bs.reverse, some (room - bs.length)⟩ := by
    rw [h, Sink.empty, bind_ok (Writer.put_of_le hroom), List.append_nil]
    rfl
  rw [outcome, after, hwrite]
  exact ⟨rfl, List.reverse_reverse bs⟩

theorem of_full {room : Nat} (h : Writes x bs a) (hroom : room < bs.length) :
    outcome x (.empty (some room)) = .error (.io "failed to write whole buffer") ∧
      (after x (.empty (some room))).contents = bs.take room := by
  have hwrite : x (.empty (some room)) =
      .error (.io "failed to write whole buffer") ⟨(bs.take room).reverse, some 0⟩ := by
    rw [h, Sink.empty, bind_error (Writer.put_of_lt hroom), List.append_nil]
  rw [outcome, after, hwrite]
  exact ⟨rfl, List.reverse_reverse _⟩

/-- An answer is that of the writer, and then all is written. -/
theorem of_ok {room : Option Nat} (h : Writes x bs a) (hok : outcome x (.empty room) = .ok a') :
    a' = a ∧ (after x (.empty room)).contents = bs := by
  cases room with
  | none =>
    obtain ⟨houtcome, hcontents⟩ := h.unbounded
    exact ⟨Except.ok.inj (hok.symm.trans houtcome), hcontents⟩
  | some room =>
    by_cases hroom : bs.length ≤ room
    case pos =>
      obtain ⟨houtcome, hcontents⟩ := h.of_room hroom
      exact ⟨Except.ok.inj (hok.symm.trans houtcome), hcontents⟩
    case neg =>
      obtain ⟨houtcome, _⟩ := h.of_full (Nat.not_le.mp hroom)
      cases hok.symm.trans houtcome

end Writes

theorem CompactSize.writes_encode (n : Nat) : Writes (write n) (encode n) (size n) := by
  have hmarked (mark : UInt8) (width : Nat) :
      Writes (do
        Writer.put [mark]
        Writer.put (LittleEndian.encode width n)
        return size n) (mark :: LittleEndian.encode width n) (size n) :=
    (Writes.put [mark]).bind (.chunk _ _)
  unfold write encode
  split
  · exact .chunk _ _
  split
  · exact hmarked mark16 2
  split
  · exact hmarked mark32 4
  · exact hmarked mark64 8

theorem VarBytes.writes_encode (bs : Bytes) : Writes (write bs) (encode bs) (encode bs).length := by
  apply ((CompactSize.writes_encode _).bind (.chunk bs _)).of_eq
  · rfl
  · rw [encode, List.length_append, CompactSize.length_encode]

/-- What a type writes piece by piece is its binary form, and the count of it is right. -/
def WritesEncoding [Format α] (a : α) : Prop :=
  Writes (Format.write a) (Format.encode a) (Format.encode a).length

namespace WritesEncoding

theorem word32 (n : UInt32) : WritesEncoding n :=
  (Writes.chunk _ 4).of_eq rfl (LittleEndian.length_encode 4 _).symm

theorem word64 (n : UInt64) : WritesEncoding n :=
  (Writes.chunk _ 8).of_eq rfl (LittleEndian.length_encode 8 _).symm

theorem digest {size : Nat} (d : Digest size) : WritesEncoding d :=
  (Writes.chunk _ size).of_eq rfl d.length_bytes.symm

theorem items [Format α] {xs : List α} (h : ∀ a ∈ xs, WritesEncoding a) (written : Nat) :
    Writes (writeOnto written xs) (xs.flatMap Format.encode)
      (written + (xs.flatMap Format.encode).length) := by
  induction xs generalizing written with
  | nil => exact .pure written
  | cons a rest ih =>
    obtain ⟨ha, hrest⟩ := List.forall_mem_cons.mp h
    apply (Writes.bind ha (ih hrest _)).of_eq
    · rfl
    · rw [List.flatMap_cons, List.length_append, Nat.add_assoc]

theorem list [Format α] {xs : List α} (h : ∀ a ∈ xs, WritesEncoding a) : WritesEncoding xs := by
  apply ((CompactSize.writes_encode _).bind (items h _)).of_eq
  · rfl
  · rw [← CompactSize.length_encode, ← List.length_append]
    rfl

end WritesEncoding

end ScriptLedger.Wire
