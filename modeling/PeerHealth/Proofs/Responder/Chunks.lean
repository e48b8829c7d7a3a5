import PeerHealth.Proofs.Probe.Line
import PeerHealth.Responder.Node
import PeerHealth.Responder.Segments

/-! Chunks of what a peer sends to the line responder. Main statements: what is sent up to the first
newline, or as much of it as there is room for, is answered by one reply, and that reply is what the
peer is told first; and it does not matter in which segments the bytes arrive. -/

namespace PeerHealth.Responder

/-- Of the bytes at hand a line with room for `room` takes `front` and `b`, which is the newline or
the last one that there is room for. -/
structure Ends (room : Nat) (front : List UInt8) (b : UInt8) : Prop where
  first : newlineByte ∉ front
  within : front.length < room
  last : b = newlineByte ∨ front.length + 1 = room

/-- A line is ended by the bytes at hand, or it takes all of them and has room for more. -/
theorem ends_or_short {room : Nat} (hroom : 0 < room) (bytes : List UInt8) :
    (∃ front b more, bytes = front ++ b :: more ∧ Ends room front b) ∨
      newlineByte ∉ bytes ∧ bytes.length < room := by
  by_cases hmem : newlineByte ∈ bytes.take room
  · obtain ⟨front, rest, htake, hfirst⟩ := List.eq_append_cons_of_mem hmem
    have hlength := congrArg List.length htake
    rw [List.length_take, List.length_append, List.length_cons] at hlength
    refine .inl ⟨front, newlineByte, rest ++ bytes.drop room, ?_, hfirst, by omega, .inl rfl⟩
    calc
      bytes = bytes.take room ++ bytes.drop room := (List.take_append_drop room bytes).symm
      _ = front ++ newlineByte :: (rest ++ bytes.drop room) := by
        rw [htake, List.append_assoc, List.cons_append]
  · by_cases hlong : room ≤ bytes.length
    · -- the line is cut off where the room ends
      have hlength : (bytes.take room).length = room := by
        rw [List.length_take]
        omega
      have hne : bytes.take room ≠ [] := List.ne_nil_of_length_pos (by omega)
      have hconcat := List.dropLast_concat_getLast hne
      refine .inl ⟨(bytes.take room).dropLast, (bytes.take room).getLast hne, bytes.drop room, ?_,
        fun h => hmem (List.dropLast_subset _ h), ?_, .inr ?_⟩
      · rw [List.append_cons, hconcat, List.take_append_drop]
      · rw [List.length_dropLast]
        omega
      · rw [List.length_dropLast]
        omega
    · refine .inr ⟨?_, by omega⟩
      rwa [List.take_of_length_le (by omega)] at hmem

/-- The byte `b` completes a line that holds `front` so far: it is the newline, or the last one that
there is room for. -/
structure Completes (front : List UInt8) (b : UInt8) : Prop where
  first : newlineByte ∉ front
  room : front.length ≤ maxLine
  last : b = newlineByte ∨ front.length = maxLine

theorem completes_iff {front : List UInt8} {b : UInt8} :
    Completes front b ↔ Ends (maxLine + 1) front b := by
  constructor
  · intro ⟨hfirst, hroom, hlast⟩
    exact ⟨hfirst, Nat.lt_succ_of_le hroom, hlast.imp_right (congrArg Nat.succ)⟩
  · intro ⟨hfirst, hroom, hlast⟩
    exact ⟨hfirst, Nat.le_of_lt_succ hroom, hlast.imp_right Nat.succ.inj⟩

namespace Session

/-- What does not end a line is kept for it. -/
theorem takeAll_short {bytes : List UInt8} (hnone : newlineByte ∉ bytes)
    (pending : List UInt8) {room : Nat} (hshort : bytes.length < max room 1) :
    (reading pending room).takeAll bytes =
      (reading (bytes.reverse ++ pending) (room - bytes.length), []) := by
  induction bytes generalizing pending room with
  | nil => rfl
  | cons b bytes ih =>
    rw [List.mem_cons, not_or] at hnone
    rw [List.length_cons] at hshort
    have hstep : (reading pending room).take b = (reading (b :: pending) (room - 1), []) := by
      refine if_neg ?_
      rintro (h | h)
      · exact hnone.1 h.symm
      · omega
    rw [takeAll, hstep]
    simp only [ih hnone.2 (b :: pending) (show bytes.length < max (room - 1) 1 by omega),
      List.reverse_cons, List.append_assoc, List.length_cons, List.nil_append, List.cons_append,
      Nat.sub_sub, Nat.add_comm 1]

theorem takeAll_ends {room : Nat} {front : List UInt8} {b : UInt8} (h : Ends (max room 1) front b)
    (pending : List UInt8) :
    (reading pending room).takeAll (front ++ [b]) =
      afterLine (b :: (front.reverse ++ pending)) := by
  obtain ⟨hfirst, hwithin, hlast⟩ := h
  have hstep : (reading (front.reverse ++ pending) (room - front.length)).take b =
      afterLine (b :: (front.reverse ++ pending)) :=
    if_pos (hlast.imp_right fun hfull => by omega)
  rw [takeAll_append, takeAll_short hfirst pending hwithin]
  simp only [takeAll, hstep, List.append_nil, List.nil_append]

theorem takeAll_line {front : List UInt8} {b : UInt8} (h : Completes front b) :
    fresh.takeAll (front ++ [b]) = afterLine (b :: front.reverse) := by
  have hends : Ends (max (maxLine + 1) 1) front b := completes_iff.mp h
  rw [fresh, takeAll_ends hends, List.append_nil]

theorem takeAll_ended (bytes : List UInt8) : ended.takeAll bytes = (ended, []) := by
  induction bytes with
  | nil => rfl
  | cons b bytes ih =>
    simp only [takeAll, take, ih]
    rfl

end Session

/-- What is sent with a newline in it starts with a line that is completed. -/
theorem exists_completes {bytes : List UInt8} (h : newlineByte ∈ bytes) :
    ∃ front b more, bytes = front ++ b :: more ∧ Completes front b := by
  rcases ends_or_short (Nat.succ_pos maxLine) bytes with
    ⟨front, b, more, hbytes, hends⟩ | ⟨hnone, -⟩
  · exact ⟨front, b, more, hbytes, completes_iff.mpr hends⟩
  · exact absurd h hnone

theorem lineAnswer_eq (bytes : List UInt8) :
    lineAnswer bytes =
      .sent ((Session.fresh.takeAll bytes).2.flatMap fun reply => Text.Utf8.encode reply.toLine)
        (decide ((Session.fresh.takeAll bytes).1 = .ended)) := rfl

/-- A line that is completed is answered, and then the connection goes on or has ended. -/
theorem takeAll_completed {front : List UInt8} {b : UInt8} (h : Completes front b)
    (more : List UInt8) :
    let after := if (answerLine (front ++ [b])).2 then Session.fresh else .ended
    Session.fresh.takeAll (front ++ b :: more) =
      ((after.takeAll more).1, (answerLine (front ++ [b])).1 :: (after.takeAll more).2) := by
  rw [List.append_cons front b more, Session.takeAll_append, Session.takeAll_line h,
    Session.afterLine, List.reverse_cons, List.reverse_reverse]
  rfl

/-- The reply to the first line comes first. -/
theorem lineAnswer_line {front : List UInt8} {b : UInt8} (h : Completes front b)
    (more : List UInt8) :
    ∃ rest closes, lineAnswer (front ++ b :: more) =
      .sent (Text.Utf8.encode (answerLine (front ++ [b])).1.toLine ++ rest) closes := by
  rw [lineAnswer_eq, takeAll_completed h, List.flatMap_cons]
  exact ⟨_, _, rfl⟩

theorem answerLine_encode (s : String) :
    answerLine (Text.Utf8.encode s) =
      if maxLine < (Text.Utf8.encode s).length ∧
          (Text.Utf8.encode s).getLast? ≠ some newlineByte then
        (tooLong, false)
      else (.success (chomp s), true) := by
  rw [answerLine, Text.Utf8.decode_encode]

theorem answerLine_of_text {s : String} {line : List UInt8} (hs : Text.Utf8.encode s = line)
    (hroom : line.length ≤ maxLine ∨ line.getLast? = some newlineByte) :
    answerLine line = (.success (chomp s), true) := by
  subst hs
  rw [answerLine_encode]
  refine if_neg ?_
  rintro ⟨hlong, hlast⟩
  rcases hroom with hroom | hroom
  · omega
  · exact hlast hroom

/-- A line that there is no room for is refused. -/
theorem answerLine_of_long {line : List UInt8} (hlong : maxLine < line.length)
    (hlast : line.getLast? ≠ some newlineByte) : (answerLine line).1.status = "error" := by
  rw [answerLine]
  split
  · rfl
  · rw [if_pos ⟨hlong, hlast⟩]
    rfl

end PeerHealth.Responder
