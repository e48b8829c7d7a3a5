import PeerHealth.Proofs.Responder.Greeting
import PeerHealth.Proofs.Responder.Stream

/-! Lines under two endings. Main statement: lines that end in a carriage return and a newline are
answered as those that end in a newline, as long as there is room for the carriage return. -/

namespace PeerHealth.Responder

/-- Lines as a peer sends them, each with the ending. -/
def framed (ending : String) (lines : List String) : List UInt8 :=
  lines.flatMap fun s => Text.Utf8.encode (s ++ ending)

/-- A line that the responder is to take, by the length that it allows. -/
structure Fits (s : String) : Prop where
  noReturn : '\r' ∉ s.toList
  noNewline : '\n' ∉ s.toList
  room : (Text.Utf8.encode s).length ≤ maxLine

/-- There is room for one more byte before the newline. -/
def leavesRoom (s : String) : Bool := decide ((Text.Utf8.encode s).length < maxLine)

theorem withoutReturns_eq_self {s : String} (h : '\r' ∉ s.toList) : withoutReturns s = s := by
  have hends : Text.dropEndWhile (· = '\r') s.toList = s.toList := by
    refine List.rdropWhile_eq_self_iff.mpr fun hne hlast => h ?_
    rw [← of_decide_eq_true hlast]
    exact List.getLast_mem hne
  rw [withoutReturns, hends, String.ofList_toList]

theorem withoutReturns_append_return (s : String) :
    withoutReturns (s ++ "\r") = withoutReturns s := by
  have htoList : (s ++ "\r").toList = s.toList ++ ['\r'] := String.toList_append
  rw [withoutReturns, htoList, Text.dropEndWhile_concat, if_pos (by decide), withoutReturns]

theorem append_return_newline (s : String) : s ++ "\r\n" = s ++ "\r" ++ "\n" := by
  rw [String.append_assoc]
  rfl

theorem encode_append_return (s : String) :
    Text.Utf8.encode (s ++ "\r") = Text.Utf8.encode s ++ [13] := by
  simp only [Text.Utf8.encode, String.toList_append, List.flatMap_append]
  rfl

theorem replies_newline {s : String} (h : '\n' ∉ s.toList)
    (hroom : (Text.Utf8.encode s).length ≤ maxLine) (more : List UInt8) :
    replies (Text.Utf8.encode (s ++ "\n") ++ more) .closed =
      .success (withoutReturns s) :: replies more .closed := by
  rw [encode_append_newline, ← List.append_cons, replies_completed (completes_newline h hroom),
    answerLine_newline h]
  rfl

section Framed

variable {s : String} (h : Fits s) (more : List UInt8)
include h

theorem Fits.replies_newline :
    replies (Text.Utf8.encode (s ++ "\n") ++ more) .closed =
      .success s :: replies more .closed := by
  rw [Responder.replies_newline h.noNewline h.room, withoutReturns_eq_self h.noReturn]

theorem Fits.replies_return_newline (hroom : leavesRoom s = true) :
    replies (Text.Utf8.encode (s ++ "\r\n") ++ more) .closed =
      .success s :: replies more .closed := by
  have hnone : '\n' ∉ (s ++ "\r").toList := by
    rw [String.toList_append, List.mem_append, not_or]
    exact ⟨h.noNewline, by decide⟩
  have hlength : (Text.Utf8.encode (s ++ "\r")).length ≤ maxLine := by
    rw [encode_append_return, List.length_append]
    exact of_decide_eq_true hroom
  rw [append_return_newline, Responder.replies_newline hnone hlength, withoutReturns_append_return,
    withoutReturns_eq_self h.noReturn]

/-- The carriage return takes the room of the newline, which is never seen. -/
theorem Fits.replies_full (hfull : leavesRoom s = false) :
    replies (Text.Utf8.encode (s ++ "\r\n") ++ more) .closed = [tooLong] := by
  have hlength : (Text.Utf8.encode s).length = maxLine :=
    Nat.le_antisymm h.room (Nat.le_of_not_lt (of_decide_eq_false hfull))
  have hline : Completes (Text.Utf8.encode s) 13 :=
    ⟨newlineByte_not_mem_encode h.noNewline, h.room, .inr hlength⟩
  have hbytes : Text.Utf8.encode (s ++ "\r\n") ++ more =
      Text.Utf8.encode s ++ 13 :: newlineByte :: more := by
    rw [append_return_newline, encode_append_newline, encode_append_return]
    simp only [List.append_assoc, List.cons_append, List.nil_append]
  have hreply : answerLine (Text.Utf8.encode s ++ [13]) = (tooLong, false) := by
    rw [← encode_append_return, answerLine_encode, encode_append_return, if_pos]
    rw [List.length_append, hlength, List.getLast?_concat]
    exact ⟨Nat.lt_succ_self _, by decide⟩
  rw [hbytes, replies_completed hline, hreply]
  rfl

end Framed

theorem replies_framed_newline {lines : List String} (h : ∀ s ∈ lines, Fits s) :
    replies (framed "\n" lines) .closed = lines.map .success := by
  induction lines with
  | nil => rfl
  | cons s lines ih =>
    rw [List.forall_mem_cons] at h
    rw [framed, List.flatMap_cons, h.1.replies_newline, List.map_cons]
    exact congrArg _ (ih h.2)

theorem replies_framed_return {lines : List String} (h : ∀ s ∈ lines, Fits s) :
    replies (framed "\r\n" lines) .closed =
      (lines.takeWhile leavesRoom).map .success ++
        if lines.all leavesRoom then [] else [tooLong] := by
  induction lines with
  | nil => rfl
  | cons s lines ih =>
    rw [List.forall_mem_cons] at h
    rw [framed, List.flatMap_cons, List.all_cons]
    cases hroom : leavesRoom s with
    | true =>
      rw [h.1.replies_return_newline _ hroom, List.takeWhile_cons_of_pos hroom, List.map_cons,
        List.cons_append, Bool.true_and]
      exact congrArg _ (ih h.2)
    | false =>
      rw [h.1.replies_full _ hroom, List.takeWhile_cons_of_neg (by rw [hroom]; decide)]
      rfl

theorem tooLong_not_mem_echoes (lines : List String) : tooLong ∉ lines.map Wire.Reply.success := by
  intro hmem
  obtain ⟨s, -, heq⟩ := List.mem_map.mp hmem
  have hstatus : "success" = "error" := congrArg Wire.Reply.status heq
  exact absurd hstatus (by decide)

/-- Lines of up to the greatest length are all repeated if each ends in a newline. If each ends in a
carriage return and a newline they are repeated up to the first that has the greatest length: it is
taken for one that is too long, and that is the end. So the two endings come to the same exactly if
all lines are shorter. -/
theorem line_endings_agree_below_the_limit {lines : List String} (h : ∀ s ∈ lines, Fits s) :
    replies (framed "\n" lines) .closed = lines.map .success ∧
      replies (framed "\r\n" lines) .closed =
        (lines.takeWhile leavesRoom).map .success ++
          (if lines.all leavesRoom then [] else [tooLong]) ∧
      (replies (framed "\r\n" lines) .closed = replies (framed "\n" lines) .closed ↔
        ∀ s ∈ lines, (Text.Utf8.encode s).length < maxLine) := by
  refine ⟨replies_framed_newline h, replies_framed_return h, ?_⟩
  have hall : lines.all leavesRoom = true ↔ ∀ s ∈ lines, (Text.Utf8.encode s).length < maxLine := by
    simp only [List.all_eq_true, leavesRoom, decide_eq_true_eq]
  rw [replies_framed_newline h, replies_framed_return h, ← hall]
  constructor
  · intro heq
    by_contra hlong
    rw [if_neg hlong] at heq
    exact tooLong_not_mem_echoes lines (heq ▸ List.mem_append_right _ (List.mem_singleton_self _))
  · intro hshort
    rw [if_pos hshort, List.append_nil, List.takeWhile_eq_self_iff.mpr (List.all_eq_true.mp hshort)]

/-- A line of the greatest length. -/
def longest : String := String.ofList (List.replicate maxLine 'a')

theorem length_encode_longest : (Text.Utf8.encode longest).length = maxLine :=
  length_encode_replicate maxLine

theorem fits_longest : Fits longest where
  noReturn := not_mem_replicate (by decide) maxLine
  noNewline := not_mem_replicate (by decide) maxLine
  room := Nat.le_of_eq length_encode_longest

theorem leavesRoom_longest : leavesRoom longest = false :=
  decide_eq_false (Nat.not_lt_of_le (Nat.le_of_eq length_encode_longest.symm))

/-- A line of the greatest length between two short ones. -/
theorem line_endings_agree_below_the_limit_of_longest :
    replies (framed "\n" ["ä", longest, "b"]) .closed =
        [.success "ä", .success longest, .success "b"] ∧
      replies (framed "\r\n" ["ä", longest, "b"]) .closed = [.success "ä", tooLong] := by
  have hfits : ∀ s ∈ ["ä", longest, "b"], Fits s := by
    have hfirst : Fits "ä" := ⟨by decide, by decide, by decide⟩
    have hlast : Fits "b" := ⟨by decide, by decide, by decide⟩
    simp only [List.forall_mem_cons]
    exact ⟨hfirst, fits_longest, hlast, fun s hs => absurd hs List.not_mem_nil⟩
  obtain ⟨hnewline, hreturn, -⟩ := line_endings_agree_below_the_limit hfits
  refine ⟨hnewline, ?_⟩
  have hroom : leavesRoom "ä" = true := by decide
  rw [hreturn, List.takeWhile_cons_of_pos hroom,
    List.takeWhile_cons_of_neg (by rw [leavesRoom_longest]; decide), List.all_cons, List.all_cons,
    leavesRoom_longest, hroom]
  rfl

/-- A line that the responder is to take is refused for the carriage return after it. -/
theorem longest_line_refused_for_return :
    Fits longest ∧
      replies (framed "\n" [longest]) .closed = [.success longest] ∧
      replies (framed "\r\n" [longest]) .closed = [tooLong] ∧
      replies (framed "\r\n" [longest]) .closed ≠ replies (framed "\n" [longest]) .closed := by
  have hfits : ∀ s ∈ [longest], Fits s := List.forall_mem_singleton.mpr fits_longest
  have hnewline := replies_framed_newline hfits
  have hreturn : replies (framed "\r\n" [longest]) .closed = [tooLong] := by
    rw [replies_framed_return hfits,
      List.takeWhile_cons_of_neg (by rw [leavesRoom_longest]; decide), List.all_cons,
      leavesRoom_longest]
    rfl
  refine ⟨fits_longest, hnewline, hreturn, fun heq => tooLong_not_mem_echoes [longest] ?_⟩
  rw [← hnewline, ← heq, hreturn]
  exact List.mem_singleton_self _

end PeerHealth.Responder
