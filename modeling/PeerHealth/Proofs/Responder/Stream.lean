import Mathlib.Data.List.DropRight
import Mathlib.Data.List.Forall2
import PeerHealth.Proofs.Responder.Chunks

/-! All that a peer sends to the line responder. Main statement: it is cut into chunks, and each is
repeated until one is refused, in whatever segments it arrives. -/

namespace PeerHealth.Responder

/-! ### What is sent, cut into chunks -/

section Replies

variable {front bytes : List UInt8} {b : UInt8}

theorem replies_completed (h : Completes front b) (more : List UInt8) :
    replies (front ++ b :: more) .closed =
      (answerLine (front ++ [b])).1 ::
        if (answerLine (front ++ [b])).2 then replies more .closed else [] := by
  simp only [replies, takeAll_completed h]
  cases (answerLine (front ++ [b])).2 with
  | true => rfl
  | false =>
    simp only [Bool.false_eq_true, if_false, Session.takeAll_ended]
    rfl

end Replies

/-! ### What becomes of a line -/

/-- A line is refused if it is not text, or if it is as long as there is room for and no newline
ends it. -/
def Refused (line : List UInt8) : Prop :=
  (∀ s, Text.Utf8.encode s ≠ line) ∨ line.length = maxLine + 1 ∧ newlineByte ∉ line

/-- A line as it is read: there is room for it, and its newline is at its end if it has one. -/
structure IsLine (line : List UInt8) : Prop where
  room : line.length ≤ maxLine + 1
  newline : newlineByte ∈ line → line.getLast? = some newlineByte

variable {line : List UInt8}

/-- What the responder looks at to find a line too long tells whether it fills the room. -/
theorem IsLine.full_iff (h : IsLine line) :
    (maxLine < line.length ∧ line.getLast? ≠ some newlineByte) ↔
      line.length = maxLine + 1 ∧ newlineByte ∉ line := by
  constructor
  · intro ⟨hlong, hlast⟩
    exact ⟨Nat.le_antisymm h.room hlong, fun hmem => hlast (h.newline hmem)⟩
  · intro ⟨hlong, hnone⟩
    exact ⟨hlong ▸ Nat.lt_succ_self maxLine, fun hlast => hnone (List.mem_of_getLast? hlast)⟩

theorem IsLine.refused (hline : IsLine line) (h : Refused line) :
    ∃ message, message ≠ "" ∧ answerLine line = (.failure message, false) := by
  rw [answerLine]
  split
  · rename_i fault _
    exact ⟨_, fault.message_ne_empty, rfl⟩
  · rename_i s hs
    have hfull := h.resolve_left fun hnone => hnone s (Text.Utf8.encode_of_decode hs)
    rw [if_pos (hline.full_iff.mpr hfull)]
    exact ⟨_, by decide, rfl⟩

/-- Nothing that comes later belongs to the line. -/
def Complete (line : List UInt8) : Prop := newlineByte ∈ line ∨ line.length = maxLine + 1

theorem Completes.complete {front : List UInt8} {b : UInt8} (h : Completes front b) :
    Complete (front ++ [b]) := by
  rw [Complete, List.length_append, List.length_singleton]
  rcases h.last with rfl | hfull
  · exact .inl (List.mem_append_right _ (List.mem_singleton_self _))
  · exact .inr (congrArg Nat.succ hfull)

end PeerHealth.Responder
