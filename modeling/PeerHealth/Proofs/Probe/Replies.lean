import PeerHealth.Proofs.Probe.Checksum

/-! Replies told from other messages. Main statement: whatever the data, only bytes of it are looked
at; an IPv4 header in front makes no difference; and of the messages of the length of a reply those
of the right type, sequence number and, if it counts, identifier are taken, as the one that answers
a request is. -/

namespace PeerHealth.Probe.Echo

/-- An IPv4 header, as its first byte tells: version four, and the length in units of four bytes. -/
def IsHeader : List UInt8 → Prop
  | [] => False
  | first :: rest => first / 16 = 4 ∧ rest.length + 1 = 4 * (first % 16).toNat

/-- A message of no less than eight bytes that has this type and sequence number, and this
identifier if it counts. -/
def Matches (message : List UInt8) (kind : UInt8) (identifier sequence : UInt16)
    (checkId : Bool) : Prop :=
  ∃ _ : 8 ≤ message.length, message[0] = kind ∧ word message[6] message[7] = sequence ∧
    (checkId = false ∨ word message[4] message[5] = identifier)

/-! With each byte taken by its place: `none` if one is looked for that is not there. -/

def headerLength? (data : List UInt8) : Option Nat :=
  if data.isEmpty then some 0
  else data[0]?.map fun first => if first / 16 = 4 then (first % 16).toNat * 4 else 0

def answers? (message : List UInt8) (kind : UInt8) (identifier sequence : UInt16)
    (checkId : Bool) : Option Bool := do
  if message.length < 8 then return false
  let type ← message[0]?
  if type ≠ kind then return false
  let i₁ ← message[4]?
  let i₂ ← message[5]?
  let s₁ ← message[6]?
  let s₂ ← message[7]?
  return word s₁ s₂ = sequence && (!checkId || word i₁ i₂ = identifier)

def isOurReply? (data : List UInt8) (kind : UInt8) (identifier sequence : UInt16)
    (checkId : Bool) : Option Bool := do
  let start ← headerLength? data
  if data.length < start then return false
  answers? (data.drop start) kind identifier sequence checkId

section Messages

variable {header message : List UInt8} {kind : UInt8} {identifier sequence : UInt16}
  {checkId : Bool}

theorem answers_of_short (h : message.length < 8) :
    answers message kind identifier sequence checkId = false := by
  unfold answers
  split
  · simp only [List.length_cons] at h
    omega
  · rfl

theorem exists_of_long (h : 8 ≤ message.length) :
    ∃ type code c₁ c₂ i₁ i₂ s₁ s₂ rest,
      message = type :: code :: c₁ :: c₂ :: i₁ :: i₂ :: s₁ :: s₂ :: rest := by
  match message, h with
  | type :: code :: c₁ :: c₂ :: i₁ :: i₂ :: s₁ :: s₂ :: rest, _ =>
    exact ⟨type, code, c₁, c₂, i₁, i₂, s₁, s₂, rest, rfl⟩

theorem answers_iff :
    answers message kind identifier sequence checkId = true ↔
      Matches message kind identifier sequence checkId := by
  by_cases h : 8 ≤ message.length
  · obtain ⟨type, code, c₁, c₂, i₁, i₂, s₁, s₂, rest, rfl⟩ := exists_of_long h
    simp [answers, Matches, and_assoc]
  · rw [answers_of_short (Nat.not_le.mp h)]
    simp [Matches, h]

theorem answers?_eq (message : List UInt8) :
    answers? message kind identifier sequence checkId =
      some (answers message kind identifier sequence checkId) := by
  by_cases h : message.length < 8
  · rw [answers_of_short h, answers?, if_pos h]
    rfl
  · obtain ⟨type, code, c₁, c₂, i₁, i₂, s₁, s₂, rest, rfl⟩ := exists_of_long (Nat.not_lt.mp h)
    rw [answers?, if_neg h]
    by_cases htype : type = kind <;> simp [answers, htype]

/-- No byte is looked for that is not there. -/
theorem isOurReply?_eq (data : List UInt8) :
    isOurReply? data kind identifier sequence checkId =
      some (isOurReply data kind identifier sequence checkId) := by
  have hstart : headerLength? data = some (headerLength data) := by
    cases data <;> rfl
  rw [isOurReply?, hstart, Option.bind_eq_bind, Option.bind_some, isOurReply]
  split
  · rename_i hpast
    rw [List.drop_eq_nil_of_le (Nat.le_of_lt hpast)]
    rfl
  · exact answers?_eq _

theorem headerLength_append (h : IsHeader header) (message : List UInt8) :
    headerLength (header ++ message) = header.length := by
  cases header with
  | nil => cases h
  | cons first rest =>
    obtain ⟨hversion, hlength⟩ := h
    rw [List.cons_append, headerLength, if_pos hversion, List.length_cons, hlength, Nat.mul_comm]

theorem headerLength_bare (h : ∀ first ∈ message.head?, first / 16 ≠ 4) :
    headerLength message = 0 := by
  cases message with
  | nil => rfl
  | cons first rest => exact if_neg (h first rfl)

theorem isOurReply_bare (h : ∀ first ∈ message.head?, first / 16 ≠ 4) :
    isOurReply message kind identifier sequence checkId =
      answers message kind identifier sequence checkId := by
  rw [isOurReply, headerLength_bare h, List.drop_zero]

theorem isOurReply_append (h : IsHeader header) (message : List UInt8) :
    isOurReply (header ++ message) kind identifier sequence checkId =
      answers message kind identifier sequence checkId := by
  rw [isOurReply, headerLength_append h, List.drop_left]

end Messages

section Requests

variable {kind : UInt8} {i s identifier sequence : UInt16} {stamp : UInt64} {checkId : Bool}

theorem exists_request_eq (kind : UInt8) (i s : UInt16) (stamp : UInt64) (withChecksum : Bool) :
    ∃ checksum, request kind i s stamp withChecksum = packet kind checksum i s stamp := by
  cases withChecksum
  · exact ⟨0, rfl⟩
  · exact ⟨(checksum? (packet kind 0 i s stamp)).getD 0, rfl⟩

theorem matches_packet {checksum : UInt16} :
    Matches (packet kind checksum i s stamp) kind identifier sequence checkId ↔
      s = sequence ∧ (checkId = false ∨ i = identifier) := by
  have hs : word (s / 256).toUInt8 s.toUInt8 = s := Number.halves_eq s
  have hi : word (i / 256).toUInt8 i.toUInt8 = i := Number.halves_eq i
  simp [Matches, packet, wordBytes, hs, hi]

/-- A reply is a packet with the fields of the request. -/
theorem exists_reply_eq (requestKind kind : UInt8) (i s : UInt16) (stamp : UInt64)
    (withChecksum : Bool) :
    ∃ checksum, (request requestKind i s stamp withChecksum).set 0 kind =
      packet kind checksum i s stamp := by
  obtain ⟨checksum, hrequest⟩ := exists_request_eq requestKind i s stamp withChecksum
  exact ⟨checksum, by rw [hrequest]; rfl⟩

/-- No reply is taken for a header. -/
theorem packet_bare {checksum : UInt16} (h : kind = replyV4 ∨ kind = replyV6) :
    ∀ first ∈ (packet kind checksum i s stamp).head?, first / 16 ≠ 4 := by
  intro first hfirst
  obtain rfl : kind = first := Option.some.inj hfirst
  rcases h with rfl | rfl <;> decide

end Requests

/-- Of any data only bytes that are there are looked at. A header in front of a message makes no
difference, and a message is taken if it is long enough and has the right type, sequence number and,
if it counts, identifier. So the reply to a request is taken for the request's own sequence number
and, if it counts, its own identifier, and for no others. -/
theorem replies_told_apart (kind : UInt8) (identifier sequence : UInt16) (checkId : Bool) :
    (∀ data, isOurReply? data kind identifier sequence checkId =
      some (isOurReply data kind identifier sequence checkId)) ∧
    (∀ header message, IsHeader header → (∀ first ∈ message.head?, first / 16 ≠ 4) →
      isOurReply (header ++ message) kind identifier sequence checkId =
        isOurReply message kind identifier sequence checkId ∧
      (isOurReply message kind identifier sequence checkId = true ↔
        Matches message kind identifier sequence checkId)) ∧
    (kind = replyV4 ∨ kind = replyV6 →
      ∀ header, header = [] ∨ IsHeader header → ∀ requestKind i s stamp withChecksum,
        (isOurReply (header ++ (request requestKind i s stamp withChecksum).set 0 kind)
          kind identifier sequence checkId = true ↔
            s = sequence ∧ (checkId = false ∨ i = identifier))) := by
  refine ⟨isOurReply?_eq, fun header message hheader hbare => ⟨?_, ?_⟩,
    fun hkind header hheader requestKind i s stamp withChecksum => ?_⟩
  · rw [isOurReply_append hheader, isOurReply_bare hbare]
  · rw [isOurReply_bare hbare, answers_iff]
  · obtain ⟨checksum, hreply⟩ := exists_reply_eq requestKind kind i s stamp withChecksum
    rw [hreply, ← matches_packet, ← answers_iff]
    rcases hheader with rfl | hheader
    · rw [List.nil_append, isOurReply_bare (packet_bare hkind)]
    · rw [isOurReply_append hheader]

/-- The longest header there is. -/
def longestHeader : List UInt8 := 0x4F :: List.replicate 59 0

/-- A reply of the least length. -/
def shortestReply : List UInt8 := [replyV4, 0, 0, 0, 0x12, 0x34, 0, 7]

theorem replies_told_apart_behind_longest_header :
    IsHeader longestHeader ∧ (∀ first ∈ shortestReply.head?, first / 16 ≠ 4) ∧
    isOurReply (longestHeader ++ shortestReply) replyV4 0x1234 7 true = true ∧
    isOurReply (longestHeader ++ (request requestV4 0x1234 7 0 true).set 0 replyV4)
      replyV4 0x9999 7 false = true ∧
    isOurReply (longestHeader ++ (request requestV4 0x1234 7 0 true).set 0 replyV4)
      replyV4 0x9999 7 true = false := by
  have hheader : IsHeader longestHeader := ⟨by decide, by decide⟩
  have hbare : ∀ first ∈ shortestReply.head?, first / 16 ≠ 4 := by
    intro first hfirst
    rw [← Option.some.inj hfirst]
    decide
  obtain ⟨-, hmessage, -⟩ := replies_told_apart replyV4 0x1234 7 true
  obtain ⟨-, -, hunchecked⟩ := replies_told_apart replyV4 0x9999 7 false
  obtain ⟨-, -, hchecked⟩ := replies_told_apart replyV4 0x9999 7 true
  obtain ⟨hequal, htaken⟩ := hmessage longestHeader shortestReply hheader hbare
  refine ⟨hheader, hbare, hequal.trans (htaken.mpr ?_), ?_, ?_⟩
  · exact ⟨by decide, by decide, by decide, .inr (by decide)⟩
  · exact (hunchecked (.inl rfl) _ (.inr hheader) requestV4 _ _ 0 true).mpr ⟨rfl, .inl rfl⟩
  · refine Bool.eq_false_iff.mpr fun htrue => ?_
    have hown := (hchecked (.inl rfl) _ (.inr hheader) requestV4 _ _ 0 true).mp htrue
    exact absurd hown.2 (by decide)

end PeerHealth.Probe.Echo
