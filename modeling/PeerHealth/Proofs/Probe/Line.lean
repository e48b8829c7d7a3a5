import PeerHealth.Proofs.Text.Trim
import PeerHealth.Proofs.Wire.Codec

/-! What the line probe makes of an answer. Main statements: it reads the line that the peer offers,
and what becomes of a line in which the peer tells a reply. -/

namespace PeerHealth.Probe

/-- The fault is one of time, of the network or of the protocol. -/
def Fault.isPlain : Fault → Bool
  | .timedOut _ | .network _ | .protocol _ => true
  | .status _ _ | .unsupported => false

namespace Line

/-- The line that an answer offers: what comes up to the first newline, or all there is if the peer
closes without one. -/
inductive Offers : Answer → List UInt8 → Prop
  | ended {front : List UInt8} (first : newline ∉ front) (rest : List UInt8) (closes : Bool) :
      Offers (.sent (front ++ newline :: rest) closes) (front ++ [newline])
  | closed {bytes : List UInt8} (unended : newline ∉ bytes) : Offers (.sent bytes true) bytes

theorem firstLine?_append {front : List UInt8} (h : newline ∉ front) (rest : List UInt8) :
    firstLine? (front ++ newline :: rest) = some (front ++ [newline]) := by
  induction front with
  | nil => rfl
  | cons b front ih =>
    rw [List.mem_cons, not_or] at h
    rw [List.cons_append, firstLine?, if_neg (Ne.symm h.1), ih h.2]
    rfl

theorem newline_cases (bytes : List UInt8) :
    newline ∉ bytes ∨ ∃ front rest, newline ∉ front ∧ bytes = front ++ newline :: rest := by
  by_cases h : newline ∈ bytes
  · obtain ⟨front, rest, hbytes, hfirst⟩ := List.eq_append_cons_of_mem h
    exact .inr ⟨front, rest, hfirst, hbytes⟩
  · exact .inl h

theorem readLine_eq_ok_iff {timeout : Duration} {answer : Answer} {line : List UInt8} :
    readLine timeout answer = .ok line ↔ Offers answer line := by
  constructor
  · intro h
    cases answer with
    | refused => cases h
    | unsent => cases h
    | broken => cases h
    | sent bytes closes =>
      rcases newline_cases bytes with hnone | ⟨front, rest, hfirst, rfl⟩
      · rw [readLine, Wire.firstLine?_eq_none hnone] at h
        cases closes <;> cases h
        exact .closed hnone
      · rw [readLine, firstLine?_append hfirst] at h
        cases h
        exact .ended hfirst rest closes
  · intro h
    cases h with
    | ended first rest closes => rw [readLine, firstLine?_append first]
    | closed unended => rw [readLine, Wire.firstLine?_eq_none unended, if_pos rfl]

theorem readLine_plain {timeout : Duration} {answer : Answer} {fault : Fault}
    (h : readLine timeout answer = .error fault) : fault.isPlain = true := by
  cases answer with
  | refused => cases h; rfl
  | unsent => cases h; rfl
  | broken => cases h; rfl
  | sent bytes closes =>
    rw [readLine] at h
    split at h
    · cases h
    · split at h
      · cases h
      · cases h; rfl

/-- The line holds a reply: it is text, and without the white space at its end it reads as one. -/
structure Holds (line : List UInt8) (s : String) (reply : Wire.Reply) : Prop where
  text : ∃ t, Text.Utf8.decode line = .ok t ∧ s = Text.trimEnd t
  reads : Wire.Reply.ofBytes? (Text.Utf8.encode s) = .ok reply

/-- What is wrong with a reply that is not one of success. -/
def complaint (reply : Wire.Reply) : String :=
  if reply.error = "" then "peer reported status " ++ Text.quoted reply.status else reply.error

variable {line : List UInt8} {s : String} {reply : Wire.Reply}

theorem Holds.ne_nil (h : Holds line s reply) : line ≠ [] := by
  obtain ⟨⟨t, ht, rfl⟩, hreads⟩ := h
  rintro rfl
  rw [show Text.Utf8.decode [] = .ok "" from Text.Utf8.decode_encode ""] at ht
  cases ht
  cases hreads

theorem Holds.judge_eq (h : Holds line s reply) :
    judge line =
      if reply.status = "success" then .ok s else .error (.protocol (complaint reply)) := by
  have hne := h.ne_nil
  obtain ⟨⟨t, ht, rfl⟩, hreads⟩ := h
  rw [judge, if_neg hne]
  simp only [ht, hreads, Wire.Reply.isSuccess, decide_eq_true_eq, complaint]
  split
  · rfl
  · split <;> rfl

/-- A line is a reply that it holds, or it is refused for what it is. -/
theorem judge_cases (line : List UInt8) :
    (∃ s reply, Holds line s reply) ∨
      ∃ fault, judge line = .error fault ∧ fault.isPlain = true := by
  rw [judge]
  split
  · exact .inr ⟨_, rfl, rfl⟩
  · split
    · exact .inr ⟨_, rfl, rfl⟩
    · rename_i t ht
      cases hreads : Wire.Reply.ofBytes? (Text.Utf8.encode (Text.trimEnd t)) with
      | error problem => exact .inr ⟨.protocol "malformed response", by simp only [hreads], rfl⟩
      | ok reply => exact .inl ⟨_, reply, ⟨t, ht, rfl⟩, hreads⟩

/-- The peer tells a reply in the line that it offers. -/
def Tells (answer : Answer) (s : String) (reply : Wire.Reply) : Prop :=
  ∃ line, Offers answer line ∧ Holds line s reply

theorem run_of_tells {answer : Answer} (h : Tells answer s reply) (timeout : Duration) :
    run timeout answer =
      if reply.status = "success" then .ok s else .error (.protocol (complaint reply)) := by
  obtain ⟨line, hoffers, hholds⟩ := h
  rw [run, readLine_eq_ok_iff.mpr hoffers]
  exact hholds.judge_eq

/-- The peer tells a reply, or the exchange fails for another reason. -/
theorem run_cases (timeout : Duration) (answer : Answer) :
    (∃ s reply, Tells answer s reply) ∨
      ∃ fault, run timeout answer = .error fault ∧ fault.isPlain = true := by
  rw [run]
  cases hread : readLine timeout answer with
  | error fault => exact .inr ⟨fault, rfl, readLine_plain hread⟩
  | ok line =>
    have hoffers := readLine_eq_ok_iff.mp hread
    rcases judge_cases line with ⟨s, reply, hholds⟩ | hfault
    · exact .inl ⟨s, reply, line, hoffers, hholds⟩
    · exact .inr hfault

theorem run_eq_ok_iff {timeout : Duration} {answer : Answer} :
    run timeout answer = .ok s ↔ ∃ reply, Tells answer s reply ∧ reply.status = "success" := by
  constructor
  · intro h
    rcases run_cases timeout answer with ⟨s', reply, htells⟩ | ⟨fault, hfault, -⟩
    · rw [run_of_tells htells] at h
      split at h
      · cases h
        exact ⟨reply, htells, by assumption⟩
      · cases h
    · rw [hfault] at h
      cases h
  · rintro ⟨reply, htells, hsuccess⟩
    rw [run_of_tells htells, if_pos hsuccess]

theorem run_plain {timeout : Duration} {answer : Answer} {fault : Fault}
    (h : run timeout answer = .error fault) : fault.isPlain = true := by
  rcases run_cases timeout answer with ⟨s, reply, htells⟩ | ⟨fault', hfault, hplain⟩
  · rw [run_of_tells htells] at h
    split at h
    · cases h
    · cases h; rfl
  · rw [hfault] at h
    cases h
    exact hplain

theorem trimEnd_toLine (r : Wire.Reply) : Text.trimEnd r.toLine = String.ofList r.write := by
  have hwrite : ∃ cs, r.write = cs ++ ['\x7d'] := ⟨_, rfl⟩
  obtain ⟨cs, hcs⟩ := hwrite
  rw [Text.trimEnd, Wire.Reply.toLine, String.toList_ofList, Text.dropEndWhile_concat,
    if_pos (by decide), hcs, Text.dropEndWhile_concat, if_neg (by decide)]

/-- A reply that is sent first is the one that the peer is told. -/
theorem tells_of_toLine (r : Wire.Reply) (rest : List UInt8) (closes : Bool) :
    Tells (.sent (Text.Utf8.encode r.toLine ++ rest) closes) (String.ofList r.write) r := by
  obtain ⟨hline, hinside⟩ := r.encode_toLine
  refine ⟨Text.Utf8.encode r.toLine, ?_, ⟨_, Text.Utf8.decode_encode _, (trimEnd_toLine r).symm⟩,
    r.codes.reads⟩
  rw [hline, List.append_assoc]
  exact .ended hinside rest closes

end Line
end PeerHealth.Probe
