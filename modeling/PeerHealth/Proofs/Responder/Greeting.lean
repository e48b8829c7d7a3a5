import PeerHealth.Proofs.Probe.Outcomes
import PeerHealth.Proofs.Responder.Chunks

/-! The line probe of a node that answers as this one does. Main statement: it succeeds with the
name of the prober repeated, unless the name is longer than a line may be. -/

namespace PeerHealth

namespace Responder

theorem encode_append_newline (s : String) :
    Text.Utf8.encode (s ++ "\n") = Text.Utf8.encode s ++ [newlineByte] := by
  simp only [Text.Utf8.encode, String.toList_append, List.flatMap_append]
  rfl

theorem newlineByte_not_mem_encode {s : String} (h : '\n' ∉ s.toList) :
    newlineByte ∉ Text.Utf8.encode s := fun hmem =>
  h (Text.Utf8.mem_encode_of_ascii (b := newlineByte) (by decide) hmem)

/-- A name without the carriage returns at its end. -/
def withoutReturns (s : String) : String :=
  String.ofList (Text.dropEndWhile (· = '\r') s.toList)

theorem chomp_line {s : String} (h : '\n' ∉ s.toList) : chomp (s ++ "\n") = withoutReturns s := by
  have hline : (s ++ "\n").toList = s.toList ++ ['\n'] := by
    rw [String.toList_append]
    rfl
  have hends : ∀ c ∈ s.toList, isLineEnd c = decide (c = '\r') := by
    intro c hc
    have hne : c ≠ '\n' := fun heq => h (heq ▸ hc)
    simp [isLineEnd, hne]
  rw [withoutReturns, ← Text.dropEndWhile_congr hends]
  show String.ofList (Text.dropEndWhile isLineEnd (s ++ "\n").toList) = _
  rw [hline, Text.dropEndWhile_concat, if_pos (by decide)]

theorem completes_newline {s : String} (h : '\n' ∉ s.toList)
    (hroom : (Text.Utf8.encode s).length ≤ maxLine) :
    Completes (Text.Utf8.encode s) newlineByte :=
  ⟨newlineByte_not_mem_encode h, hroom, .inl rfl⟩

theorem answerLine_newline {s : String} (h : '\n' ∉ s.toList) :
    answerLine (Text.Utf8.encode s ++ [newlineByte]) = (.success (withoutReturns s), true) := by
  rw [answerLine_of_text (encode_append_newline s) (.inr List.getLast?_concat), chomp_line h]

/-- Whatever the name, the greeting is answered by the reply to its first line. -/
theorem greeting_told (hostname : String) :
    ∃ front b more, Probe.Line.greeting hostname = front ++ b :: more ∧ Completes front b ∧
      Probe.Line.Tells (lineAnswer (Probe.Line.greeting hostname))
        (String.ofList (answerLine (front ++ [b])).1.write) (answerLine (front ++ [b])).1 := by
  have hends : newlineByte ∈ Probe.Line.greeting hostname :=
    List.mem_append_right _ (List.mem_singleton_self _)
  obtain ⟨front, b, more, hsplit, hline⟩ := exists_completes hends
  obtain ⟨rest, closes, hanswer⟩ := lineAnswer_line hline more
  refine ⟨front, b, more, hsplit, hline, ?_⟩
  rw [hsplit, hanswer]
  exact Probe.Line.tells_of_toLine _ rest closes

theorem greeting_short {hostname : String} (hline : '\n' ∉ hostname.toList)
    (hroom : (Text.Utf8.encode hostname).length ≤ maxLine) :
    Probe.Line.Tells (lineAnswer (Probe.Line.greeting hostname))
      (String.ofList (Wire.Reply.success (withoutReturns hostname)).write)
      (.success (withoutReturns hostname)) := by
  obtain ⟨rest, closes, hanswer⟩ := lineAnswer_line (completes_newline hline hroom) []
  rw [answerLine_newline hline] at hanswer
  have hgreeting : lineAnswer (Probe.Line.greeting hostname) = _ := hanswer
  rw [hgreeting]
  exact Probe.Line.tells_of_toLine _ rest closes

theorem greeting_long {hostname : String} (hline : '\n' ∉ hostname.toList)
    (hlong : maxLine < (Text.Utf8.encode hostname).length) :
    ∃ s reply, Probe.Line.Tells (lineAnswer (Probe.Line.greeting hostname)) s reply ∧
      reply.status = "error" := by
  obtain ⟨front, b, more, hsplit, hcompletes, htells⟩ := greeting_told hostname
  have hnone := newlineByte_not_mem_encode hline
  -- the line is completed inside the name, so not by the newline
  have hinside : b ∈ Text.Utf8.encode hostname := by
    have hroom := hcompletes.room
    rcases List.append_eq_append_iff.mp hsplit with ⟨rest, rfl, -⟩ | ⟨rest, hname, hrest⟩
    · rw [List.length_append] at hroom
      omega
    · cases rest with
      | nil =>
        rw [hname, List.append_nil] at hlong
        omega
      | cons b' rest =>
        cases hrest
        rw [hname]
        exact List.mem_append_right _ List.mem_cons_self
  have hb : b ≠ newlineByte := fun heq => hnone (heq ▸ hinside)
  refine ⟨_, _, htells, answerLine_of_long ?_ ?_⟩
  · rw [List.length_append, hcompletes.last.resolve_left hb]
    exact Nat.lt_succ_self _
  · rw [List.getLast?_concat]
    exact fun h => hb (Option.some.inj h)

theorem length_encode_replicate (n : Nat) :
    (Text.Utf8.encode (String.ofList (List.replicate n 'a'))).length = n := by
  rw [Text.Utf8.encode, String.toList_ofList]
  induction n with
  | zero => rfl
  | succ n ih =>
    rw [List.replicate_succ, List.flatMap_cons, List.length_append, ih]
    exact Nat.add_comm 1 n

theorem not_mem_replicate {c : Char} (hc : c ≠ 'a') (n : Nat) :
    c ∉ (String.ofList (List.replicate n 'a')).toList := by
  rw [String.toList_ofList, List.mem_replicate]
  exact fun h => hc h.2

end Responder

namespace Probe.Prober

variable {p : Prober} {address : String} {port : UInt16} {s : String} {reply : Wire.Reply}

theorem probe_tcp_of_tells
    (h : Line.Tells (p.net.line address port (Line.greeting p.hostname)) s reply) :
    p.probe .tcp address port =
      if reply.status = "success" then
        .success codeOk (p.net.latency .tcp address) (some s)
      else .failure (.protocol (Line.complaint reply)) (p.net.latency .tcp address) := by
  have hattempt := p.attempt_tcp address port
  rw [Line.run_of_tells h] at hattempt
  split
  · rename_i hsuccess
    rw [if_pos hsuccess] at hattempt
    exact probe_of_ok hattempt
  · rename_i hstatus
    rw [if_neg hstatus] at hattempt
    exact probe_of_error (by decide) hattempt

/-- A node that probes one that answers as this one does is told a reply to its name, whatever the
name, and the probe succeeds if it is a reply of success. A name of one line is repeated without the
carriage returns at its end; one that is longer than a line may be makes the probe fail. -/
theorem greeting_answered
    (hnet : ∀ bytes, p.net.line address port bytes = Responder.lineAnswer bytes) :
    ('\n' ∉ p.hostname.toList → (Text.Utf8.encode p.hostname).length ≤ 4096 →
      ∃ body, (p.probe .tcp address port).status = .success ∧
        (p.probe .tcp address port).code = 200 ∧
        (p.probe .tcp address port).body = some body ∧
        Wire.Reply.ofBytes? (Text.Utf8.encode body) =
          .ok ⟨"success", Responder.withoutReturns p.hostname, ""⟩) ∧
    ('\n' ∉ p.hostname.toList → 4096 < (Text.Utf8.encode p.hostname).length →
      ∃ text, (p.probe .tcp address port).status = .error ∧
        (p.probe .tcp address port).code = 500 ∧
        (p.probe .tcp address port).error = some text ∧ text ≠ "") ∧
    ∃ s reply, Line.Tells (p.net.line address port (Line.greeting p.hostname)) s reply ∧
      ((p.probe .tcp address port).status = .success ↔ reply.status = "success") := by
  refine ⟨fun hline hroom => ?_, fun hline hlong => ?_, ?_⟩
  · have htells := Responder.greeting_short hline hroom
    have hprobe := probe_tcp_of_tells (p := p) (hnet _ ▸ htells)
    rw [hprobe, if_pos (show (Wire.Reply.success _).status = "success" from rfl)]
    exact ⟨_, rfl, rfl, rfl, (Wire.Reply.codes _).reads⟩
  · obtain ⟨s, reply, htells, hstatus⟩ := Responder.greeting_long hline hlong
    have hprobe := probe_tcp_of_tells (p := p) (hnet _ ▸ htells)
    rw [hstatus, if_neg (by decide)] at hprobe
    rw [hprobe]
    refine ⟨"protocol error: " ++ Line.complaint reply, rfl, rfl, rfl, fun hempty => ?_⟩
    have hlength := congrArg String.length hempty
    rw [String.length_append] at hlength
    simp at hlength
  · obtain ⟨front, b, more, -, -, htells⟩ := Responder.greeting_told p.hostname
    rw [← hnet] at htells
    refine ⟨_, _, htells, ?_⟩
    rw [probe_tcp_of_tells htells]
    split <;> simp_all [Outcome.success, Outcome.failure]

/-- A node with a name on a network where every peer answers lines as this node does. -/
def greeter (hostname : String) : Prober where
  webPort := 8080
  timeout := ⟨1000000000⟩
  hostname
  pinger := .none
  net := { Net.unconnected with line := fun _ _ bytes => Responder.lineAnswer bytes }

/-- A name that ends in a carriage return, and one that is too long by one byte. -/
theorem greeting_answered_at_the_ends :
    (∃ body, ((greeter "nöde\r").probe .tcp "10.0.0.2" 5500).body = some body ∧
      Wire.Reply.ofBytes? (Text.Utf8.encode body) = .ok ⟨"success", "nöde", ""⟩) ∧
    ∃ text,
      ((greeter (String.ofList (List.replicate 4097 'a'))).probe .tcp "10.0.0.2" 5500).error =
        some text ∧ text ≠ "" := by
  have hnet (hostname : String) (bytes : List UInt8) :
      (greeter hostname).net.line "10.0.0.2" 5500 bytes = Responder.lineAnswer bytes := rfl
  have hshort := (greeting_answered (hnet "nöde\r")).1 (by decide) (by decide)
  have hlong := (greeting_answered (hnet (String.ofList (List.replicate 4097 'a')))).2.1
    (Responder.not_mem_replicate (by decide) 4097)
    (Nat.lt_of_lt_of_eq (Nat.lt_succ_self 4096) (Responder.length_encode_replicate 4097).symm)
  obtain ⟨body, -, -, hbody, hreads⟩ := hshort
  obtain ⟨text, -, -, htext, hne⟩ := hlong
  exact ⟨⟨body, hbody, hreads⟩, text, htext, hne⟩

end Probe.Prober
end PeerHealth
