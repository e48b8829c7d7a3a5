import PeerHealth.Probe.Run
import PeerHealth.Proofs.Probe.Line

/-! What the outcome of a probe tells of the peer. Main statements: over every protocol a probe
succeeds exactly if the peer did what the protocol asks, and what else the outcome holds is
determined by how it did not; and what becomes of the echo probes of a node that cannot send
requests. -/

namespace PeerHealth.Probe

namespace Datagram

theorem judge_eq_ok_iff {timeout : Duration} {r : Reaction} :
    judge timeout r = .ok () ↔ r = .reply pong := by
  cases r with
  | unsent => simp [judge]
  | silence => simp [judge]
  | refusal => simp [judge]
  | reply bytes =>
    have hpong : pong.length = 5 := by decide
    simp only [judge, Reaction.reply.injEq]
    constructor
    · intro h
      have htake : bytes.take maxReply = pong := by
        by_cases hcut : bytes.take maxReply = pong
        · exact hcut
        · rw [if_neg hcut] at h
          cases h
      -- what was cut off would be longer than a pong
      have hlength := congrArg List.length htake
      rw [List.length_take, hpong, maxReply] at hlength
      rw [← htake, List.take_of_length_le (by rw [maxReply]; omega)]
    · rintro rfl
      exact if_pos (List.take_of_length_le (by rw [hpong, maxReply]; omega))

theorem judge_plain {timeout : Duration} {r : Reaction} {fault : Fault}
    (h : judge timeout r = .error fault) : fault.isPlain = true := by
  cases r with
  | unsent => cases h; rfl
  | silence => cases h; rfl
  | refusal => cases h; rfl
  | reply bytes =>
    simp only [judge] at h
    split at h
    · cases h
    · cases h; rfl

theorem converse_of_error {timeout : Duration} {r : Reaction} {fault : Fault}
    (h : judge timeout r = .error fault) (last : Except Fault Unit) (rs : List Reaction) :
    (converse timeout last (r :: rs)).1 = (converse timeout (.error fault) rs).1 := by
  rw [converse, h]

theorem converse_of_pong {timeout : Duration} {r : Reaction} (h : judge timeout r = .ok ())
    (last : Except Fault Unit) (rs : List Reaction) :
    (converse timeout last (r :: rs)).1 = .ok () := by
  rw [converse, h]

theorem converse_eq_ok_iff {timeout : Duration} {fault : Fault} {rs : List Reaction} :
    (converse timeout (.error fault) rs).1 = .ok () ↔ .reply pong ∈ rs := by
  induction rs generalizing fault with
  | nil => simp [converse]
  | cons r rs ih =>
    cases hjudge : judge timeout r with
    | error e =>
      have hne : Reaction.reply pong ≠ r := by
        intro heq
        rw [judge_eq_ok_iff.mpr heq.symm] at hjudge
        cases hjudge
      rw [converse_of_error hjudge, ih, List.mem_cons, or_iff_right hne]
    | ok u =>
      rw [converse_of_pong hjudge, judge_eq_ok_iff.mp hjudge]
      simp

theorem converse_plain {timeout : Duration} {first fault : Fault} {rs : List Reaction}
    (hfirst : first.isPlain = true) (h : (converse timeout (.error first) rs).1 = .error fault) :
    fault.isPlain = true := by
  induction rs generalizing first with
  | nil =>
    cases h
    exact hfirst
  | cons r rs ih =>
    cases hjudge : judge timeout r with
    | error e =>
      rw [converse_of_error hjudge] at h
      exact ih (judge_plain hjudge) h
    | ok u =>
      rw [converse_of_pong hjudge] at h
      cases h

theorem run_eq_ok_iff {timeout : Duration} {script : Script} :
    (run timeout script).1 = .ok () ↔ ∃ i < attempts, script i = .reply pong := by
  rw [run, converse_eq_ok_iff]
  simp only [List.mem_map, List.mem_range]

theorem run_plain {timeout : Duration} {script : Script} {fault : Fault}
    (h : (run timeout script).1 = .error fault) : fault.isPlain = true :=
  converse_plain rfl h

end Datagram

/-- The text is an address, or the network knows one that stands behind it. -/
inductive Prober.LeadsTo (p : Prober) (address : String) : Address.Literal → Prop
  | literal {ip : Address.Literal} (parses : Address.Literal.parse? address = some ip) :
      LeadsTo p address ip
  | name {ip : Address.Literal} (fails : Address.Literal.parse? address = none)
      (known : p.net.lookup address = .ok ip) : LeadsTo p address ip

/-- How an echo request ends that is sent to the address behind a text, with what is left of the
time limit once that is found. -/
def Prober.Pinged (p : Prober) (address : String) (ends : Except Unanswered Duration) : Prop :=
  ∃ ip, p.LeadsTo address ip ∧
    p.pinger ip ⟨p.timeout.nanoseconds - (p.net.lookupTime address).nanoseconds⟩ = ends

/-- What a protocol asks of the peer at an address and a port. -/
def Prober.Met (p : Prober) (address : String) (port : UInt16) : Protocol → Prop
  | .http => ∃ r : Web.Response,
      p.net.web address p.webPort Web.healthPath = .ok r ∧ r.code.toNat < 400
  | .tcp => ∃ s reply,
      Line.Tells (p.net.line address port (Line.greeting p.hostname)) s reply ∧
        reply.status = "success"
  | .udp => ∃ script : Datagram.Script, p.net.datagram address port = .ok script ∧
      ∃ i < 3, script i = .reply (Text.Utf8.encode "pong\n")
  | .icmp => ∃ roundTrip, p.Pinged address (.ok roundTrip)

/-- What the outcome of a probe tells. -/
structure Prober.Classifies (p : Prober) (address : String) (port : UInt16) (protocol : Protocol)
    (o : Outcome) : Prop where
  success : o.status = .success ↔ p.Met address port protocol
  error : o.error.isSome = true ↔ o.status ≠ .success
  body : o.body.isSome = true ↔ o.status = .success ∧ (protocol = .http ∨ protocol = .tcp)
  unknown : o.status = .unknown ↔ protocol = .icmp ∧ p.Pinged address (.error .unsupported)
  unsupported : o.status = .unknown → o.code = 501
  /-- A web request that failed got a response that says so, or none. -/
  web : protocol = .http → o.status ≠ .success →
    (∃ r : Web.Response, p.net.web address p.webPort Web.healthPath = .ok r ∧
      400 ≤ r.code.toNat ∧ o.code = r.code ∧
      ∀ refusal, Wire.Refusal.ofBytes? (Text.Utf8.encode r.body) = .ok refusal →
        refusal.message ≠ "" → o.error = some refusal.message) ∨
    (∃ reason, p.net.web address p.webPort Web.healthPath = .error reason) ∧ o.code = 408
  failed : protocol ≠ .http → o.status = .error → o.code = 500
  line : protocol = .tcp → ∀ s reply,
    Line.Tells (p.net.line address port (Line.greeting p.hostname)) s reply →
    reply.status ≠ "success" → reply.error ≠ "" →
      o.error = some ("protocol error: " ++ reply.error)

section Probes

variable {p : Prober} {address : String} {port : UInt16}

namespace Prober

theorem resolve_of_leadsTo {ip : Address.Literal} (h : p.LeadsTo address ip) :
    p.resolve address = .ok ip := by
  cases h with
  | literal parses => rw [resolve, parses]
  | name fails known =>
    rw [resolve, fails, known]
    rfl

theorem leadsTo_of_resolve {ip : Address.Literal} (h : p.resolve address = .ok ip) :
    p.LeadsTo address ip := by
  unfold resolve at h
  split at h
  · rename_i parses
    exact .literal (parses.trans (congrArg some (Except.ok.inj h)))
  · rename_i fails
    cases hlookup : p.net.lookup address with
    | ok found =>
      rw [hlookup] at h
      cases h
      exact .name fails hlookup
    | error why =>
      rw [hlookup] at h
      cases h

/-- A text leads to one address at most, so there is one end of the request. -/
theorem Pinged.unique {ends ends' : Except Unanswered Duration} (h : p.Pinged address ends)
    (h' : p.Pinged address ends') : ends = ends' := by
  obtain ⟨ip, hip, rfl⟩ := h
  obtain ⟨ip', hip', rfl⟩ := h'
  have hsame := (resolve_of_leadsTo hip).symm.trans (resolve_of_leadsTo hip')
  rw [Except.ok.inj hsame]

theorem probe_of_ok {protocol : Protocol} {o : Outcome}
    (h : p.attempt protocol address port = .ok o) : p.probe protocol address port = o := by
  rw [probe, h]

theorem probe_of_error {protocol : Protocol} {fault : Fault} (hweb : protocol ≠ .http)
    (h : p.attempt protocol address port = .error fault) :
    p.probe protocol address port =
      .failure fault (p.net.latency protocol address) := by
  rw [probe, h]
  cases protocol with
  | http => exact absurd rfl hweb
  | tcp => rfl
  | udp => rfl
  | icmp => rfl

/-- A peer that can be probed but did not do what was asked. -/
theorem Classifies.of_unmet {protocol : Protocol} {o : Outcome}
    (hmet : ¬p.Met address port protocol)
    (hping : protocol = .icmp → ¬p.Pinged address (.error .unsupported))
    (hstatus : o.status = .error) (herror : o.error.isSome = true) (hbody : o.body = none)
    (hweb : protocol = .http →
      (∃ r : Web.Response, p.net.web address p.webPort Web.healthPath = .ok r ∧
        400 ≤ r.code.toNat ∧ o.code = r.code ∧
        ∀ refusal, Wire.Refusal.ofBytes? (Text.Utf8.encode r.body) = .ok refusal →
          refusal.message ≠ "" → o.error = some refusal.message) ∨
      (∃ reason, p.net.web address p.webPort Web.healthPath = .error reason) ∧ o.code = 408)
    (hfailed : protocol ≠ .http → o.code = 500)
    (hline : protocol = .tcp → ∀ s reply,
      Line.Tells (p.net.line address port (Line.greeting p.hostname)) s reply →
      reply.status ≠ "success" → reply.error ≠ "" →
        o.error = some ("protocol error: " ++ reply.error)) :
    p.Classifies address port protocol o := by
  have hno : ¬o.status = .success := by simp [hstatus]
  have hknown : ¬o.status = .unknown := by simp [hstatus]
  constructor
  · exact ⟨fun h => absurd h hno, fun h => absurd h hmet⟩
  · exact ⟨fun _ => hno, fun _ => herror⟩
  · exact ⟨fun h => by simp [hbody] at h, fun h => absurd h.1 hno⟩
  · exact ⟨fun h => absurd h hknown, fun ⟨hicmp, hunsupported⟩ => absurd hunsupported (hping hicmp)⟩
  · exact fun h => absurd h hknown
  · exact fun h _ => hweb h
  · exact fun h _ => hfailed h
  · exact hline

/-- A plain fault of a probe other than a web request. -/
theorem Classifies.of_plain {protocol : Protocol} {fault : Fault} {latency : Duration}
    (hweb : protocol ≠ .http) (hplain : fault.isPlain = true) (hmet : ¬p.Met address port protocol)
    (hping : protocol = .icmp → ¬p.Pinged address (.error .unsupported))
    (hline : protocol = .tcp → ∀ s reply,
      Line.Tells (p.net.line address port (Line.greeting p.hostname)) s reply →
      reply.status ≠ "success" → fault = .protocol (Line.complaint reply)) :
    p.Classifies address port protocol (.failure fault latency) := by
  have hfailure : Outcome.failure fault latency =
      ⟨.error, codeFailed, latency, none, some fault.message⟩ := by
    cases fault with
    | status code message => cases hplain
    | unsupported => cases hplain
    | timedOut after => rfl
    | network reason => rfl
    | protocol reason => rfl
  rw [hfailure]
  refine .of_unmet hmet hping rfl rfl rfl (fun h => absurd h hweb) (fun _ => rfl) ?_
  intro htcp s reply htells hstatus herror
  rw [hline htcp s reply htells hstatus, Line.complaint, if_neg herror]
  rfl

/-- A probe of which the peer did what was asked. -/
theorem Classifies.of_met {protocol : Protocol} {code : UInt16} {latency : Duration}
    {body : Option String} (hmet : p.Met address port protocol)
    (hbody : body.isSome = true ↔ protocol = .http ∨ protocol = .tcp)
    (hline : protocol = .tcp → ∀ s reply,
      Line.Tells (p.net.line address port (Line.greeting p.hostname)) s reply →
      reply.status = "success") :
    p.Classifies address port protocol (.success code latency body) := by
  constructor
  · exact ⟨fun _ => hmet, fun _ => rfl⟩
  · exact ⟨fun h => (nomatch h), fun h => absurd rfl h⟩
  · exact ⟨fun h => ⟨rfl, hbody.mp h⟩, fun h => hbody.mpr h.2⟩
  · refine ⟨fun h => (nomatch h), fun ⟨hicmp, hunsupported⟩ => ?_⟩
    subst hicmp
    obtain ⟨roundTrip, hok⟩ := hmet
    cases hok.unique hunsupported
  · exact fun h => (nomatch h)
  · exact fun _ h => absurd rfl h
  · exact fun _ h => (nomatch h)
  · exact fun htcp s reply htells hstatus => absurd (hline htcp s reply htells) hstatus

theorem attempt_tcp (p : Prober) (address : String) (port : UInt16) :
    p.attempt .tcp address port =
      (Line.run p.timeout (p.net.line address port (Line.greeting p.hostname))).map
        fun reply => .success codeOk (p.net.latency .tcp address) (some reply) := rfl

theorem classifies_tcp (p : Prober) (address : String) (port : UInt16) :
    p.Classifies address port .tcp (p.probe .tcp address port) := by
  have hattempt := p.attempt_tcp address port
  cases hrun : Line.run p.timeout (p.net.line address port (Line.greeting p.hostname)) with
  | ok s =>
    rw [hrun] at hattempt
    rw [probe_of_ok hattempt]
    obtain ⟨reply, htells, hsuccess⟩ := Line.run_eq_ok_iff.mp hrun
    refine .of_met ⟨s, reply, htells, hsuccess⟩ (by simp) fun _ s' reply' htells' => ?_
    by_cases hstatus : reply'.status = "success"
    · exact hstatus
    · rw [Line.run_of_tells htells', if_neg hstatus] at hrun
      cases hrun
  | error fault =>
    rw [hrun] at hattempt
    rw [probe_of_error (by decide) hattempt]
    refine .of_plain (by decide) (Line.run_plain hrun) ?_ (fun h => (nomatch h))
      fun _ s reply htells hstatus => ?_
    · rintro ⟨s, reply, htells, hsuccess⟩
      rw [Line.run_of_tells htells, if_pos hsuccess] at hrun
      cases hrun
    · rw [Line.run_of_tells htells, if_neg hstatus] at hrun
      cases hrun
      rfl

theorem classifies_udp (p : Prober) (address : String) (port : UInt16) :
    p.Classifies address port .udp (p.probe .udp address port) := by
  cases hopen : p.net.datagram address port with
  | error why =>
    have hattempt : p.attempt .udp address port = .error (why.fault p.timeout) := by
      rw [attempt, hopen]
      rfl
    rw [probe_of_error (by decide) hattempt]
    refine .of_plain (by decide) (by cases why <;> rfl) ?_ (fun h => (nomatch h))
      fun h => (nomatch h)
    rintro ⟨script, hscript, -⟩
    rw [hopen] at hscript
    cases hscript
  | ok script =>
    have hattempt : p.attempt .udp address port =
        (Datagram.run p.timeout script).1.map
          fun _ => .success codeOk (p.net.latency .udp address) none := by
      rw [attempt, hopen]
      rfl
    have hmet : p.Met address port .udp ↔ (Datagram.run p.timeout script).1 = .ok () := by
      rw [Datagram.run_eq_ok_iff]
      constructor
      · rintro ⟨script', hscript, hpong⟩
        rw [hopen] at hscript
        cases hscript
        exact hpong
      · exact fun hpong => ⟨script, hopen, hpong⟩
    cases hrun : (Datagram.run p.timeout script).1 with
    | ok u =>
      rw [hrun] at hattempt
      rw [probe_of_ok hattempt]
      exact .of_met (hmet.mpr hrun) (by simp) fun h => (nomatch h)
    | error fault =>
      rw [hrun] at hattempt
      rw [probe_of_error (by decide) hattempt]
      refine .of_plain (by decide) (Datagram.run_plain hrun) ?_ (fun h => (nomatch h))
        fun h => (nomatch h)
      rw [hmet, hrun]
      exact fun h => (nomatch h)

theorem resolve_plain {fault : Fault} (h : p.resolve address = .error fault) :
    fault.isPlain = true := by
  rw [resolve] at h
  split at h
  · cases h
  · cases hlookup : p.net.lookup address with
    | ok ip =>
      rw [hlookup] at h
      cases h
    | error why =>
      rw [hlookup] at h
      cases h
      cases why <;> rfl

theorem attempt_icmp_of_unresolved {fault : Fault} (h : p.resolve address = .error fault)
    (port : UInt16) :
    p.attempt .icmp address port = .error fault := by
  rw [attempt, h]
  rfl

theorem attempt_icmp_of_resolved {ip : Address.Literal} (h : p.resolve address = .ok ip)
    (port : UInt16) :
    p.attempt .icmp address port =
      ((p.pinger ip (p.timeout.minus (p.net.lookupTime address))).mapError Unanswered.fault).map
        fun roundTrip => .success codeOk roundTrip none := by
  rw [attempt, h]
  rfl

theorem classifies_icmp (p : Prober) (address : String) (port : UInt16) :
    p.Classifies address port .icmp (p.probe .icmp address port) := by
  cases hip : p.resolve address with
  | error fault =>
    have hnone : ∀ ends, ¬p.Pinged address ends := by
      rintro ends ⟨ip, hleads, -⟩
      rw [resolve_of_leadsTo hleads] at hip
      cases hip
    rw [probe_of_error (by decide) (attempt_icmp_of_unresolved hip port)]
    exact .of_plain (by decide) (resolve_plain hip) (fun ⟨_, h⟩ => hnone _ h) (fun _ => hnone _)
      fun h => (nomatch h)
  | ok ip =>
    have hattempt := attempt_icmp_of_resolved hip port
    have hends : p.Pinged address (p.pinger ip (p.timeout.minus (p.net.lookupTime address))) :=
      ⟨ip, leadsTo_of_resolve hip, rfl⟩
    cases hping : p.pinger ip (p.timeout.minus (p.net.lookupTime address)) with
    | ok roundTrip =>
      rw [hping] at hattempt hends
      rw [probe_of_ok hattempt]
      exact .of_met ⟨roundTrip, hends⟩ (by simp) fun h => (nomatch h)
    | error why =>
      rw [hping] at hattempt hends
      rw [probe_of_error (by decide) hattempt]
      have hmet : ¬p.Met address port .icmp := by
        rintro ⟨roundTrip, hok⟩
        cases hends.unique hok
      cases why with
      | unsupported =>
        constructor
        · exact ⟨fun h => (nomatch h), fun h => absurd h hmet⟩
        · exact ⟨fun _ h => (nomatch h), fun _ => rfl⟩
        · exact ⟨fun h => (nomatch h), fun h => (nomatch h.1)⟩
        · exact ⟨fun _ => ⟨rfl, hends⟩, fun _ => rfl⟩
        · exact fun _ => rfl
        · exact fun h => (nomatch h)
        · exact fun _ h => (nomatch h)
        · exact fun h => (nomatch h)
      | timedOut after =>
        exact .of_plain (by decide) rfl hmet (fun _ hno => nomatch hends.unique hno)
          fun h => (nomatch h)
      | network reason =>
        exact .of_plain (by decide) rfl hmet (fun _ hno => nomatch hends.unique hno)
          fun h => (nomatch h)

/-- The message of a refusal goes before the wording of the fault. -/
theorem refusalMessage?_eq_some {body : String} {refusal : Wire.Refusal}
    (hreads : Wire.Refusal.ofBytes? (Text.Utf8.encode body) = .ok refusal)
    (hmessage : refusal.message ≠ "") : Web.refusalMessage? body = some refusal.message := by
  rw [Web.refusalMessage?, hreads]
  exact if_neg hmessage

theorem attempt_http (p : Prober) (address : String) (port : UInt16) :
    p.attempt .http address port =
      (Web.accepted (p.net.web address p.webPort Web.healthPath)).map
        fun r => .success r.code (p.net.latency .http address) (some r.body) := rfl

theorem probe_of_network {reason : String}
    (h : p.attempt .http address port = .error (.network reason)) :
    p.probe .http address port =
      { Outcome.failure (.network reason) (p.net.latency .http address) with
        code := codeNoResponse } := by
  rw [probe, h]

theorem probe_of_refusal {code : UInt16} {message : Option String}
    (h : p.attempt .http address port = .error (.status code message)) :
    p.probe .http address port =
      .failure (.status code message) (p.net.latency .http address) := by
  rw [probe, h]

theorem classifies_http (p : Prober) (address : String) (port : UInt16) :
    p.Classifies address port .http (p.probe .http address port) := by
  have hattempt := p.attempt_http address port
  cases hweb : p.net.web address p.webPort Web.healthPath with
  | error reason =>
    rw [hweb] at hattempt
    rw [probe_of_network hattempt]
    have hmet : ¬p.Met address port .http := by
      rintro ⟨r, hr, -⟩
      rw [hweb] at hr
      cases hr
    exact .of_unmet hmet (fun h => (nomatch h)) rfl rfl rfl (fun _ => .inr ⟨⟨reason, hweb⟩, rfl⟩)
      (fun h => absurd rfl h) fun h => (nomatch h)
  | ok r =>
    by_cases hcode : r.code < 400
    · rw [hweb, Web.accepted, if_pos hcode] at hattempt
      rw [probe_of_ok hattempt]
      exact .of_met ⟨r, hweb, UInt16.lt_iff_toNat_lt.mp hcode⟩ (by simp) fun h => (nomatch h)
    · rw [hweb, Web.accepted, if_neg hcode] at hattempt
      rw [probe_of_refusal hattempt]
      have hrefused : 400 ≤ r.code.toNat := UInt16.le_iff_toNat_le.mp (UInt16.not_lt.mp hcode)
      have hmet : ¬p.Met address port .http := by
        rintro ⟨r', hr', haccepted⟩
        rw [hweb] at hr'
        cases hr'
        omega
      refine .of_unmet hmet (fun h => (nomatch h)) rfl rfl rfl (fun _ => .inl ?_)
        (fun h => absurd rfl h) fun h => (nomatch h)
      refine ⟨r, hweb, hrefused, rfl, fun refusal hreads hmessage => ?_⟩
      rw [refusalMessage?_eq_some hreads hmessage]
      rfl

/-- Whatever the peer does, the outcome of a probe tells whether it did what the protocol asks, and
if not, why. -/
theorem probe_classifies (p : Prober) (protocol : Protocol) (address : String) (port : UInt16) :
    p.Classifies address port protocol (p.probe protocol address port) := by
  cases protocol with
  | http => exact p.classifies_http address port
  | tcp => exact p.classifies_tcp address port
  | udp => exact p.classifies_udp address port
  | icmp => exact p.classifies_icmp address port

/-- A node on a network where `b` does what each protocol asks, whose address takes two fifths of
the time to be found, and where requests to another address cannot be sent. -/
def answeredProber : Prober where
  webPort := 8080
  timeout := ⟨1000000000⟩
  hostname := "a"
  pinger := fun ip left =>
    if ip = .v4 ⟨10, 0, 0, 2⟩ ∧ left = ⟨600000000⟩ then .ok ⟨5000000⟩ else .error .unsupported
  net := { Net.unconnected with
    web := fun address _ path =>
      if address = "b" ∧ path = Web.healthPath then .ok ⟨204, ""⟩ else .error "no connection"
    line := fun address _ _ =>
      if address = "b" then .sent (Text.Utf8.encode (Wire.Reply.success "a").toLine ++ [0]) false
      else .refused
    datagram := fun address _ =>
      if address = "b" then .ok fun i => if i = 2 then .reply Datagram.pong else .silence
      else .error .unconnected
    lookup := fun address =>
      if address = "b" then .ok (.v4 ⟨10, 0, 0, 2⟩) else .error .failed
    lookupTime := fun _ => ⟨400000000⟩ }

theorem answeredProber_met (protocol : Protocol) : answeredProber.Met "b" 5500 protocol := by
  cases protocol with
  | http => exact ⟨⟨204, ""⟩, rfl, by decide⟩
  | tcp => exact ⟨_, _, Line.tells_of_toLine (.success "a") [0] false, rfl⟩
  | udp => exact ⟨_, rfl, 2, by decide, by decide +kernel⟩
  | icmp => exact ⟨_, _, .name (by decide +kernel) rfl, rfl⟩

theorem probe_classifies_of_answered :
    (∀ protocol, (answeredProber.probe protocol "b" 5500).status = .success) ∧
      (answeredProber.probe .tcp "b" 5500).body.isSome = true ∧
      (answeredProber.probe .icmp "10.0.0.3" 5500).status = .unknown ∧
      (answeredProber.probe .icmp "10.0.0.3" 5500).code = 501 := by
  have hb (protocol : Protocol) := answeredProber.probe_classifies protocol "b" 5500
  have hother := answeredProber.probe_classifies .icmp "10.0.0.3" 5500
  have hunsent : answeredProber.Pinged "10.0.0.3" (.error .unsupported) :=
    ⟨.v4 ⟨10, 0, 0, 3⟩, .literal (by decide +kernel), rfl⟩
  have hunknown := hother.unknown.mpr ⟨rfl, hunsent⟩
  have hsuccess (protocol : Protocol) := (hb protocol).success.mpr (answeredProber_met protocol)
  exact ⟨hsuccess, (hb .tcp).body.mpr ⟨hsuccess .tcp, .inr rfl⟩, hunknown,
    hother.unsupported hunknown⟩

/-! ### A node that cannot send echo requests -/

/-- The text is an address, or the network knows one that stands behind it. -/
def Resolves (p : Prober) (address : String) : Prop :=
  (∃ ip, Address.Literal.parse? address = some ip) ∨ ∃ ip, p.net.lookup address = .ok ip

theorem resolve_of_resolves (h : p.Resolves address) : ∃ ip, p.resolve address = .ok ip := by
  rw [resolve]
  cases hparse : Address.Literal.parse? address with
  | some ip => exact ⟨ip, rfl⟩
  | none =>
    rcases h with ⟨ip, hip⟩ | ⟨ip, hip⟩
    · rw [hparse] at hip
      cases hip
    · exact ⟨ip, congrArg (Except.mapError _) hip⟩

theorem resolve_of_not_resolves (h : ¬p.Resolves address) :
    ∃ why, p.net.lookup address = .error why ∧
      p.resolve address = .error (why.fault p.timeout address) := by
  rw [Resolves, not_or, not_exists, not_exists] at h
  obtain ⟨hliteral, hknown⟩ := h
  cases hlookup : p.net.lookup address with
  | ok ip => exact absurd hlookup (hknown ip)
  | error why =>
    refine ⟨why, rfl, ?_⟩
    rw [resolve, Option.eq_none_iff_forall_ne_some.mpr hliteral, hlookup]
    rfl

theorem probe_icmp_of_resolves (hpinger : p.pinger = .none) (h : p.Resolves address) :
    p.probe .icmp address port =
      ⟨.unknown, 501, p.net.latency .icmp address, none, some "unsupported"⟩ := by
  obtain ⟨ip, hip⟩ := resolve_of_resolves h
  have hattempt := attempt_icmp_of_resolved hip port
  rw [hpinger] at hattempt
  exact probe_of_error (by decide) hattempt

/-- Whether this node can send echo requests does not matter then. -/
theorem probe_icmp_of_not_resolves (p : Prober) (address : String) (port : UInt16)
    (h : ¬p.Resolves address) :
    ∃ why, p.net.lookup address = .error why ∧
      p.probe .icmp address port =
        ⟨.error, 500, p.net.latency .icmp address, none,
          some (why.fault p.timeout address).message⟩ := by
  obtain ⟨why, hlookup, hresolve⟩ := resolve_of_not_resolves h
  refine ⟨why, hlookup, ?_⟩
  rw [probe_of_error (by decide) (attempt_icmp_of_unresolved hresolve port)]
  cases why <;> rfl

/-- A node that cannot send echo requests finds that out when it comes to send one: before that the
text has to lead to an address. -/
theorem icmp_unknown_if_resolves (hpinger : p.pinger = .none) (address : String) (port : UInt16) :
    (p.Resolves address →
      p.probe .icmp address port =
        ⟨.unknown, 501, p.net.latency .icmp address, none, some "unsupported"⟩) ∧
    (¬p.Resolves address → ∃ why, p.net.lookup address = .error why ∧
      p.probe .icmp address port =
        ⟨.error, 500, p.net.latency .icmp address, none,
          some (why.fault p.timeout address).message⟩) ∧
    ((p.probe .icmp address port).status = .unknown ↔ p.Resolves address) := by
  refine ⟨probe_icmp_of_resolves hpinger, p.probe_icmp_of_not_resolves address port,
    fun hstatus => Classical.byContradiction fun h => ?_,
    fun h => by rw [probe_icmp_of_resolves hpinger h]⟩
  obtain ⟨why, -, hprobe⟩ := p.probe_icmp_of_not_resolves address port h
  rw [hprobe] at hstatus
  cases hstatus

/-- A node that cannot send echo requests, on a network that knows one name. -/
def unprivileged : Prober where
  webPort := 8080
  timeout := ⟨1000000000⟩
  hostname := "a"
  pinger := .none
  net := { Net.unconnected with
    lookup := fun address =>
      if address = "b" then .ok (.v4 ⟨10, 0, 0, 2⟩) else .error .failed }

theorem icmp_unknown_if_resolves_of_names :
    unprivileged.probe .icmp "b" 5500 = ⟨.unknown, 501, ⟨0⟩, none, some "unsupported"⟩ ∧
      unprivileged.probe .icmp "c" 5500 =
        ⟨.error, 500, ⟨0⟩, none, some "network error: DNS resolution failed"⟩ := by
  have hb : unprivileged.Resolves "b" := .inr ⟨_, rfl⟩
  have hc : ¬unprivileged.Resolves "c" := by
    rintro (⟨ip, hip⟩ | ⟨ip, hip⟩)
    · rw [show Address.Literal.parse? "c" = none by decide] at hip
      cases hip
    · cases hip
  obtain ⟨why, hwhy, hprobe⟩ := (icmp_unknown_if_resolves rfl "c" 5500).2.1 hc
  cases hwhy
  exact ⟨(icmp_unknown_if_resolves rfl "b" 5500).1 hb, hprobe⟩

/-- The name of a peer that nobody knows, or that no name can be. -/
theorem icmp_fails_on_unknown_name :
    unprivileged.pinger = .none ∧
      (unprivileged.probe .icmp "\x00" 3).status = .error ∧
      (unprivileged.probe .icmp "\x00" 3).code = 500 :=
  ⟨rfl, by decide⟩

end Prober
end Probes

end PeerHealth.Probe
