import PeerHealth.Proofs.Store.Changes

/-! Whose the checks are. Main statement: after every run each row of a check is of a host that is
there, and a host that is gone never comes back under its number. -/

namespace PeerHealth.Store

/-- Every row of a check is of a host that is there. -/
structure Database.Owned (db : Database) : Prop where
  checks : ∀ r ∈ db.checks, ∃ h ∈ db.hosts, r.columns.host = .whole h.id
  latest : ∀ r ∈ db.latest, ∃ h ∈ db.hosts, r.columns.host = .whole h.id
  counters : ∀ r ∈ db.counters, ∃ h ∈ db.hosts, r.host = .whole h.id

/-- Nothing is kept of checks under a number. -/
structure Database.Bare (db : Database) (id : Int) : Prop where
  checks : ∀ r ∈ db.checks, r.columns.host.isNumber id = false
  latest : ∀ r ∈ db.latest, r.columns.host.isNumber id = false
  counters : ∀ r ∈ db.counters, r.host.isNumber id = false

namespace Database

variable {db after : Database}

theorem Owned.of_hostsKept (h : db.Owned) (hk : db.HostsKept after) : after.Owned := by
  have howner : ∀ {c : Cell}, (∃ r ∈ db.hosts, c = .whole r.id) →
      ∃ s ∈ after.hosts, c = .whole s.id := by
    rintro c ⟨r, hr, rfl⟩
    obtain ⟨s, hs, hid⟩ := hk.hosts r hr
    exact ⟨s, hs, by rw [hid]⟩
  refine ⟨fun r hr => ?_, fun r hr => ?_, fun r hr => ?_⟩
  · rw [hk.checks] at hr
    exact howner (h.checks r hr)
  · rw [hk.latest] at hr
    exact howner (h.latest r hr)
  · rw [hk.counters] at hr
    exact howner (h.counters r hr)

theorem Owned.without (h : db.Owned) (id : Int) : (db.without id).Owned := by
  have howner : ∀ {c : Cell}, (∃ r ∈ db.hosts, c = .whole r.id) → (!c.isNumber id) = true →
      ∃ s ∈ (db.without id).hosts, c = .whole s.id := by
    rintro c ⟨r, hr, rfl⟩ hne
    exact ⟨r, mem_without.mpr ⟨hr, by simpa using hne⟩, rfl⟩
  refine ⟨fun r hr => ?_, fun r hr => ?_, fun r hr => ?_⟩
  · obtain ⟨hmem, hne⟩ := List.mem_filter.mp hr
    exact howner (h.checks r hmem) hne
  · obtain ⟨hmem, hne⟩ := List.mem_filter.mp hr
    exact howner (h.latest r hmem) hne
  · obtain ⟨hmem, hne⟩ := List.mem_filter.mp hr
    exact howner (h.counters r hmem) hne

theorem Owned.of_atMostOneGone (h : db.Owned) (hg : db.AtMostOneGone after) : after.Owned := by
  rcases hg with hk | ⟨r, -, -, hk⟩
  · exact h.of_hostsKept hk
  · exact (h.without r.id).of_hostsKept hk

theorem Owned.logged (h : db.Owned) {host : Int} {result : CheckResult} {now : String}
    {limit : Nat} {r : HostRow} (mem : r ∈ db.hosts) (hid : r.id = host) :
    (db.logged host result now limit).Owned := by
  have hnew : ∃ s ∈ db.hosts, (Cell.whole host) = .whole s.id := ⟨r, mem, by rw [hid]⟩
  refine ⟨fun row hrow => ?_, fun row hrow => ?_, fun row hrow => ?_⟩
  · rcases List.mem_append.mp ((trimmed_sublist _ _ _).subset hrow) with hrow | hrow
    · exact h.checks row hrow
    · rw [List.mem_singleton.mp hrow]
      exact hnew
  · rcases mem_putRow hrow with hrow | rfl | ⟨s, hs, -, rfl⟩
    · exact h.latest row hrow
    · exact hnew
    · exact h.latest s hs
  · rcases mem_putRow hrow with hrow | rfl | ⟨s, hs, -, rfl⟩
    · exact h.counters row hrow
    · exact hnew
    · exact h.counters s hs

/-- Under the number of no host nothing is kept. -/
theorem Owned.bare (h : db.Owned) {id : Int} (hid : ∀ r ∈ db.hosts, r.id ≠ id) : db.Bare id := by
  have hne : ∀ {c : Cell}, (∃ r ∈ db.hosts, c = .whole r.id) → c.isNumber id = false := by
    rintro c ⟨r, hr, rfl⟩
    simpa using hid r hr
  exact ⟨fun r hr => hne (h.checks r hr), fun r hr => hne (h.latest r hr),
    fun r hr => hne (h.counters r hr)⟩

end Database

theorem owned_empty : ({} : Store).database.Owned :=
  ⟨fun _ h => (nomatch h), fun _ h => (nomatch h), fun _ h => (nomatch h)⟩

theorem owned_apply {store : Store} (hdb : store.database.HostsSound) (h : store.database.Owned)
    (w : Write) : (store.apply w).database.Owned := by
  cases hw : w.isCheck with
  | false => exact h.of_atMostOneGone (atMostOneGone_apply hdb hw)
  | true =>
    cases w with
    | recordCheck now host result =>
      obtain ⟨answer, after, hrun, hlog⟩ := store.recordCheck_logged now.1 host result
      rw [Store.apply, hrun]
      cases hlog with
      | refused => exact h
      | logged c mem hid => exact h.logged mem hid
    | _ => cases hw

theorem owned_after {store : Store} (hdb : store.database.HostsSound) (h : store.database.Owned)
    (writes : List Write) : (store.after writes).database.Owned := by
  induction writes generalizing store with
  | nil => exact h
  | cons w writes ih => exact ih (hostsSound_apply hdb w) (owned_apply hdb h w)

/-! ### Numbers -/

/-- The number of a host that is gone is no host's, and no host to come gets it. -/
theorem open_of_open_apply {store : Store} (hdb : store.database.HostsSound) {w : Write} {id : Int}
    (h : (store.apply w).database.Open id) : store.database.Open id := by
  cases hw : w.isCheck with
  | false => exact (frame_apply hdb hw).isOpen id h
  | true =>
    obtain ⟨hhosts, hlast⟩ := store.hosts_apply_of_isCheck hw
    rwa [Database.Open, hhosts, hlast] at h

theorem open_of_open_after {store : Store} (hdb : store.database.HostsSound) {writes : List Write}
    {id : Int} (h : (store.after writes).database.Open id) : store.database.Open id := by
  induction writes generalizing store with
  | nil => exact h
  | cons w writes ih => exact open_of_open_apply hdb (ih (hostsSound_apply hdb w) h)

theorem lastHost_le_apply {store : Store} (hdb : store.database.HostsSound) (w : Write) :
    store.database.lastHost ≤ (store.apply w).database.lastHost := by
  cases hw : w.isCheck with
  | false =>
    rcases atMostOneGone_apply hdb hw with hk | ⟨r, -, -, hk⟩
    · exact hk.lastHost
    · exact hk.lastHost
  | true => exact Int.le_of_eq (store.hosts_apply_of_isCheck hw).2.symm

/-- The number of a host that a write removes is closed from then on. -/
theorem not_open_after {store : Store} (hdb : store.database.HostsSound) {w : Write} {id : Int}
    (there : ∃ r ∈ store.database.hosts, r.id = id)
    (removed : ∀ r ∈ (store.apply w).database.hosts, r.id ≠ id) (later : List Write) :
    ¬((store.apply w).after later).database.Open id := by
  intro ho
  obtain ⟨r, hr, rfl⟩ := there
  have hlast := lastHost_le_apply hdb w
  have hnum := (hdb.numbered r hr).2
  rcases open_of_open_after (hostsSound_apply hdb w) ho with ⟨s, hs, hid⟩ | hlt
  · exact removed s hs hid
  · omega

/-! ### What is read under a number -/

section Reads

variable {store : Store} {id : Int}

theorem Database.Bare.checks_eq_nil (h : store.database.Bare id) (network : Network)
    (protocol : Protocol) (limit : Nat) : store.checks ⟨id, network, protocol⟩ limit = .ok [] := by
  have hnone : store.database.checks.filter (·.columns.isIn ⟨id, network, protocol⟩) = [] :=
    List.filter_eq_nil_iff.mpr fun r hr => by simp [CheckColumns.isIn, h.checks r hr]
  rw [Store.checks, Database.history, hnone, inOrder, upTo]
  simp [readAll]
  rfl

theorem Database.Bare.latestChecks_eq_nil (h : store.database.Bare id) :
    store.latestChecks id = .ok [] := by
  have hnone : store.database.latest.filter (·.columns.host.isNumber id) = [] :=
    List.filter_eq_nil_iff.mpr fun r hr => by simp [h.latest r hr]
  rw [latestChecks, hnone]
  rfl

theorem Database.Bare.uptime (h : store.database.Bare id) {host : Host}
    (found : store.hostById id = .ok host) : store.uptime id = .ok (some { host := id }) := by
  have hnone : store.database.counters.filter (·.host.isNumber id) = [] :=
    List.filter_eq_nil_iff.mpr fun r hr => by simp [h.counters r hr]
  rw [Store.uptime, found, hnone]
  rfl

theorem uptime_eq_notFound (h : store.hostById id = .error .notFound) :
    store.uptime id = .error .notFound := by
  rw [Store.uptime, h]
  rfl

end Reads

/-! ### Hosts that are gone, and hosts that are new -/

/-- No host has the number, nothing is kept under it, and no host is given it. -/
structure Gone (store : Store) (id : Int) : Prop where
  hostById : store.hostById id = .error .notFound
  uptime : store.uptime id = .error .notFound
  recordCheck : ∀ now result, store.recordCheck now id result = (.error .notFound, store)
  deleteHost : store.deleteHost id = (.error .notFound, store)
  checks : ∀ network protocol limit, store.checks ⟨id, network, protocol⟩ limit = .ok []
  latest : store.latestChecks id = .ok []
  upsertHost : ∀ (now : Time.Moment) identity host,
    (store.upsertHost now.1 identity).1 = .ok host → host.id ≠ id
  registerStart : ∀ (now : Time.Moment) identity record,
    (store.registerStart now.1 identity).1 = .ok record → record.host.id ≠ id
  refreshSelf : ∀ (now : Time.Moment) identity record,
    (store.refreshSelf now.1 identity).1 = .ok record → record.host.id ≠ id

/-- A host of which no check has been recorded. -/
structure Unchecked (store : Store) (id : Int) : Prop where
  uptime : store.uptime id = .ok (some { host := id })
  checks : ∀ network protocol limit, store.checks ⟨id, network, protocol⟩ limit = .ok []
  latest : store.latestChecks id = .ok []

theorem Upserted.open_id {db after : Database} {identity : Identity} {now : String} {host : Host}
    (h : Upserted db identity now (.ok host) after) : db.Open host.id := by
  cases h with
  | merged named free mem isPeer found tells => exact .inl ⟨_, mem, tells.id.symm⟩
  | created named free none room tells =>
    refine .inr ?_
    rw [tells.id]
    exact Int.lt_add_one_of_le (Int.le_refl _)

theorem SelfWritten.open_id {db after : Database} {identity : Identity} {started : Bool}
    {now : String} {record : PeerHealth.SelfRecord}
    (h : SelfWritten db identity started now (.ok record) after) : db.Open record.host.id := by
  cases h with
  | rewritten named mem isSelf fits reads =>
    have htells := (HostRow.readSelf_eq_ok_iff.mp reads).1
    refine .inl ⟨_, mem, ?_⟩
    rw [htells.id, (HostRow.rewrite_fields _ identity _ started now).1]
  | started named peers starts room reads =>
    have htells := (HostRow.readSelf_eq_ok_iff.mp reads).1
    refine .inr ?_
    rw [htells.id]
    exact Int.lt_add_one_of_le (Int.le_refl _)

theorem gone_of_not_open {store : Store} {id : Int} (hdb : store.database.HostsSound)
    (howned : store.database.Owned) (h : ¬store.database.Open id) : Gone store id := by
  have hid : ∀ r ∈ store.database.hosts, r.id ≠ id := fun r hr heq => h (.inl ⟨r, hr, heq⟩)
  have hfound : store.hostById id = .error .notFound := Database.hostById_eq_notFound hid
  have hbare := howned.bare hid
  have hask : ∀ {α : Type} (f : Host → Statements α),
      store.transact (Statements.ask (·.hostById id) >>= f) = (.error .notFound, store) := by
    intro α f
    have hmissing : Statements.exec (Statements.ask (·.hostById id)) store.database =
        (.error .notFound, store.database) := by
      rw [Statements.exec_ask, Database.hostById_eq_notFound hid]
    exact transact_of_exec_error (Statements.exec_bind_of_error hmissing)
  refine ⟨hfound, uptime_eq_notFound hfound, fun now result => hask _, hask _,
    hbare.checks_eq_nil, hbare.latestChecks_eq_nil, ?_, ?_, ?_⟩
  · rintro now identity host hok rfl
    obtain ⟨answer, after, hrun, hcase⟩ := upsertHost_upserted hdb now identity
    rw [hrun] at hok
    cases hok
    exact h hcase.open_id
  · rintro now identity record hok rfl
    obtain ⟨answer, after, hrun, hcase⟩ := registerStart_selfWritten hdb now identity
    rw [hrun] at hok
    cases hok
    exact h hcase.open_id
  · rintro now identity record hok rfl
    obtain ⟨answer, after, hrun, hcase⟩ := refreshSelf_selfWritten hdb now identity
    rw [hrun] at hok
    cases hok
    exact h hcase.open_id

/-- Of a host that a write adds nothing is kept yet. -/
theorem unchecked_of_new {store : Store} (hdb : store.database.HostsSound)
    (howned : store.database.Owned) {w : Write} {r : HostRow}
    (hr : r ∈ (store.apply w).database.hosts) (new : ∀ s ∈ store.database.hosts, s.id ≠ r.id) :
    Unchecked (store.apply w) r.id := by
  have hsound := hostsSound_apply hdb w
  obtain ⟨host, htells⟩ := (hsound.rows r hr).read
  have hfound : (store.apply w).hostById r.id = .ok host :=
    Database.hostById_eq_ok hsound.distinct hr htells
  have hbare : (store.apply w).database.Bare r.id := by
    cases hw : w.isCheck with
    | false =>
      have hold : ∀ {db : Database}, db.Bare r.id → db.HostsKept (store.apply w).database →
          (store.apply w).database.Bare r.id := by
        intro db hbare hk
        exact ⟨hk.checks ▸ hbare.checks, hk.latest ▸ hbare.latest, hk.counters ▸ hbare.counters⟩
      rcases atMostOneGone_apply hdb hw with hk | ⟨s, -, -, hk⟩
      · exact hold (howned.bare new) hk
      · refine hold ((howned.without s.id).bare ?_) hk
        exact fun s hs => new s (Database.mem_without.mp hs).1
    | true =>
      rw [(store.hosts_apply_of_isCheck hw).1] at hr
      exact absurd rfl (new r hr)
  exact ⟨hbare.uptime hfound, hbare.checks_eq_nil, hbare.latestChecks_eq_nil⟩

/-- After every run each row of a check is of a host that is there. A host that a write removes is
gone for good: whatever is written later, nothing is found under its number, and no host gets it.
Of a host that a write adds nothing is kept yet. -/
theorem removed_stays_removed (writes : List Write) :
    (({} : Store).after writes).database.Owned ∧
    (∀ (w : Write) (id : Int),
      (∃ r ∈ (({} : Store).after writes).database.hosts, r.id = id) →
      (∀ r ∈ ((({} : Store).after writes).apply w).database.hosts, r.id ≠ id) →
      ∀ later, Gone (((({} : Store).after writes).apply w).after later) id) ∧
    ∀ (w : Write), ∀ r ∈ ((({} : Store).after writes).apply w).database.hosts,
      (∀ s ∈ (({} : Store).after writes).database.hosts, s.id ≠ r.id) →
      Unchecked ((({} : Store).after writes).apply w) r.id := by
  have hdb := hostsSound_after hostsSound_empty writes
  have howned := owned_after hostsSound_empty owned_empty writes
  refine ⟨howned, fun w id there removed later => ?_, fun w r hr new => ?_⟩
  · have hdb' := hostsSound_apply hdb w
    exact gone_of_not_open (hostsSound_after hdb' later)
      (owned_after hdb' (owned_apply hdb howned w) later) (not_open_after hdb there removed later)
  · exact unchecked_of_new hdb howned hr new

/-- A peer of which a check is recorded. -/
def checkedPeer : List Write :=
  [.upsertHost Time.epoch { hostname := "a" }, .recordCheck Time.epoch 1 sampleResult]

/-- The peer is gone when it is deleted, also after it has come back under another number, and when
the local host starts under its name. -/
theorem removed_stays_removed_of_peer :
    (∃ r ∈ (({} : Store).after checkedPeer).database.hosts, r.id = 1) ∧
      (∀ r ∈ ((({} : Store).after checkedPeer).apply (.deleteHost 1)).database.hosts, r.id ≠ 1) ∧
      Gone (((({} : Store).after checkedPeer).apply (.deleteHost 1)).after
        [.upsertHost Time.epoch { hostname := "a" }]) 1 ∧
      (∀ r ∈ ((({} : Store).after checkedPeer).apply
        (.registerStart Time.epoch { hostname := "a" })).database.hosts, r.id ≠ 1) ∧
      Gone (((({} : Store).after checkedPeer).apply
        (.registerStart Time.epoch { hostname := "a" })).after []) 1 ∧
      ∃ r ∈ ((({} : Store).after (checkedPeer ++ [.deleteHost 1])).apply
        (.upsertHost Time.epoch { hostname := "a" })).database.hosts,
        r.id = 2 ∧ Unchecked ((({} : Store).after (checkedPeer ++ [.deleteHost 1])).apply
          (.upsertHost Time.epoch { hostname := "a" })) r.id := by
  have hthere : ∃ r ∈ (({} : Store).after checkedPeer).database.hosts, r.id = 1 := by
    decide +kernel
  have hdeleted : ∀ r ∈ ((({} : Store).after checkedPeer).apply (.deleteHost 1)).database.hosts,
      r.id ≠ 1 := by decide +kernel
  have hstale : ∀ r ∈ ((({} : Store).after checkedPeer).apply
      (.registerStart Time.epoch { hostname := "a" })).database.hosts, r.id ≠ 1 := by
    decide +kernel
  have hback : ∃ r ∈ ((({} : Store).after (checkedPeer ++ [.deleteHost 1])).apply
      (.upsertHost Time.epoch { hostname := "a" })).database.hosts, r.id = 2 := by
    decide +kernel
  have hnone : ∀ s ∈ (({} : Store).after (checkedPeer ++ [.deleteHost 1])).database.hosts,
      s.id ≠ 2 := by decide +kernel
  obtain ⟨r, hr, hid⟩ := hback
  obtain ⟨-, hgone, -⟩ := removed_stays_removed checkedPeer
  obtain ⟨-, -, hnew⟩ := removed_stays_removed (checkedPeer ++ [.deleteHost 1])
  exact ⟨hthere, hdeleted, hgone _ 1 hthere hdeleted _, hstale, hgone _ 1 hthere hstale _, r, hr,
    hid, hnew _ r hr (by rw [hid]; exact hnone)⟩

end PeerHealth.Store
