import PeerHealth.Proofs.Store.Runs

/-! Peers that are new to the record. Main statements: an identity that describes no host gets a row
of its own and leaves all others as they are, until there is no number left for it. -/

namespace PeerHealth.Store

/-- The tables with a new peer, and otherwise as they are. -/
def Database.withPeer (db : Database) (identity : Identity) (now : String) : Database :=
  { db with
    hosts := db.hosts ++
      [HostRow.ofPeer identity (Text.trim identity.hostname) now (db.lastHost + 1)]
    lastHost := db.lastHost + 1 }

/-- No host has the identity's name or one of its addresses in the same place. -/
def Database.NewTo (db : Database) (identity : Identity) : Prop :=
  ∀ r ∈ db.hosts, ¬r.DescribedBy identity (Text.trim identity.hostname)

section New

variable {db after : Database} {identity : Identity} {now : String}

theorem HostRow.release_of_not_describedBy {r : HostRow} {hostname : String}
    (h : ¬r.DescribedBy identity hostname) (keep : Int) : r.release identity keep = r := by
  obtain ⟨-, hin, hout⟩ := HostRow.not_describedBy_iff.mp h
  have hinternal : r.dropInternal keep identity.internalAddress = r := by
    by_cases hne : identity.internalAddress = ""
    · rw [hne, dropInternal_empty]
    · exact if_neg (by simp [hin hne])
  have hexternal : r.dropExternal keep identity.publicAddress = r := by
    by_cases hne : identity.publicAddress = ""
    · rw [hne, dropExternal_empty]
    · exact if_neg (by simp [hout hne])
  rw [release, hinternal, hexternal]

/-- An identity that is about no peer and does not describe the local host is new. -/
theorem Database.HostsSound.newTo (hdb : db.HostsSound)
    (named : Text.trim identity.hostname ≠ "")
    (free : ∀ s ∈ db.hosts, s.isSelf = true →
      ¬s.DescribedBy identity (Text.trim identity.hostname))
    (none : db.peerOf? identity (Text.trim identity.hostname) = none) : db.NewTo identity := by
  intro r hr described
  by_cases hself : r.isSelf = true
  · exact free r hr hself described
  · obtain ⟨s, about⟩ := Database.exists_isAbout_of_describedBy named hr
      ((hdb.rows r hr).isPeer_of_not_isSelf hself) described
    exact Database.peerOf?_eq_none_iff.mp none s about

/-- Recording an identity that is new adds a peer, unless there is no number left for it. -/
theorem Upserted.cases_of_new {answer : Except Fault Host}
    (h : Upserted db identity now answer after) (named : Text.trim identity.hostname ≠ "")
    (hnew : db.NewTo identity) :
    (db.lastHost < Cell.highest ∧ answer.isOk = true ∧ after = db.withPeer identity now) ∨
      (db.lastHost = Cell.highest ∧ answer = .error Statements.full ∧ after = db) := by
  cases h with
  | unnamed blank => exact absurd blank named
  | own named mem isSelf described => exact absurd described (hnew _ mem)
  | merged named free mem isPeer found =>
    obtain ⟨r, about, -⟩ := Database.exists_isAbout found
    exact absurd about.describedBy (hnew r about.mem)
  | created named free none room =>
    have hkept : db.hosts.map (HostRow.release identity 0) = db.hosts :=
      (List.map_congr_left fun r hr => HostRow.release_of_not_describedBy (hnew r hr) 0).trans
        (List.map_id _)
    refine .inl ⟨room, rfl, ?_⟩
    rw [Database.created, Database.withPeer, hkept]
  | full named free none last => exact .inr ⟨last, rfl, rfl⟩

end New

/-- A peer that is recorded and deleted, `n` times. -/
def comings (n : Nat) : List Write :=
  (List.range n).flatMap fun k : Nat =>
    [.upsertHost Time.epoch { hostname := "a" }, .deleteHost (k + 1)]

/-- A store without a host that has given out `n` numbers. -/
def forsaken (n : Nat) : Store := { database := { lastHost := n } }

/-- The peer that comes next takes the next number. -/
theorem after_coming {n : Nat} (h : (n : Int) < Cell.highest) :
    (forsaken n).after [.upsertHost Time.epoch { hostname := "a" }, .deleteHost (n + 1)] =
      forsaken (n + 1) := by
  let came : Store :=
    { database :=
        (forsaken n).database.withPeer { hostname := "a" } (Time.storedText Time.epoch.1) }
  have hsound : (forsaken n).database.HostsSound :=
    ⟨fun _ hr => (nomatch hr), List.Pairwise.nil, fun _ hr => (nomatch hr), by
      simp only [forsaken]
      omega⟩
  obtain ⟨answer, after, hrun, hafter⟩ :=
    upsertHost_upserted hsound Time.epoch { hostname := "a" }
  have hcame : after = came.database := by
    obtain ⟨-, -, hcame⟩ | ⟨hlast, -⟩ :=
      hafter.cases_of_new (by decide) fun r hr => (nomatch hr)
    · exact hcame
    · exact absurd hlast (Int.ne_of_lt h)
  subst hcame
  have hnext : came.database.HostsSound :=
    hafter.sound hsound (isStoredTime_storedText Time.epoch)
  obtain ⟨answer', left, hrun', hleft⟩ := deleteHost_deleted hnext (n + 1)
  rw [after_cons, after_cons, after_nil, Store.apply, Store.apply, hrun]
  show (came.deleteHost (n + 1)).2 = _
  rw [hrun']
  cases hleft with
  | missing missing => exact absurd rfl (missing _ (List.mem_singleton_self _))
  | own mem isSelf =>
    cases List.mem_singleton.mp mem
    cases isSelf
  | deleted =>
    simp [came, Database.without, Database.withPeer, forsaken, HostRow.ofPeer]

theorem after_comings {n : Nat} (h : (n : Int) ≤ Cell.highest) :
    ({} : Store).after (comings n) = forsaken n := by
  induction n with
  | zero => rfl
  | succ n ih =>
    have hlt : (n : Int) < Cell.highest := by omega
    rw [comings, List.range_succ, List.flatMap_append, after_append, ← comings,
      ih (Int.le_of_lt hlt), List.flatMap_singleton, after_coming hlt]

end PeerHealth.Store
