import PeerHealth.Proofs.Scheduler.Search
import PeerHealth.Proofs.Store.Listing

/-! Admission to the record. Main statement: in whatever order attempts advance, what discovery
writes is what the addresses it has to try answer, each once. -/

namespace PeerHealth

namespace Store

/-- Whether `a` is an address that the host of a row is known by. -/
def HostRow.hasAddress (r : HostRow) (a : String) : Bool :=
  a ≠ "" && (r.internalAddress = a || r.publicAddress = a || r.discoveredAddress = a)

/-- Whether a stored host, the local one included, is known by an address. -/
def Database.holdsAddress (db : Database) (a : String) : Bool := db.hosts.any (·.hasAddress a)

/-- Whether a stored host, the local one included, has the document's name or one of its
addresses. -/
def Database.holdsDocument (db : Database) (d : Wire.Document) : Bool :=
  db.hosts.any fun r =>
    r.hostname = d.hostname || r.hasAddress d.addresses.internal ||
      r.hasAddress d.addresses.external

/-- The non-empty ones of some addresses that are not addresses of a stored host. -/
def Database.newAddresses (db : Database) (addresses : List String) : List String :=
  addresses.filter fun a => a ≠ "" && !db.holdsAddress a

/-- The documents with a name that are not of a stored host. -/
def Database.newDocuments (db : Database) (ds : List Wire.Document) : List Wire.Document :=
  ds.filter fun d => !Text.isBlank d.hostname && !db.holdsDocument d

theorem HostRow.Tells.hasAddress {r : HostRow} {h : Host} (htells : r.Tells h) (a : String) :
    h.hasAddress a = r.hasAddress a := by
  rw [Host.hasAddress, HostRow.hasAddress, htells.internal, htells.external, htells.discovered]

end Store

namespace Scheduler

open Store (Database HostRow)

/-- All stored hosts are known, the local one included. -/
theorem exists_knownHosts {store : Store} (hdb : store.database.HostsSound) :
    ∃ known, knownHosts store = .ok known ∧
      (∀ a, known.any (·.hasAddress a) = store.database.holdsAddress a) ∧
        ∀ d, isKnown known d = store.database.holdsDocument d := by
  have hall : store.database.hosts.filter ({ includeLocal := true } : Store.HostFilter).admits =
      store.database.hosts := List.filter_eq_self.mpr fun r _ => by simp [Store.HostFilter.admits]
  obtain ⟨rows, known, hlisting, hknown, htells⟩ :=
    Store.exists_listing hdb { includeLocal := true }
  have hperm : rows.Perm store.database.hosts := hall ▸ hlisting.admitted
  refine ⟨known, hknown, fun a => ?_, fun d => ?_⟩
  · rw [Database.holdsAddress, ← hperm.any_eq]
    exact Store.any_eq_of_tells htells fun r host h => h.hasAddress a
  · rw [isKnown, Database.holdsDocument, ← hperm.any_eq]
    refine Store.any_eq_of_tells htells ?_
    intro r host h
    rw [h.hasAddress, h.hasAddress, h.hostname]

section Runs

variable {s : Seeker} {schedule : Schedule} {t : TimedStore}

/-- Discovery runs a search for each candidate that is not an address of a stored host. -/
theorem discover_eq_run (hdb : t.store.database.HostsSound) (candidates : List String) :
    let attempts := toTry ((t.store.database.newAddresses candidates).map ([·]))
    let search := Search.run s ⟨attempts, t⟩ (schedule attempts)
    s.discover schedule (.ok candidates) t = (.ok search.count, search.timed) := by
  obtain ⟨known, hknown, haddress, -⟩ := exists_knownHosts hdb
  have hnew : unknownCandidates known candidates = t.store.database.newAddresses candidates := by
    simp only [unknownCandidates, Database.newAddresses, haddress]
  rw [toTry, List.map_map, ← hnew]
  simp only [Seeker.discover, hknown, Function.comp_def]

theorem discover_searched (hdb : t.store.database.HostsSound) (hdone : schedule.Completes s t)
    (candidates : List String) :
    ∃ fetches count after, s.discover schedule (.ok candidates) t = (.ok count, after) ∧
      Searched s t ((t.store.database.newAddresses candidates).map ([·])) fetches count after := by
  obtain ⟨fetches, hsearched⟩ :=
    searched_run (hdone (toTry ((t.store.database.newAddresses candidates).map ([·]))))
  exact ⟨fetches, _, _, discover_eq_run hdb candidates, hsearched⟩

/-- Expansion runs a search for each document that a peer gives of a host that is not stored. -/
theorem expand_eq_run (hdb : t.store.database.HostsSound) {peer : Host} {ds : List Wire.Document}
    (hpublic : peer.publicAddress ≠ "") (hasked : s.prober.knownHosts peer.publicAddress = .ok ds) :
    let attempts := toTry ((t.store.database.newDocuments ds).map documentAddresses)
    let search := Search.run s ⟨attempts, t⟩ (schedule attempts)
    s.expand schedule peer t = (search.count, search.timed) := by
  obtain ⟨known, hknown, -, hdocument⟩ := exists_knownHosts hdb
  have hnew : freshDocuments known ds = t.store.database.newDocuments ds := by
    simp only [freshDocuments, Database.newDocuments, hdocument]
  have haddress : peer.address? .external = some peer.publicAddress := if_neg hpublic
  rw [toTry, List.map_map, ← hnew]
  simp only [Seeker.expand, haddress, hasked, hknown, Function.comp_def]

theorem expand_searched (hdb : t.store.database.HostsSound) (hdone : schedule.Completes s t)
    {peer : Host} {ds : List Wire.Document} (hpublic : peer.publicAddress ≠ "")
    (hasked : s.prober.knownHosts peer.publicAddress = .ok ds) :
    ∃ fetches count after, s.expand schedule peer t = (count, after) ∧
      Searched s t ((t.store.database.newDocuments ds).map documentAddresses) fetches count
        after := by
  obtain ⟨fetches, hsearched⟩ :=
    searched_run (hdone (toTry ((t.store.database.newDocuments ds).map documentAddresses)))
  exact ⟨fetches, _, _, expand_eq_run hdb hpublic hasked, hsearched⟩

theorem expand_of_silent {peer : Host}
    (h : peer.publicAddress = "" ∨
      ∃ fault, s.prober.knownHosts peer.publicAddress = .error fault) :
    s.expand schedule peer t = (0, t) := by
  by_cases hpublic : peer.publicAddress = ""
  · have haddress : peer.address? .external = none := if_pos hpublic
    rw [Seeker.expand, haddress]
  · have haddress : peer.address? .external = some peer.publicAddress := if_neg hpublic
    obtain ⟨fault, hasked⟩ := h.resolve_left hpublic
    simp only [Seeker.expand, haddress, hasked]

/-- In whatever order attempts come to an end, discovery fetches the candidates that are not an
address of a stored host, and expansion, for each document that the peer answers with and that is
not of a stored host, first the public address and the internal one only if that does not lead to a
record. What is told there is written, each time once, and nothing else. The answer counts the
attempts that led to a record. A peer that answers with no documents leads to nothing. -/
theorem discovery_records_what_is_told {writes : List Store.Write}
    (ht : t.store = ({} : Store).after writes) (hdone : schedule.Completes s t) :
    (∀ reason, s.discover schedule (.error reason) t = (.error (.unresolved reason), t)) ∧
    (∀ candidates, ∃ fetches count after,
      s.discover schedule (.ok candidates) t = (.ok count, after) ∧
        Searched s t ((t.store.database.newAddresses candidates).map ([·])) fetches count after ∧
        (fetches.map (·.address)).Perm (t.store.database.newAddresses candidates)) ∧
    (∀ peer, s.gossip? peer = none → s.expand schedule peer t = (0, t)) ∧
    ∀ peer ds, s.gossip? peer = some ds →
      ∃ fetches count after, s.expand schedule peer t = (count, after) ∧
        Searched s t ((t.store.database.newDocuments ds).map fun d =>
          [d.addresses.external, d.addresses.internal].filter (· ≠ "")) fetches count after := by
  have hdb : t.store.database.HostsSound := by
    rw [ht]
    exact Store.hostsSound_after Store.hostsSound_empty writes
  refine ⟨fun _ => rfl, fun candidates => ?_,
    fun peer h => expand_of_silent (Seeker.gossip?_eq_none_iff.mp h), fun peer ds h => ?_⟩
  · obtain ⟨fetches, count, after, hrun, hsearched⟩ := discover_searched hdb hdone candidates
    exact ⟨fetches, count, after, hrun, hsearched, hsearched.perm⟩
  · obtain ⟨hpublic, hasked⟩ := Seeker.gossip?_eq_some_iff.mp h
    exact expand_searched hdb hdone hpublic hasked

end Runs

/-- A node on a network where one address answers. -/
def sampleSeeker : Seeker where
  prober :=
    { webPort := 8080
      timeout := ⟨1000000000⟩
      hostname := "a"
      pinger := .none
      net :=
        { Probe.Net.unconnected with
          web := fun address _ _ =>
            if address = "10.0.0.2" then .ok ⟨200, "\x7b\"hostname\":\"b\"\x7d"⟩
            else .error "no connection" } }
  servicePort := 5500

def sampleStore : TimedStore := { store := {}, clock := fun _ => Time.epoch.1 }

/-- What a peer says of itself and of others: of a host without a name, of one that does not answer,
of one that answers at its internal address only, and of one that answers at its public one. -/
def gossipedDocuments : List Wire.Document :=
  [⟨"b", ⟨"10.0.0.2", "1.2.3.2"⟩⟩, ⟨"", ⟨"10.0.0.9", ""⟩⟩, ⟨"c", ⟨"10.0.0.3", "1.2.3.3"⟩⟩,
    ⟨"d", ⟨"10.0.0.4", "1.2.3.4"⟩⟩, ⟨"e", ⟨"", "1.2.3.5"⟩⟩]

/-- Who answers, and as whom. -/
def answersAt (address : String) : Option Wire.Document :=
  match address with
  | "10.0.0.2" | "1.2.3.2" => some ⟨"b", ⟨"10.0.0.2", "1.2.3.2"⟩⟩
  | "10.0.0.4" => some ⟨"d", ⟨"10.0.0.4", "1.2.3.4"⟩⟩
  | "1.2.3.5" => some ⟨"e", ⟨"", "1.2.3.5"⟩⟩
  | _ => none

/-- A node on a network where a peer knows other hosts. -/
def gossipSeeker : Seeker where
  prober :=
    { sampleSeeker.prober with
      net :=
        { Probe.Net.unconnected with
          web := fun address _ path =>
            if path = Probe.Web.hostsPath then
              if address = "1.2.3.2" then .ok ⟨200, Wire.Document.listToJson gossipedDocuments⟩
              else .error "no connection"
            else
              match answersAt address with
              | some d => .ok ⟨200, d.toJson⟩
              | none => .error "no connection" } }
  servicePort := 5500

/-- The peer as it is stored. -/
def gossipPeer : Host where
  id := 1
  hostname := "b"
  internalAddress := "10.0.0.2"
  publicAddress := "1.2.3.2"
  discoveredAddress := "10.0.0.2"
  servicePort := 5500
  firstSeen := Time.epoch.1
  lastSeen := Time.epoch.1
  isLocal := false

/-- A store with the peer. -/
def gossipStore : TimedStore where
  store := ({} : Store).after [.upsertHost Time.epoch
    { hostname := "b", internalAddress := "10.0.0.2", publicAddress := "1.2.3.2"
      discoveredAddress := "10.0.0.2", servicePort := 5500 }]
  clock := fun _ => Time.epoch.1

theorem gossipSeeker_gossip : gossipSeeker.gossip? gossipPeer = some gossipedDocuments := by
  have hweb : gossipSeeker.prober.net.web "1.2.3.2" 8080 Probe.Web.hostsPath =
      .ok ⟨200, Wire.Document.listToJson gossipedDocuments⟩ := by
    simp only [gossipSeeker, if_true]
  exact Seeker.gossip?_of_answer (by decide) hweb (by decide)

/-- The searches that the peer's documents lead to. -/
def gossipTries : List (List String) :=
  [["1.2.3.3", "10.0.0.3"], ["1.2.3.4", "10.0.0.4"], ["1.2.3.5"]]

/-- Of four candidates two are fetched, and one of them leads to a record. Of the five hosts that
the peer names three are tried, of which one answers at its first address and one at its second. -/
theorem discovery_records_what_is_told_in_turn :
    Schedule.Completes inTurn gossipSeeker gossipStore ∧
      gossipSeeker.gossip? gossipPeer = some gossipedDocuments ∧
      (∃ fetches after,
        gossipSeeker.discover inTurn (.ok ["10.0.0.2", "10.0.0.3", "10.0.0.4", ""]) gossipStore =
          (.ok 1, after) ∧
        Searched gossipSeeker gossipStore [["10.0.0.3"], ["10.0.0.4"]] fetches 1 after ∧
        (fetches.map (·.address)).Perm ["10.0.0.3", "10.0.0.4"]) ∧
      ∃ fetches after,
        gossipSeeker.expand inTurn gossipPeer gossipStore = (2, after) ∧
        Searched gossipSeeker gossipStore gossipTries fetches 2 after ∧
        after.store.database.hosts.map (·.hostname) = ["b", "d", "e"] := by
  have hdone := inTurn_completes gossipSeeker gossipStore
  have hdb : gossipStore.store.database.HostsSound :=
    Store.hostsSound_after Store.hostsSound_empty _
  obtain ⟨-, hdiscover, -, hexpand⟩ :=
    @discovery_records_what_is_told gossipSeeker inTurn gossipStore _ rfl hdone
  refine ⟨hdone, gossipSeeker_gossip, ?_, ?_⟩
  · obtain ⟨fetches, count, after, hrun, hsearched, hperm⟩ :=
      hdiscover ["10.0.0.2", "10.0.0.3", "10.0.0.4", ""]
    have hnew : gossipStore.store.database.newAddresses
        ["10.0.0.2", "10.0.0.3", "10.0.0.4", ""] = ["10.0.0.3", "10.0.0.4"] := by
      decide +kernel
    have hcount : (Search.run gossipSeeker ⟨toTry [["10.0.0.3"], ["10.0.0.4"]], gossipStore⟩
        (inTurn (toTry [["10.0.0.3"], ["10.0.0.4"]]))).count = 1 := by
      decide +kernel
    have hsame := hrun.symm.trans (discover_eq_run hdb _)
    rw [hnew] at hsearched hperm hsame
    obtain rfl : count = 1 := (Except.ok.inj (Prod.ext_iff.mp hsame).1).trans hcount
    exact ⟨fetches, after, hrun, hsearched, hperm⟩
  · obtain ⟨fetches, count, after, hrun, hsearched⟩ := hexpand gossipPeer _ gossipSeeker_gossip
    have hnew : (gossipStore.store.database.newDocuments gossipedDocuments).map
        documentAddresses = gossipTries := by
      decide +kernel
    let search := Search.run gossipSeeker ⟨toTry gossipTries, gossipStore⟩
      (inTurn (toTry gossipTries))
    have hends : search.count = 2 ∧
        search.timed.store.database.hosts.map (·.hostname) = ["b", "d", "e"] := by
      decide +kernel
    obtain ⟨hpublic, hasked⟩ := Seeker.gossip?_eq_some_iff.mp gossipSeeker_gossip
    have hsame : (count, after) = (search.count, search.timed) := by
      have heq := hrun.symm.trans (expand_eq_run hdb hpublic hasked)
      rwa [hnew] at heq
    clear_value search
    cases hsame
    rw [hends.1] at hrun hsearched
    rw [← hnew]
    exact ⟨fetches, _, hrun, hsearched, hends.2⟩

end Scheduler
end PeerHealth
