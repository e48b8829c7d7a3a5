import PeerHealth.Proofs.Scheduler.Gossip
import PeerHealth.Proofs.Wire.Codec
import PeerHealth.Responder.Node

/-! What a node says of itself and of its peers when it is asked. Main statement: it is what the
node has on record, and a node that finds it records and passes on just that. -/

namespace PeerHealth

namespace Store

variable {db : Database} {r : HostRow}

/-- Rows of all peers, in the order of the bytes of their names. -/
structure Roster (db : Database) (rows : List HostRow) : Prop where
  peers : rows.Perm (db.hosts.filter fun r => !r.isSelf)
  ordered : rows.Pairwise fun r s => Text.Utf8.encode r.hostname < Text.Utf8.encode s.hostname

/-- There is only one order in which the documents of all peers can be told. -/
theorem Roster.documents_eq {rows : List HostRow} (h : Roster db rows) {ds : List Wire.Document}
    (hperm : ((db.hosts.filter fun r => !r.isSelf).map HostRow.document).Perm ds)
    (hordered : ds.Pairwise fun d e =>
      Text.Utf8.encode d.hostname < Text.Utf8.encode e.hostname) :
    rows.map HostRow.document = ds := by
  have hrows : (rows.map HostRow.document).Pairwise fun d e =>
      Text.Utf8.encode d.hostname < Text.Utf8.encode e.hostname := List.pairwise_map.mpr h.ordered
  exact ((h.peers.map _).trans hperm).eq_of_pairwise
    (fun _ _ _ _ hlt hgt => absurd hgt (List.lt_asymm hlt)) hrows hordered

theorem HostRow.Tells.ofHost {host : Host} (h : r.Tells host) :
    Wire.Document.ofHost host = r.document := by
  rw [Wire.Document.ofHost, HostRow.document, h.hostname, h.internal, h.external]

theorem HostRow.Sound.not_isBlank (h : r.Sound) : Text.isBlank r.hostname = false := by
  refine Bool.eq_false_iff.mpr fun hblank => h.named ?_
  rw [← h.trimmed]
  exact (Text.trim_eq_empty_iff _).mpr hblank

theorem HostRow.Sound.isPeer_eq (h : r.Sound) : r.isPeer = !r.isSelf := by
  by_cases hs : r.isSelf = true
  · rw [hs, HostRow.not_isPeer_of_isSelf hs]
    rfl
  · rw [h.isPeer_of_not_isSelf hs, Bool.eq_false_iff.mpr hs]
    rfl

/-- The hosts that are listed without a condition are read from the rows of the peers. -/
theorem exists_roster {store : Store} (hdb : store.database.HostsSound) :
    ∃ rows hosts, Roster store.database rows ∧ store.hosts {} = .ok hosts ∧
      List.Forall₂ HostRow.Tells rows hosts := by
  have hadmits : store.database.hosts.filter ({} : HostFilter).admits =
      store.database.hosts.filter fun r => !r.isSelf := by
    refine List.filter_congr fun r hr => ?_
    rw [← (hdb.rows r hr).isPeer_eq]
    simp [HostFilter.admits]
  obtain ⟨rows, hosts, hlisting, hhosts, htells⟩ := exists_listing hdb {}
  exact ⟨rows, hosts, ⟨hadmits ▸ hlisting.admitted, hlisting.ordered⟩, hhosts, htells⟩

end Store

namespace Responder

open Store (Database HostRow Roster)
open Wire (Document)

variable {store : Store} {path : String}

/-- A node answers the request for a path with JSON that reads as `a`. -/
def Answers {α : Type} (store : Store) (path : String)
    (read : List UInt8 → Except Json.Problem α) (a : α) : Prop :=
  ∃ body, respond store "GET" path = jsonResponse 200 body ∧
    read (Text.Utf8.encode body) = .ok a

theorem respond_get {answer : Store → WebResponse} (htarget : Target.path? path = some path)
    (hanswer : endpoint? path = some answer) : respond store "GET" path = answer store := by
  rw [respond, htarget]
  simp only [respondAt, hanswer, if_true]

theorem answers_identity (hdb : store.database.HostsSound) {r : HostRow}
    (hr : r ∈ store.database.hosts) (hself : r.isSelf = true)
    (hpath : path = Probe.Web.healthPath ∨ path = checkPath) :
    Answers store path Document.ofBytes? r.document := by
  obtain ⟨me, hme⟩ := (hdb.rows r hr).readSelf hself
  have hrecord : store.selfRecord = .ok me := by
    rw [Store.selfRecord, Database.selfRecord_eq hdb.distinct hr hself, hme]
    rfl
  have hanswer : identityResponse store = jsonResponse 200 r.document.toJson := by
    rw [identityResponse, hrecord, ← (Store.HostRow.readSelf_eq_ok_iff.mp hme).1.ofHost]
  refine ⟨_, ?_, r.document.codes.reads⟩
  rw [← hanswer]
  rcases hpath with rfl | rfl
  · exact respond_get (by decide +kernel) rfl
  · exact respond_get (by decide +kernel) rfl

theorem answers_roster (hdb : store.database.HostsSound) :
    ∃ rows, Roster store.database rows ∧
      Answers store Probe.Web.hostsPath Document.listOfBytes? (rows.map HostRow.document) := by
  obtain ⟨rows, hosts, hroster, hhosts, htells⟩ := Store.exists_roster hdb
  have hdocuments : hosts.map Document.ofHost = rows.map HostRow.document :=
    Store.map_eq_of_tells htells fun _ _ h => h.ofHost
  have hanswer : hostsResponse store =
      jsonResponse 200 (Document.listToJson (rows.map HostRow.document)) := by
    rw [hostsResponse, hhosts, ← hdocuments]
  refine ⟨rows, hroster, _, ?_, (Document.codes_list _).reads⟩
  rw [← hanswer]
  exact respond_get (by decide +kernel) rfl

end Responder

namespace Scheduler

open Responder (Answers webAnswer)
open Store (Cell HostRow Roster)
open Wire (Document)

/-- The row of a peer that says `d` of itself and was found at an address. -/
structure FoundAt (row : HostRow) (d : Document) (address : String) (port : UInt16) : Prop where
  document : row.document = d
  discovered : row.discoveredAddress = address
  servicePort : row.servicePort = .whole port.toNat
  isPeer : row.isPeer = true

section Finding

variable {s : Seeker} {t : TimedStore} {address : String} {d : Document}

theorem told?_of_answers {store : Store}
    (hnet : s.prober.net.web address s.prober.webPort Probe.Web.healthPath =
      webAnswer store Probe.Web.healthPath)
    (hanswers : Answers store Probe.Web.healthPath Document.ofBytes? d)
    (hname : Text.isBlank d.hostname = false) :
    s.told? address = some (d.toIdentity address s.servicePort) := by
  obtain ⟨body, hanswer, hreads⟩ := hanswers
  have hweb : webAnswer store Probe.Web.healthPath = .ok ⟨200, body⟩ := by
    rw [webAnswer, hanswer]
    rfl
  simp only [Seeker.told?, hnet, hweb, hreads]
  exact if_pos ⟨by decide, hname⟩

/-- The visit of an address at which a new host answers adds a row that says what the host does. -/
theorem admit_new (ht : t.Sound)
    (htold : s.told? address = some (d.toIdentity address s.servicePort))
    (hnamed : d.hostname ≠ "") (htrimmed : Text.trim d.hostname = d.hostname)
    (hnew : ∀ r ∈ t.store.database.hosts, r.document.Apart d)
    (hroom : t.store.database.lastHost < Cell.highest) :
    ∃ after row, s.admit address t = (true, after) ∧ after.Sound ∧
      after.store.database.hosts = t.store.database.hosts ++ [row] ∧
      FoundAt row d address s.servicePort := by
  have hnewTo : t.store.database.NewTo (d.toIdentity address s.servicePort) := by
    intro r hr
    show ¬r.DescribedBy _ (Text.trim d.hostname)
    rw [htrimmed]
    exact HostRow.not_describedBy_of_apart (hnew r hr)
  have hvisited := sound_visit ht (s := s) address
  rw [s.admit_eq]
  obtain ⟨hnone, -⟩ | ⟨identity, answer, db, hidentity, -, hleads, hvisit, hwritten⟩ :=
    visit_cases ht s address
  · rw [htold] at hnone
    cases hnone
  cases htold.symm.trans hidentity
  obtain ⟨-, hok, rfl⟩ | ⟨hfull, -⟩ := hwritten.cases_of_new (htrimmed ▸ hnamed) hnewTo
  · refine ⟨_, _, by rw [hleads, hok], hvisited, by rw [hvisit]; rfl, ?_, rfl, rfl,
      (HostRow.isPeer_iff _).mpr rfl⟩
    show (⟨Text.trim d.hostname, ⟨d.addresses.internal, d.addresses.external⟩⟩ : Document) = d
    rw [htrimmed]
  · omega

end Finding

/-- A node that has recorded itself says just that of itself, and lists its peers, each once, in the
order of the bytes of their names. A node that finds it at an address and has no record with its
name or one of its addresses in the same place adds one that says the same of it, if there is a
number left, and lists it. -/
theorem identity_propagates {writes : List Store.Write} {self : HostRow}
    (hself : self ∈ (({} : Store).after writes).database.hosts) (hlocal : self.isSelf = true) :
    (∀ path, path = Probe.Web.healthPath ∨ path = Responder.checkPath →
      Answers (({} : Store).after writes) path Document.ofBytes? self.document) ∧
    (∃ rows, Roster (({} : Store).after writes).database rows ∧
      Answers (({} : Store).after writes) Probe.Web.hostsPath Document.listOfBytes?
        (rows.map HostRow.document) ∧
      ∀ r ∈ rows, r.hostname ≠ self.hostname) ∧
    ∀ (s : Seeker) (t : TimedStore) (address : String) (earlier : List Store.Write),
      t.store = ({} : Store).after earlier → (∀ n, (t.clock n).Valid) →
      s.prober.net.web address s.prober.webPort Probe.Web.healthPath =
        webAnswer (({} : Store).after writes) Probe.Web.healthPath →
      (∀ r ∈ t.store.database.hosts, r.document.Apart self.document) →
      t.store.database.lastHost < Cell.highest →
      ∃ after row, s.admit address t = (true, after) ∧
        after.store.database.hosts = t.store.database.hosts ++ [row] ∧
        FoundAt row self.document address s.servicePort ∧
        ∃ rows, Roster after.store.database rows ∧ row ∈ rows ∧
          Answers after.store Probe.Web.hostsPath Document.listOfBytes?
            (rows.map HostRow.document) := by
  have hdb := Store.hostsSound_after Store.hostsSound_empty writes
  generalize ({} : Store).after writes = store at hself hdb ⊢
  have hidentity : ∀ path, path = Probe.Web.healthPath ∨ path = Responder.checkPath →
      Answers store path Document.ofBytes? self.document :=
    fun _ hpath => Responder.answers_identity hdb hself hlocal hpath
  refine ⟨hidentity, ?_, fun s t address earlier ht hclock hnet hnew hroom => ?_⟩
  · obtain ⟨rows, hroster, hanswers⟩ := Responder.answers_roster hdb
    refine ⟨rows, hroster, hanswers, fun r hr hname => ?_⟩
    obtain ⟨hmem, hpeer⟩ := List.mem_filter.mp (hroster.peers.mem_iff.mp hr)
    rcases hdb.distinct.apart hmem hself with rfl | hap
    · simp [hlocal] at hpeer
    · exact hap.hostname (hdb.rows r hmem).named hname
  · have hsound := hdb.rows self hself
    have htold := told?_of_answers hnet (hidentity _ (.inl rfl)) hsound.not_isBlank
    obtain ⟨after, row, hadmit, hafter, hhosts, hfound⟩ :=
      admit_new (TimedStore.sound_of_reachable ht hclock) htold hsound.named hsound.trimmed hnew
        hroom
    obtain ⟨rows, hroster, hanswers⟩ := Responder.answers_roster hafter.hosts
    refine ⟨after, row, hadmit, hhosts, hfound, rows, hroster, ?_, hanswers⟩
    refine hroster.peers.mem_iff.mpr (List.mem_filter.mpr ⟨?_, ?_⟩)
    · rw [hhosts]
      exact List.mem_append_right _ (List.mem_singleton_self _)
    · rw [HostRow.not_isSelf_of_isPeer hfound.isPeer]
      rfl

/-- A node that has recorded itself and one peer. -/
def neighbour : Store :=
  ({} : Store).after
    [.registerStart Time.epoch ⟨" nöde ", "10.0.0.2", "", "", 5500⟩,
      .upsertHost Time.epoch ⟨"c", "10.0.0.3", "", "", 5500⟩]

/-- A node on a network where it is answered by the neighbour. -/
def neighbourSeeker : Seeker where
  prober :=
    { sampleSeeker.prober with
      net := { Probe.Net.unconnected with web := fun _ _ path => webAnswer neighbour path } }
  servicePort := 5600

/-- The row that the neighbour has of itself. -/
def neighbourRow : HostRow where
  id := 1
  hostname := "nöde"
  internalAddress := "10.0.0.2"
  servicePort := .whole 5500
  firstSeen := Time.storedText Time.epoch
  lastSeen := Time.storedText Time.epoch
  isLocal := .whole 1
  restarts := .whole 0
  firstStart := some (Time.storedText Time.epoch)
  lastStart := some (Time.storedText Time.epoch)

/-- What the neighbour says of itself. -/
def neighbourDocument : Document := ⟨"nöde", ⟨"10.0.0.2", ""⟩⟩

/-- The store of a node that has recorded itself and another peer. -/
def acquainted : TimedStore where
  store := ({} : Store).after
    [.registerStart Time.epoch ⟨"a", "10.0.0.1", "", "", 5600⟩,
      .upsertHost Time.epoch ⟨"b", "10.0.0.4", "", "", 5500⟩]
  clock := fun _ => Time.epoch.1

/-- The neighbour tells its trimmed name and its peer. The node that finds it records it beside the
peer that it has, and tells of both. -/
theorem identity_propagates_beside_another :
    Answers neighbour Probe.Web.healthPath Document.ofBytes? neighbourDocument ∧
      Answers neighbour Probe.Web.hostsPath Document.listOfBytes? [⟨"c", ⟨"10.0.0.3", ""⟩⟩] ∧
      ∃ after row, neighbourSeeker.admit "10.0.0.2" acquainted = (true, after) ∧
        after.store.database.hosts = acquainted.store.database.hosts ++ [row] ∧
        FoundAt row neighbourDocument "10.0.0.2" 5600 ∧
        Answers after.store Probe.Web.hostsPath Document.listOfBytes?
          [⟨"b", ⟨"10.0.0.4", ""⟩⟩, neighbourDocument] := by
  have hself : neighbourRow ∈ neighbour.database.hosts := by decide +kernel
  obtain ⟨hidentity, ⟨known, hknown, htold, -⟩, hadmit⟩ := identity_propagates hself (by decide)
  obtain ⟨after, row, hrun, hhosts, hfound, rows, hroster, -, hanswers⟩ :=
    hadmit neighbourSeeker acquainted "10.0.0.2" _ rfl (fun _ => Time.epoch.2) rfl
      (by decide +kernel) (by decide +kernel)
  have hneighbour : (neighbour.database.hosts.filter fun r => !r.isSelf).map HostRow.document =
      [⟨"c", ⟨"10.0.0.3", ""⟩⟩] := by
    decide +kernel
  have hpeers : (after.store.database.hosts.filter fun r => !r.isSelf).map HostRow.document =
      [⟨"b", ⟨"10.0.0.4", ""⟩⟩, neighbourDocument] := by
    have hold : (acquainted.store.database.hosts.filter fun r => !r.isSelf).map
        HostRow.document = [⟨"b", ⟨"10.0.0.4", ""⟩⟩] := by
      decide +kernel
    have hnew : ([row].filter fun r => !r.isSelf) = [row] :=
      List.filter_cons_of_pos (by rw [HostRow.not_isSelf_of_isPeer hfound.isPeer]; rfl)
    rw [hhosts, List.filter_append, List.map_append, hold, hnew, List.map_singleton,
      hfound.document]
    rfl
  rw [hknown.documents_eq (.of_eq hneighbour) (List.pairwise_singleton _ _)] at htold
  rw [hroster.documents_eq (.of_eq hpeers) (by decide +kernel)] at hanswers
  exact ⟨hidentity _ (.inl rfl), htold, after, row, hrun, hhosts, hfound, hanswers⟩

/-- No number is left for the neighbour, though it is new and answers. -/
theorem identity_not_admitted_to_exhausted :
    neighbourRow ∈ neighbour.database.hosts ∧ neighbourRow.isSelf = true ∧
      neighbourSeeker.told? "10.0.0.2" =
        some (neighbourRow.document.toIdentity "10.0.0.2" 5600) ∧
      exhaustedStore.store.database.hosts = [] ∧
      ∃ after, neighbourSeeker.admit "10.0.0.2" exhaustedStore = (false, after) ∧
        after.store.database.hosts = [] := by
  have hstore : exhaustedStore =
      { store := Store.forsaken 9223372036854775807, clock := fun _ => Time.epoch.1 } := by
    rw [exhaustedStore, Store.after_comings (by decide)]
  rw [hstore, Seeker.admit_eq]
  have hleads : neighbourSeeker.leads
      { store := Store.forsaken 9223372036854775807, clock := fun _ => Time.epoch.1 }
      "10.0.0.2" = false := by
    decide +kernel
  rw [hleads]
  exact ⟨by decide +kernel, by decide, by decide +kernel, rfl, _, rfl, by decide +kernel⟩

end Scheduler
end PeerHealth
