import PeerHealth.Proofs.Store.Lists
import PeerHealth.Proofs.Store.Runs
import PeerHealth.Proofs.Text.Order

/-! Listings of hosts. Main statement: whatever a filter asks for, each stored host that it asks for
is listed, once, and the names stand in the order of their bytes. -/

namespace PeerHealth.Store

/-- The rows that a filter admits, in the order of the bytes of their names. -/
structure Listing (db : Database) (filter : HostFilter) (rows : List HostRow) : Prop where
  admitted : rows.Perm (db.hosts.filter filter.admits)
  ordered : rows.Pairwise fun r s => Text.Utf8.encode r.hostname < Text.Utf8.encode s.hostname

theorem HostFilter.arrange_perm (filter : HostFilter) (rows : List HostRow) :
    (filter.arrange rows).Perm rows := by
  unfold arrange
  split
  · exact inOrder_perm _ rows
  · exact .refl rows

theorem Database.HostsSound.hostname_lt {db : Database} (hdb : db.HostsSound) {r s : HostRow}
    (hr : r ∈ db.hosts) (hap : r.Apart s) (hle : r.hostname ≤ s.hostname) :
    r.hostname < s.hostname := by
  refine String.not_le.mp fun hge => hap.hostname (hdb.rows r hr).named ?_
  exact String.le_antisymm hle hge

theorem pairwise_hostname_le (rows : List HostRow) :
    (inOrder (fun r s : HostRow => decide (r.hostname ≤ s.hostname)) rows).Pairwise
      fun r s => r.hostname ≤ s.hostname := by
  have htrans (x y z : HostRow) (hxy : decide (x.hostname ≤ y.hostname) = true)
      (hyz : decide (y.hostname ≤ z.hostname) = true) :
      decide (x.hostname ≤ z.hostname) = true :=
    decide_eq_true (String.le_trans (of_decide_eq_true hxy) (of_decide_eq_true hyz))
  have htotal (x y : HostRow) : decide (x.hostname ≤ y.hostname) = true ∨
      decide (y.hostname ≤ x.hostname) = true :=
    (String.le_total x.hostname y.hostname).imp decide_eq_true decide_eq_true
  exact (inOrder_pairwise htrans htotal rows).imp of_decide_eq_true

/-- What is listed is what the rows that a filter admits tell of. -/
theorem exists_listing {store : Store} (hdb : store.database.HostsSound) (filter : HostFilter) :
    ∃ rows hosts, Listing store.database filter rows ∧ store.hosts filter = .ok hosts ∧
      List.Forall₂ HostRow.Tells rows hosts := by
  let arranged := filter.arrange (store.database.hosts.filter filter.admits)
  let rows := inOrder (fun r s : HostRow => decide (r.hostname ≤ s.hostname)) arranged
  have hperm : rows.Perm (store.database.hosts.filter filter.admits) :=
    (inOrder_perm _ arranged).trans (filter.arrange_perm _)
  have hmem : ∀ r ∈ rows, r ∈ store.database.hosts := fun r hr =>
    (List.mem_filter.mp (hperm.mem_iff.mp hr)).1
  have hdistinct : Distinct rows :=
    (hperm.pairwise_iff HostRow.Apart.symm).mpr (hdb.distinct.filter _)
  obtain ⟨hosts, hread, htells⟩ := exists_readAll fun r hr => (hdb.rows r (hmem r hr)).read
  refine ⟨rows, hosts, ⟨hperm, ?_⟩, hread, htells⟩
  refine List.Pairwise.imp_of_mem (fun {r s} hr _ h => ?_)
    ((pairwise_hostname_le arranged).and hdistinct)
  exact Text.Utf8.encode_lt (hdb.hostname_lt (hmem r hr) h.2 h.1)

/-- Whatever the tables hold, a host is listed if it is what an admitted row tells of. -/
theorem mem_hosts_iff {store : Store} {filter : HostFilter} {hosts : List Host}
    (h : store.hosts filter = .ok hosts) {host : Host} :
    host ∈ hosts ↔
      ∃ r ∈ store.database.hosts, filter.admits r = true ∧ r.Tells host := by
  rw [mem_iff_of_readAll h]
  simp only [((inOrder_perm _ _).trans (filter.arrange_perm _)).mem_iff, List.mem_filter,
    HostRow.read_eq_ok_iff, and_assoc]

/-- Whether a filter asks for a host. The time of the filter and the time at which the host was last
seen have to stand to each other as `since` says. -/
def HostFilter.AsksFor (filter : HostFilter) (since : Time.Instant → Time.Instant → Prop)
    (h : Host) : Prop :=
  (filter.includeLocal = true ∨ h.isLocal = false) ∧
    (filter.withPublicAddress = true → h.publicAddress ≠ "") ∧
    ∀ t, filter.seenSince = some t → since t h.lastSeen

section Asking

variable {filter : HostFilter} {r : HostRow} {h : Host}

theorem HostRow.Sound.lastSeen_told (hr : r.Sound) (tells : r.Tells h) :
    h.lastSeen.Valid ∧ Time.storedText h.lastSeen = r.lastSeen := by
  obtain ⟨t, ht, hseen⟩ := hr.lastSeen
  have hread := tells.lastSeen
  rw [hseen, Time.parseTime?_storedText ht] at hread
  obtain rfl := Option.some.inj hread
  exact ⟨ht, hseen.symm⟩

/-- A filter admits the rows of the hosts that it asks for. -/
theorem HostFilter.admits_iff_of_tells (tells : r.Tells h)
    (hseen : Time.storedText h.lastSeen = r.lastSeen) :
    filter.admits r = true ↔
      filter.AsksFor (fun t u => Time.storedText t ≤ Time.storedText u) h := by
  cases hsince : filter.seenSince <;>
    simp [admits, AsksFor, hsince, tells.isLocal_eq, tells.external, hseen, and_assoc,
      or_iff_not_imp_left]

theorem HostFilter.admits_iff (hr : r.Sound) (tells : r.Tells h) :
    filter.admits r = true ↔
      filter.AsksFor (fun t u => Time.storedText t ≤ Time.storedText u) h :=
  admits_iff_of_tells tells (hr.lastSeen_told tells).2

/-- Two ways to compare times that agree on a host and the filter's time ask for the host alike. -/
theorem HostFilter.asksFor_congr {since since' : Time.Instant → Time.Instant → Prop}
    (heq : ∀ t, filter.seenSince = some t → (since t h.lastSeen ↔ since' t h.lastSeen)) :
    filter.AsksFor since h ↔ filter.AsksFor since' h :=
  and_congr_right fun _ => and_congr_right fun _ =>
    forall_congr' fun t => forall_congr' fun hsince => heq t hsince

end Asking

/-- After every run each stored host that a filter asks for is listed once, and nothing else is, in
the order of the bytes of the names. Times are compared as they are stored. For a host that was
last seen in a year of four digits this is as in time, but for a filter with a time past the year
9999, since which every such host counts as seen. -/
theorem hosts_lists_each_once (writes : List Write) {filter : HostFilter}
    (valid : ∀ t, filter.seenSince = some t → t.Valid) :
    let store := ({} : Store).after writes
    ∃ hosts, store.hosts filter = .ok hosts ∧
      (hosts.Pairwise fun g h => Text.Utf8.encode g.hostname < Text.Utf8.encode h.hostname) ∧
      (∀ h ∈ hosts, ∃ r ∈ store.database.hosts, r.Tells h) ∧
      ∀ r ∈ store.database.hosts, ∃ h, r.Tells h ∧
        (h ∈ hosts ↔
          filter.AsksFor (fun t u => Time.storedText t ≤ Time.storedText u) h) ∧
        (h.lastSeen.FourDigitYear →
          (h ∈ hosts ↔ filter.AsksFor (fun t u => 9999 < t.date.year ∨ ¬u.Before t) h)) := by
  intro store
  have hdb : store.database.HostsSound := hostsSound_after hostsSound_empty writes
  obtain ⟨rows, hosts, hlisting, hhosts, htells⟩ := exists_listing hdb filter
  refine ⟨hosts, hhosts, ?_, fun h hh => ?_, fun r hr => ?_⟩
  · have hnames : (hosts.map fun h => Text.Utf8.encode h.hostname).Pairwise (· < ·) := by
      rw [map_eq_of_tells htells fun r h tells => congrArg Text.Utf8.encode tells.hostname]
      exact List.pairwise_map.mpr hlisting.ordered
    exact List.pairwise_map.mp hnames
  · obtain ⟨r, hr, -, tells⟩ := (mem_hosts_iff hhosts).mp hh
    exact ⟨r, hr, tells⟩
  · obtain ⟨h, tells⟩ := (hdb.rows r hr).read
    have hadmitted : h ∈ hosts ↔ filter.admits r = true := by
      refine (mem_hosts_iff hhosts).trans ⟨?_, fun hadmits => ⟨r, hr, hadmits, tells⟩⟩
      rintro ⟨s, hs, hadmits, tells'⟩
      rwa [hdb.distinct.eq_of_id hr hs (tells.id.symm.trans tells'.id)]
    have hstored := hadmitted.trans (HostFilter.admits_iff (hdb.rows r hr) tells)
    refine ⟨h, tells, hstored, fun hyear => hstored.trans (HostFilter.asksFor_congr ?_)⟩
    intro t hsince
    exact Time.storedText_le_iff (valid t hsince) ((hdb.rows r hr).lastSeen_told tells).1 hyear

/-- Hosts that are seen around a leap second. -/
def sightings : List Write :=
  [.upsertHost ⟨⟨60, 0⟩, by decide⟩ { hostname := "c" },
    .upsertHost ⟨⟨59, 999999999⟩, by decide⟩ { hostname := "a" },
    .upsertHost ⟨⟨59, 1500000000⟩, by decide⟩ { hostname := "b" },
    .registerStart ⟨⟨60, 0⟩, by decide⟩ { hostname := "d" }]

/-- A filter with the start of the leap second. -/
def leapFilter : HostFilter := { seenSince := some ⟨59, 1000000000⟩ }

/-- Of those hosts the peers that were seen within the leap second or after it are listed. -/
theorem hosts_lists_each_once_of_leap_second :
    (∀ t, leapFilter.seenSince = some t → t.Valid) ∧
      ∃ hosts, (({} : Store).after sightings).hosts leapFilter = .ok hosts ∧
        hosts.map (·.hostname) = ["b", "c"] ∧
        ∀ r ∈ (({} : Store).after sightings).database.hosts, ∃ h, r.Tells h ∧
          (h ∈ hosts ↔ h.isLocal = false ∧ ¬h.lastSeen.Before ⟨59, 1000000000⟩) := by
  have valid : ∀ t, leapFilter.seenSince = some t → t.Valid := by
    rintro t ⟨⟩
    decide
  have hyears : ∀ r ∈ (({} : Store).after sightings).database.hosts,
      ((Time.parseTime? r.lastSeen).all fun t => decide t.FourDigitYear) = true := by
    decide +kernel
  obtain ⟨hosts, hhosts, -, -, hlisted⟩ := hosts_lists_each_once sightings valid
  have hnames : ((({} : Store).after sightings).hosts leapFilter).toOption.map
      (·.map (·.hostname)) = some ["b", "c"] := by decide +kernel
  rw [hhosts] at hnames
  refine ⟨valid, hosts, hhosts, Option.some.inj hnames, fun r hr => ?_⟩
  obtain ⟨h, tells, -, hasked⟩ := hlisted r hr
  have hyear : h.lastSeen.FourDigitYear :=
    of_decide_eq_true ((Option.all_eq_true _ _).mp (hyears r hr) _ tells.lastSeen)
  have hnear : ¬9999 < (⟨59, 1000000000⟩ : Time.Instant).date.year := by decide
  refine ⟨h, tells, (hasked hyear).trans ?_⟩
  simp [HostFilter.AsksFor, leapFilter, hnear]

/-- The year 10000 is to come, and a host that was last seen in 1970 counts as seen since. -/
theorem hosts_lists_unseen_since_far_year :
    (⟨253402300800, 0⟩ : Time.Instant).Valid ∧
      ∃ hosts h,
        (({} : Store).after [.upsertHost Time.epoch { hostname := "a" }]).hosts
          { seenSince := some ⟨253402300800, 0⟩ } = .ok hosts ∧
        h ∈ hosts ∧ h.lastSeen.Before ⟨253402300800, 0⟩ := by
  have hseen : ((({} : Store).after [.upsertHost Time.epoch { hostname := "a" }]).hosts
      { seenSince := some ⟨253402300800, 0⟩ }).toOption.map (·.map (·.lastSeen)) =
        some [Time.epoch.1] := by decide +kernel
  obtain ⟨hosts, hhosts, hmap⟩ := Option.map_eq_some_iff.mp hseen
  obtain ⟨h, hh, hlast⟩ := List.mem_map.mp (hmap ▸ List.mem_singleton_self Time.epoch.1)
  refine ⟨by decide, hosts, h, toOption_eq_some_iff.mp hhosts, hh, ?_⟩
  rw [hlast]
  decide

end PeerHealth.Store
