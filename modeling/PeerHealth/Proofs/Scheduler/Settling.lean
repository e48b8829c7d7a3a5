import PeerHealth.Proofs.Scheduler.Visits

/-! What a pass of discovery leaves for the next one. A host remembers one address that it was found
at. Main statement: of the candidates that a pass records for one host the next pass leaves out the
last, and each of the others only if it is an address that the host is known by besides. -/

namespace PeerHealth

namespace Store

/-- The host with a number is remembered to have been found at an address. -/
def Database.Remembers (db : Database) (id : Int) (address : String) : Prop :=
  ∃ r ∈ db.hosts, r.id = id ∧ r.discoveredAddress = address

section Remembered

variable {db after : Database} {identity : Identity} {now : String} {host : Host}

theorem HostRow.discoveredAddress_release (identity : Identity) (keep : Int) (r : HostRow) :
    (r.release identity keep).discoveredAddress = r.discoveredAddress := by
  obtain ⟨i, e, -, -, h⟩ := r.release_eq identity keep
  rw [h]

/-- A merge leaves the host that it is about, changed, and every other one without the addresses
taken from it. -/
theorem Database.HostsSound.mem_merged (hdb : db.HostsSound) {r : HostRow} (mem : r ∈ db.hosts)
    (identity : Identity) (hostname now : String) {row : HostRow} :
    row ∈ (db.merged identity hostname now r.id).hosts ↔
      row = r.merge identity hostname now ∨
        ∃ s ∈ db.hosts, s.id ≠ r.id ∧ row = s.release identity r.id := by
  have hkept : r.release identity r.id = r :=
    HostRow.release_of_not_isOther identity (by simp [HostRow.isOther])
  have hid := fun s : HostRow => (s.stripped_release identity r.id).id
  simp only [Database.merged, List.map_map, List.mem_map, Function.comp_apply, hid]
  constructor
  · rintro ⟨s, hs, rfl⟩
    by_cases heq : s.id = r.id
    · rw [if_pos heq, hdb.distinct.eq_of_id hs mem heq, hkept]
      exact .inl rfl
    · exact .inr ⟨s, hs, heq, if_neg heq⟩
  · rintro (rfl | ⟨s, hs, hne, rfl⟩)
    · exact ⟨r, mem, by rw [if_pos rfl, hkept]⟩
    · exact ⟨s, hs, if_neg hne⟩

/-- A host is remembered by the address that it was found at last, and no other host is touched. -/
theorem Upserted.remembers_iff (h : Upserted db identity now (.ok host) after)
    (hdb : db.HostsSound) (hfound : identity.discoveredAddress ≠ "") (id : Int)
    (address : String) :
    after.Remembers id address ↔
      if id = host.id then address = identity.discoveredAddress else db.Remembers id address := by
  cases h with
  | @merged r _ named free mem isPeer found tells =>
    have hhost : host.id = r.id := tells.id
    have hmerge : (r.merge identity (Text.trim identity.hostname) now).discoveredAddress =
        identity.discoveredAddress := if_neg hfound
    rw [hhost]
    constructor
    · rintro ⟨row, hrow, rfl, rfl⟩
      obtain rfl | ⟨s, hs, hne, rfl⟩ := (hdb.mem_merged mem ..).mp hrow
      · exact (if_pos rfl).mpr hmerge
      · rw [(s.stripped_release identity r.id).id, if_neg hne]
        exact ⟨s, hs, rfl, (s.discoveredAddress_release identity r.id).symm⟩
    · split
      · rintro rfl
        exact ⟨_, (hdb.mem_merged mem ..).mpr (.inl rfl), Eq.symm ‹id = r.id›, hmerge⟩
      · rintro ⟨s, hs, rfl, rfl⟩
        exact ⟨_, (hdb.mem_merged mem ..).mpr (.inr ⟨s, hs, ‹_›, rfl⟩),
          (s.stripped_release identity r.id).id, s.discoveredAddress_release identity r.id⟩
  | created named free none room tells =>
    have hhost : host.id = db.lastHost + 1 := tells.id
    rw [hhost]
    constructor
    · rintro ⟨row, hrow, rfl, rfl⟩
      rcases List.mem_append.mp hrow with hrow | hrow
      · obtain ⟨s, hs, rfl⟩ := List.mem_map.mp hrow
        have hnum := (hdb.numbered s hs).2
        rw [(s.stripped_release identity 0).id, if_neg (by omega)]
        exact ⟨s, hs, rfl, (s.discoveredAddress_release identity 0).symm⟩
      · cases List.mem_singleton.mp hrow
        exact (if_pos rfl).mpr rfl
    · split
      · rintro rfl
        exact ⟨_, List.mem_append_right _ (List.mem_singleton_self _), Eq.symm ‹_›, rfl⟩
      · rintro ⟨s, hs, rfl, rfl⟩
        exact ⟨_, List.mem_append_left _ (List.mem_map_of_mem hs),
          (s.stripped_release identity 0).id, s.discoveredAddress_release identity 0⟩

end Remembered

end Store

namespace Scheduler

open Store (Database HostRow Upserted)

/-- The number of the host that an address is recorded for when it is visited. -/
def Seeker.recordOf? (s : Seeker) (t : TimedStore) (address : String) : Option Int :=
  match s.told? address with
  | none => none
  | some identity =>
    match (writeIdentity t identity).1 with
    | .ok host => some host.id
    | .error _ => none

/-- The visits, one after the other, that lead to a record: the number of the host and the
address. -/
def Seeker.recorded (s : Seeker) (t : TimedStore) : List String → List (Int × String)
  | [] => []
  | address :: rest =>
    ((s.recordOf? t address).map (·, address)).toList ++ s.recorded (s.visit t address) rest

/-- The last address that was recorded for a host. -/
def lastOf (recorded : List (Int × String)) (id : Int) : Option String :=
  (recorded.filter (·.1 = id)).getLast?.map (·.2)

theorem lastOf_append (earlier later : List (Int × String)) (id : Int) :
    lastOf (earlier ++ later) id = (lastOf later id).or (lastOf earlier id) := by
  simp only [lastOf, List.filter_append, List.getLast?_append]
  cases (later.filter (·.1 = id)).getLast? <;> rfl

theorem lastOf_of_unique {recorded : List (Int × String)} {id : Int} {address : String}
    (hmem : (id, address) ∈ recorded) (h : ∀ p ∈ recorded, p.1 = id → p.2 = address) :
    lastOf recorded id = some address := by
  cases hlast : (recorded.filter (·.1 = id)).getLast? with
  | none =>
    have hnil := List.getLast?_eq_none_iff.mp hlast
    have hin : (id, address) ∈ recorded.filter (·.1 = id) := by simpa using hmem
    rw [hnil] at hin
    cases hin
  | some p =>
    have hp := List.mem_filter.mp (List.mem_of_getLast? hlast)
    rw [lastOf, hlast, Option.map_some, h p hp.1 (by simpa using hp.2)]

section Runs

variable {s : Seeker} {schedule : Schedule} {t : TimedStore}

theorem leads_eq_isSome (s : Seeker) (t : TimedStore) (address : String) :
    s.leads t address = (s.recordOf? t address).isSome := by
  rw [Seeker.leads, Seeker.recordOf?]
  cases s.told? address with
  | none => rfl
  | some identity => cases h : (writeIdentity t identity).1 <;> simp only [h] <;> rfl

/-- What an address tells says that it was found there. -/
theorem discoveredAddress_told {address : String} {identity : Identity}
    (h : s.told? address = some identity) : identity.discoveredAddress = address := by
  rw [Seeker.told?_eq] at h
  split at h
  · cases h
    rfl
  · cases h

theorem remembers_visit (ht : t.Sound) {address : String} (hne : address ≠ "") (id : Int)
    (a : String) :
    (s.visit t address).store.database.Remembers id a ↔
      if s.recordOf? t address = some id then a = address
      else t.store.database.Remembers id a := by
  obtain ⟨htold, -, hvisit⟩ | ⟨identity, answer, db, htold, hwrite, -, hvisit, h⟩ :=
    visit_cases ht s address
  · simp [Seeker.recordOf?, htold, hvisit]
  · rw [Seeker.recordOf?, htold, hvisit]
    simp only [hwrite]
    cases answer with
    | error fault =>
      have hsame : db = t.store.database := by cases h <;> rfl
      simp [TimedStore.wrote, hsame]
    | ok host =>
      have hfound : identity.discoveredAddress = address := discoveredAddress_told htold
      rw [TimedStore.wrote, h.remembers_iff ht.hosts (hfound ▸ hne), hfound]
      simp only [Option.some.injEq, eq_comm]

/-- After visits a host remembers the address that was recorded for it last. -/
theorem remembers_visits (ht : t.Sound) {addresses : List String} (hne : ∀ a ∈ addresses, a ≠ "")
    (id : Int) (a : String) :
    (s.visits t addresses).store.database.Remembers id a ↔
      lastOf (s.recorded t addresses) id = some a ∨
        lastOf (s.recorded t addresses) id = none ∧ t.store.database.Remembers id a := by
  induction addresses generalizing t with
  | nil => simp [Seeker.recorded, lastOf]
  | cons address rest ih =>
    have hstep := remembers_visit (s := s) ht (hne address (List.mem_cons_self ..)) id a
    rw [visits_cons, ih (sound_visit ht address) fun b hb => hne b (List.mem_cons_of_mem _ hb),
      hstep, Seeker.recorded, lastOf_append]
    cases lastOf (s.recorded (s.visit t address) rest) id with
    | some last => simp
    | none =>
      cases hrecord : s.recordOf? t address with
      | none => simp [lastOf]
      | some number =>
        by_cases hid : number = id
        · simp [lastOf, hid, eq_comm]
        · simp [lastOf, hid]

theorem exists_recorded {fetches : List Fetch}
    (h : fetches.map (·.admitted) = s.outcomes t (fetches.map (·.address))) {f : Fetch}
    (hf : f ∈ fetches) (hadmitted : f.admitted = true) :
    ∃ id, (id, f.address) ∈ s.recorded t (fetches.map (·.address)) := by
  induction fetches generalizing t with
  | nil => cases hf
  | cons g rest ih =>
    simp only [List.map_cons, Seeker.outcomes, List.cons.injEq, leads_eq_isSome] at h
    rw [List.map_cons, Seeker.recorded]
    rcases List.mem_cons.mp hf with rfl | hf
    · obtain ⟨id, hid⟩ := Option.isSome_iff_exists.mp (h.1 ▸ hadmitted)
      exact ⟨id, List.mem_append_left _ (by simp [hid])⟩
    · obtain ⟨id, hid⟩ := ih h.2 hf
      exact ⟨id, List.mem_append_right _ hid⟩

/-- A host is known by its own addresses, and by the one that it is remembered to have been found
at. -/
theorem holdsAddress_iff (db : Database) {a : String} (hne : a ≠ "") :
    db.holdsAddress a = true ↔
      (∃ id, db.Remembers id a) ∨ ∃ r ∈ db.hosts, r.internalAddress = a ∨ r.publicAddress = a := by
  simp only [Database.holdsAddress, List.any_eq_true, HostRow.hasAddress, Bool.and_eq_true,
    Bool.or_eq_true, decide_eq_true_eq, Database.Remembers]
  constructor
  · rintro ⟨r, hr, -, hown | hfound⟩
    · exact .inr ⟨r, hr, hown⟩
    · exact .inl ⟨r.id, r, hr, rfl, hfound⟩
  · rintro (⟨-, r, hr, -, hfound⟩ | ⟨r, hr, hown⟩)
    · exact ⟨r, hr, hne, .inr hfound⟩
    · exact ⟨r, hr, hne, .inl hown⟩

theorem mem_newAddresses {db : Database} {candidates : List String} {a : String} :
    a ∈ db.newAddresses candidates ↔ a ∈ candidates ∧ a ≠ "" ∧ db.holdsAddress a = false := by
  simp [Database.newAddresses]

/-- After a search for addresses that no host was known by, a host is known by one of them if it was
the last one recorded for that host, or is an address of its own. -/
theorem Searched.holdsAddress_iff {tries : List (List String)} {fetches : List Fetch} {count : Nat}
    {after : TimedStore} (h : Searched s t tries fetches count after) (ht : t.Sound)
    (hnew : ∀ f ∈ fetches, f.address ≠ "" ∧ t.store.database.holdsAddress f.address = false)
    {f : Fetch} (hf : f ∈ fetches) :
    after.store.database.holdsAddress f.address = true ↔
      (∃ id, lastOf (s.recorded t (fetches.map (·.address))) id = some f.address) ∨
        ∃ r ∈ after.store.database.hosts,
          r.internalAddress = f.address ∨ r.publicAddress = f.address := by
  have hne : ∀ a ∈ fetches.map (·.address), a ≠ "" := by
    intro a ha
    obtain ⟨g, hg, rfl⟩ := List.mem_map.mp ha
    exact (hnew g hg).1
  have hremembers : ∀ id, after.store.database.Remembers id f.address ↔
      lastOf (s.recorded t (fetches.map (·.address))) id = some f.address := by
    intro id
    have hnot : ¬t.store.database.Remembers id f.address := by
      intro hold
      have hheld := (Scheduler.holdsAddress_iff _ (hnew f hf).1).mpr (.inl ⟨id, hold⟩)
      rw [(hnew f hf).2] at hheld
      cases hheld
    rw [h.after_eq, remembers_visits ht hne]
    exact ⟨fun hid => hid.resolve_right fun hold => hnot hold.2, .inl⟩
  simp only [Scheduler.holdsAddress_iff _ (hnew f hf).1, hremembers]

/-- Of the candidates that a pass of discovery records for one host, the host is known by the last
one, and by each of the others only if it is an address of its own. A pass right after it asks the
candidates that no host is known by, and no others: none that was recorded, unless several were
recorded for one host. -/
theorem discovery_remembers_the_last {writes : List Store.Write}
    (ht : t.store = ({} : Store).after writes) (hclock : ∀ n, (t.clock n).Valid)
    (hdone : schedule.Completes s t) (candidates : List String) :
    ∃ fetches count after, s.discover schedule (.ok candidates) t = (.ok count, after) ∧
      Searched s t ((t.store.database.newAddresses candidates).map ([·])) fetches count after ∧
      (∀ f ∈ fetches, f.admitted = true →
        (after.store.database.holdsAddress f.address = true ↔
          (∃ id, lastOf (s.recorded t (fetches.map (·.address))) id = some f.address) ∨
            ∃ r ∈ after.store.database.hosts,
              r.internalAddress = f.address ∨ r.publicAddress = f.address)) ∧
      ∀ next : Schedule, next.Completes s after →
        ∃ fetches' count' after', s.discover next (.ok candidates) after = (.ok count', after') ∧
          Searched s after ((after.store.database.newAddresses candidates).map ([·])) fetches'
            count' after' ∧
          (∀ f ∈ fetches, f.admitted = true →
            (f.address ∈ fetches'.map (·.address) ↔
              after.store.database.holdsAddress f.address = false)) ∧
          ((∀ p ∈ s.recorded t (fetches.map (·.address)),
              ∀ q ∈ s.recorded t (fetches.map (·.address)), p.1 = q.1 → p.2 = q.2) →
            ∀ f ∈ fetches, f.admitted = true →
              after.store.database.holdsAddress f.address = true ∧
                f.address ∉ fetches'.map (·.address)) := by
  have hsound := TimedStore.sound_of_reachable ht hclock
  obtain ⟨fetches, count, after, hrun, hsearched⟩ := discover_searched hsound.hosts hdone candidates
  -- what is fetched are candidates that no host was known by
  have hnew : ∀ f ∈ fetches, f.address ∈ candidates ∧ f.address ≠ "" ∧
      t.store.database.holdsAddress f.address = false := fun f hf =>
    mem_newAddresses.mp (hsearched.perm.mem_iff.mp (List.mem_map_of_mem hf))
  have hholds := fun f (hf : f ∈ fetches) =>
    hsearched.holdsAddress_iff hsound (fun g hg => (hnew g hg).2) hf
  refine ⟨fetches, count, after, hrun, hsearched, fun f hf _ => hholds f hf, ?_⟩
  intro next hnext
  obtain ⟨fetches', count', after', hrun', hsearched'⟩ :=
    discover_searched (hsearched.sound hsound).hosts hnext candidates
  have hasked : ∀ f ∈ fetches, (f.address ∈ fetches'.map (·.address) ↔
      after.store.database.holdsAddress f.address = false) := by
    intro f hf
    rw [hsearched'.perm.mem_iff, mem_newAddresses]
    exact ⟨fun h => h.2.2, fun h => ⟨(hnew f hf).1, (hnew f hf).2.1, h⟩⟩
  refine ⟨fetches', count', after', hrun', hsearched', fun f hf _ => hasked f hf, ?_⟩
  intro hunique f hf hadmitted
  obtain ⟨id, hid⟩ := exists_recorded hsearched.admitted hf hadmitted
  have hlast := lastOf_of_unique hid fun p hp heq => hunique p hp _ hid heq
  have hknown := (hholds f hf).mpr (.inl ⟨id, hlast⟩)
  refine ⟨hknown, fun hin => ?_⟩
  rw [(hasked f hf).mp hin] at hknown
  cases hknown

end Runs

/-- A node on a network where two addresses answer with the same name. -/
def twofoldSeeker : Seeker where
  prober :=
    { sampleSeeker.prober with
      net :=
        { Probe.Net.unconnected with
          web := fun address _ _ =>
            if address = "10.0.0.2" ∨ address = "10.0.0.3" then
              .ok ⟨200, "\x7b\"hostname\":\"b\"\x7d"⟩
            else .error "no connection" } }
  servicePort := 5500

/-- One host is found at two addresses: it is known by the second, and the first is asked again. -/
theorem discovery_remembers_the_last_of_two :
    (∀ n, (sampleStore.clock n).Valid) ∧ Schedule.Completes inTurn twofoldSeeker sampleStore ∧
      ∃ fetches count after,
        twofoldSeeker.discover inTurn (.ok ["10.0.0.2", "10.0.0.3"]) sampleStore =
          (.ok count, after) ∧
        Searched twofoldSeeker sampleStore [["10.0.0.2"], ["10.0.0.3"]] fetches count after := by
  have hempty : sampleStore.store = ({} : Store).after [] := rfl
  have hclock : ∀ n, (sampleStore.clock n).Valid := fun _ => Time.epoch.2
  have hdone := inTurn_completes twofoldSeeker sampleStore
  obtain ⟨fetches, count, after, hrun, hsearched, -⟩ :=
    discovery_remembers_the_last hempty hclock hdone ["10.0.0.2", "10.0.0.3"]
  exact ⟨hclock, hdone, fetches, count, after, hrun, hsearched⟩

/-- A pass over two candidates. -/
def twofoldPass (t : TimedStore) : Except DiscoveryFault Nat × TimedStore :=
  twofoldSeeker.discover inTurn (.ok ["10.0.0.2", "10.0.0.3"]) t

/-- Both candidates lead to a record, no host is known by the first afterwards, and the next pass
records it anew. -/
theorem discovery_forgets_the_first :
    (twofoldPass sampleStore).1.toOption = some 2 ∧
      (twofoldPass sampleStore).2.store.database.holdsAddress "10.0.0.2" = false ∧
      (twofoldPass (twofoldPass sampleStore).2).1.toOption = some 1 := by
  decide +kernel

end Scheduler
end PeerHealth
