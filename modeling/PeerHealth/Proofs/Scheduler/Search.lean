import PeerHealth.Proofs.Wire.Codec
import PeerHealth.Scheduler.Discovery

/-! Attempts that advance in any order. Main statement: which addresses each attempt fetches, that
the store is written once for each fetch that is answered and not otherwise, and how many attempts
succeed. -/

namespace PeerHealth.Scheduler

open Probe (Prober)

/-- A fetch of an identity: the attempt that makes it, the address, and whether it leads to a
record. -/
structure Fetch where
  attempt : Nat
  address : String
  admitted : Bool
deriving DecidableEq, Repr

/-- The identity that an address answers with: it is asked who it is and answers, not with an error,
but with a document that gives a name. -/
def Seeker.told? (s : Seeker) (address : String) : Option Identity :=
  match s.prober.net.web address s.prober.webPort Probe.Web.healthPath with
  | .error _ => none
  | .ok response =>
    match Wire.Document.ofBytes? (Text.Utf8.encode response.body) with
    | .error _ => none
    | .ok d =>
      if response.code < 400 ∧ Text.isBlank d.hostname = false then
        some (d.toIdentity address s.servicePort)
      else none

/-- The documents that a peer answers with when it is asked whom it knows: it is asked at its public
address, if it has one, and answers, not with an error, but with a list of documents. -/
def Seeker.gossip? (s : Seeker) (peer : Host) : Option (List Wire.Document) :=
  if peer.publicAddress = "" then none
  else
    match s.prober.net.web peer.publicAddress s.prober.webPort Probe.Web.hostsPath with
    | .error _ => none
    | .ok response =>
      match Wire.Document.listOfBytes? (Text.Utf8.encode response.body) with
      | .error _ => none
      | .ok ds => if response.code < 400 then some ds else none

def writeIdentity (t : TimedStore) (identity : Identity) :
    Except Store.Fault Host × TimedStore :=
  t.write fun store now => store.upsertHost now identity

/-- The store after identities have been written one after the other. -/
def writeAll (t : TimedStore) (identities : List Identity) : TimedStore :=
  identities.foldl (fun t identity => (writeIdentity t identity).2) t

/-- Whether the fetch of an address leads to a record: it answers with an identity, and this is
written. -/
def Seeker.leads (s : Seeker) (t : TimedStore) (address : String) : Bool :=
  match s.told? address with
  | none => false
  | some identity => (writeIdentity t identity).1.isOk

/-- The store after an address has been fetched. -/
def Seeker.visit (s : Seeker) (t : TimedStore) (address : String) : TimedStore :=
  match s.told? address with
  | none => t
  | some identity => (writeIdentity t identity).2

/-- For each of some addresses, fetched one after the other, whether it leads to a record. -/
def Seeker.outcomes (s : Seeker) (t : TimedStore) : List String → List Bool
  | [] => []
  | address :: rest => s.leads t address :: s.outcomes (s.visit t address) rest

/-- The addresses of an attempt have been fetched in turn, up to the first that leads to a
record. -/
inductive Tried : List String → List Fetch → Prop
  | none : Tried [] []
  | found (i : Nat) (address : String) (rest : List String) :
      Tried (address :: rest) [⟨i, address, true⟩]
  | missed {rest : List String} {fetches : List Fetch} (i : Nat) (address : String)
      (later : Tried rest fetches) : Tried (address :: rest) (⟨i, address, false⟩ :: fetches)

theorem Seeker.told?_eq (s : Seeker) (address : String) :
    s.told? address =
      match s.prober.identity address with
      | .ok d => some (d.toIdentity address s.servicePort)
      | .error _ => none := by
  rw [told?, Prober.identity]
  cases s.prober.net.web address s.prober.webPort Probe.Web.healthPath with
  | error reason => rfl
  | ok response =>
    simp only [Probe.Web.identity, Probe.Web.asked, Probe.Web.accepted]
    by_cases hcode : response.code < 400
    · simp only [if_pos hcode, bind, Except.bind]
      cases Wire.Document.ofBytes? (Text.Utf8.encode response.body) with
      | error problem => rfl
      | ok d => cases hblank : Text.isBlank d.hostname <;> simp [hcode, hblank]
    · simp only [if_neg hcode, bind, Except.bind]
      cases Wire.Document.ofBytes? (Text.Utf8.encode response.body) with
      | error problem => rfl
      | ok d => simp [hcode]

theorem Seeker.gossip?_eq {s : Seeker} {peer : Host} (h : peer.publicAddress ≠ "") :
    s.gossip? peer =
      match s.prober.knownHosts peer.publicAddress with
      | .ok ds => some ds
      | .error _ => none := by
  rw [gossip?, if_neg h, Prober.knownHosts]
  cases s.prober.net.web peer.publicAddress s.prober.webPort Probe.Web.hostsPath with
  | error reason => rfl
  | ok response =>
    simp only [Probe.Web.knownHosts, Probe.Web.asked, Probe.Web.accepted]
    by_cases hcode : response.code < 400
    · simp only [if_pos hcode, bind, Except.bind]
      cases Wire.Document.listOfBytes? (Text.Utf8.encode response.body) <;> rfl
    · simp only [if_neg hcode, bind, Except.bind]
      cases Wire.Document.listOfBytes? (Text.Utf8.encode response.body) <;> rfl

theorem Seeker.gossip?_eq_some_iff {s : Seeker} {peer : Host} {ds : List Wire.Document} :
    s.gossip? peer = some ds ↔
      peer.publicAddress ≠ "" ∧ s.prober.knownHosts peer.publicAddress = .ok ds := by
  by_cases h : peer.publicAddress = ""
  · simp [gossip?, h]
  · rw [gossip?_eq h]
    cases s.prober.knownHosts peer.publicAddress <;> simp [h]

theorem Seeker.gossip?_eq_none_iff {s : Seeker} {peer : Host} :
    s.gossip? peer = none ↔
      peer.publicAddress = "" ∨ ∃ fault, s.prober.knownHosts peer.publicAddress = .error fault := by
  by_cases h : peer.publicAddress = ""
  · simp [gossip?, h]
  · rw [gossip?_eq h]
    cases s.prober.knownHosts peer.publicAddress <;> simp [h]

/-- A peer that answers with the JSON of documents has told them. -/
theorem Seeker.gossip?_of_answer {s : Seeker} {peer : Host} {code : UInt16}
    {ds : List Wire.Document} (h : peer.publicAddress ≠ "")
    (hweb : s.prober.net.web peer.publicAddress s.prober.webPort Probe.Web.hostsPath =
      .ok ⟨code, Wire.Document.listToJson ds⟩) (hcode : code < 400) :
    s.gossip? peer = some ds := by
  rw [gossip?, if_neg h, hweb]
  dsimp only
  rw [(Wire.Document.codes_list ds).reads]
  exact if_pos hcode

/-- To admit an address is to write the identity that it answers with. -/
theorem Seeker.admit_eq (s : Seeker) (address : String) (t : TimedStore) :
    s.admit address t = (s.leads t address, s.visit t address) := by
  rw [leads, visit, told?_eq, Seeker.admit]
  cases s.prober.identity address with
  | error e => rfl
  | ok d =>
    simp only [writeIdentity]
    split <;> rename_i h <;> rw [h] <;> rfl

namespace Search

/-- The fetch that attempt `i` makes when it advances, if it has an address left. -/
def fetch? (s : Seeker) (search : Search) (i : Nat) : Option Fetch :=
  match search.attempts[i]? with
  | none => none
  | some attempt =>
    match attempt.untried with
    | [] => none
    | address :: _ => some ⟨i, address, s.leads search.timed address⟩

/-- The fetches made while attempts advance in the order given. -/
def fetches (s : Seeker) (search : Search) : List Nat → List Fetch
  | [] => []
  | i :: order => (search.fetch? s i).toList ++ (search.advance s i).fetches s order

/-- An attempt after a fetch. -/
def next (admitted : Bool) (rest : List String) : Attempt :=
  if admitted then ⟨[], true⟩ else ⟨rest, false⟩

variable {s : Seeker} {search : Search}

/-- To advance is to make a fetch, or nothing. -/
theorem advance_cases (s : Seeker) (search : Search) (i : Nat) :
    ((∀ attempt, search.attempts[i]? = some attempt → attempt.untried = []) ∧
        search.fetch? s i = none ∧ search.advance s i = search) ∨
      ∃ attempt address rest, search.attempts[i]? = some attempt ∧
        attempt.untried = address :: rest ∧
        search.fetch? s i = some ⟨i, address, s.leads search.timed address⟩ ∧
        search.advance s i =
          { attempts := search.attempts.set i (next (s.leads search.timed address) rest)
            timed := s.visit search.timed address } := by
  cases ha : search.attempts[i]? with
  | none => exact .inl ⟨fun _ h => (nomatch h), by rw [fetch?, ha], by rw [advance, ha]⟩
  | some attempt =>
    cases hu : attempt.untried with
    | nil =>
      refine .inl ⟨?_, ?_, ?_⟩
      · rintro _ ⟨⟩
        exact hu
      · simp only [fetch?, ha, hu]
      · simp only [advance, ha, hu]
    | cons address rest =>
      refine .inr ⟨attempt, address, rest, rfl, hu, ?_, ?_⟩
      · simp only [fetch?, ha, hu]
      · simp only [advance, ha, hu, s.admit_eq, next]

theorem run_cons (s : Seeker) (search : Search) (i : Nat) (order : List Nat) :
    search.run s (i :: order) = (search.advance s i).run s order := rfl

/-- The store is written for the addresses that answer, in the order of the fetches. -/
theorem timed_run (s : Seeker) (search : Search) (order : List Nat) :
    (search.run s order).timed =
      writeAll search.timed ((search.fetches s order).filterMap (s.told? ·.address)) := by
  induction order generalizing search with
  | nil => rfl
  | cons i order ih =>
    rw [run_cons, ih, fetches]
    obtain ⟨-, hnone, hsame⟩ | ⟨attempt, address, rest, -, -, hfetch, hadvance⟩ :=
      advance_cases s search i
    · rw [hnone, hsame]
      rfl
    · rw [hfetch, hadvance, Option.toList_some, List.singleton_append, List.filterMap_cons]
      cases htold : s.told? address <;>
        simp only [Seeker.visit, htold, writeAll, List.foldl_cons]

/-- A fetch leads to a record if its address answers with an identity that is written. -/
theorem admitted_fetches (s : Seeker) (search : Search) (order : List Nat) :
    (search.fetches s order).map (·.admitted) =
      s.outcomes search.timed ((search.fetches s order).map (·.address)) := by
  induction order generalizing search with
  | nil => rfl
  | cons i order ih =>
    rw [fetches]
    obtain ⟨-, hnone, hsame⟩ | ⟨attempt, address, rest, -, -, hfetch, hadvance⟩ :=
      advance_cases s search i
    · rw [hnone, hsame]
      exact ih search
    · rw [hfetch, hadvance]
      simp only [Option.toList_some, List.singleton_append, List.map_cons, Seeker.outcomes, ih]

theorem attempt_lt_of_mem_fetches {order : List Nat} {f : Fetch}
    (h : f ∈ search.fetches s order) : f.attempt < search.attempts.length := by
  induction order generalizing search with
  | nil => cases h
  | cons i order ih =>
    rw [fetches, List.mem_append] at h
    obtain ⟨-, hnone, hsame⟩ | ⟨attempt, address, rest, hattempt, -, hfetch, hadvance⟩ :=
      advance_cases s search i
    · rw [hnone, hsame] at h
      exact ih (h.resolve_left (by simp))
    · rw [hfetch, hadvance] at h
      rcases h with h | h
      · rw [Option.toList_some, List.mem_singleton] at h
        rw [h]
        exact (List.getElem?_eq_some_iff.mp hattempt).1
      · have hlt := ih h
        rwa [List.length_set] at hlt

/-- What is fetched is an address that an attempt has left to try. -/
theorem exists_untried_of_mem_fetches {order : List Nat} {f : Fetch}
    (h : f ∈ search.fetches s order) :
    ∃ attempt ∈ search.attempts, f.address ∈ attempt.untried := by
  induction order generalizing search with
  | nil => cases h
  | cons i order ih =>
    rw [fetches, List.mem_append] at h
    obtain ⟨-, hnone, hsame⟩ | ⟨attempt, address, rest, hattempt, huntried, hfetch, hadvance⟩ :=
      advance_cases s search i
    · rw [hnone, hsame] at h
      exact ih (h.resolve_left (by simp))
    · have hmem := List.mem_of_getElem? hattempt
      rw [hfetch, hadvance] at h
      rcases h with h | h
      · rw [Option.toList_some, List.mem_singleton] at h
        exact ⟨attempt, hmem, by rw [h, huntried]; exact List.mem_cons_self ..⟩
      · obtain ⟨later, hlater, haddress⟩ := ih h
        rcases List.mem_or_eq_of_mem_set hlater with hold | rfl
        · exact ⟨later, hold, haddress⟩
        · have hrest : f.address ∈ rest := by
            unfold next at haddress
            split at haddress
            · cases haddress
            · exact haddress
          exact ⟨attempt, hmem, by rw [huntried]; exact List.mem_cons_of_mem _ hrest⟩

/-- The fetches that attempt `j` makes in a run. -/
def fetchesOf (s : Seeker) (search : Search) (order : List Nat) (j : Nat) : List Fetch :=
  (search.fetches s order).filter (·.attempt = j)

theorem fetchesOf_cons (s : Seeker) (search : Search) (i : Nat) (order : List Nat) (j : Nat) :
    search.fetchesOf s (i :: order) j =
      (search.fetch? s i).toList.filter (·.attempt = j) ++
        (search.advance s i).fetchesOf s order j := by
  rw [fetchesOf, fetches, List.filter_append, fetchesOf]

/-- A turn is that of an attempt with an address left, or it leaves the attempt as it is. -/
theorem turn_cases (s : Seeker) {attempt : Attempt} (i : Nat) {j : Nat}
    (hj : search.attempts[j]? = some attempt) :
    ((i = j → attempt.untried = []) ∧ (search.fetch? s i).toList.filter (·.attempt = j) = [] ∧
        (search.advance s i).attempts[j]? = some attempt) ∨
      ∃ address rest admitted, i = j ∧ attempt.untried = address :: rest ∧
        (search.fetch? s i).toList.filter (·.attempt = j) = [⟨j, address, admitted⟩] ∧
        (search.advance s i).attempts[j]? = some (next admitted rest) := by
  obtain ⟨hidle, hnone, hsame⟩ | ⟨found, address, rest, hfound, huntried, hfetch, hadvance⟩ :=
    advance_cases s search i
  · refine .inl ⟨?_, by rw [hnone]; rfl, by rw [hsame, hj]⟩
    rintro rfl
    exact hidle attempt hj
  · rw [hfetch, hadvance]
    by_cases hij : i = j
    · subst hij
      cases hj.symm.trans hfound
      have hlt := (List.getElem?_eq_some_iff.mp hj).1
      exact .inr ⟨address, rest, _, rfl, huntried, by simp, List.getElem?_set_self hlt⟩
    · refine .inl ⟨fun h => absurd h hij, by simp [hij], ?_⟩
      rw [List.getElem?_set_ne hij, hj]

theorem idle_run {j : Nat} {attempt : Attempt} (hj : search.attempts[j]? = some attempt)
    (hidle : attempt.untried = []) (order : List Nat) :
    search.fetchesOf s order j = [] ∧ (search.run s order).attempts[j]? = some attempt := by
  induction order generalizing search with
  | nil => exact ⟨rfl, hj⟩
  | cons i order ih =>
    rw [run_cons, fetchesOf_cons]
    obtain ⟨-, hnone, hsame⟩ | ⟨address, rest, -, -, huntried, -⟩ := turn_cases s i hj
    · rw [hnone, List.nil_append]
      exact ih hsame
    · rw [hidle] at huntried
      cases huntried

/-- What an attempt does in a run that leaves nothing to be tried: it tries its addresses in turn up
to the first that leads to a record, and has succeeded if one does. -/
theorem fetchesOf_of_finished {order : List Nat} {j : Nat} {addresses : List String}
    (hj : search.attempts[j]? = some ⟨addresses, false⟩)
    (hdone : (search.run s order).Finished) :
    Tried addresses (search.fetchesOf s order j) ∧
      (search.run s order).attempts[j]? =
        some ⟨[], (search.fetchesOf s order j).any (·.admitted)⟩ := by
  induction order generalizing search addresses with
  | nil =>
    have hnil : addresses = [] := hdone _ (List.mem_of_getElem? hj)
    subst hnil
    exact ⟨.none, hj⟩
  | cons i order ih =>
    rw [run_cons, fetchesOf_cons] at *
    obtain ⟨-, hnone, hsame⟩ | ⟨address, rest, admitted, -, huntried, hfetch, hnext⟩ :=
      turn_cases s i hj
    · rw [hnone, List.nil_append]
      exact ih hsame hdone
    · cases huntried
      rw [hfetch, List.singleton_append, List.any_cons]
      cases admitted with
      | true =>
        obtain ⟨hnone, hlast⟩ := idle_run (s := s) hnext rfl order
        rw [hnone, hlast]
        exact ⟨.found j address rest, rfl⟩
      | false =>
        obtain ⟨htried, hlast⟩ := ih hnext hdone
        exact ⟨.missed j address htried, hlast⟩

theorem length_run (s : Seeker) (search : Search) (order : List Nat) :
    (search.run s order).attempts.length = search.attempts.length := by
  induction order generalizing search with
  | nil => rfl
  | cons i order ih =>
    rw [run_cons, ih]
    obtain ⟨-, -, hsame⟩ | ⟨_, _, _, -, -, -, hadvance⟩ := advance_cases s search i
    · rw [hsame]
    · rw [hadvance, List.length_set]

/-- An attempt that has as many turns as it has addresses leaves none to be tried. -/
theorem untried_run {order : List Nat} {j : Nat} {attempt : Attempt}
    (hj : search.attempts[j]? = some attempt) (hturns : attempt.untried.length ≤ order.count j) :
    ∃ last, (search.run s order).attempts[j]? = some last ∧ last.untried = [] := by
  induction order generalizing search attempt with
  | nil =>
    rw [List.count_nil] at hturns
    exact ⟨attempt, hj, List.length_eq_zero_iff.mp (by omega)⟩
  | cons i order ih =>
    rw [List.count_cons] at hturns
    obtain ⟨hidle, -, hsame⟩ | ⟨address, rest, admitted, rfl, huntried, -, hnext⟩ :=
      turn_cases s i hj
    · by_cases hij : i = j
      · exact ⟨attempt, (idle_run hsame (hidle hij) order).2, hidle hij⟩
      · rw [if_neg (by simpa using hij)] at hturns
        exact ih hsame hturns
    · refine ih hnext ?_
      rw [huntried, List.length_cons, if_pos (by simp)] at hturns
      cases admitted with
      | true => exact Nat.zero_le _
      | false => exact Nat.le_of_succ_le_succ hturns

end Search

/-- Attempts with these addresses to try, of which none has succeeded. -/
def toTry (tries : List (List String)) : List Attempt :=
  tries.map fun addresses => ⟨addresses, false⟩

/-- What a search does. Each attempt fetches its addresses in turn, up to the first that leads to a
record; the identities that are told are written, in the order of the fetches; and the attempts
with a fetch that leads to a record are counted. -/
structure Searched (s : Seeker) (t : TimedStore) (tries : List (List String)) (fetches : List Fetch)
    (count : Nat) (after : TimedStore) : Prop where
  attempts : ∀ f ∈ fetches, f.attempt < tries.length
  tried : ∀ j addresses, tries[j]? = some addresses →
    Tried addresses (fetches.filter (·.attempt = j))
  admitted : fetches.map (·.admitted) = s.outcomes t (fetches.map (·.address))
  store : after = writeAll t (fetches.filterMap (s.told? ·.address))
  count : count = ((List.range tries.length).filter fun j =>
    fetches.any fun f => f.attempt = j && f.admitted).length

theorem getElem?_toTry {tries : List (List String)} {j : Nat} {addresses : List String}
    (h : tries[j]? = some addresses) : (toTry tries)[j]? = some ⟨addresses, false⟩ := by
  rw [toTry, List.getElem?_map, h]
  rfl

/-- A search in which all attempts come to an end does what it should, in whatever order they
advance. -/
theorem searched_run {s : Seeker} {t : TimedStore} {tries : List (List String)} {order : List Nat}
    (hdone : (Search.run s ⟨toTry tries, t⟩ order).Finished) :
    ∃ fetches, Searched s t tries fetches (Search.run s ⟨toTry tries, t⟩ order).count
      (Search.run s ⟨toTry tries, t⟩ order).timed := by
  have hlength : (toTry tries).length = tries.length := List.length_map _
  let search : Search := ⟨toTry tries, t⟩
  let admits := fun j => (search.fetches s order).any fun f => f.attempt = j && f.admitted
  have hends : ∀ j addresses, tries[j]? = some addresses →
      Tried addresses (search.fetchesOf s order j) ∧
        (search.run s order).attempts[j]? = some ⟨[], admits j⟩ := by
    intro j addresses hj
    obtain ⟨htried, hlast⟩ := Search.fetchesOf_of_finished (getElem?_toTry hj) hdone
    rw [Search.fetchesOf, List.any_filter] at hlast
    exact ⟨htried, hlast⟩
  have hlast : (search.run s order).attempts =
      (List.range tries.length).map fun j => ⟨[], admits j⟩ := by
    refine List.ext_getElem? ?_
    intro j
    by_cases hj : j < tries.length
    · rw [(hends j _ (List.getElem?_eq_getElem hj)).2, List.getElem?_map, List.getElem?_range hj]
      rfl
    · rw [List.getElem?_eq_none, List.getElem?_eq_none]
      · rw [List.length_map, List.length_range]
        omega
      · rw [Search.length_run, hlength]
        omega
  refine ⟨search.fetches s order, ?_, ?_, ?_, ?_, ?_⟩
  · intro f hf
    have hlt := Search.attempt_lt_of_mem_fetches hf
    rwa [hlength] at hlt
  · exact fun j addresses hj => (hends j addresses hj).1
  · exact search.admitted_fetches s order
  · exact search.timed_run s order
  · show (search.run s order).count = _
    rw [Search.count, hlast, List.filter_map, List.length_map]
    rfl

/-- Fetches put together by attempt. -/
theorem perm_flatten_attempts {n : Nat} {fetches : List Fetch} (h : ∀ f ∈ fetches, f.attempt < n) :
    fetches.Perm ((List.range n).map fun j => fetches.filter (·.attempt = j)).flatten := by
  induction n generalizing fetches with
  | zero =>
    rw [List.eq_nil_iff_forall_not_mem.mpr fun f hf => Nat.not_lt_zero _ (h f hf)]
    exact .refl _
  | succ n ih =>
    let earlier : Fetch → Bool := fun f => f.attempt < n
    have hlast : fetches.filter (fun f => !earlier f) = fetches.filter (·.attempt = n) := by
      refine List.filter_congr ?_
      intro f hf
      have hlt := h f hf
      by_cases hn : f.attempt = n
      · simp [earlier, hn]
      · simp [earlier, hn]
        omega
    have hbound : ∀ f ∈ fetches.filter earlier, f.attempt < n := fun f hf => by
      simpa [earlier] using (List.mem_filter.mp hf).2
    have hinit := ih hbound
    have hsame : (List.range n).map (fun j => (fetches.filter earlier).filter (·.attempt = j)) =
        (List.range n).map fun j => fetches.filter (·.attempt = j) := by
      refine List.map_congr_left ?_
      intro j hj
      have hlt := List.mem_range.mp hj
      rw [List.filter_filter]
      refine List.filter_congr ?_
      intro f _
      by_cases hfj : f.attempt = j
      · simp [earlier, hfj, hlt]
      · simp [hfj]
    rw [hsame] at hinit
    rw [List.range_succ, List.map_append, List.flatten_append, List.map_singleton,
      List.flatten_singleton, ← hlast]
    exact (List.filter_append_perm earlier fetches).symm.trans (hinit.append_right _)

theorem Tried.addresses_of_single {address : String} {fetches : List Fetch}
    (h : Tried [address] fetches) : fetches.map (·.address) = [address] := by
  cases h with
  | found => rfl
  | missed i _ later =>
    cases later
    rfl

/-- Attempts with one address each fetch these and nothing else. -/
theorem Searched.perm {s : Seeker} {t after : TimedStore} {addresses : List String}
    {fetches : List Fetch} {count : Nat}
    (h : Searched s t (addresses.map ([·])) fetches count after) :
    (fetches.map (·.address)).Perm addresses := by
  have hperm := (perm_flatten_attempts h.attempts).map Fetch.address
  rw [List.length_map, List.map_flatten, List.map_map] at hperm
  have hone : (List.range addresses.length).map
      (List.map Fetch.address ∘ fun j => fetches.filter (·.attempt = j)) =
        addresses.map ([·]) := by
    refine List.ext_getElem (by simp) ?_
    intro j hj hj'
    rw [List.length_map] at hj'
    have htried := h.tried j [addresses[j]] (by simp [hj'])
    simp only [List.getElem_map, List.getElem_range, Function.comp_apply]
    exact htried.addresses_of_single
  rw [hone] at hperm
  have hflat : (addresses.map ([·])).flatten = addresses := by
    rw [← List.flatMap_def, List.flatMap_singleton']
  rwa [hflat] at hperm

/-- In this order all attempts come to an end, whatever they are to try. -/
def Schedule.Completes (schedule : Schedule) (s : Seeker) (t : TimedStore) : Prop :=
  ∀ attempts, (Search.run s ⟨attempts, t⟩ (schedule attempts)).Finished

/-- If every attempt has as many turns as it has addresses, all come to an end. -/
theorem Schedule.completes_of_turns {schedule : Schedule}
    (h : ∀ (attempts : List Attempt) (j : Nat) (attempt : Attempt), attempts[j]? = some attempt →
      attempt.untried.length ≤ (schedule attempts).count j)
    (s : Seeker) (t : TimedStore) : schedule.Completes s t := by
  intro attempts last hlast
  obtain ⟨j, hj⟩ := List.mem_iff_getElem?.mp hlast
  have hlt : j < attempts.length := by
    rw [← Search.length_run s ⟨attempts, t⟩ (schedule attempts)]
    exact (List.getElem?_eq_some_iff.mp hj).1
  have hstart : (Search.mk attempts t).attempts[j]? = some attempts[j] :=
    List.getElem?_eq_getElem hlt
  obtain ⟨last', hlast', hidle⟩ := Search.untried_run (s := s) hstart (h attempts j _ hstart)
  cases hj.symm.trans hlast'
  exact hidle

theorem inTurn_completes (s : Seeker) (t : TimedStore) : Schedule.Completes inTurn s t := by
  refine Schedule.completes_of_turns (fun attempts j attempt hj => ?_) s t
  have hmem : (attempt, j) ∈ attempts.zipIdx := List.mk_mem_zipIdx_iff_getElem?.mpr hj
  obtain ⟨before, after, heq⟩ := List.append_of_mem hmem
  rw [inTurn, heq, List.flatMap_append, List.flatMap_cons, List.count_append, List.count_append,
    List.count_replicate_self]
  omega

end PeerHealth.Scheduler
