import Mathlib.Data.List.Perm.Subperm
import PeerHealth.Proofs.Scheduler.Visits
import PeerHealth.Proofs.Store.NewPeers

/-! What a node learns from a peer of the hosts that the peer knows. Main statement: it records
those that are new to it and answer, each once, touches no other record, and does not ask for them
again. -/

namespace PeerHealth

/-- Two documents with different names, of which no address stands in the same place in both. -/
structure Wire.Document.Apart (d e : Wire.Document) : Prop where
  hostname : d.hostname ≠ e.hostname
  internal : d.addresses.internal ≠ "" → d.addresses.internal ≠ e.addresses.internal
  external : d.addresses.external ≠ "" → d.addresses.external ≠ e.addresses.external

theorem Wire.Document.apart_iff {d e : Wire.Document} :
    d.Apart e ↔ d.hostname ≠ e.hostname ∧
      (d.addresses.internal ≠ "" → d.addresses.internal ≠ e.addresses.internal) ∧
      (d.addresses.external ≠ "" → d.addresses.external ≠ e.addresses.external) :=
  ⟨fun ⟨hname, hin, hout⟩ => ⟨hname, hin, hout⟩, fun ⟨hname, hin, hout⟩ => ⟨hname, hin, hout⟩⟩

instance (d e : Wire.Document) : Decidable (d.Apart e) :=
  decidable_of_iff _ Wire.Document.apart_iff.symm

theorem Wire.Document.Apart.symm {d e : Wire.Document} (h : d.Apart e) : e.Apart d :=
  ⟨h.hostname.symm, fun hne heq => h.internal (heq ▸ hne) heq.symm,
    fun hne heq => h.external (heq ▸ hne) heq.symm⟩

namespace Store

/-- What a row says of its host to others. -/
def HostRow.document (r : HostRow) : Wire.Document :=
  ⟨r.hostname, ⟨r.internalAddress, r.publicAddress⟩⟩

section Described

variable {r : HostRow} {d : Wire.Document} {address : String} {port : UInt16}

theorem HostRow.not_describedBy_of_apart (h : r.document.Apart d) :
    ¬r.DescribedBy (d.toIdentity address port) d.hostname := by
  refine not_describedBy_iff.mpr ⟨h.hostname, fun hne hin => ?_, fun hne hout => ?_⟩
  · exact h.internal (fun hempty => hne (hin.symm.trans hempty)) hin
  · exact h.external (fun hempty => hne (hout.symm.trans hempty)) hout

theorem Database.not_describedBy_of_not_holds {db : Database} (h : db.holdsDocument d = false)
    (hr : r ∈ db.hosts) : ¬r.DescribedBy (d.toIdentity address port) d.hostname := by
  have hrow := List.any_eq_false.mp h r hr
  simp only [Bool.or_eq_true, decide_eq_true_eq, not_or, HostRow.hasAddress, Bool.and_eq_true,
    not_and] at hrow
  exact HostRow.not_describedBy_iff.mpr
    ⟨hrow.1.1, fun hne => (hrow.1.2 hne).1.1, fun hne => (hrow.2 hne).1.2⟩

end Described

end Store

namespace Scheduler

open Store (Cell Database HostRow)
open Wire (Document)

/-- Whether one of some addresses answers with an identity. -/
def Seeker.answers (s : Seeker) (addresses : List String) : Bool :=
  addresses.any fun address => (s.told? address).isSome

/-- The documents of hosts that answer at one of their addresses. -/
def Seeker.found (s : Seeker) (ds : List Document) : List Document :=
  ds.filter fun d => s.answers (documentAddresses d)

/-- Of some addresses, the first that answers does so with a document. -/
def Seeker.AnswersWith (s : Seeker) (d : Document) : List String → Prop
  | [] => True
  | address :: rest =>
    s.told? address = some (d.toIdentity address s.servicePort) ∨
      s.told? address = none ∧ s.AnswersWith d rest

instance Seeker.decidableAnswersWith (s : Seeker) (d : Document) :
    (addresses : List String) → Decidable (s.AnswersWith d addresses)
  | [] => .isTrue trivial
  | address :: rest =>
    have := s.decidableAnswersWith d rest
    inferInstanceAs (Decidable (s.told? address = some (d.toIdentity address s.servicePort) ∨
      s.told? address = none ∧ s.AnswersWith d rest))

/-- What an attempt to find the host of a document has come to: it goes on as long as nothing has
answered, and is done when something has. -/
inductive Pursues (s : Seeker) (d : Document) : Attempt → Prop
  | going {untried : List String} (answersWith : s.AnswersWith d untried)
      (answers : s.answers untried = s.answers (documentAddresses d)) :
      Pursues s d ⟨untried, false⟩
  | done (answered : s.answers (documentAddresses d) = true) : Pursues s d ⟨[], true⟩

/-- Where a search for documents stands that has led to records of some of them, in this order. -/
structure Spread (s : Seeker) (db : Database) (ds : List Document) (search : Search)
    (made : List Document) : Prop where
  sound : search.timed.Sound
  length : search.attempts.length = ds.length
  pursues : ∀ (j : Nat) (d : Document) (attempt : Attempt), ds[j]? = some d →
    search.attempts[j]? = some attempt → Pursues s d attempt
  rows : ∃ rows, search.timed.store.database.hosts = db.hosts ++ rows ∧
    rows.map HostRow.document = made
  lastHost : search.timed.store.database.lastHost = db.lastHost + made.length
  nodup : made.Nodup
  found : ∀ d ∈ made, d ∈ s.found ds
  admitted : ∀ (j : Nat) (d : Document) (attempt : Attempt), ds[j]? = some d →
    search.attempts[j]? = some attempt → (attempt.admitted = true ↔ d ∈ made)

/-- Documents of hosts that are new to the tables, with trimmed names and apart from each other;
there are numbers left for those that answer. -/
structure Fresh (s : Seeker) (db : Database) (ds : List Document) : Prop where
  named : ∀ d ∈ ds, d.hostname ≠ "" ∧ Text.trim d.hostname = d.hostname
  unheld : ∀ d ∈ ds, db.holdsDocument d = false
  apart : ds.Pairwise Document.Apart
  room : db.lastHost + (s.found ds).length ≤ Cell.highest

section Steps

variable {s : Seeker} {db : Database} {ds made : List Document} {search : Search}

theorem Fresh.nodup (h : Fresh s db ds) : ds.Nodup :=
  h.apart.imp fun hap heq => hap.hostname (congrArg Document.hostname heq)

theorem Fresh.apart_of_ne (h : Fresh s db ds) {d e : Document} (hd : d ∈ ds) (he : e ∈ ds)
    (hne : d ≠ e) : d.Apart e := by
  refine (List.Pairwise.forall_of_forall_of_flip (R := fun d e => d = e ∨ d.Apart e)
    (fun d _ => .inl rfl) ?_ ?_ hd he).resolve_left hne
  · exact h.apart.imp .inr
  · exact h.apart.imp fun hap => .inr hap.symm

/-- Nobody on record is described by a document that has not led to a record yet. -/
theorem Spread.newTo (h : Spread s db ds search made) (hfresh : Fresh s db ds) {d : Document}
    (hd : d ∈ ds) (hmade : d ∉ made) (address : String) :
    search.timed.store.database.NewTo (d.toIdentity address s.servicePort) := by
  obtain ⟨rows, hhosts, hrows⟩ := h.rows
  intro r hr
  show ¬r.DescribedBy _ (Text.trim d.hostname)
  rw [(hfresh.named d hd).2]
  rw [hhosts] at hr
  rcases List.mem_append.mp hr with hr | hr
  · exact Database.not_describedBy_of_not_holds (hfresh.unheld d hd) hr
  · have hin : r.document ∈ made := hrows ▸ List.mem_map_of_mem hr
    have hds := (List.mem_filter.mp (h.found _ hin)).1
    exact HostRow.not_describedBy_of_apart
      (hfresh.apart_of_ne hds hd fun heq => hmade (heq ▸ hin))

theorem getElem?_set_cases {attempts : List Attempt} {i j : Nat} {next attempt : Attempt}
    (h : (attempts.set i next)[j]? = some attempt) :
    (i = j ∧ attempt = next) ∨ (i ≠ j ∧ attempts[j]? = some attempt) := by
  by_cases hij : i = j
  · subst hij
    rw [List.getElem?_set] at h
    simp only [if_true] at h
    split at h
    · exact .inl ⟨rfl, (Option.some.inj h).symm⟩
    · cases h
  · rw [List.getElem?_set_ne hij] at h
    exact .inr ⟨hij, h⟩

/-- As long as nothing has answered, an answer is to be had at the addresses that are left. -/
theorem Spread.answers_untried (h : Spread s db ds search made) {i : Nat} {d : Document}
    {untried : List String} (hd : ds[i]? = some d)
    (hi : search.attempts[i]? = some ⟨untried, false⟩) :
    s.answers untried = s.answers (documentAddresses d) := by
  cases h.pursues i d _ hd hi with
  | going answersWith answers => exact answers

theorem Spread.missed (h : Spread s db ds search made) {i : Nat} {d : Document}
    {address : String} {rest : List String} (hd : ds[i]? = some d)
    (hi : search.attempts[i]? = some ⟨address :: rest, false⟩) (htold : s.told? address = none)
    (hrest : s.AnswersWith d rest) :
    Spread s db ds { search with attempts := search.attempts.set i ⟨rest, false⟩ } made := by
  have hanswers := h.answers_untried hd hi
  refine ⟨h.sound, by rw [List.length_set, h.length], ?_, h.rows, h.lastHost, h.nodup, h.found, ?_⟩
  · intro j e attempt he hj
    obtain ⟨rfl, rfl⟩ | ⟨-, hj⟩ := getElem?_set_cases hj
    · cases hd.symm.trans he
      refine .going hrest ?_
      rw [← hanswers]
      simp [Seeker.answers, htold]
    · exact h.pursues j e attempt he hj
  · intro j e attempt he hj
    obtain ⟨rfl, rfl⟩ | ⟨-, hj⟩ := getElem?_set_cases hj
    · have hopen := h.admitted i e _ he hi
      exact hopen
    · exact h.admitted j e attempt he hj

/-- A document of a host that answers and has not led to a record may still lead to one. -/
theorem Spread.found_concat (h : Spread s db ds search made) {d : Document} (hd : d ∈ s.found ds)
    (hnot : d ∉ made) :
    (made ++ [d]).Nodup ∧ (∀ e ∈ made ++ [d], e ∈ s.found ds) ∧
      made.length + 1 ≤ (s.found ds).length := by
  have hnodup : (made ++ [d]).Nodup := by
    refine List.nodup_append.mpr ⟨h.nodup, by simp, ?_⟩
    rintro e he f hf rfl
    exact hnot (List.mem_singleton.mp hf ▸ he)
  have hfound : ∀ e ∈ made ++ [d], e ∈ s.found ds := by
    intro e he
    rcases List.mem_append.mp he with he | he
    · exact h.found e he
    · rw [List.mem_singleton.mp he]
      exact hd
  exact ⟨hnodup, hfound, by simpa using (hnodup.subperm hfound).length_le⟩

/-- The visit of an address that answers with a new document adds a record of it. -/
theorem Spread.visit_told (h : Spread s db ds search made) (hfresh : Fresh s db ds) {d : Document}
    (hd : d ∈ s.found ds) (hnot : d ∉ made) {address : String}
    (htold : s.told? address = some (d.toIdentity address s.servicePort)) :
    s.leads search.timed address = true ∧
      (∃ rows, (s.visit search.timed address).store.database.hosts = db.hosts ++ rows ∧
        rows.map HostRow.document = made ++ [d]) ∧
      (s.visit search.timed address).store.database.lastHost =
        db.lastHost + (made ++ [d]).length := by
  have hmem : d ∈ ds := (List.mem_filter.mp hd).1
  have hlast := h.lastHost
  obtain ⟨hnone, -⟩ | ⟨identity, answer, after, hidentity, -, hleads, hvisit, hwritten⟩ :=
    visit_cases h.sound s address
  · rw [htold] at hnone
    cases hnone
  cases htold.symm.trans hidentity
  have htrim := (hfresh.named d hmem).2
  have hnamed : Text.trim (d.toIdentity address s.servicePort).hostname ≠ "" := by
    show Text.trim d.hostname ≠ ""
    rw [htrim]
    exact (hfresh.named d hmem).1
  obtain ⟨-, hok, rfl⟩ | ⟨hfull, -⟩ :=
    hwritten.cases_of_new hnamed (h.newTo hfresh hmem hnot address)
  · obtain ⟨rows, hhosts, hrows⟩ := h.rows
    let row := HostRow.ofPeer (d.toIdentity address s.servicePort) (Text.trim d.hostname)
      (Time.storedText search.timed.now) (search.timed.store.database.lastHost + 1)
    rw [hvisit]
    refine ⟨hleads.trans hok, ⟨rows ++ [row], ?_, ?_⟩, ?_⟩
    · show search.timed.store.database.hosts ++ [row] = _
      rw [hhosts, List.append_assoc]
    · rw [List.map_append, hrows]
      simp [row, HostRow.document, HostRow.ofPeer, Document.toIdentity, htrim]
    · show search.timed.store.database.lastHost + 1 = _
      rw [hlast, List.length_append, List.length_singleton]
      omega
  · have hcount := (h.found_concat hd hnot).2.2
    have hroom := hfresh.room
    omega

/-- An attempt comes to its end with an answer, which leads to a new record. -/
theorem Spread.answered (h : Spread s db ds search made) (hfresh : Fresh s db ds) {i : Nat}
    {d : Document} {address : String} {rest : List String} (hd : ds[i]? = some d)
    (hi : search.attempts[i]? = some ⟨address :: rest, false⟩)
    (htold : s.told? address = some (d.toIdentity address s.servicePort)) :
    s.leads search.timed address = true ∧
      Spread s db ds
        { attempts := search.attempts.set i ⟨[], true⟩, timed := s.visit search.timed address }
        (made ++ [d]) := by
  have hnot : d ∉ made := fun hin => by simpa using (h.admitted i d _ hd hi).mpr hin
  have hanswers : s.answers (documentAddresses d) = true := by
    rw [← h.answers_untried hd hi]
    simp [Seeker.answers, htold]
  have hin : d ∈ s.found ds := List.mem_filter.mpr ⟨List.mem_of_getElem? hd, hanswers⟩
  obtain ⟨hnodup, hfound, -⟩ := h.found_concat hin hnot
  obtain ⟨hleads, hrows, hlast⟩ := h.visit_told hfresh hin hnot htold
  refine ⟨hleads, sound_visit h.sound address, by rw [List.length_set, h.length], ?_, hrows, hlast,
    hnodup, hfound, ?_⟩
  · intro j e attempt he hj
    obtain ⟨rfl, rfl⟩ | ⟨-, hj⟩ := getElem?_set_cases hj
    · cases hd.symm.trans he
      exact .done hanswers
    · exact h.pursues j e attempt he hj
  · intro j e attempt he hj
    obtain ⟨rfl, rfl⟩ | ⟨hij, hj⟩ := getElem?_set_cases hj
    · cases hd.symm.trans he
      simp
    · have hne : e ≠ d := by
        rintro rfl
        have hlt := (List.getElem?_eq_some_iff.mp hd).1
        exact hij ((List.getElem?_inj hlt hfresh.nodup).mp (hd.trans he.symm))
      rw [h.admitted j e attempt he hj]
      simp [hne]

/-- However attempts advance, what has led to records is known exactly. -/
theorem Spread.advance (h : Spread s db ds search made) (hfresh : Fresh s db ds) (i : Nat) :
    ∃ made', Spread s db ds (search.advance s i) made' := by
  obtain ⟨-, -, hsame⟩ | ⟨⟨untried, admitted⟩, address, rest, hi, huntried, -, hadvance⟩ :=
    Search.advance_cases s search i
  · exact ⟨made, by rwa [hsame]⟩
  have hlt : i < ds.length := by
    rw [← h.length]
    exact (List.getElem?_eq_some_iff.mp hi).1
  have hd : ds[i]? = some ds[i] := List.getElem?_eq_getElem hlt
  cases huntried
  rw [hadvance]
  cases h.pursues i _ _ hd hi with
  | going answersWith answers =>
    rcases answersWith with htold | ⟨htold, hrest⟩
    · obtain ⟨hleads, hmade⟩ := h.answered hfresh hd hi htold
      rw [hleads]
      exact ⟨_, hmade⟩
    · have hleads : s.leads search.timed address = false := by rw [Seeker.leads, htold]
      have hvisit : s.visit search.timed address = search.timed := by rw [Seeker.visit, htold]
      rw [hleads, hvisit]
      exact ⟨made, h.missed hd hi htold hrest⟩

theorem Spread.run (h : Spread s db ds search made) (hfresh : Fresh s db ds) (order : List Nat) :
    ∃ made', Spread s db ds (search.run s order) made' := by
  induction order generalizing search made with
  | nil => exact ⟨made, h⟩
  | cons i order ih =>
    obtain ⟨made', h'⟩ := h.advance hfresh i
    exact ih h'

/-- Once all attempts have come to an end, there is a record of each document whose host answers,
and their number is the count. -/
theorem Spread.perm_found (h : Spread s db ds search made) (hfresh : Fresh s db ds)
    (hdone : search.Finished) : made.Perm (s.found ds) ∧ search.count = (s.found ds).length := by
  have hlast : search.attempts =
      ds.map fun d => (⟨[], s.answers (documentAddresses d)⟩ : Attempt) := by
    refine List.ext_getElem (by rw [List.length_map, h.length]) fun j hj hj' => ?_
    rw [List.length_map] at hj'
    have hend := hdone _ (List.getElem_mem hj)
    have hpursues := h.pursues j _ _ (List.getElem?_eq_getElem hj') (List.getElem?_eq_getElem hj)
    rw [List.getElem_map]
    generalize search.attempts[j] = attempt at hend hpursues
    cases hpursues with
    | going answersWith answers =>
      cases hend
      rw [← answers]
      rfl
    | done answered => rw [answered]
  constructor
  · have hnodup : (s.found ds).Nodup := hfresh.nodup.filter _
    refine (h.nodup.subperm h.found).antisymm (hnodup.subperm fun d hd => ?_)
    obtain ⟨hmem, hanswers⟩ := List.mem_filter.mp hd
    obtain ⟨j, hj⟩ := List.mem_iff_getElem?.mp hmem
    have hattempt : search.attempts[j]? = some ⟨[], s.answers (documentAddresses d)⟩ := by
      rw [hlast, List.getElem?_map, hj]
      rfl
    exact (h.admitted j d _ hj hattempt).mp hanswers
  · rw [Search.count, hlast, List.filter_map, List.length_map]
    rfl

end Steps

section Silence

variable {s : Seeker} {t after : TimedStore} {tries : List (List String)} {fetches : List Fetch}
  {count : Nat}

theorem Tried.mem_of_mem {addresses : List String} (h : Tried addresses fetches) {f : Fetch}
    (hf : f ∈ fetches) : f.address ∈ addresses := by
  induction h with
  | none => cases hf
  | found i address rest =>
    rw [List.mem_singleton.mp hf]
    exact List.mem_cons_self ..
  | missed i address later ih =>
    rcases List.mem_cons.mp hf with rfl | hf
    · exact List.mem_cons_self ..
    · exact List.mem_cons_of_mem _ (ih hf)

/-- Only addresses that are to be tried are fetched. -/
theorem Searched.exists_mem (h : Searched s t tries fetches count after) {f : Fetch}
    (hf : f ∈ fetches) : ∃ addresses ∈ tries, f.address ∈ addresses := by
  have hlt := h.attempts f hf
  have htried := h.tried f.attempt _ (List.getElem?_eq_getElem hlt)
  exact ⟨_, List.getElem_mem hlt, htried.mem_of_mem (List.mem_filter.mpr ⟨hf, by simp⟩)⟩

theorem Searched.idle (h : Searched s t tries fetches count after)
    (hsilent : ∀ addresses ∈ tries, s.answers addresses = false) : count = 0 ∧ after = t := by
  have htold : ∀ f ∈ fetches, s.told? f.address = none := by
    intro f hf
    obtain ⟨addresses, hmem, haddress⟩ := h.exists_mem hf
    simpa using List.any_eq_false.mp (hsilent addresses hmem) f.address haddress
  have hadmitted : ∀ f ∈ fetches, f.admitted = false := by
    intro f hf
    obtain ⟨earlier, later, hsplit⟩ := List.append_of_mem hf
    rw [h.admitted_eq hsplit, Seeker.leads, htold f hf]
  constructor
  · rw [h.count, List.length_eq_zero_iff, List.filter_eq_nil_iff]
    intro j _
    simp only [List.any_eq_true, Bool.and_eq_true, not_exists, not_and]
    intro f hf _
    simp [hadmitted f hf]
  · rw [h.store, List.filterMap_eq_nil_iff.mpr htold]
    rfl

end Silence

theorem mem_newDocuments {db : Database} {ds : List Document} {d : Document} :
    d ∈ db.newDocuments ds ↔
      d ∈ ds ∧ Text.isBlank d.hostname = false ∧ db.holdsDocument d = false := by
  simp [Database.newDocuments]

theorem ne_empty_of_not_blank {s : String} (h : Text.isBlank s = false) : s ≠ "" := by
  rintro rfl
  revert h
  decide

theorem holdsDocument_of_mem {db : Database} {r : HostRow} (hr : r ∈ db.hosts) :
    db.holdsDocument r.document = true :=
  List.any_eq_true.mpr ⟨r, hr, by simp [HostRow.document]⟩

theorem holdsDocument_of_address {db : Database} {r : HostRow} (hr : r ∈ db.hosts) {d : Document}
    {a : String} (ha : a ∈ documentAddresses r.document) (hd : a ∈ documentAddresses d) :
    db.holdsDocument d = true := by
  simp only [documentAddresses, List.mem_filter, List.mem_cons, List.not_mem_nil, or_false,
    HostRow.document] at ha hd
  refine List.any_eq_true.mpr ⟨r, hr, ?_⟩
  simp only [HostRow.hasAddress]
  grind

section Runs

variable {s : Seeker} {schedule : Schedule} {t : TimedStore}

/-- Before anything is fetched, nothing has led to a record. -/
theorem spread_start (ht : t.Sound) {ds : List Document}
    (hanswers : ∀ d ∈ ds, s.AnswersWith d (documentAddresses d)) :
    Spread s t.store.database ds ⟨toTry (ds.map documentAddresses), t⟩ [] := by
  have hattempt : ∀ (j : Nat) (d : Document) (attempt : Attempt), ds[j]? = some d →
      (toTry (ds.map documentAddresses))[j]? = some attempt →
      attempt = ⟨documentAddresses d, false⟩ := by
    intro j d attempt hd hj
    rw [getElem?_toTry (by rw [List.getElem?_map, hd]; rfl)] at hj
    exact (Option.some.inj hj).symm
  refine ⟨ht, by simp [toTry], ?_, ⟨[], by simp⟩, by simp, List.nodup_nil, by simp, ?_⟩
  · intro j d attempt hd hj
    rw [hattempt j d attempt hd hj]
    exact .going (hanswers d (List.mem_of_getElem? hd)) rfl
  · intro j d attempt hd hj
    rw [hattempt j d attempt hd hj]
    simp

/-- Once the hosts that are new and answer are on record, an expansion with the same documents
fetches none of their addresses, and leads to nothing. -/
theorem expand_again {db : Database} {after : TimedStore} {rows : List HostRow} {ds : List Document}
    (hafter : after.Sound) (hhosts : after.store.database.hosts = db.hosts ++ rows)
    (hstored : ∀ d ∈ s.found (db.newDocuments ds),
      ∃ r ∈ after.store.database.hosts, r.document = d)
    {peer : Host} (hpublic : peer.publicAddress ≠ "")
    (hasked : s.prober.knownHosts peer.publicAddress = .ok ds) {next : Schedule}
    (hnext : next.Completes s after) :
    s.expand next peer after = (0, after) ∧
      ∃ fetches,
        Searched s after ((after.store.database.newDocuments ds).map documentAddresses) fetches 0
          after ∧
        ∀ f ∈ fetches, ∀ d ∈ s.found (db.newDocuments ds), f.address ∉ documentAddresses d := by
  -- what is still new was new before, and does not answer
  have hsilent : ∀ d ∈ after.store.database.newDocuments ds,
      s.answers (documentAddresses d) = false := by
    intro d hd
    obtain ⟨hmem, hblank, hunheld⟩ := mem_newDocuments.mp hd
    have hbefore : d ∈ db.newDocuments ds := by
      refine mem_newDocuments.mpr ⟨hmem, hblank, ?_⟩
      rw [Database.holdsDocument, hhosts, List.any_append, Bool.or_eq_false_iff] at hunheld
      exact hunheld.1
    refine Bool.eq_false_iff.mpr fun hyes => ?_
    obtain ⟨r, hr, rfl⟩ := hstored d (List.mem_filter.mpr ⟨hbefore, hyes⟩)
    rw [holdsDocument_of_mem hr] at hunheld
    cases hunheld
  obtain ⟨fetches, count, final, hrun, hsearched⟩ :=
    expand_searched hafter.hosts hnext hpublic hasked
  obtain ⟨rfl, rfl⟩ := hsearched.idle fun addresses hmem => by
    obtain ⟨d, hd, rfl⟩ := List.mem_map.mp hmem
    exact hsilent d hd
  refine ⟨hrun, fetches, hsearched, fun f hf d hd hin => ?_⟩
  obtain ⟨r, hr, rfl⟩ := hstored d hd
  obtain ⟨addresses, hmem, haddress⟩ := hsearched.exists_mem hf
  obtain ⟨e, he, rfl⟩ := List.mem_map.mp hmem
  have hheld := holdsDocument_of_address hr hin haddress
  rw [(mem_newDocuments.mp he).2.2] at hheld
  cases hheld

/-- Of the documents that a peer gives, those are taken up whose hosts are new to the record. If
they are apart from each other and the first of their addresses that answers does so with the
document itself, expansion adds one record for each of them that answers, in whatever order attempts
come to an end, and touches no other; the answer is their number. All these hosts are known
afterwards, and an expansion right after it with the same documents changes nothing and fetches no
address of theirs. -/
theorem expansion_adds_what_answers {writes : List Store.Write}
    (ht : t.store = ({} : Store).after writes) (hclock : ∀ n, (t.clock n).Valid)
    (hdone : schedule.Completes s t) {peer : Host} {ds : List Document}
    (hpublic : peer.publicAddress ≠ "") (hasked : s.prober.knownHosts peer.publicAddress = .ok ds)
    (htrim : ∀ d ∈ ds, Text.trim d.hostname = d.hostname)
    (hapart : (t.store.database.newDocuments ds).Pairwise Document.Apart)
    (hanswers : ∀ d ∈ t.store.database.newDocuments ds, s.AnswersWith d (documentAddresses d))
    (hroom : t.store.database.lastHost + (s.found (t.store.database.newDocuments ds)).length ≤
      Cell.highest) :
    ∃ after rows known,
      s.expand schedule peer t = ((s.found (t.store.database.newDocuments ds)).length, after) ∧
      after.store.database.hosts = t.store.database.hosts ++ rows ∧
      (rows.map HostRow.document).Perm (s.found (t.store.database.newDocuments ds)) ∧
      knownHosts after.store = .ok known ∧
      (∀ d ∈ s.found (t.store.database.newDocuments ds), isKnown known d = true) ∧
      (∀ h ∈ known, isKnown known (Document.ofHost h) = true) ∧
      ∀ next : Schedule, next.Completes s after →
        s.expand next peer after = (0, after) ∧
        ∃ fetches,
          Searched s after ((after.store.database.newDocuments ds).map documentAddresses) fetches 0
            after ∧
          ∀ f ∈ fetches, ∀ d ∈ s.found (t.store.database.newDocuments ds),
            f.address ∉ documentAddresses d := by
  have hsound := TimedStore.sound_of_reachable ht hclock
  let new := t.store.database.newDocuments ds
  have hfresh : Fresh s t.store.database new := by
    refine ⟨fun d hd => ?_, fun d hd => (mem_newDocuments.mp hd).2.2, hapart, hroom⟩
    obtain ⟨hmem, hblank, -⟩ := mem_newDocuments.mp hd
    exact ⟨ne_empty_of_not_blank hblank, htrim d hmem⟩
  obtain ⟨made, hlast⟩ := (spread_start hsound hanswers).run hfresh
    (schedule (toTry (new.map documentAddresses)))
  obtain ⟨hmade, hcount⟩ := hlast.perm_found hfresh (hdone _)
  obtain ⟨rows, hhosts, hrows⟩ := hlast.rows
  have hexpand : s.expand schedule peer t = _ := expand_eq_run hsound.hosts hpublic hasked
  simp only [hcount, new] at hexpand
  have hafter := hlast.sound
  generalize (Search.run s ⟨toTry (new.map documentAddresses), t⟩
    (schedule (toTry (new.map documentAddresses)))).timed = after at hexpand hhosts hafter
  obtain ⟨known, hknown, -, hdocument⟩ := exists_knownHosts hafter.hosts
  have hperm : (rows.map HostRow.document).Perm (s.found new) := hrows ▸ hmade
  have hstored : ∀ d ∈ s.found new, ∃ r ∈ after.store.database.hosts, r.document = d := by
    intro d hd
    obtain ⟨r, hr, hrd⟩ := List.mem_map.mp (hperm.mem_iff.mpr hd)
    exact ⟨r, hhosts ▸ List.mem_append_right _ hr, hrd⟩
  refine ⟨after, rows, known, hexpand, hhosts, hperm, hknown, fun d hd => ?_, fun h hh => ?_,
    fun next hnext => expand_again hafter hhosts hstored hpublic hasked hnext⟩
  · obtain ⟨r, hr, rfl⟩ := hstored d hd
    rw [hdocument]
    exact holdsDocument_of_mem hr
  · exact List.any_eq_true.mpr ⟨h, hh, by simp [Document.ofHost]⟩

end Runs

/-- The hosts that the peer knows and that answer: one at its internal address, since its public one
is silent, and one at its public address. -/
def gossipFound : List Document := [⟨"d", ⟨"10.0.0.4", "1.2.3.4"⟩⟩, ⟨"e", ⟨"", "1.2.3.5"⟩⟩]

theorem gossipPeer_asked :
    gossipSeeker.prober.knownHosts gossipPeer.publicAddress = .ok gossipedDocuments :=
  (Seeker.gossip?_eq_some_iff.mp gossipSeeker_gossip).2

/-- Of five documents one has no name, one is of the peer itself, which is known, one is of a host
that does not answer, and two lead to records, which are not asked for again. -/
theorem expansion_adds_what_answers_once :
    gossipStore.store.database.newDocuments gossipedDocuments =
        ⟨"c", ⟨"10.0.0.3", "1.2.3.3"⟩⟩ :: gossipFound ∧
      ∃ after rows,
        gossipSeeker.expand inTurn gossipPeer gossipStore = (2, after) ∧
        after.store.database.hosts = gossipStore.store.database.hosts ++ rows ∧
        (rows.map HostRow.document).Perm gossipFound ∧
        gossipSeeker.expand inTurn gossipPeer after = (0, after) := by
  have hnew : gossipStore.store.database.newDocuments gossipedDocuments =
      ⟨"c", ⟨"10.0.0.3", "1.2.3.3"⟩⟩ :: gossipFound := by
    decide +kernel
  have hfound : gossipSeeker.found (⟨"c", ⟨"10.0.0.3", "1.2.3.3"⟩⟩ :: gossipFound) =
      gossipFound := by
    decide +kernel
  have hall := @expansion_adds_what_answers gossipSeeker inTurn gossipStore _ rfl
    (fun _ => Time.epoch.2) (inTurn_completes gossipSeeker gossipStore) gossipPeer _ (by decide)
    gossipPeer_asked (by decide +kernel) (by rw [hnew]; decide +kernel)
    (by rw [hnew]; decide +kernel) (by rw [hnew, hfound]; decide +kernel)
  rw [hnew, hfound] at hall
  obtain ⟨after, rows, -, hrun, hhosts, hperm, -, -, -, hnext⟩ := hall
  exact ⟨hnew, after, rows, hrun, hhosts, hperm,
    (hnext inTurn (inTurn_completes gossipSeeker after)).1⟩

/-- A store that has given out all numbers for hosts. -/
def exhaustedStore : TimedStore where
  store := ({} : Store).after (Store.comings 9223372036854775807)
  clock := fun _ => Time.epoch.1

/-- No number is left for the hosts that are new and answer. -/
theorem expansion_adds_nothing_to_exhausted :
    gossipSeeker.prober.knownHosts gossipPeer.publicAddress = .ok gossipedDocuments ∧
      (∀ d ∈ gossipedDocuments, gossipSeeker.AnswersWith d (documentAddresses d)) ∧
      gossipSeeker.found (exhaustedStore.store.database.newDocuments gossipedDocuments) =
        ⟨"b", ⟨"10.0.0.2", "1.2.3.2"⟩⟩ :: gossipFound ∧
      (gossipSeeker.expand inTurn gossipPeer exhaustedStore).1 = 0 ∧
      (gossipSeeker.expand inTurn gossipPeer exhaustedStore).2.store.database.hosts = [] := by
  have hstore : exhaustedStore =
      { store := Store.forsaken 9223372036854775807, clock := fun _ => Time.epoch.1 } := by
    rw [exhaustedStore, Store.after_comings (by decide)]
  have hnew : (exhaustedStore.store.database.newDocuments gossipedDocuments).map
      documentAddresses = ["1.2.3.2", "10.0.0.2"] :: gossipTries := by
    rw [hstore]
    decide +kernel
  have hrun : gossipSeeker.expand inTurn gossipPeer exhaustedStore = _ :=
    expand_eq_run (Store.hostsSound_after Store.hostsSound_empty _) (by decide) gossipPeer_asked
  rw [hrun, hnew, hstore]
  exact ⟨gossipPeer_asked, by decide +kernel⟩

end Scheduler
end PeerHealth
