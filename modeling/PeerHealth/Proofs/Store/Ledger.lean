import PeerHealth.Proofs.Store.Frames

/-! A ledger of the checks recorded in a bucket, kept beside a run of writes. Main statement: as
long as each write is later than the one before, the history, the latest check and the counter of
every host that is there are those of its ledgers. -/

namespace PeerHealth.Store

/-- The checks recorded in a bucket, and how many of the last ones the history keeps. -/
structure Ledger where
  log : List Check := []
  kept : Nat := 0

/-- One more check, under a limit to the history. -/
def Ledger.add (l : Ledger) (c : Check) (limit : Nat) : Ledger :=
  ⟨l.log ++ [c], min (l.kept + 1) (max limit 1)⟩

/-- The check that a write records in a bucket, if it records one. -/
def recorded? (store : Store) (b : Bucket) : Write → Option Check
  | .recordCheck now host result =>
    if bucketOf host result = b then (store.recordCheck now.1 host result).1.toOption else none
  | _ => none

def Ledger.enter (l : Ledger) (store : Store) (b : Bucket) (w : Write) : Ledger :=
  match store.recorded? b w with
  | some c => l.add c store.historyLimit
  | none => l

/-- The ledger of a bucket after writes. -/
def ledger (store : Store) (b : Bucket) (l : Ledger) : List Write → Ledger
  | [] => l
  | w :: writes => (store.apply w).ledger b (l.enter store b w) writes

/-- The reading of the clock that a write takes. -/
def Write.time? : Write → Option Time.Instant
  | .upsertHost now _ => some now.1
  | .registerStart now _ => some now.1
  | .refreshSelf now _ => some now.1
  | .recordCheck now _ _ => some now.1
  | .deleteHost _ | .addLogs _ | .reopen _ => none

/-- Each write takes a later time than the one before, of a year that is written with four digits.
-/
structure Clocked (writes : List Write) : Prop where
  before : (writes.filterMap Write.time?).Pairwise Time.Instant.Before
  fourDigits : ∀ t ∈ writes.filterMap Write.time?, t.FourDigitYear

/-- The tables hold for a bucket what its ledger says. -/
structure Database.Tracks (db : Database) (b : Bucket) (l : Ledger) : Prop where
  bucket : ∀ c ∈ l.log, c.bucket = b ∧ c.checkedAt.Valid
  kept : l.kept ≤ l.log.length
  length : (l.log.length : Int) ≤ db.lastCheck
  history : db.checks.filter (·.columns.isIn b) =
    (l.log.drop (l.log.length - l.kept)).map Check.row
  slot : db.latest.filter (·.columns.isIn b) = l.log.getLast?.toList.map Check.latestRow
  counters : db.counters.filter (·.isOf b) = if l.log = [] then [] else [counterRow b l.log]

/-- What a run keeps true of a store and of the ledger of a bucket. -/
structure Balanced (store : Store) (b : Bucket) (l : Ledger) : Prop where
  hosts : store.database.HostsSound
  checks : store.database.ChecksSound
  limit : 1 ≤ store.historyLimit
  tracks : store.database.Open b.host → store.database.Tracks b l

section Steps

variable {store : Store} {db db' : Database} {b : Bucket} {l : Ledger}

theorem Database.Tracks.of_frame (h : db.Tracks b l) (hf : db.Frame db') (ho : db'.Open b.host) :
    db'.Tracks b l := by
  refine ⟨h.bucket, h.kept, ?_, ?_, ?_, ?_⟩
  · rw [hf.lastCheck]
    exact h.length
  · rw [hf.history b ho]
    exact h.history
  · rw [hf.slot b ho]
    exact h.slot
  · rw [hf.counters b ho]
    exact h.counters

theorem Database.Tracks.recorded_of_ne (h : db.Tracks b l) (hdb : db.ChecksSound) {c : Check}
    (hid : c.id = db.lastCheck + 1) (hne : c.bucket ≠ b) (limit : Nat) :
    (db.recorded c limit).Tracks b l := by
  have hrows : ∀ r ∈ db.latest, ∃ c' : Check, r = c'.latestRow :=
    fun r hr => (hdb.latest r hr).imp fun _ h => h.2
  have hrow : [c.row].filter (·.columns.isIn b) = [] :=
    List.filter_cons_of_neg fun hin => hne (isIn_columns_iff.mp hin)
  refine ⟨h.bucket, h.kept, ?_, ?_, ?_, ?_⟩
  · have hlen := h.length
    show (l.log.length : Int) ≤ c.id
    omega
  · refine Eq.trans ?_ h.history
    refine (filter_trimmed_of_ne hne).trans ?_
    rw [List.filter_append, hrow, List.append_nil]
  · exact (filter_putLatest_of_ne (fun r hr => host_of_isIn (hrows r hr)) hne).trans h.slot
  · exact (filter_countCheck_of_ne hne).trans h.counters

theorem Database.Tracks.recorded (h : db.Tracks b l) (hdb : db.ChecksSound) {c : Check}
    (hid : c.id = db.lastCheck + 1) (hvalid : c.checkedAt.Valid)
    (later : ∀ r ∈ db.checks, r.columns.checkedAt < Time.storedText c.checkedAt)
    (room : db.lastCheck < Cell.highest) {limit : Nat} (hlimit : 1 ≤ limit) (hb : c.bucket = b) :
    (db.recorded c limit).Tracks b (l.add c limit) := by
  subst hb
  have hlen := h.length
  have hkept := h.kept
  have hrows : ∀ r ∈ db.latest, ∃ c' : Check, r = c'.latestRow :=
    fun r hr => (hdb.latest r hr).imp fun _ h => h.2
  have hroom : l.log.length + 1 < Number.limit63 := by
    unfold Cell.highest at room
    omega
  refine ⟨fun c' hc' => ?_, ?_, ?_, ?_, ?_, ?_⟩
  · rcases List.mem_append.mp hc' with hc' | hc'
    · exact h.bucket c' hc'
    · rw [List.mem_singleton.mp hc']
      exact ⟨rfl, hvalid⟩
  · simp only [Ledger.add, List.length_append, List.length_singleton]
    omega
  · show ((l.log ++ [c]).length : Int) ≤ c.id
    rw [List.length_append, List.length_singleton]
    omega
  · have hmine : (db.checks ++ [c.row]).filter (·.columns.isIn c.bucket) =
        ((l.log ++ [c]).drop (l.log.length - l.kept)).map Check.row := by
      rw [List.filter_append, h.history, List.drop_append_of_le_length (by omega), List.map_append]
      exact congrArg _ (List.filter_cons_of_pos (isIn_bucket c))
    refine (filter_trimmed (hdb.ordered_append hid later) (hdb.length_append c room)).trans ?_
    rw [hmine, ← List.map_drop, List.drop_drop, List.length_map, List.length_drop,
      List.length_append, List.length_singleton]
    refine congrArg (fun n => ((l.log ++ [c]).drop n).map Check.row) ?_
    simp only [Ledger.add, List.length_append, List.length_singleton]
    omega
  · refine (filter_putLatest fun r hr => host_of_isIn (hrows r hr)).trans ?_
    rw [h.slot]
    cases hlast : l.log.getLast? with
    | none => simp [Ledger.add]
    | some last => simp [Ledger.add]
  · refine (filter_countCheck h.counters hroom).trans ?_
    rw [if_neg (by simp [Ledger.add])]
    rfl

theorem recordCheck_recorded (hdb : store.database.HostsSound) (h : store.database.ChecksSound)
    (hlimit : 1 ≤ store.historyLimit) (now : Time.Moment) (host : Int) (result : CheckResult)
    (later : ∀ r ∈ store.database.checks, r.columns.checkedAt < Time.storedText now.1) :
    ∃ answer after,
      store.recordCheck now.1 host result = (answer, { store with database := after }) ∧
        Recorded store.database host result now.1 store.historyLimit answer after := by
  obtain ⟨answer, after, hrun, hrec⟩ :=
    Statements.writeCheck_recorded hdb h now.2 hlimit host result later
  refine ⟨answer, after, ?_, hrec⟩
  rw [Store.recordCheck, Store.transact, hrun]

theorem recorded?_of_not_isCheck {w : Write} (h : w.isCheck = false) :
    store.recorded? b w = none := by
  cases w with
  | recordCheck => cases h
  | _ => rfl

theorem historyLimit_transact {α : Type} (store : Store) (s : Statements α) :
    (store.transact s).2.historyLimit = store.historyLimit := rfl

theorem historyLimit_apply (store : Store) (w : Write) :
    (store.apply w).historyLimit =
      match w with
      | .reopen limit => max limit 1
      | _ => store.historyLimit := by
  cases w with
  | upsertHost now identity => rw [Store.apply, Store.upsertHost, historyLimit_transact]
  | deleteHost id => rw [Store.apply, deleteHost_eq, historyLimit_transact]
  | registerStart now identity => rw [Store.apply, Store.registerStart, historyLimit_transact]
  | refreshSelf now identity => rw [Store.apply, Store.refreshSelf, historyLimit_transact]
  | recordCheck now host result => rw [Store.apply, Store.recordCheck, historyLimit_transact]
  | addLogs entries => rw [Store.apply, Store.addLogs, historyLimit_transact]
  | reopen limit => rfl

theorem limit_apply (h : 1 ≤ store.historyLimit) (w : Write) :
    1 ≤ (store.apply w).historyLimit := by
  rw [historyLimit_apply]
  cases w with
  | reopen limit => exact Nat.le_max_right limit 1
  | _ => exact h

theorem Balanced.of_frame (h : Balanced store b l) {w : Write} (hw : w.isCheck = false) :
    Balanced (store.apply w) b l := by
  have hf := frame_apply h.hosts hw
  exact ⟨hostsSound_apply h.hosts w, hf.checksSound h.checks, limit_apply h.limit w,
    fun ho => (h.tracks (hf.isOpen _ ho)).of_frame hf ho⟩

/-- A store and the ledger of a bucket go on together. -/
theorem Balanced.apply (h : Balanced store b l) {w : Write}
    (later : ∀ t, w.time? = some t →
      ∀ r ∈ store.database.checks, r.columns.checkedAt < Time.storedText t) :
    Balanced (store.apply w) b (l.enter store b w) := by
  cases hw : w.isCheck with
  | false =>
    rw [Ledger.enter, recorded?_of_not_isCheck hw]
    exact h.of_frame hw
  | true =>
    cases w with
    | recordCheck now host result =>
      have hsound := hostsSound_apply h.hosts (.recordCheck now host result)
      obtain ⟨answer, after, hrun, hrec⟩ :=
        recordCheck_recorded h.hosts h.checks h.limit now host result (later _ rfl)
      have hchecks := hrec.sound h.checks now.2 (later _ rfl)
      have hopen : after.Open b.host → store.database.Open b.host := by
        cases hrec <;> exact id
      have happly : store.apply (.recordCheck now host result) =
          { store with database := after } := by rw [Store.apply, hrun]
      have hasked : store.recorded? b (.recordCheck now host result) =
          if bucketOf host result = b then answer.toOption else none := by
        rw [recorded?, hrun]
      rw [happly] at hsound ⊢
      refine ⟨hsound, hchecks, h.limit, fun ho => ?_⟩
      have htracks := h.tracks (hopen ho)
      rw [Ledger.enter]
      cases hrec with
      | missing =>
        rw [hasked.trans (ite_self none)]
        exact htracks
      | full =>
        rw [hasked.trans (ite_self none)]
        exact htracks
      | recorded mem hid room =>
        by_cases hb : bucketOf host result = b
        · rw [hasked.trans (if_pos hb)]
          exact htracks.recorded h.checks rfl now.2 (later _ rfl) room h.limit hb
        · have hne : (result.toCheck host now.1 (store.database.lastCheck + 1)).bucket ≠ b := hb
          rw [hasked.trans (if_neg hb)]
          exact htracks.recorded_of_ne h.checks rfl hne _
    | _ => cases hw

/-- A row of the history was there before or is written at the time of the write. -/
theorem mem_checks_apply (h : Balanced store b l) {w : Write}
    (later : ∀ t, w.time? = some t →
      ∀ r ∈ store.database.checks, r.columns.checkedAt < Time.storedText t) {r : CheckRow}
    (hr : r ∈ (store.apply w).database.checks) :
    r ∈ store.database.checks ∨
      ∃ t, w.time? = some t ∧ t.Valid ∧ r.columns.checkedAt = Time.storedText t := by
  cases hw : w.isCheck with
  | false => exact .inl ((frame_apply h.hosts hw).checks.subset hr)
  | true =>
    cases w with
    | recordCheck now host result =>
      obtain ⟨answer, after, hrun, hrec⟩ :=
        recordCheck_recorded h.hosts h.checks h.limit now host result (later _ rfl)
      have happly : store.apply (.recordCheck now host result) =
          { store with database := after } := by rw [Store.apply, hrun]
      rw [happly] at hr
      cases hrec with
      | missing => exact .inl hr
      | full => exact .inl hr
      | recorded mem hid room =>
        rcases List.mem_append.mp ((trimmed_sublist _ _ _).subset hr) with hr | hr
        · exact .inl hr
        · exact .inr ⟨now.1, rfl, now.2, congrArg (·.columns.checkedAt) (List.mem_singleton.mp hr)⟩
    | _ => cases hw

end Steps

theorem Write.valid_time {w : Write} {t : Time.Instant} (h : w.time? = some t) : t.Valid := by
  cases w with
  | upsertHost now _ | registerStart now _ | refreshSelf now _ | recordCheck now _ _ =>
    cases h
    exact now.2
  | deleteHost | addLogs | reopen => cases h

theorem Clocked.tail {w : Write} {writes : List Write} (h : Clocked (w :: writes)) :
    Clocked writes := by
  obtain ⟨hbefore, hdigits⟩ := h
  cases ht : w.time? with
  | none =>
    rw [List.filterMap_cons_none ht] at hbefore hdigits
    exact ⟨hbefore, hdigits⟩
  | some t =>
    rw [List.filterMap_cons_some ht] at hbefore hdigits
    exact ⟨(List.pairwise_cons.mp hbefore).2, fun u hu => hdigits u (List.mem_cons_of_mem _ hu)⟩

theorem Clocked.storedText_lt {w : Write} {writes : List Write} (h : Clocked (w :: writes))
    {t u : Time.Instant} (ht : w.time? = some t) (hu : u ∈ writes.filterMap Write.time?) :
    Time.storedText t < Time.storedText u := by
  obtain ⟨hbefore, hdigits⟩ := h
  rw [List.filterMap_cons_some ht] at hbefore hdigits
  obtain ⟨v, -, hv⟩ := List.mem_filterMap.mp hu
  exact Time.storedText_lt (Write.valid_time ht) (Write.valid_time hv)
    (hdigits t (List.mem_cons_self ..)) (hdigits u (List.mem_cons_of_mem _ hu))
    ((List.pairwise_cons.mp hbefore).1 u hu)

/-- Through a whole run a store and the ledger of a bucket go on together. -/
theorem Balanced.after {store : Store} {b : Bucket} {l : Ledger} (h : Balanced store b l)
    {writes : List Write} (hclock : Clocked writes)
    (later : ∀ t ∈ writes.filterMap Write.time?,
      ∀ r ∈ store.database.checks, r.columns.checkedAt < Time.storedText t) :
    Balanced (store.after writes) b (store.ledger b l writes) := by
  induction writes generalizing store l with
  | nil => exact h
  | cons w writes ih =>
    have hnow : ∀ t, w.time? = some t →
        ∀ r ∈ store.database.checks, r.columns.checkedAt < Time.storedText t :=
      fun t ht => later t (List.mem_filterMap.mpr ⟨w, List.mem_cons_self .., ht⟩)
    refine ih (h.apply hnow) hclock.tail ?_
    intro u hu r hr
    rcases mem_checks_apply h hnow hr with hr | ⟨t, ht, -, heq⟩
    · obtain ⟨v, hv, hvu⟩ := List.mem_filterMap.mp hu
      exact later u (List.mem_filterMap.mpr ⟨v, List.mem_cons_of_mem _ hv, hvu⟩) r hr
    · rw [heq]
      exact hclock.storedText_lt ht hu

theorem balanced_empty (limit : Nat) (b : Bucket) :
    Balanced (({} : Store).withHistoryLimit limit) b {} := by
  refine ⟨hostsSound_empty, ?_, Nat.le_max_right limit 1, fun _ => ?_⟩
  · refine ⟨fun _ h => (nomatch h), fun _ h => (nomatch h), List.Pairwise.nil,
      fun _ h => (nomatch h), ?_⟩
    show (0 : Int) ≤ 0 ∧ (0 : Int) ≤ Cell.highest
    decide
  · exact ⟨fun _ h => (nomatch h), Nat.le_refl 0, Int.le_refl 0, rfl, rfl, rfl⟩

/-- What a store tells of a bucket is what its ledger says. -/
structure Shows (store : Store) (b : Bucket) (l : Ledger) : Prop where
  counter : store.database.counters.filter (·.isOf b) =
    if l.log = [] then [] else [counterRow b l.log]
  latest : ∃ checks, store.latestChecks b.host = .ok checks ∧
    checks.filter (·.bucket = b) = l.log.getLast?.toList
  history : ∀ limit, store.checks b limit = .ok (l.log.reverse.take (min limit l.kept))
  kept : l.kept ≤ l.log.length
  length : l.log.length < Number.limit63

section Shows

variable {store : Store} {b : Bucket} {l : Ledger}

theorem latestRow_injective {c c' : Check} (hc : c.checkedAt.Valid) (hc' : c'.checkedAt.Valid)
    (h : c.latestRow = c'.latestRow) : c = c' := by
  have hread := read_latestRow hc
  rw [h, read_latestRow hc'] at hread
  exact (Except.ok.inj hread).symm

/-- The history of a bucket is read back to front. -/
theorem Balanced.history (h : Balanced store b l) (ho : store.database.Open b.host)
    (limit : Nat) : store.checks b limit = .ok (l.log.reverse.take (min limit l.kept)) := by
  have htracks := h.tracks ho
  have hkept := htracks.kept
  have hlen := htracks.length
  have hlast := h.checks.lastCheck.2
  have horder : (store.database.checks.filter (·.columns.isIn b)).Pairwise CheckRow.Earlier :=
    h.checks.ordered.filter _
  have hreverse : (l.log.drop (l.log.length - l.kept)).reverse = l.log.reverse.take l.kept := by
    rw [List.reverse_drop, Nat.sub_sub_self hkept]
  have hrows : store.database.history b = (l.log.reverse.take l.kept).map Check.row := by
    rw [Database.history, inOrder_eq_reverse (horder.imp CheckRow.Earlier.not_newer),
      htracks.history, ← List.map_reverse, hreverse]
  have hfits : ((l.log.reverse.take l.kept).map Check.row).length < Number.limit63 := by
    unfold Cell.highest at hlast
    rw [List.length_map, List.length_take, List.length_reverse]
    omega
  rw [Store.checks, hrows, upTo_eq_take hfits, ← List.map_take, List.take_take]
  refine readAll_eq_ok ?_
  intro c hc
  exact read_row (htracks.bucket c (List.mem_reverse.mp (List.mem_of_mem_take hc))).2

/-- The latest check of a bucket is found among those of its host. -/
theorem Balanced.latest (h : Balanced store b l) (ho : store.database.Open b.host) :
    ∃ checks, store.latestChecks b.host = .ok checks ∧
      checks.filter (·.bucket = b) = l.log.getLast?.toList := by
  have htracks := h.tracks ho
  have hperm := inOrder_perm bucketBefore
    (store.database.latest.filter (·.columns.host.isNumber b.host))
  have hrows : ∀ r ∈ inOrder bucketBefore
      (store.database.latest.filter (·.columns.host.isNumber b.host)),
      ∃ c : Check, c.checkedAt.Valid ∧ r = c.latestRow :=
    fun r hr => h.checks.latest r (List.mem_filter.mp (hperm.subset hr)).1
  obtain ⟨cs, hvalid, hcs⟩ := exists_map_eq hrows
  refine ⟨cs, ?_, ?_⟩
  · rw [latestChecks, hcs]
    exact readAll_eq_ok fun c hc => read_latestRow (hvalid c hc)
  -- Of the host's rows those of the bucket are one at most, so that the order is of no matter.
  have hslot : ((cs.filter (·.bucket = b)).map Check.latestRow).Perm
      (l.log.getLast?.toList.map Check.latestRow) := by
    rw [← htracks.slot]
    have hmap : (cs.filter (·.bucket = b)).map Check.latestRow =
        (cs.map Check.latestRow).filter (·.columns.isIn b) := by
      rw [List.filter_map]
      refine congrArg _ (List.filter_congr fun c _ => ?_)
      rw [Bool.eq_iff_iff, decide_eq_true_eq]
      exact isIn_columns_iff.symm
    rw [hmap, ← hcs]
    refine (hperm.filter _).trans (.of_eq ?_)
    rw [List.filter_filter]
    refine List.filter_congr ?_
    intro r _
    cases hin : r.columns.isIn b with
    | false => rfl
    | true =>
      simp only [CheckColumns.isIn, Bool.and_eq_true] at hin
      rw [hin.1.1]
      rfl
  cases hlast : l.log.getLast? with
  | none =>
    rw [hlast] at hslot
    exact List.map_eq_nil_iff.mp hslot.eq_nil
  | some c =>
    rw [hlast] at hslot
    have hsingle := List.perm_singleton.mp hslot
    obtain ⟨c', hc', heq⟩ := List.map_eq_singleton_iff.mp hsingle
    have hmem : c' ∈ cs.filter (·.bucket = b) := by rw [hc']; exact List.mem_singleton_self c'
    have hlog : c ∈ l.log := List.mem_of_getLast? hlast
    rw [hc', latestRow_injective (hvalid c' (List.mem_filter.mp hmem).1)
      (htracks.bucket c hlog).2 heq]
    rfl

theorem Balanced.shows (h : Balanced store b l) (ho : store.database.Open b.host) :
    Shows store b l := by
  have htracks := h.tracks ho
  have hlen := htracks.length
  have hlast := h.checks.lastCheck.2
  refine ⟨htracks.counters, h.latest ho, h.history ho, htracks.kept, ?_⟩
  unfold Cell.highest at hlast
  omega

end Shows

/-- Under one limit throughout, the history keeps the last `limit` checks, and one at least. -/
theorem ledger_kept {store : Store} {l : Ledger} {limit : Nat} (b : Bucket)
    (hlimit : store.historyLimit = max limit 1)
    (hkept : l.kept = min l.log.length (max limit 1)) {writes : List Write}
    (fixed : ∀ n, .reopen n ∈ writes → n = limit) :
    (store.ledger b l writes).kept =
      min (store.ledger b l writes).log.length (max limit 1) := by
  induction writes generalizing store l with
  | nil => exact hkept
  | cons w writes ih =>
    refine ih ?_ ?_ fun n hn => fixed n (List.mem_cons_of_mem _ hn)
    · rw [historyLimit_apply]
      cases w with
      | reopen n => exact congrArg (max · 1) (fixed n (List.mem_cons_self ..))
      | _ => exact hlimit
    · rw [Ledger.enter]
      cases store.recorded? b w with
      | none => exact hkept
      | some c =>
        simp only [Ledger.add, List.length_append, List.length_singleton]
        omega

/-- After every run whose clock goes on, the store tells of each bucket of a host that is there what
the ledger of the bucket says. -/
theorem shows_ledger_after (limit : Nat) (writes : List Write) (clock : Clocked writes) (b : Bucket)
    (there : ∃ r ∈ ((({} : Store).withHistoryLimit limit).after writes).database.hosts,
      r.id = b.host) :
    Shows ((({} : Store).withHistoryLimit limit).after writes) b
        ((({} : Store).withHistoryLimit limit).ledger b {} writes) ∧
      ((∀ n, .reopen n ∈ writes → n = limit) →
        ((({} : Store).withHistoryLimit limit).ledger b {} writes).kept =
          min ((({} : Store).withHistoryLimit limit).ledger b {} writes).log.length
            (max limit 1)) := by
  have hbalanced := (balanced_empty limit b).after clock fun _ _ _ hr => (nomatch hr)
  exact ⟨hbalanced.shows (.inl there), ledger_kept b rfl (Nat.zero_min _).symm⟩

/-- Three checks in one bucket and one in another, under a limit of two. -/
def trimmingWrites : List Write :=
  let failed := { sampleResult with status := .error }
  [.reopen 2, .upsertHost Time.epoch { hostname := "a" },
    .recordCheck ⟨⟨1, 0⟩, by decide⟩ 1 sampleResult,
    .recordCheck ⟨⟨2, 0⟩, by decide⟩ 1 { sampleResult with network := .external },
    .recordCheck ⟨⟨3, 0⟩, by decide⟩ 1 failed, .recordCheck ⟨⟨4, 0⟩, by decide⟩ 1 sampleResult]

/-- Another check under a limit of one, and another without a limit. -/
def changingWrites : List Write :=
  trimmingWrites ++
    [.reopen 0, .recordCheck ⟨⟨5, 0⟩, by decide⟩ 1 sampleResult,
      .reopen 18446744073709551615, .recordCheck ⟨⟨6, 0⟩, by decide⟩ 1 sampleResult]

/-- An empty store that keeps two checks of each bucket. -/
def twoKept : Store := ({} : Store).withHistoryLimit 2

/-- Of three checks in one bucket the last two are kept; of five, under limits that change, the last
two again. All five are counted, one of them as failed. The other bucket keeps its one check. -/
theorem shows_ledger_after_trims :
    (Shows (twoKept.after trimmingWrites) ⟨1, .internal, .http⟩
        (twoKept.ledger ⟨1, .internal, .http⟩ {} trimmingWrites) ∧
      (twoKept.ledger ⟨1, .internal, .http⟩ {} trimmingWrites).log.length = 3 ∧
      (twoKept.ledger ⟨1, .internal, .http⟩ {} trimmingWrites).kept = 2) ∧
    (Shows (twoKept.after changingWrites) ⟨1, .internal, .http⟩
        (twoKept.ledger ⟨1, .internal, .http⟩ {} changingWrites) ∧
      (∃ checks, (twoKept.after changingWrites).checks ⟨1, .internal, .http⟩ 10 = .ok checks ∧
        checks.map (·.checkedAt) = [⟨6, 0⟩, ⟨5, 0⟩]) ∧
      (twoKept.after changingWrites).database.counters.filter (·.isOf ⟨1, .internal, .http⟩) =
        [{ host := .whole 1, network := "internal", protocol := "HTTP", successes := .whole 4
           total := .whole 5 }]) ∧
    ∃ checks, (twoKept.after changingWrites).checks ⟨1, .external, .http⟩ 10 = .ok checks ∧
      checks.map (·.checkedAt) = [⟨2, 0⟩] := by
  have htrims : Clocked trimmingWrites := ⟨by decide, by decide⟩
  have hchanges : Clocked changingWrites := ⟨by decide, by decide⟩
  obtain ⟨hshown, hkept⟩ :=
    shows_ledger_after 2 _ htrims ⟨1, .internal, .http⟩ (by decide +kernel)
  have hinternal : Shows (twoKept.after changingWrites) ⟨1, .internal, .http⟩
      (twoKept.ledger ⟨1, .internal, .http⟩ {} changingWrites) :=
    (shows_ledger_after 2 _ hchanges ⟨1, .internal, .http⟩ (by decide +kernel)).1
  have hexternal : Shows (twoKept.after changingWrites) ⟨1, .external, .http⟩
      (twoKept.ledger ⟨1, .external, .http⟩ {} changingWrites) :=
    (shows_ledger_after 2 _ hchanges ⟨1, .external, .http⟩ (by decide +kernel)).1
  have hthree : (twoKept.ledger ⟨1, .internal, .http⟩ {} trimmingWrites).log.length = 3 := by
    decide +kernel
  have hfive : (twoKept.ledger ⟨1, .internal, .http⟩ {} changingWrites).log.length = 5 := by
    decide +kernel
  have hfixed : ∀ n, .reopen n ∈ trimmingWrites → n = 2 := by simp [trimmingWrites]
  refine ⟨⟨hshown, hthree, ?_⟩,
    ⟨hinternal, ⟨_, hinternal.history 10, by decide +kernel⟩, ?_⟩,
    _, hexternal.history 10, by decide +kernel⟩
  · refine (hkept hfixed).trans ?_
    show min (twoKept.ledger _ {} trimmingWrites).log.length 2 = 2
    rw [hthree]
    decide
  · rw [hinternal.counter, if_neg (List.ne_nil_of_length_eq_add_one hfive)]
    decide +kernel

/-- A check in the last second of the year 9999, and one in the next second. -/
def turningWrites : List Write :=
  [.upsertHost Time.epoch { hostname := "a" },
    .recordCheck ⟨⟨253402300799, 0⟩, by decide⟩ 1 sampleResult,
    .recordCheck ⟨⟨253402300800, 0⟩, by decide⟩ 1 sampleResult]

/-- When the year goes on to five digits, the check written last is not the newest. -/
theorem not_shows_past_four_digits :
    (turningWrites.filterMap Write.time?).Pairwise Time.Instant.Before ∧
      (∃ r ∈ (({} : Store).after turningWrites).database.hosts, r.id = 1) ∧
      ¬Shows (({} : Store).after turningWrites) ⟨1, .internal, .http⟩
        (({} : Store).ledger ⟨1, .internal, .http⟩ {} turningWrites) := by
  refine ⟨by decide, by decide +kernel, fun h => ?_⟩
  have hnewest : ((({} : Store).after turningWrites).checks ⟨1, .internal, .http⟩ 1).toOption ≠
      some ((({} : Store).ledger ⟨1, .internal, .http⟩ {} turningWrites).log.reverse.take 1) := by
    decide +kernel
  have hshown := congrArg Except.toOption (h.history 1)
  have hkept : min 1 (({} : Store).ledger ⟨1, .internal, .http⟩ {} turningWrites).kept = 1 := by
    decide +kernel
  rw [hkept] at hshown
  exact hnewest hshown

end PeerHealth.Store
