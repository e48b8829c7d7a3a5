import PeerHealth.Proofs.Store.Lists
import PeerHealth.Proofs.Store.Sound

/-! Recording a check. Main statements: all that this can come to on sound tables, and what is then
in each bucket of the history, of the latest checks and of the counters. -/

namespace PeerHealth

namespace Check

def bucket (c : Check) : Store.Bucket := ⟨c.host, c.network, c.protocol⟩

/-- What the tables keep of a check. -/
def columns (c : Check) : Store.CheckColumns :=
  { host := .whole c.host
    network := c.network.name
    protocol := c.protocol.name
    status := c.status.name
    code := .whole c.code.toNat
    latency := .whole c.latency
    body := c.body
    error := c.error
    checkedAt := Time.storedText c.checkedAt }

def row (c : Check) : Store.CheckRow := ⟨c.id, c.columns⟩

def latestRow (c : Check) : Store.LatestRow := ⟨.whole c.id, c.columns⟩

end Check

/-- The check that a result is recorded as. -/
def CheckResult.toCheck (result : CheckResult) (host : Int) (now : Time.Instant) (id : Int) :
    Check :=
  { id, host
    network := result.network
    protocol := result.protocol
    status := result.status
    code := result.code
    latency := min result.latency.nanoseconds Store.Cell.highest
    body := result.body
    error := result.error
    checkedAt := now }

namespace Store

/-! ### Rows of checks -/

section Rows

variable {c : Check} {b b' : Bucket}

theorem read_columns (h : c.checkedAt.Valid) : c.columns.read c.id = .ok c := by
  simp only [CheckColumns.read, bind_eq_ok_iff, readWhole_eq_ok_iff, readName_eq_ok_iff,
    readWord_eq_ok_iff, readTime_eq_ok_iff]
  exact ⟨_, rfl, _, Network.ofName?_name _, _, Protocol.ofName?_name _, _, Status.ofName?_name _,
    _, rfl, _, rfl, _, Time.parseTime?_storedText h, rfl⟩

theorem read_row (h : c.checkedAt.Valid) : c.row.read = .ok c := read_columns h

theorem read_latestRow (h : c.checkedAt.Valid) : c.latestRow.read = .ok c := by
  rw [LatestRow.read, bind_eq_ok_iff]
  exact ⟨c.id, readWhole_eq_ok_iff.mpr rfl, read_columns h⟩

theorem network_eq_of_name {m n : Network} (h : m.name = n.name) : m = n := by
  have := congrArg Network.ofName? h
  simpa using this

theorem protocol_eq_of_name {p q : Protocol} (h : p.name = q.name) : p = q := by
  have := congrArg Protocol.ofName? h
  simpa using this

theorem Cell.isNumber_unique {x : Cell} {m n : Int} (hm : x.isNumber m = true)
    (hn : x.isNumber n = true) : m = n := by
  cases x with
  | whole k =>
    simp only [isNumber_whole, decide_eq_true_eq] at hm hn
    omega
  | real y =>
    simp only [isNumber, decide_eq_true_eq] at hm hn
    rw [hm] at hn
    exact Option.some.inj hn
  | text s => cases hm

theorem Bucket.eq_of_names (hhost : b.host = b'.host) (hnetwork : b.network.name = b'.network.name)
    (hprotocol : b.protocol.name = b'.protocol.name) : b = b' := by
  cases b
  cases b'
  rw [Bucket.mk.injEq]
  exact ⟨hhost, network_eq_of_name hnetwork, protocol_eq_of_name hprotocol⟩

theorem CheckColumns.isIn_unique {columns : CheckColumns} (h : columns.isIn b = true)
    (h' : columns.isIn b' = true) : b = b' := by
  simp only [isIn, Bool.and_eq_true, decide_eq_true_eq] at h h'
  exact Bucket.eq_of_names (Cell.isNumber_unique h.1.1 h'.1.1) (h.1.2.symm.trans h'.1.2)
    (h.2.symm.trans h'.2)

theorem CheckColumns.not_isIn_of_ne {columns : CheckColumns} (hne : b ≠ b')
    (h : columns.isIn b = true) : columns.isIn b' = false :=
  Bool.eq_false_iff.mpr fun h' => hne (isIn_unique h h')

theorem CounterRow.isOf_unique {r : CounterRow} (h : r.isOf b = true) (h' : r.isOf b' = true) :
    b = b' := by
  simp only [isOf, Bool.and_eq_true, decide_eq_true_eq] at h h'
  exact Bucket.eq_of_names (Cell.isNumber_unique h.1.1 h'.1.1) (h.1.2.symm.trans h'.1.2)
    (h.2.symm.trans h'.2)

theorem CounterRow.not_isOf_of_ne {r : CounterRow} (hne : b ≠ b') (h : r.isOf b = true) :
    r.isOf b' = false :=
  Bool.eq_false_iff.mpr fun h' => hne (isOf_unique h h')

theorem isIn_bucket (c : Check) : c.columns.isIn c.bucket = true := by
  simp [CheckColumns.isIn, Check.columns, Check.bucket]

theorem isIn_columnsOf (host : Int) (result : CheckResult) (now : String) :
    (columnsOf host result now).isIn (bucketOf host result) = true := by
  simp [CheckColumns.isIn, columnsOf, bucketOf]

theorem isIn_columns_iff : c.columns.isIn b = true ↔ c.bucket = b := by
  constructor
  · exact fun h => CheckColumns.isIn_unique (isIn_bucket c) h
  · rintro rfl
    exact isIn_bucket c

end Rows

/-- Row `r` was written before row `s`. -/
structure CheckRow.Earlier (r s : CheckRow) : Prop where
  id : r.id < s.id
  time : r.columns.checkedAt < s.columns.checkedAt

theorem CheckRow.Earlier.not_newer {r s : CheckRow} (h : r.Earlier s) : newer r s = false := by
  have hlt := String.lt_asymm h.time
  have hne : r.columns.checkedAt ≠ s.columns.checkedAt := fun heq =>
    String.lt_irrefl _ (heq ▸ h.time)
  simp only [newer, hlt, hne, decide_false, Bool.false_and, Bool.or_self]

/-! ### The history cut to its limit -/

section Trimmed

variable {checks : List CheckRow} {b b' : Bucket} {limit : Nat}

theorem trimmed_sublist (checks : List CheckRow) (b : Bucket) (limit : Nat) :
    (trimmed checks b limit).Sublist checks := by
  unfold trimmed
  simp only
  split
  · exact .refl _
  · exact List.filter_sublist

theorem filter_trimmed (h : checks.Pairwise CheckRow.Earlier)
    (hlen : checks.length < Number.limit63) :
    (trimmed checks b limit).filter (·.columns.isIn b) =
      (checks.filter (·.columns.isIn b)).drop
        ((checks.filter (·.columns.isIn b)).length - limit) := by
  have hmine : (checks.filter (·.columns.isIn b)).Pairwise CheckRow.Earlier := h.filter _
  have hmineLen := List.length_filter_le (fun r : CheckRow => r.columns.isIn b) checks
  unfold trimmed
  simp only
  split
  · rename_i hle
    rw [Nat.sub_eq_zero_of_le hle, List.drop_zero]
  · have hlast : upTo limit (inOrder newer (checks.filter (·.columns.isIn b))) =
        ((checks.filter (·.columns.isIn b)).drop
          ((checks.filter (·.columns.isIn b)).length - limit)).reverse := by
      rw [inOrder_eq_reverse (hmine.imp CheckRow.Earlier.not_newer),
        upTo_eq_take (by rw [List.length_reverse]; omega), List.take_reverse]
    rw [hlast, List.filter_filter]
    refine Eq.trans ?_ (filter_id_drop (hmine.imp CheckRow.Earlier.id) _)
    rw [List.filter_filter]
    refine List.filter_congr ?_
    intro r hr
    cases hin : r.columns.isIn b with
    | false => simp
    | true => simp [List.map_reverse]

theorem filter_trimmed_of_ne (hne : b ≠ b') :
    (trimmed checks b limit).filter (·.columns.isIn b') = checks.filter (·.columns.isIn b') := by
  unfold trimmed
  simp only
  split
  · rfl
  · rw [List.filter_filter]
    refine List.filter_congr ?_
    intro r hr
    cases hin : r.columns.isIn b with
    | false => simp
    | true => simp [CheckColumns.not_isIn_of_ne hne hin]

theorem mem_trimmed {r : CheckRow} (h : (checks ++ [r]).Pairwise CheckRow.Earlier)
    (hlen : (checks ++ [r]).length < Number.limit63) (hlimit : 1 ≤ limit)
    (hr : r.columns.isIn b = true) : r ∈ trimmed (checks ++ [r]) b limit := by
  have hmine : (checks ++ [r]).filter (·.columns.isIn b) =
      checks.filter (·.columns.isIn b) ++ [r] := by
    rw [List.filter_append]
    exact congrArg _ (List.filter_cons_of_pos hr)
  have hmem : r ∈ (trimmed (checks ++ [r]) b limit).filter (·.columns.isIn b) := by
    rw [filter_trimmed h hlen, hmine, List.length_append, List.length_singleton,
      List.drop_append_of_le_length (by omega)]
    exact List.mem_append_right _ (List.mem_singleton_self r)
  exact (List.mem_filter.mp hmem).1

end Trimmed

/-! ### The latest check and the counters of a bucket -/

section Slots

variable {b : Bucket} {c : Check}

/-- The latest check of a bucket replaced. -/
def replaceLatest (c : Check) (r : LatestRow) : LatestRow :=
  ⟨.whole c.id, { c.columns with host := r.columns.host }⟩

theorem putLatest_eq (rows : List LatestRow) (c : Check) :
    putLatest rows c.bucket c.latestRow =
      putRow (fun r : LatestRow => r.columns.isIn c.bucket) (replaceLatest c) c.latestRow rows :=
  rfl

theorem replaceLatest_eq {r : LatestRow} (hhost : r.columns.host = .whole c.host) :
    replaceLatest c r = c.latestRow := by
  rw [replaceLatest, hhost]
  rfl

/-- A row written from a check keeps the number of the bucket's host as a whole number. -/
theorem host_of_isIn {r : LatestRow} (hrow : ∃ c' : Check, r = c'.latestRow)
    (hr : r.columns.isIn c.bucket = true) : r.columns.host = .whole c.host := by
  obtain ⟨c', rfl⟩ := hrow
  have hhost : c'.host = c.host := congrArg Bucket.host (isIn_columns_iff.mp hr)
  exact congrArg Cell.whole hhost

variable {latest : List LatestRow}
  (hhost : ∀ r ∈ latest, r.columns.isIn c.bucket = true → r.columns.host = .whole c.host)
include hhost

theorem isIn_replaceLatest : ∀ r ∈ latest, r.columns.isIn c.bucket = true →
    (replaceLatest c r).columns.isIn c.bucket = true := by
  intro r hr hin
  rw [replaceLatest_eq (hhost r hr hin)]
  exact isIn_bucket c

theorem filter_putLatest :
    (putLatest latest c.bucket c.latestRow).filter (·.columns.isIn c.bucket) =
      if latest.filter (·.columns.isIn c.bucket) = [] then [c.latestRow]
      else (latest.filter (·.columns.isIn c.bucket)).map fun _ => c.latestRow := by
  rw [putLatest_eq]
  refine (filter_putRow (isIn_replaceLatest hhost) (isIn_bucket c)).trans ?_
  refine ite_congr rfl (fun _ => rfl) fun _ => List.map_congr_left fun r hr => ?_
  obtain ⟨hmem, hin⟩ := List.mem_filter.mp hr
  exact replaceLatest_eq (hhost r hmem hin)

theorem filter_putLatest_of_ne (hne : c.bucket ≠ b) :
    (putLatest latest c.bucket c.latestRow).filter (·.columns.isIn b) =
      latest.filter (·.columns.isIn b) := by
  rw [putLatest_eq]
  exact filter_putRow_of_disjoint (fun _ => CheckColumns.not_isIn_of_ne hne)
    (isIn_replaceLatest hhost) (isIn_bucket c)

theorem mem_putLatest {r : LatestRow} (h : r ∈ putLatest latest c.bucket c.latestRow) :
    r ∈ latest ∨ r = c.latestRow := by
  rw [putLatest_eq] at h
  rcases mem_putRow h with h | h | ⟨s, hs, hin, rfl⟩
  · exact .inl h
  · exact .inr h
  · exact .inr (replaceLatest_eq (hhost s hs hin))

/-- A check that has been put in is the only one of its bucket. -/
theorem mem_putLatest_of_isIn {r : LatestRow} (hin : r.columns.isIn c.bucket = true) :
    r ∈ putLatest latest c.bucket c.latestRow ↔ r = c.latestRow := by
  have hmem : r ∈ putLatest latest c.bucket c.latestRow ↔
      r ∈ (putLatest latest c.bucket c.latestRow).filter (·.columns.isIn c.bucket) := by
    rw [List.mem_filter]
    exact (and_iff_left hin).symm
  rw [hmem, filter_putLatest hhost]
  split
  · exact List.mem_singleton
  · rename_i hne
    obtain ⟨s, rest, hcons⟩ := List.exists_cons_of_ne_nil hne
    rw [hcons]
    simp

end Slots

section Counters

variable {b b' : Bucket}

def successes (log : List Check) : Nat := log.countP fun c => c.status = Status.success

/-- The counter of a bucket after the checks of a log. -/
def counterRow (b : Bucket) (log : List Check) : CounterRow :=
  { host := .whole b.host
    network := b.network.name
    protocol := b.protocol.name
    successes := .whole (successes log)
    total := .whole log.length }

/-- One more check counted. -/
def countStatus (status : Status) (r : CounterRow) : CounterRow :=
  { r with
    successes := r.successes.plus (if status = .success then 1 else 0)
    total := r.total.plus 1 }

theorem isOf_counterRow (b : Bucket) (log : List Check) : (counterRow b log).isOf b = true := by
  simp [CounterRow.isOf, counterRow]

theorem successes_le_length (log : List Check) : successes log ≤ log.length :=
  List.countP_le_length

theorem countStatus_counterRow {log : List Check} {c : Check}
    (h : log.length + 1 < Number.limit63) :
    countStatus c.status (counterRow b log) = counterRow b (log ++ [c]) := by
  have hle := successes_le_length log
  have hsum : successes (log ++ [c]) = successes log + if c.status = .success then 1 else 0 := by
    by_cases hs : c.status = .success <;> simp [successes, List.countP_append, hs]
  have hsuccess : (Cell.whole (successes log)).plus (if c.status = .success then 1 else 0) =
      .whole (successes (log ++ [c]) : Nat) := by
    rw [hsum]
    split
    · exact Cell.plus_one (by omega)
    · exact Cell.plus_natCast (n := 0) (by omega)
  have htotal : (Cell.whole log.length).plus 1 = .whole ((log ++ [c]).length : Nat) := by
    rw [List.length_append, List.length_singleton]
    exact Cell.plus_one h
  exact congr (congrArg (CounterRow.mk (.whole b.host) b.network.name b.protocol.name) hsuccess)
    htotal

theorem countCheck_eq (rows : List CounterRow) (c : Check) :
    countCheck rows c.bucket c.status =
      putRow (fun r : CounterRow => r.isOf c.bucket) (countStatus c.status)
        (counterRow c.bucket [c]) rows := by
  have hnew : counterRow c.bucket [c] =
      { host := .whole c.bucket.host
        network := c.bucket.network.name
        protocol := c.bucket.protocol.name
        successes := .whole (if c.status = .success then 1 else 0)
        total := .whole 1 } := by
    by_cases hs : c.status = .success <;> simp [counterRow, successes, hs]
  rw [hnew]
  rfl

theorem isOf_countStatus {status : Status} {r : CounterRow} (h : r.isOf b = true) :
    (countStatus status r).isOf b = true := h

/-- The counter of a bucket goes on to count its log. -/
theorem filter_countCheck {rows : List CounterRow} {log : List Check} {c : Check}
    (h : rows.filter (·.isOf c.bucket) = if log = [] then [] else [counterRow c.bucket log])
    (room : log.length + 1 < Number.limit63) :
    (countCheck rows c.bucket c.status).filter (·.isOf c.bucket) =
      [counterRow c.bucket (log ++ [c])] := by
  rw [countCheck_eq]
  refine (filter_putRow (p := fun r : CounterRow => r.isOf c.bucket)
    (fun r _ => isOf_countStatus) (isOf_counterRow _ _)).trans ?_
  rw [h]
  by_cases hlog : log = []
  · rw [if_pos hlog, if_pos rfl, hlog]
    rfl
  · rw [if_neg hlog, if_neg (List.cons_ne_nil _ _), List.map_singleton,
      countStatus_counterRow room]

theorem filter_countCheck_of_ne {rows : List CounterRow} {c : Check} (hne : c.bucket ≠ b) :
    (countCheck rows c.bucket c.status).filter (·.isOf b) = rows.filter (·.isOf b) := by
  rw [countCheck_eq]
  exact filter_putRow_of_disjoint (fun _ => CounterRow.not_isOf_of_ne hne)
    (fun _ _ => isOf_countStatus) (isOf_counterRow _ _)

end Counters

/-! ### Recording -/

/-- Tables of checks in which every row reads, in the order in which they were written. -/
structure Database.ChecksSound (db : Database) : Prop where
  checks : ∀ r ∈ db.checks, ∃ c : Check, c.checkedAt.Valid ∧ r = c.row
  latest : ∀ r ∈ db.latest, ∃ c : Check, c.checkedAt.Valid ∧ r = c.latestRow
  ordered : db.checks.Pairwise CheckRow.Earlier
  numbered : ∀ r ∈ db.checks, 1 ≤ r.id ∧ r.id ≤ db.lastCheck
  lastCheck : 0 ≤ db.lastCheck ∧ db.lastCheck ≤ Cell.highest

/-- The tables with one more check. -/
def Database.recorded (db : Database) (c : Check) (limit : Nat) : Database :=
  { db with
    checks := trimmed (db.checks ++ [c.row]) c.bucket limit
    latest := putLatest db.latest c.bucket c.latestRow
    counters := countCheck db.counters c.bucket c.status
    lastCheck := c.id }

/-- All that recording a check later than all others can come to. -/
inductive Recorded (db : Database) (host : Int) (result : CheckResult) (now : Time.Instant)
    (limit : Nat) : Except Fault Check → Database → Prop
  | missing (missing : ∀ r ∈ db.hosts, r.id ≠ host) :
      Recorded db host result now limit (.error .notFound) db
  | full (last : db.lastCheck = Cell.highest) :
      Recorded db host result now limit (.error Statements.full) db
  | recorded {r : HostRow} (mem : r ∈ db.hosts) (hid : r.id = host)
      (room : db.lastCheck < Cell.highest) :
      Recorded db host result now limit (.ok (result.toCheck host now (db.lastCheck + 1)))
        (db.recorded (result.toCheck host now (db.lastCheck + 1)) limit)

section Recording

variable {db : Database} {now : Time.Instant} {limit : Nat}

theorem Database.ChecksSound.length_checks (h : db.ChecksSound) :
    (db.checks.length : Int) ≤ db.lastCheck := by
  by_cases hnil : db.checks = []
  · rw [hnil]
    exact h.lastCheck.1
  · have hlen := length_le_of_ids (h.ordered.imp CheckRow.Earlier.id) (fun r hr =>
      (h.numbered r hr).1) (fun r hr => (h.numbered r hr).2) hnil
    omega

/-- A check later than all others goes behind them. -/
theorem Database.ChecksSound.ordered_append (h : db.ChecksSound) {c : Check}
    (hid : c.id = db.lastCheck + 1)
    (later : ∀ r ∈ db.checks, r.columns.checkedAt < Time.storedText c.checkedAt) :
    (db.checks ++ [c.row]).Pairwise CheckRow.Earlier := by
  refine List.pairwise_append.mpr ⟨h.ordered, List.pairwise_singleton _ _, fun r hr s hs => ?_⟩
  rw [List.mem_singleton.mp hs]
  have hnum := (h.numbered r hr).2
  refine ⟨?_, later r hr⟩
  show r.id < c.id
  omega

theorem Database.ChecksSound.length_append (h : db.ChecksSound) (c : Check)
    (room : db.lastCheck < Cell.highest) :
    (db.checks ++ [c.row]).length < Number.limit63 := by
  have hlen := h.length_checks
  unfold Cell.highest at room
  rw [List.length_append, List.length_singleton]
  omega

theorem Database.ChecksSound.nextCheck_eq (h : db.ChecksSound) :
    Statements.nextCheck db = db.lastCheck + 1 := by
  refine Statements.nextId_eq ?_
  intro id hmem
  obtain ⟨r, hr, rfl⟩ := List.mem_map.mp hmem
  exact (h.numbered r hr).2

theorem Database.ChecksSound.find?_recorded (h : db.ChecksSound) {c : Check}
    (hid : c.id = db.lastCheck + 1)
    (later : ∀ r ∈ db.checks, r.columns.checkedAt < Time.storedText c.checkedAt)
    (room : db.lastCheck < Cell.highest) (hlimit : 1 ≤ limit) :
    (db.recorded c limit).checks.find? (·.id = c.id) = some c.row := by
  have hord := h.ordered_append hid later
  have hmem := mem_trimmed hord (h.length_append c room) hlimit (isIn_bucket c)
  have hsub := hord.sublist (trimmed_sublist (db.checks ++ [c.row]) c.bucket limit)
  exact find?_id_eq (hsub.imp CheckRow.Earlier.id) hmem

/-- What is left to do once a check stands in the history. -/
def Statements.keepCheck (id : Int) (b : Bucket) (columns : CheckColumns) (status : Status)
    (limit : Nat) (between : Statements Unit) : Statements Check := do
  modify fun db => { db with checks := trimmed db.checks b limit }
  between
  modify fun db => { db with latest := putLatest db.latest b ⟨.whole id, columns⟩ }
  modify fun db => { db with counters := countCheck db.counters b status }
  ask fun db =>
    match db.checks.find? (·.id = id) with
    | some r => ofTable r.read
    | none => .error (.table .missingRow)

theorem Statements.writeCheck_eq (host : Int) (result : CheckResult) (limit : Nat) (now : String)
    (between : Statements Unit) :
    writeCheck host result limit now between = (do
      let _ ← ask (·.hostById host)
      let id ← insertCheck (columnsOf host result now)
      keepCheck id (bucketOf host result) (columnsOf host result now) result.status limit
        between) := rfl

theorem Statements.exec_keepCheck (h : db.ChecksSound) {c : Check} (hid : c.id = db.lastCheck + 1)
    (hvalid : c.checkedAt.Valid)
    (later : ∀ r ∈ db.checks, r.columns.checkedAt < Time.storedText c.checkedAt)
    (room : db.lastCheck < Cell.highest) (hlimit : 1 ≤ limit) :
    exec (keepCheck c.id c.bucket c.columns c.status limit (pure ()))
        { db with checks := db.checks ++ [c.row], lastCheck := c.id } =
      (.ok c, db.recorded c limit) := by
  have hfind := h.find?_recorded hid later room hlimit
  rw [keepCheck, exec_bind_of_ok (exec_modify _ _), exec_bind_of_ok (exec_pure () _),
    exec_bind_of_ok (exec_modify _ _), exec_bind_of_ok (exec_modify _ _), exec_ask]
  show ((match (db.recorded c limit).checks.find? (·.id = c.id) with
    | some r => ofTable r.read
    | none => .error (.table .missingRow)), db.recorded c limit) = _
  rw [hfind]
  exact congrArg (fun answer => (answer, db.recorded c limit))
    (ofTable_eq_ok_iff.mpr (read_row hvalid))

/-- Every recording of a check later than all others is one of those listed. -/
theorem Statements.writeCheck_recorded (hdb : db.HostsSound) (h : db.ChecksSound)
    (hnow : now.Valid) (hlimit : 1 ≤ limit) (host : Int) (result : CheckResult)
    (later : ∀ r ∈ db.checks, r.columns.checkedAt < Time.storedText now) :
    ∃ answer after,
      (writeCheck host result limit (Time.storedText now) (pure ())).transact db =
        (answer, after) ∧ Recorded db host result now limit answer after := by
  by_cases hmissing : ∀ r ∈ db.hosts, r.id ≠ host
  · have hask : exec (ask (·.hostById host)) db = (.error .notFound, db) := by
      rw [exec_ask, Database.hostById_eq_notFound hmissing]
    exact ⟨_, _, transact_of_error (exec_bind_of_error hask), .missing hmissing⟩
  have hfound : ∃ r ∈ db.hosts, r.id = host := by simpa using hmissing
  obtain ⟨r, hr, hid⟩ := hfound
  obtain ⟨found, htells⟩ := (hdb.rows r hr).read
  have hask : exec (ask (·.hostById host)) db = (.ok found, db) := by
    rw [exec_ask, ← hid, Database.hostById_eq_ok hdb.distinct hr htells]
  have hinsert := exec_insertCheck (columnsOf host result (Time.storedText now)) db
  rw [h.nextCheck_eq] at hinsert
  by_cases hroom : db.lastCheck < Cell.highest
  · rw [if_neg (by omega)] at hinsert
    have hkeep := exec_keepCheck h (c := result.toCheck host now (db.lastCheck + 1)) rfl hnow later
      hroom hlimit
    have hexec : exec (writeCheck host result limit (Time.storedText now) (pure ())) db =
        (.ok (result.toCheck host now (db.lastCheck + 1)),
          db.recorded (result.toCheck host now (db.lastCheck + 1)) limit) := by
      rw [writeCheck_eq, exec_bind_of_ok hask, exec_bind_of_ok hinsert]
      exact hkeep
    exact ⟨_, _, transact_of_ok hexec, .recorded hr hid hroom⟩
  · rw [if_pos (by omega)] at hinsert
    have hlast := h.lastCheck.2
    refine ⟨_, _, transact_of_error ((exec_bind_of_ok hask).trans (exec_bind_of_error hinsert)),
      .full (by omega)⟩

theorem Recorded.sound {answer : Except Fault Check} {after : Database} {host : Int}
    {result : CheckResult} (h : Recorded db host result now limit answer after)
    (hdb : db.ChecksSound) (hnow : now.Valid)
    (later : ∀ r ∈ db.checks, r.columns.checkedAt < Time.storedText now) : after.ChecksSound := by
  cases h with
  | missing => exact hdb
  | full => exact hdb
  | recorded mem hid room =>
    have hord := hdb.ordered_append (c := result.toCheck host now (db.lastCheck + 1)) rfl later
    have hsub := trimmed_sublist
      (db.checks ++ [(result.toCheck host now (db.lastCheck + 1)).row])
      (result.toCheck host now (db.lastCheck + 1)).bucket limit
    have hlast := hdb.lastCheck
    refine ⟨fun r hr => ?_, fun r hr => ?_, hord.sublist hsub, fun r hr => ?_, ?_⟩
    · rcases List.mem_append.mp (hsub.subset hr) with hr | hr
      · exact hdb.checks r hr
      · exact ⟨_, hnow, List.mem_singleton.mp hr⟩
    · rcases mem_putLatest
        (fun r hr => host_of_isIn ((hdb.latest r hr).imp fun _ h => h.2)) hr with hr | rfl
      · exact hdb.latest r hr
      · exact ⟨_, hnow, rfl⟩
    · show 1 ≤ r.id ∧ r.id ≤ db.lastCheck + 1
      rcases List.mem_append.mp (hsub.subset hr) with hr | hr
      · have hnum := hdb.numbered r hr
        omega
      · rw [List.mem_singleton.mp hr]
        show 1 ≤ db.lastCheck + 1 ∧ db.lastCheck + 1 ≤ db.lastCheck + 1
        omega
    · show 0 ≤ db.lastCheck + 1 ∧ db.lastCheck + 1 ≤ Cell.highest
      omega

end Recording
end Store
end PeerHealth
