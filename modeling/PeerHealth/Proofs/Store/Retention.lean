import PeerHealth.Proofs.Store.Changes

/-! Which checks stay in a history that is cut to its limit. Main statements: a check stays unless
the history is full of checks with later times; one that stays is the latest of its bucket and is
counted, whatever the clock shows, and one that does not is refused, so that the tables are as they
were. -/

namespace PeerHealth.Store

/-! ### The order of a history -/

section Newer

variable {r s t : CheckRow}

theorem newer_iff : newer r s = true ↔ s.columns.checkedAt < r.columns.checkedAt ∨
    (r.columns.checkedAt = s.columns.checkedAt ∧ s.id ≤ r.id) := by
  simp [newer]

theorem newer_trans (r s t : CheckRow) (h : newer r s = true) (h' : newer s t = true) :
    newer r t = true := by
  rw [newer_iff] at h h' ⊢
  rcases h with hlt | ⟨heq, hid⟩ <;> rcases h' with hlt' | ⟨heq', hid'⟩
  · exact .inl (String.lt_trans hlt' hlt)
  · exact .inl (heq' ▸ hlt)
  · exact .inl (heq ▸ hlt')
  · exact .inr ⟨heq.trans heq', by omega⟩

theorem newer_total (r s : CheckRow) : newer r s = true ∨ newer s r = true := by
  rw [newer_iff, newer_iff]
  by_cases hlt : s.columns.checkedAt < r.columns.checkedAt
  · exact .inl (.inl hlt)
  by_cases hlt' : r.columns.checkedAt < s.columns.checkedAt
  · exact .inr (.inl hlt')
  have heq := String.le_antisymm (String.not_lt.mp hlt) (String.not_lt.mp hlt')
  rcases Int.le_total s.id r.id with hid | hid
  · exact .inl (.inr ⟨heq, hid⟩)
  · exact .inr (.inr ⟨heq.symm, hid⟩)

/-- Of a row with a lower number, only a later time makes it the newer one. -/
theorem newer_iff_of_id_lt (h : s.id < r.id) :
    newer s r = true ↔ r.columns.checkedAt < s.columns.checkedAt := by
  rw [newer_iff]
  exact or_iff_left fun hle => absurd hle.2 (by omega)

end Newer

theorem mem_take_append_cons_iff {α : Type} {x : α} {xs ys : List α} (h : x ∉ xs) (n : Nat) :
    x ∈ (xs ++ x :: ys).take n ↔ xs.length < n := by
  rw [List.take_append, List.mem_append]
  constructor
  · rintro (hmem | hmem)
    · exact absurd (List.mem_of_mem_take hmem) h
    · by_contra hle
      rw [Nat.sub_eq_zero_of_le (by omega)] at hmem
      cases hmem
  · intro hlt
    obtain ⟨k, hk⟩ : ∃ k, n - xs.length = k + 1 := ⟨n - xs.length - 1, by omega⟩
    rw [hk]
    exact .inr (List.mem_cons_self ..)

section Trimmed

variable {checks : List CheckRow} {r : CheckRow} {b : Bucket} {limit : Nat}

/-- Among the newest rows the one with the highest number is preceded by those with later times. -/
theorem mem_take_inOrder_iff (h : ∀ s ∈ checks, s.id < r.id) :
    r ∈ (inOrder newer (checks ++ [r])).take limit ↔
      (checks.filter fun s => decide (r.columns.checkedAt < s.columns.checkedAt)).length <
        limit := by
  have hperm : (inOrder newer (checks ++ [r])).Perm (r :: checks) :=
    (inOrder_perm newer _).trans List.perm_append_comm
  have hordered := inOrder_pairwise newer_trans newer_total (checks ++ [r])
  obtain ⟨front, back, hsplit⟩ := List.append_of_mem (hperm.mem_iff.mpr (List.mem_cons_self ..))
  rw [hsplit] at hperm hordered
  have hrest : (front ++ back).Perm checks := (List.perm_middle.symm.trans hperm).cons_inv
  have hid : ∀ s, s ∈ front ∨ s ∈ back → s.id < r.id := fun s hs =>
    h s (hrest.mem_iff.mp (List.mem_append.mpr hs))
  obtain ⟨-, hback, hfront⟩ := List.pairwise_append.mp hordered
  have hlater : front.filter (fun s => decide (r.columns.checkedAt < s.columns.checkedAt)) =
      front := by
    refine List.filter_eq_self.mpr fun s hs => decide_eq_true ?_
    exact (newer_iff_of_id_lt (hid s (.inl hs))).mp (hfront s hs r (List.mem_cons_self ..))
  have hearlier : back.filter (fun s => decide (r.columns.checkedAt < s.columns.checkedAt)) =
      [] := by
    refine List.filter_eq_nil_iff.mpr fun s hs hlt => ?_
    have hnewer := (List.pairwise_cons.mp hback).1 s hs
    rw [decide_eq_true_eq] at hlt
    rw [newer_iff] at hnewer
    rcases hnewer with hlt' | ⟨heq, -⟩
    · exact String.lt_asymm hlt hlt'
    · exact String.lt_irrefl _ (heq ▸ hlt)
  rw [hsplit, mem_take_append_cons_iff fun hmem => absurd (hid r (.inl hmem)) (by omega),
    ← (hrest.filter _).length_eq, List.filter_append, hlater, hearlier, List.append_nil]

/-- A new row stays in the history of its bucket if there are fewer rows with later times than the
limit, or if there is none. -/
theorem mem_trimmed_iff (hin : r.columns.isIn b = true) (h : ∀ s ∈ checks, s.id < r.id) :
    r ∈ trimmed (checks ++ [r]) b limit ↔
      (checks.filter fun s => s.columns.isIn b &&
          decide (r.columns.checkedAt < s.columns.checkedAt)).length < limit ∨
        Number.limit63 ≤ limit := by
  let mine := checks.filter (·.columns.isIn b)
  have hmine : (checks ++ [r]).filter (·.columns.isIn b) = mine ++ [r] := by
    rw [List.filter_append]
    exact congrArg _ (List.filter_cons_of_pos hin)
  have hlater : checks.filter (fun s => s.columns.isIn b &&
        decide (r.columns.checkedAt < s.columns.checkedAt)) =
      mine.filter fun s => decide (r.columns.checkedAt < s.columns.checkedAt) := by
    rw [List.filter_filter]
    exact List.filter_congr fun s _ => Bool.and_comm _ _
  have hmineId : ∀ s ∈ mine, s.id < r.id := fun s hs => h s (List.mem_filter.mp hs).1
  have hlast : r ∈ checks ++ [r] := List.mem_append_right _ (List.mem_singleton_self r)
  have hlen := List.length_filter_le
    (fun s : CheckRow => decide (r.columns.checkedAt < s.columns.checkedAt)) mine
  rw [hlater, trimmed, hmine]
  simp only
  split
  · rename_i hle
    rw [List.length_append, List.length_singleton] at hle
    exact iff_of_true hlast (.inl (by omega))
  · -- a row of this bucket with the number of the new one is the new one
    have hkept : r ∈ upTo limit (inOrder newer (mine ++ [r])) ↔
        r.id ∈ (upTo limit (inOrder newer (mine ++ [r]))).map (·.id) := by
      refine ⟨List.mem_map_of_mem, fun hmem => ?_⟩
      obtain ⟨s, hs, hid⟩ := List.mem_map.mp hmem
      have hsub : s ∈ inOrder newer (mine ++ [r]) := by
        unfold upTo at hs
        split at hs
        · exact hs
        · exact List.mem_of_mem_take hs
      rcases List.mem_append.mp ((inOrder_perm newer _).mem_iff.mp hsub) with hmem' | hmem'
      · exact absurd (hmineId s hmem') (by omega)
      · exact List.mem_singleton.mp hmem' ▸ hs
    have hpicked : r ∈ (checks ++ [r]).filter (fun s => !s.columns.isIn b ||
          ((upTo limit (inOrder newer (mine ++ [r]))).map (·.id)).contains s.id) ↔
        r ∈ upTo limit (inOrder newer (mine ++ [r])) := by
      rw [List.mem_filter, hin, hkept]
      exact (and_iff_right hlast).trans List.contains_iff_mem
    rw [hpicked, upTo]
    split
    · rename_i hnone
      exact iff_of_true ((inOrder_perm newer _).mem_iff.mpr (by simp)) (.inr hnone)
    · rename_i hlimit
      rw [mem_take_inOrder_iff hmineId]
      exact (or_iff_left hlimit).symm

end Trimmed

/-! ### Tables that can be read -/

/-- The checks of a bucket with times after `now`, as times are kept. -/
def Database.laterChecks (db : Database) (b : Bucket) (now : String) : List CheckRow :=
  db.checks.filter fun r => r.columns.isIn b && decide (now < r.columns.checkedAt)

/-- The number in the total column of a bucket's counter. Of a bucket without one nothing is
counted. -/
def Database.totalIn (db : Database) (b : Bucket) : Int :=
  match (db.counters.find? fun r => r.isOf b).map CounterRow.total with
  | some (.whole n) => n
  | _ => 0

/-- The host of a bucket and what is kept of its checks can be read, and the bucket's counter can
count one more. -/
structure Database.Readable (db : Database) (b : Bucket) : Prop where
  host : ∃ h, db.hostById b.host = .ok h
  checks : ∀ r ∈ db.checks, r.columns.host.isNumber b.host = true → ∃ c, r.read = .ok c
  latest : ∀ r ∈ db.latest, r.columns.host.isNumber b.host = true → ∃ c, r.read = .ok c
  counter : ∀ r ∈ db.counters, r.isOf b = true →
    ∃ n, r.total = .whole n ∧ Cell.lowest ≤ n ∧ n < Cell.highest

/-- A check has been recorded: it is in the history of its bucket, it is the latest one there, and
it is counted once. -/
structure Counted (before after : Store) (c : Check) : Prop where
  history : ∃ cs, after.checks c.bucket Number.limit63 = .ok cs ∧ c ∈ cs
  latest : ∃ cs, after.latestChecks c.host = .ok cs ∧ c ∈ cs ∧
    ∀ c' ∈ cs, c'.bucket = c.bucket → c' = c
  total : after.database.totalIn c.bucket = before.database.totalIn c.bucket + 1

section Readable

variable {db : Database} {b : Bucket} {c : Check} {limit : Nat}

theorem network_name_of_ofName? {s : String} {n : Network} (h : Network.ofName? s = some n) :
    n.name = s := by
  unfold Network.ofName? at h
  grind [Network.name]

theorem protocol_name_of_ofName? {s : String} {p : Protocol} (h : Protocol.ofName? s = some p) :
    p.name = s := by
  unfold Protocol.ofName? at h
  grind [Protocol.name]

/-- A row is in the bucket of the check that it reads as. -/
theorem CheckColumns.isIn_of_read {columns : CheckColumns} {id : Int}
    (h : columns.read id = .ok c) :
    columns.isIn c.bucket = true ∧ columns.host = .whole c.host := by
  simp only [CheckColumns.read, bind_eq_ok_iff, readWhole_eq_ok_iff, readName_eq_ok_iff,
    readWord_eq_ok_iff, readTime_eq_ok_iff] at h
  obtain ⟨host, hhost, n, hn, p, hp, status, -, code, -, latency, -, at', -, hc⟩ := h
  cases hc
  refine ⟨?_, hhost⟩
  simp [CheckColumns.isIn, Check.bucket, hhost, network_name_of_ofName? hn,
    protocol_name_of_ofName? hp]

theorem isIn_of_readLatest {r : LatestRow} (h : r.read = .ok c) :
    r.columns.isIn c.bucket = true ∧ r.columns.host = .whole c.host := by
  rw [LatestRow.read, bind_eq_ok_iff] at h
  obtain ⟨id, -, hcolumns⟩ := h
  exact CheckColumns.isIn_of_read hcolumns

theorem isNumber_of_isIn {columns : CheckColumns} (h : columns.isIn b = true) :
    columns.host.isNumber b.host = true := by
  simp only [CheckColumns.isIn, Bool.and_eq_true] at h
  exact h.1.1

/-- The number in the counter of a bucket goes up by one. -/
theorem totalIn_countCheck (counters : ∀ r ∈ db.counters, r.isOf c.bucket = true →
      ∃ n, r.total = .whole n ∧ Cell.lowest ≤ n ∧ n < Cell.highest) {after : Database}
    (hafter : after.counters = countCheck db.counters c.bucket c.status) :
    after.totalIn c.bucket = db.totalIn c.bucket + 1 := by
  have hsame : ∀ r ∈ db.counters, r.isOf c.bucket = true →
      (countStatus c.status r).isOf c.bucket = true := fun _ _ => isOf_countStatus
  have hfind := find?_putRow hsame (isOf_counterRow c.bucket [c])
  rw [Database.totalIn, hafter, countCheck_eq, hfind, Database.totalIn]
  cases hfirst : db.counters.find? (fun r => r.isOf c.bucket) with
  | none => rfl
  | some r =>
    have hisOf : r.isOf c.bucket = true :=
      List.find?_some (p := fun r : CounterRow => r.isOf c.bucket) hfirst
    obtain ⟨n, hn, hlow, hhigh⟩ := counters r (List.mem_of_find?_eq_some hfirst) hisOf
    have hplus : (countStatus c.status r).total = .whole (n + 1) := by
      show r.total.plus 1 = _
      rw [hn]
      exact if_pos ⟨by omega, by omega⟩
    simp only [Option.map_some, Option.getD_some, hplus, hn]

end Readable

/-! ### Recording at any time -/

section Recording

variable {store : Store} {now : Time.Moment} {host : Int} {result : CheckResult} {limit : Nat}

/-- Whether a check is recorded is told by whether its row stays in the history. -/
theorem recordCheck_eq {found : Host} (hfound : store.database.hostById host = .ok found)
    (room : Statements.nextCheck store.database ≤ Cell.highest) :
    let text := Time.storedText now.1
    let after := store.database.logged host result text store.historyLimit
    store.recordCheck now.1 host result =
      if store.database.newRow host result text ∈ after.checks then
        (.ok (result.toCheck host now.1 (Statements.nextCheck store.database)),
          { store with database := after })
      else (.error (.table .missingRow), store) := by
  intro text after
  have hexec := Statements.exec_writeCheck hfound room result text store.historyLimit
  rw [Store.recordCheck, Store.transact]
  cases hrow : after.checks.find? (·.id = Statements.nextCheck store.database) with
  | none =>
    have hgone : store.database.newRow host result text ∉ after.checks := by
      intro hmem
      exact List.find?_eq_none.mp hrow _ hmem (decide_eq_true rfl)
    rw [Database.checkById, hrow] at hexec
    rw [Statements.transact_of_error hexec, if_neg hgone]
  | some r =>
    have hr := List.mem_of_find?_eq_some hrow
    obtain rfl := Database.eq_newRow hr (by simpa using List.find?_some hrow)
    have hread : (store.database.newRow host result text).read =
        .ok (result.toCheck host now.1 (Statements.nextCheck store.database)) :=
      read_row (c := result.toCheck host now.1 (Statements.nextCheck store.database)) now.2
    rw [Database.checkById, hrow] at hexec
    simp only [hread] at hexec
    rw [Statements.transact_of_ok hexec, if_pos hr]

/-- What a bucket's host keeps in the slots of latest checks is kept under its number. -/
theorem Database.Readable.host_of_isIn {db : Database} {c : Check} (h : db.Readable c.bucket) :
    ∀ r ∈ db.latest, r.columns.isIn c.bucket = true → r.columns.host = .whole c.host := by
  intro r hr hin
  obtain ⟨c', hread⟩ := h.latest r hr (isNumber_of_isIn hin)
  obtain ⟨hin', hhost⟩ := isIn_of_readLatest hread
  rw [hhost]
  exact congrArg Cell.whole (congrArg Bucket.host (CheckColumns.isIn_unique hin' hin))

section Written

variable {after : Store} {c : Check} (valid : c.checkedAt.Valid)
  (h : store.database.Readable c.bucket)
include valid h

/-- The history of a bucket reads with a new check in it. -/
theorem Database.Readable.exists_checks
    (hafter : after.database.checks.Sublist (store.database.checks ++ [c.row]))
    (kept : c.row ∈ after.database.checks) :
    ∃ cs, after.checks c.bucket Number.limit63 = .ok cs ∧ c ∈ cs := by
  have hreads : ∀ r ∈ after.database.history c.bucket, ∃ c', r.read = .ok c' := by
    intro r hr
    obtain ⟨hmem, hin⟩ := List.mem_filter.mp ((inOrder_perm newer _).mem_iff.mp hr)
    rcases List.mem_append.mp (hafter.subset hmem) with hold | hnew
    · exact h.checks r hold (isNumber_of_isIn hin)
    · exact ⟨c, List.mem_singleton.mp hnew ▸ read_row valid⟩
  obtain ⟨cs, hcs⟩ := exists_readAll_eq_ok hreads
  refine ⟨cs, ?_, (mem_iff_of_readAll hcs).mpr ⟨c.row, ?_, read_row valid⟩⟩
  · rw [Store.checks, upTo, if_pos (Nat.le_refl _)]
    exact hcs
  · exact (inOrder_perm newer _).mem_iff.mpr (List.mem_filter.mpr ⟨kept, isIn_bucket c⟩)

/-- The latest checks of a host read with a new check in them as the one of its bucket. -/
theorem Database.Readable.exists_latestChecks
    (hafter : after.database.latest = putLatest store.database.latest c.bucket c.latestRow) :
    ∃ cs, after.latestChecks c.host = .ok cs ∧ c ∈ cs ∧
      ∀ c' ∈ cs, c'.bucket = c.bucket → c' = c := by
  let rows := inOrder bucketBefore (after.database.latest.filter (·.columns.host.isNumber c.host))
  have hrows : ∀ r, r ∈ rows ↔ r ∈ putLatest store.database.latest c.bucket c.latestRow ∧
      r.columns.host.isNumber c.host = true := by
    intro r
    rw [(inOrder_perm bucketBefore _).mem_iff, List.mem_filter, hafter]
  have hreads : ∀ r ∈ rows, ∃ c', r.read = .ok c' := by
    intro r hr
    obtain ⟨hmem, hnumber⟩ := (hrows r).mp hr
    rcases mem_putLatest h.host_of_isIn hmem with hold | rfl
    · exact h.latest r hold hnumber
    · exact ⟨c, read_latestRow valid⟩
  obtain ⟨cs, hcs⟩ := exists_readAll_eq_ok hreads
  have hnew : c.latestRow ∈ rows :=
    (hrows _).mpr ⟨(mem_putLatest_of_isIn h.host_of_isIn (isIn_bucket c)).mpr rfl,
      isNumber_of_isIn (isIn_bucket c)⟩
  refine ⟨cs, hcs, (mem_iff_of_readAll hcs).mpr ⟨_, hnew, read_latestRow valid⟩, ?_⟩
  intro c' hc' hbucket
  obtain ⟨r, hr, hread⟩ := (mem_iff_of_readAll hcs).mp hc'
  have hin := (isIn_of_readLatest hread).1
  rw [hbucket] at hin
  rw [(mem_putLatest_of_isIn h.host_of_isIn hin).mp ((hrows r).mp hr).1,
    read_latestRow valid] at hread
  exact (Except.ok.inj hread).symm

end Written

/-- A check that stays in the history is counted. -/
theorem counted_logged (h : store.database.Readable (bucketOf host result))
    (kept : store.database.newRow host result (Time.storedText now.1) ∈
      (store.database.logged host result (Time.storedText now.1) limit).checks) :
    Counted store
      { store with database := store.database.logged host result (Time.storedText now.1) limit }
      (result.toCheck host now.1 (Statements.nextCheck store.database)) := by
  let c := result.toCheck host now.1 (Statements.nextCheck store.database)
  have hread : store.database.Readable c.bucket := h
  exact ⟨hread.exists_checks now.2 (trimmed_sublist _ _ _) kept,
    hread.exists_latestChecks now.2 rfl, totalIn_countCheck (c := c) h.counter rfl⟩

end Recording

/-- A check of a host whose rows can be read is recorded, kept in the history, made the latest one
and counted once, unless the history is full of checks with later times. Then it is refused, since
it is not there any more when it is to be read back, and nothing is changed. -/
theorem recordCheck_counts_unless_outdated (store : Store) (now : Time.Moment) (host : Int)
    (result : CheckResult) (limit : Nat)
    (hread : store.database.Readable (bucketOf host result))
    (room : Statements.nextCheck store.database ≤ Cell.highest) :
    let kept := store.withHistoryLimit limit
    let later := (store.database.laterChecks (bucketOf host result) (Time.storedText now.1)).length
    let c := result.toCheck host now.1 (Statements.nextCheck store.database)
    (later < max limit 1 ∨ Number.limit63 ≤ limit →
      ∃ after, kept.recordCheck now.1 host result = (.ok c, after) ∧ Counted kept after c) ∧
    (max limit 1 ≤ later ∧ limit < Number.limit63 →
      kept.recordCheck now.1 host result = (.error (.table .missingRow), kept)) := by
  intro kept later c
  obtain ⟨found, hfound⟩ := hread.host
  have heq : kept.recordCheck now.1 host result = _ := recordCheck_eq hfound room
  have hlimit : Number.limit63 ≤ max limit 1 ↔ Number.limit63 ≤ limit := by
    have hlarge : 1 < Number.limit63 := by decide
    omega
  have hmem : store.database.newRow host result (Time.storedText now.1) ∈
      (store.database.logged host result (Time.storedText now.1) (max limit 1)).checks ↔
      later < max limit 1 ∨ Number.limit63 ≤ limit := by
    refine (mem_trimmed_iff (isIn_columnsOf host result _) fun s hs => ?_).trans
      (or_congr_right hlimit)
    exact (Statements.lt_nextId store.database.lastCheck _).2 s.id (List.mem_map_of_mem hs)
  constructor
  · intro hstays
    have hkept := hmem.mpr hstays
    have hcounted : Counted kept _ c := counted_logged hread hkept
    exact ⟨_, heq.trans (if_pos hkept), hcounted⟩
  · rintro ⟨hfull, hsome⟩
    refine heq.trans (if_neg fun hkept => ?_)
    rcases hmem.mp hkept with hlt | hle <;> omega

/-- A store that keeps one check, of a peer that has been checked once. -/
def checkedStore : Store :=
  ({} : Store).after
    [.reopen 1, .upsertHost Time.epoch { hostname := "b" },
      .recordCheck ⟨⟨100, 0⟩, by decide⟩ 1 sampleResult]

theorem readable_checkedStore : checkedStore.database.Readable (bucketOf 1 sampleResult) := by
  have hhost : (checkedStore.database.hostById 1).isOk = true := by decide +kernel
  have hchecks : (checkedStore.database.checks.all fun r => r.read.isOk) = true := by
    decide +kernel
  have hlatest : (checkedStore.database.latest.all fun r => r.read.isOk) = true := by
    decide +kernel
  have hcounters : checkedStore.database.counters.map CounterRow.total = [.whole 1] := by
    decide +kernel
  have hread : ∀ {ε α : Type} {x : Except ε α}, x.isOk = true → ∃ a, x = .ok a := by
    intro ε α x h
    cases x with
    | error e => cases h
    | ok a => exact ⟨a, rfl⟩
  refine ⟨hread hhost, fun r hr _ => hread (List.all_eq_true.mp hchecks r hr),
    fun r hr _ => hread (List.all_eq_true.mp hlatest r hr), fun r hr _ => ⟨1, ?_, by decide⟩⟩
  have hmem := List.mem_map_of_mem (f := CounterRow.total) hr
  rw [hcounters] at hmem
  exact List.mem_singleton.mp hmem

/-- The clock has stepped back since the one check that is kept, so that the next one is refused. -/
theorem recordCheck_counts_unless_outdated_of_stepped_back :
    checkedStore.database.Readable (bucketOf 1 sampleResult) ∧
      Statements.nextCheck checkedStore.database ≤ Cell.highest ∧
      (checkedStore.withHistoryLimit 1).recordCheck ⟨50, 0⟩ 1 sampleResult =
        (.error (.table .missingRow), checkedStore.withHistoryLimit 1) ∧
      ∃ after, (checkedStore.withHistoryLimit 2).recordCheck ⟨50, 0⟩ 1 sampleResult =
          (.ok (sampleResult.toCheck 1 ⟨50, 0⟩ 2), after) ∧
        Counted (checkedStore.withHistoryLimit 2) after (sampleResult.toCheck 1 ⟨50, 0⟩ 2) := by
  have hroom : Statements.nextCheck checkedStore.database ≤ Cell.highest := by decide +kernel
  have hnext : Statements.nextCheck checkedStore.database = 2 := by decide +kernel
  have hlater : (checkedStore.database.laterChecks (bucketOf 1 sampleResult)
      (Time.storedText ⟨50, 0⟩)).length = 1 := by decide +kernel
  have hone := recordCheck_counts_unless_outdated checkedStore ⟨⟨50, 0⟩, by decide⟩ 1 sampleResult 1
    readable_checkedStore hroom
  have htwo := recordCheck_counts_unless_outdated checkedStore ⟨⟨50, 0⟩, by decide⟩ 1 sampleResult 2
    readable_checkedStore hroom
  rw [hlater, hnext] at hone htwo
  exact ⟨readable_checkedStore, hroom, hone.2 (by decide), htwo.1 (.inl (by decide))⟩

/-- A host that is there and reads, and a check of it that is not recorded. -/
theorem not_recorded_after_clock_stepped_back :
    checkedStore.database.Readable (bucketOf 1 sampleResult) ∧
      ¬∃ c, (checkedStore.recordCheck ⟨50, 0⟩ 1 sampleResult).1 = .ok c := by
  have hanswer : (checkedStore.recordCheck ⟨50, 0⟩ 1 sampleResult).1 =
      .error (.table .missingRow) := by decide +kernel
  refine ⟨readable_checkedStore, ?_⟩
  rintro ⟨c, hc⟩
  rw [hanswer] at hc
  cases hc

end PeerHealth.Store
