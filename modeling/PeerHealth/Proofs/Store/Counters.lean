import PeerHealth.Proofs.Registry.Uptime
import PeerHealth.Proofs.Store.Owners

/-! What the counters count. Main statements: in every reachable store each counter is the tally of
a bucket, and all of them together count no more checks than have been given a number; the counts of
a host are the sum of its tallies; and a check written is one more in the tally of its bucket. -/

namespace PeerHealth.Store

/-- A bucket and the numbers of its checks. -/
abbrev Tally := Bucket × Counts

def Tally.row (t : Tally) : CounterRow :=
  { host := .whole t.1.host
    network := t.1.network.name
    protocol := t.1.protocol.name
    successes := .whole t.2.successes
    total := .whole t.2.total }

/-- The number of checks in the buckets that `p` holds of. -/
def tallied (tallies : List Tally) (p : Bucket → Bool) : Nat :=
  ((tallies.filter fun t => p t.1).map (·.2.total)).sum

/-- What one check counts for. -/
def countsOf (status : Status) : Counts := ⟨if status = .success then 1 else 0, 1⟩

/-- The tallies with one more check in a bucket. -/
def tallyCheck (tallies : List Tally) (b : Bucket) (status : Status) : List Tally :=
  putRow (fun t : Tally => decide (t.1 = b)) (fun t : Tally => (t.1, t.2.add (countsOf status)))
    (b, countsOf status) tallies

section Tallies

variable {tallies : List Tally} {b : Bucket} {status : Status}

@[simp] theorem tallied_nil (p : Bucket → Bool) : tallied [] p = 0 := rfl

theorem tallied_cons (t : Tally) (tallies : List Tally) (p : Bucket → Bool) :
    tallied (t :: tallies) p = (if p t.1 then t.2.total else 0) + tallied tallies p := by
  by_cases h : p t.1 = true <;> simp [tallied, h]

theorem tallied_append (earlier later : List Tally) (p : Bucket → Bool) :
    tallied (earlier ++ later) p = tallied earlier p + tallied later p := by
  simp [tallied]

theorem tallied_le (tallies : List Tally) {p q : Bucket → Bool} (h : ∀ b, p b = true → q b = true) :
    tallied tallies p ≤ tallied tallies q := by
  induction tallies with
  | nil => exact Nat.le_refl _
  | cons t tallies ih =>
    rw [tallied_cons, tallied_cons]
    by_cases hp : p t.1 = true
    · rw [if_pos hp, if_pos (h _ hp)]
      omega
    · rw [if_neg hp]
      omega

theorem total_le_tallied {t : Tally} (h : t ∈ tallies) :
    t.2.total ≤ tallied tallies fun _ => true := by
  obtain ⟨earlier, later, rfl⟩ := List.append_of_mem h
  rw [tallied_append, tallied_cons, if_pos rfl]
  omega

/-- Tallies of different buckets, of which one has a check more than before. -/
theorem tallyCheck_cases (hdistinct : (tallies.map Prod.fst).Nodup) (b : Bucket) (status : Status) :
    (b ∉ tallies.map Prod.fst ∧ tallyCheck tallies b status = tallies ++ [(b, countsOf status)]) ∨
      ∃ earlier c later, tallies = earlier ++ (b, c) :: later ∧
        tallyCheck tallies b status = earlier ++ (b, c.add (countsOf status)) :: later := by
  by_cases hany : (tallies.any fun t => decide (t.1 = b)) = true
  · obtain ⟨⟨b', c⟩, hmem, hb⟩ := List.any_eq_true.mp hany
    obtain rfl : b' = b := by simpa using hb
    obtain ⟨earlier, later, rfl⟩ := List.append_of_mem hmem
    refine .inr ⟨earlier, c, later, rfl, ?_⟩
    simp only [List.map_append, List.map_cons, List.nodup_append, List.nodup_cons] at hdistinct
    obtain ⟨-, ⟨hlater, -⟩, hearlier⟩ := hdistinct
    have hother : ∀ ts : List Tally, b' ∉ ts.map Prod.fst →
        ts.map (fun t => if decide (t.1 = b') = true then (t.1, t.2.add (countsOf status)) else t) =
          ts := by
      intro ts hnot
      refine (List.map_congr_left fun t ht => if_neg ?_).trans (List.map_id _)
      rw [decide_eq_true_eq]
      rintro rfl
      exact hnot (List.mem_map_of_mem ht)
    rw [tallyCheck, putRow, if_pos hany, List.map_append, List.map_cons, if_pos (by simp),
      hother earlier fun hin => hearlier _ hin _ (List.mem_cons_self ..) rfl, hother later hlater]
  · refine .inl ⟨?_, by rw [tallyCheck, putRow, if_neg hany]⟩
    intro hin
    obtain ⟨t, ht, rfl⟩ := List.mem_map.mp hin
    exact hany (List.any_eq_true.mpr ⟨t, ht, by simp⟩)

/-- A check counts once, in its own bucket. -/
theorem tallied_tallyCheck (hdistinct : (tallies.map Prod.fst).Nodup) (b : Bucket)
    (status : Status) (p : Bucket → Bool) :
    tallied (tallyCheck tallies b status) p = tallied tallies p + if p b then 1 else 0 := by
  obtain ⟨-, heq⟩ | ⟨earlier, c, later, rfl, heq⟩ := tallyCheck_cases hdistinct b status
  · rw [heq, tallied_append, tallied_cons, tallied_nil]
    rfl
  · rw [heq, tallied_append, tallied_append, tallied_cons, tallied_cons]
    by_cases hp : p b = true
    · simp only [hp, if_true, Counts.add, countsOf]
      omega
    · simp only [hp]
      simp

theorem nodup_tallyCheck (hdistinct : (tallies.map Prod.fst).Nodup) (b : Bucket)
    (status : Status) : ((tallyCheck tallies b status).map Prod.fst).Nodup := by
  obtain ⟨hnew, heq⟩ | ⟨earlier, c, later, rfl, heq⟩ := tallyCheck_cases hdistinct b status
  · rw [heq, List.map_append, List.nodup_append]
    refine ⟨hdistinct, by simp, ?_⟩
    rintro b' hb' b'' hb'' rfl
    obtain rfl : b' = b := List.mem_singleton.mp hb''
    exact hnew hb'
  · rw [heq]
    simpa using hdistinct

theorem isOf_row (t : Tally) (b : Bucket) : t.row.isOf b = decide (t.1 = b) := by
  have hself : t.row.isOf t.1 = true := by simp [CounterRow.isOf, Tally.row]
  by_cases h : t.1 = b
  · rw [← h, hself, decide_eq_true rfl]
  · rw [decide_eq_false h]
    exact CounterRow.not_isOf_of_ne h hself

theorem countStatus_row {t : Tally} (hle : t.2.successes ≤ t.2.total)
    (room : t.2.total + 1 < Number.limit63) (status : Status) :
    countStatus status t.row = Tally.row (t.1, t.2.add (countsOf status)) := by
  have hsuccess : (Cell.whole t.2.successes).plus (if status = .success then 1 else 0) =
      .whole (t.2.successes + (countsOf status).successes : Nat) := by
    simp only [countsOf]
    split
    · exact Cell.plus_one (by omega)
    · exact Cell.plus_natCast (n := 0) (by omega)
  have htotal : (Cell.whole t.2.total).plus 1 = .whole (t.2.total + 1 : Nat) := Cell.plus_one room
  exact congr (congrArg (CounterRow.mk (.whole t.1.host) t.1.network.name t.1.protocol.name)
    hsuccess) htotal

/-- The counters go on to be tallies, as long as there is room. -/
theorem countCheck_rows (hle : ∀ t ∈ tallies, t.2.successes ≤ t.2.total)
    (room : ∀ t ∈ tallies, t.2.total + 1 < Number.limit63) (b : Bucket) (status : Status) :
    countCheck (tallies.map Tally.row) b status = (tallyCheck tallies b status).map Tally.row := by
  have hnew : Tally.row (b, countsOf status) =
      { host := .whole b.host
        network := b.network.name
        protocol := b.protocol.name
        successes := .whole (if status = .success then 1 else 0)
        total := .whole 1 } := by
    by_cases hs : status = .success <;> simp [Tally.row, countsOf, hs]
  rw [tallyCheck, ← putRow_map (p := fun r : CounterRow => r.isOf b) (f := countStatus status)
    (fun t _ => isOf_row t b) fun t ht _ => countStatus_row (hle t ht) (room t ht) status, hnew]
  rfl

end Tallies

/-- The counters are the tallies of different buckets, and these count no more checks than have been
given a number. -/
structure Database.Tallied (db : Database) (tallies : List Tally) : Prop where
  counters : db.counters = tallies.map Tally.row
  distinct : (tallies.map Prod.fst).Nodup
  successes : ∀ t ∈ tallies, t.2.successes ≤ t.2.total
  counted : (tallied tallies (fun _ => true) : Int) ≤ db.lastCheck
  numbered : ∀ r ∈ db.checks, r.id ≤ db.lastCheck
  lastCheck : db.lastCheck ≤ Cell.highest

namespace Database.Tallied

variable {db after : Database} {tallies : List Tally}

theorem of_hostsKept (h : db.Tallied tallies) (hk : db.HostsKept after) :
    after.Tallied tallies := by
  refine ⟨hk.counters.trans h.counters, h.distinct, h.successes, ?_, fun r hr => ?_, ?_⟩
  · rw [hk.lastCheck]
    exact h.counted
  · rw [hk.checks] at hr
    rw [hk.lastCheck]
    exact h.numbered r hr
  · rw [hk.lastCheck]
    exact h.lastCheck

theorem without (h : db.Tallied tallies) (id : Int) :
    (db.without id).Tallied (tallies.filter fun t => decide (t.1.host ≠ id)) := by
  have hsub := List.filter_sublist (p := fun t : Tally => decide (t.1.host ≠ id)) (l := tallies)
  refine ⟨?_, h.distinct.sublist (hsub.map _), fun t ht => h.successes t (hsub.subset ht), ?_,
    fun r hr => h.numbered r (List.mem_filter.mp hr).1, h.lastCheck⟩
  · show db.counters.filter _ = _
    rw [h.counters, List.filter_map]
    refine congrArg _ (List.filter_congr fun t _ => ?_)
    by_cases hid : t.1.host = id <;> simp [Tally.row, hid]
  · have hle : tallied (tallies.filter fun t => decide (t.1.host ≠ id)) (fun _ => true) ≤
        tallied tallies fun _ => true := by
      have hsame : tallied (tallies.filter fun t => decide (t.1.host ≠ id)) (fun _ => true) =
          tallied tallies fun b => decide (b.host ≠ id) := by
        simp [tallied]
      rw [hsame]
      exact tallied_le tallies fun _ _ => rfl
    have hcounted := h.counted
    show _ ≤ db.lastCheck
    omega

theorem logged (h : db.Tallied tallies) {host : Int} {result : CheckResult} {now : String}
    {limit : Nat} (room : Statements.nextCheck db ≤ Cell.highest) :
    (db.logged host result now limit).Tallied
      (tallyCheck tallies (bucketOf host result) result.status) := by
  have hnext := (Statements.lt_nextId db.lastCheck (db.checks.map (·.id))).1
  change db.lastCheck < Statements.nextCheck db at hnext
  have hcounted := h.counted
  have hroom : ∀ t ∈ tallies, t.2.total + 1 < Number.limit63 := by
    intro t ht
    have hle := total_le_tallied ht
    unfold Cell.highest at room
    omega
  refine ⟨?_, nodup_tallyCheck h.distinct _ _, fun t ht => ?_, ?_, fun r hr => ?_, room⟩
  · show countCheck db.counters _ _ = _
    rw [h.counters, countCheck_rows h.successes hroom]
  · have hone : (countsOf result.status).successes ≤ (countsOf result.status).total := by
      simp only [countsOf]
      split <;> omega
    rcases mem_putRow ht with ht | rfl | ⟨t', ht', -, rfl⟩
    · exact h.successes t ht
    · exact hone
    · exact Nat.add_le_add (h.successes t' ht') hone
  · rw [tallied_tallyCheck h.distinct]
    show _ ≤ Statements.nextCheck db
    rw [if_pos rfl]
    omega
  · show r.id ≤ Statements.nextCheck db
    rcases List.mem_append.mp ((trimmed_sublist _ _ _).subset hr) with hr | hr
    · have hnum := h.numbered r hr
      omega
    · rw [List.mem_singleton.mp hr]
      exact Int.le_refl _

end Database.Tallied

theorem tallied_empty : ({} : Store).database.Tallied [] :=
  ⟨rfl, List.nodup_nil, fun _ h => (nomatch h), Int.le_refl _, fun _ h => (nomatch h), by decide⟩

theorem tallied_apply {store : Store} (hdb : store.database.HostsSound) {tallies : List Tally}
    (h : store.database.Tallied tallies) (w : Write) :
    ∃ tallies', (store.apply w).database.Tallied tallies' := by
  cases hw : w.isCheck with
  | false =>
    rcases atMostOneGone_apply hdb hw with hk | ⟨r, -, -, hk⟩
    · exact ⟨tallies, h.of_hostsKept hk⟩
    · exact ⟨_, (h.without r.id).of_hostsKept hk⟩
  | true =>
    cases w with
    | recordCheck now host result =>
      obtain ⟨answer, after, hrun, hlog⟩ := store.recordCheck_logged now.1 host result
      rw [Store.apply, hrun]
      cases hlog with
      | refused => exact ⟨tallies, h⟩
      | logged c mem hid room => exact ⟨_, h.logged room⟩
    | _ => cases hw

theorem tallied_after {store : Store} (hdb : store.database.HostsSound) {tallies : List Tally}
    (h : store.database.Tallied tallies) (writes : List Write) :
    ∃ tallies', (store.after writes).database.Tallied tallies' := by
  induction writes generalizing store tallies with
  | nil => exact ⟨tallies, h⟩
  | cons w writes ih =>
    obtain ⟨tallies', h'⟩ := tallied_apply hdb h w
    exact ih (hostsSound_apply hdb w) h'

/-! ### The counts of a host -/

/-- The number of checks counted for a host; a host that is not there has none. -/
def totalChecks (store : Store) (id : Int) : Nat :=
  match store.uptime id with
  | .ok (some u) => u.total.total
  | _ => 0

section Uptime

variable {store : Store} {tallies : List Tally}

/-- The leaf that a tally is read as. -/
def Tally.leaf (t : Tally) : Leaf := ⟨t.1.network, t.1.protocol, t.2⟩

/-- The tally of a host that reads as a leaf. -/
def tallyOf (id : Int) (leaf : Leaf) : Tally := (⟨id, leaf.network, leaf.protocol⟩, leaf.counts)

theorem read_tallyOf (id : Int) (leaf : Leaf) : (tallyOf id leaf).row.read = .ok leaf := by
  simp only [CounterRow.read, bind_eq_ok_iff, readName_eq_ok_iff, readWhole_eq_ok_iff]
  exact ⟨_, Network.ofName?_name _, _, Protocol.ofName?_name _, _, rfl, _, rfl, rfl⟩

/-- What the counters of a host read as. -/
def leavesOf (tallies : List Tally) (id : Int) : List Leaf :=
  (tallies.filter fun t => decide (t.1.host = id)).map Tally.leaf

theorem total_sum_leavesOf (tallies : List Tally) (id : Int) :
    (Leaf.sum (leavesOf tallies id)).total = tallied tallies fun b => decide (b.host = id) := by
  simp only [Leaf.sum, leavesOf, List.map_map]
  rfl

theorem Database.Tallied.proper_leavesOf {db : Database} (h : db.Tallied tallies) (id : Int) :
    ∀ leaf ∈ leavesOf tallies id, leaf.counts.Proper := by
  intro leaf hleaf
  obtain ⟨t, ht, rfl⟩ := List.mem_map.mp hleaf
  exact h.successes t (List.mem_filter.mp ht).1

/-- The counts of a host that is there are told, and they are the sums of its tallies. -/
theorem uptime_sums (hdb : store.database.HostsSound) (h : store.database.Tallied tallies)
    {r : HostRow} (hr : r ∈ store.database.hosts) :
    ∃ u, store.uptime r.id = .ok (some u) ∧ u.host = r.id ∧ u.Sums (leavesOf tallies r.id) := by
  obtain ⟨host, hhost⟩ := (hdb.rows r hr).read
  have hfound : store.hostById r.id = .ok host := Database.hostById_eq_ok hdb.distinct hr hhost
  have hrows : store.database.counters.filter (fun row => row.host.isNumber r.id) =
      (leavesOf tallies r.id).map fun leaf => (tallyOf r.id leaf).row := by
    rw [h.counters, List.filter_map, leavesOf, List.map_map]
    refine List.map_congr_left fun t ht => ?_
    have hid : t.1.host = r.id := by simpa [Tally.row] using (List.mem_filter.mp ht).2
    simp [tallyOf, Tally.leaf, Tally.row, hid]
  have hread : readAll CounterRow.read
      (store.database.counters.filter fun row => row.host.isNumber r.id) =
        .ok (leavesOf tallies r.id) := by
    rw [hrows]
    exact readAll_eq_ok fun leaf _ => read_tallyOf r.id leaf
  have hfits : (Leaf.sum (leavesOf tallies r.id)).Fits := by
    have hproper : (Leaf.sum (leavesOf tallies r.id)).successes ≤
        (Leaf.sum (leavesOf tallies r.id)).total :=
      Leaf.proper_sum (h.proper_leavesOf r.id)
    have htotal := total_sum_leavesOf tallies r.id
    have hle := tallied_le tallies (p := fun b => decide (b.host = r.id)) (q := fun _ => true)
      fun _ _ => rfl
    have hcounted := h.counted
    have hlast := h.lastCheck
    have hlimit : Number.limit63 < Counts.limit := by decide
    unfold Cell.highest at hlast
    unfold Counts.Fits
    omega
  obtain ⟨u, hu, hsums⟩ := Uptime.ofLeaves?_eq_some r.id hfits
  refine ⟨u, ?_, hsums⟩
  rw [uptime, hfound]
  show (readAll CounterRow.read _ >>= _) = _
  rw [hread]
  exact congrArg Except.ok hu

/-- All checks of a host that is there are counted in its total. -/
theorem uptime_eq (hdb : store.database.HostsSound) (h : store.database.Tallied tallies)
    {r : HostRow} (hr : r ∈ store.database.hosts) :
    ∃ u, store.uptime r.id = .ok (some u) ∧
      u.total.total = tallied tallies fun b => decide (b.host = r.id) := by
  obtain ⟨u, hu, -, hsums⟩ := uptime_sums hdb h hr
  exact ⟨u, hu, by rw [hsums.total, total_sum_leavesOf]⟩

/-- Of a host that is not there nothing is counted. -/
theorem totalChecks_eq (hdb : store.database.HostsSound) (howned : store.database.Owned)
    (h : store.database.Tallied tallies) (id : Int) :
    store.totalChecks id = tallied tallies fun b => decide (b.host = id) := by
  by_cases hthere : ∃ r ∈ store.database.hosts, r.id = id
  · obtain ⟨r, hr, rfl⟩ := hthere
    obtain ⟨u, hu, htotal⟩ := uptime_eq hdb h hr
    rw [totalChecks, hu, ← htotal]
  · have hnot : ∀ r ∈ store.database.hosts, r.id ≠ id := by simpa using hthere
    have hbare := (howned.bare hnot).counters
    have hnone : (tallies.filter fun t => decide (t.1.host = id)) = [] := by
      refine List.filter_eq_nil_iff.mpr fun t ht => ?_
      have hrow := hbare t.row (h.counters ▸ List.mem_map_of_mem ht)
      simpa [Tally.row] using hrow
    have hmissing : store.hostById id = .error .notFound := Database.hostById_eq_notFound hnot
    rw [totalChecks, uptime, hmissing, tallied, hnone]
    rfl

end Uptime

/-! ### Checks since -/

/-- The checks of a bucket with a number above `start`. -/
def Database.checksSince (db : Database) (start : Int) (b : Bucket) : List CheckRow :=
  db.checks.filter fun r => r.columns.isIn b && decide (start < r.id)

section Since

variable {db : Database} {start : Int} {host : Int} {result : CheckResult} {now : String}
  {limit : Nat} {b : Bucket}

/-- The first check of a bucket since then is the only one. -/
theorem checksSince_logged (hstart : start ≤ db.lastCheck)
    (hnone : db.checksSince start (bucketOf host result) = [])
    (kept : db.newRow host result now ∈ (db.logged host result now limit).checks) :
    (db.logged host result now limit).checksSince start (bucketOf host result) =
      [db.newRow host result now] := by
  have hnext := (Statements.lt_nextId db.lastCheck (db.checks.map (·.id))).1
  change db.lastCheck < (db.newRow host result now).id at hnext
  let since : CheckRow → Bool := fun r =>
    r.columns.isIn (bucketOf host result) && decide (start < r.id)
  have hnew : since (db.newRow host result now) = true := by
    rw [Bool.and_eq_true, decide_eq_true_eq]
    exact ⟨isIn_columnsOf host result now, by omega⟩
  have hsub : ((db.logged host result now limit).checksSince start (bucketOf host result)).Sublist
      [db.newRow host result now] := by
    have hall := (trimmed_sublist (db.checks ++ [db.newRow host result now])
      (bucketOf host result) limit).filter since
    rwa [List.filter_append, show db.checks.filter since = [] from hnone, List.nil_append,
      List.filter_cons_of_pos hnew, List.filter_nil] at hall
  have hmem : db.newRow host result now ∈
      (db.logged host result now limit).checksSince start (bucketOf host result) :=
    List.mem_filter.mpr ⟨kept, hnew⟩
  exact hsub.eq_of_length_le (List.length_pos_of_mem hmem)

theorem checksSince_logged_of_ne (hne : bucketOf host result ≠ b) :
    (db.logged host result now limit).checksSince start b = db.checksSince start b := by
  have hother : (columnsOf host result now).isIn b = false :=
    CheckColumns.not_isIn_of_ne hne (isIn_columnsOf host result now)
  have hsplit : ∀ rows : List CheckRow,
      rows.filter (fun r => r.columns.isIn b && decide (start < r.id)) =
        (rows.filter (·.columns.isIn b)).filter fun r => decide (start < r.id) := by
    intro rows
    rw [List.filter_filter]
    exact List.filter_congr fun r _ => Bool.and_comm _ _
  rw [Database.checksSince, Database.checksSince, hsplit, hsplit]
  show ((trimmed _ _ _).filter _).filter _ = _
  rw [filter_trimmed_of_ne hne, List.filter_append]
  simp [Database.newRow, hother]

end Since
end PeerHealth.Store
