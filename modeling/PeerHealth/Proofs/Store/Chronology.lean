import Mathlib.Data.List.Nodup
import PeerHealth.Proofs.Store.Listing
import PeerHealth.Proofs.Store.Retention
import PeerHealth.Proofs.Time.Reading

/-! Order in time by order of text. Main statement: within the years of four digits stored times
stand in the order of their bytes as the instants do in time, so that a history is listed and cut by
age, and hosts are picked by when they were last seen. -/

namespace PeerHealth

/-- The check is later than the other one, or as late and not the lower in number. -/
def Check.AsNewAs (c d : Check) : Prop :=
  d.checkedAt.Before c.checkedAt ∨ c.checkedAt = d.checkedAt ∧ d.id ≤ c.id

namespace Store

/-- A text that an instant in a year of four digits is stored as. -/
def IsDated (s : String) : Prop :=
  ∃ t : Time.Instant, t.Valid ∧ t.FourDigitYear ∧ s = Time.storedText t

theorem isDated_iff {s : String} :
    (Time.parseTime? s).any (fun t => decide (t.FourDigitYear ∧ s = Time.storedText t)) = true ↔
      IsDated s := by
  constructor
  · intro h
    obtain ⟨t, hread, ht⟩ := (Option.any_eq_true _ _).mp h
    obtain ⟨hyear, hs⟩ := of_decide_eq_true ht
    exact ⟨t, Time.valid_of_parseTime? hread, hyear, hs⟩
  · rintro ⟨t, ht, hyear, rfl⟩
    rw [Time.parseTime?_storedText ht]
    exact decide_eq_true ⟨hyear, rfl⟩

instance (s : String) : Decidable (IsDated s) := decidable_of_iff _ isDated_iff

/-- Whatever time is on record of a host that was seen or of a check is one of a year of four
digits, and each check has a number of its own. -/
structure Database.Dated (db : Database) : Prop where
  hosts : ∀ r ∈ db.hosts, IsDated r.lastSeen
  checks : ∀ r ∈ db.checks, IsDated r.columns.checkedAt
  numbers : (db.checks.map (·.id)).Nodup

/-- What is read from a text of a year of four digits is the instant that it is the stored form of.
-/
theorem IsDated.read {s : String} {t : Time.Instant} (h : IsDated s)
    (hread : Time.parseTime? s = some t) :
    t.Valid ∧ t.FourDigitYear ∧ Time.storedText t = s := by
  obtain ⟨u, hu, hyear, rfl⟩ := h
  rw [Time.parseTime?_storedText hu] at hread
  obtain rfl := Option.some.inj hread
  exact ⟨hu, hyear, rfl⟩

section Rows

variable {r s : CheckRow} {c d : Check}

theorem CheckRow.tells_of_read (h : r.read = .ok c) :
    c.id = r.id ∧ Time.parseTime? r.columns.checkedAt = some c.checkedAt := by
  simp only [CheckRow.read, CheckColumns.read, bind_eq_ok_iff, readTime_eq_ok_iff] at h
  obtain ⟨_, -, _, -, _, -, _, -, _, -, _, -, checkedAt, hread, hc⟩ := h
  cases hc
  exact ⟨rfl, hread⟩

/-- The order of rows is that of the checks which they read as. -/
theorem newer_iff_asNewAs (hr : IsDated r.columns.checkedAt) (hs : IsDated s.columns.checkedAt)
    (hc : r.read = .ok c) (hd : s.read = .ok d) : newer r s = true ↔ c.AsNewAs d := by
  obtain ⟨hcid, hcread⟩ := CheckRow.tells_of_read hc
  obtain ⟨hdid, hdread⟩ := CheckRow.tells_of_read hd
  obtain ⟨hcvalid, hcyear, hctext⟩ := hr.read hcread
  obtain ⟨hdvalid, hdyear, hdtext⟩ := hs.read hdread
  rw [newer_iff, ← hctext, ← hdtext, ← hcid, ← hdid,
    Time.storedText_lt_iff hdvalid hcvalid hdyear hcyear, Time.storedText_inj hcvalid hdvalid]
  rfl

end Rows

/-- What holds between rows holds between what they are read as. -/
theorem pairwise_of_readAll {ρ α : Type} {read : ρ → Except TableFault α} {R : ρ → ρ → Prop}
    {S : α → α → Prop} {rows : List ρ} {as : List α} (h : readAll read rows = .ok as)
    (hRS : ∀ r ∈ rows, ∀ s ∈ rows, ∀ a b, read r = .ok a → read s = .ok b → R r s → S a b)
    (hrows : rows.Pairwise R) : as.Pairwise S := by
  rw [readAll_eq_ok_iff] at h
  induction h with
  | nil => exact .nil
  | @cons r a rows as hread hreads ih =>
    obtain ⟨hr, hrows⟩ := List.pairwise_cons.mp hrows
    refine List.pairwise_cons.mpr ⟨fun b hb => ?_, ih (fun s hs t ht => ?_) hrows⟩
    · obtain ⟨s, hs, hsb⟩ := (mem_iff_of_readAll (readAll_eq_ok_iff.mpr hreads)).mp hb
      exact hRS r List.mem_cons_self s (List.mem_cons_of_mem r hs) a b hread hsb (hr s hs)
    · exact hRS s (List.mem_cons_of_mem r hs) t (List.mem_cons_of_mem r ht)

section Histories

variable {db : Database} {b : Bucket}

theorem upTo_starts {α : Type} (limit : Nat) (xs : List α) : upTo limit xs <+: xs := by
  unfold upTo
  split
  · exact List.prefix_rfl
  · exact List.take_prefix limit xs

theorem mem_history {r : CheckRow} :
    r ∈ db.history b ↔ r ∈ db.checks ∧ r.columns.isIn b = true := by
  rw [Database.history, (inOrder_perm newer _).mem_iff, List.mem_filter]

theorem pairwise_newer_history (db : Database) (b : Bucket) :
    (db.history b).Pairwise fun r s => newer r s = true :=
  inOrder_pairwise newer_trans newer_total _

theorem Database.Dated.checks_ordered {store : Store} (h : store.database.Dated) {limit : Nat}
    {cs : List Check} (hcs : store.checks b limit = .ok cs) : cs.Pairwise Check.AsNewAs := by
  have hstarts := upTo_starts limit (store.database.history b)
  have hdated : ∀ r ∈ upTo limit (store.database.history b), IsDated r.columns.checkedAt :=
    fun r hr => h.checks r (mem_history.mp (hstarts.subset hr)).1
  refine pairwise_of_readAll hcs ?_
    ((pairwise_newer_history _ b).sublist hstarts.sublist)
  intro r hr s hs c d hc hd hnewer
  exact (newer_iff_asNewAs (hdated r hr) (hdated s hs) hc hd).mp hnewer

/-- What stays of a history that is cut to its limit stands before what goes. -/
theorem newer_of_trimmed (h : (db.checks.map (·.id)).Nodup) {limit : Nat} {r s : CheckRow}
    (hr : r ∈ trimmed db.checks b limit) (hrb : r.columns.isIn b = true) (hs : s ∈ db.checks)
    (hsb : s.columns.isIn b = true) (hgone : s ∉ trimmed db.checks b limit) :
    newer r s = true := by
  have hshistory : s ∈ db.history b := mem_history.mpr ⟨hs, hsb⟩
  rw [trimmed] at hr hgone
  simp only at hr hgone
  split at hgone
  · exact absurd hs hgone
  · rename_i hlong
    rw [if_neg hlong] at hr
    obtain ⟨hrmem, hrkept⟩ := List.mem_filter.mp hr
    have hsleft : s ∉ upTo limit (db.history b) := by
      intro hkept
      refine hgone (List.mem_filter.mpr ⟨hs, ?_⟩)
      rw [Bool.or_eq_true, List.contains_iff_mem]
      exact .inr (List.mem_map_of_mem hkept)
    have hrkept : r ∈ upTo limit (db.history b) := by
      rw [hrb, Bool.not_true, Bool.false_or, List.contains_iff_mem] at hrkept
      obtain ⟨r', hr', hid⟩ := List.mem_map.mp hrkept
      have hr'mem := (mem_history.mp ((upTo_starts limit _).subset hr')).1
      exact List.inj_on_of_nodup_map h hr'mem hrmem hid ▸ hr'
    obtain ⟨rest, hrest⟩ := upTo_starts limit (db.history b)
    have hordered := pairwise_newer_history db b
    rw [← hrest] at hordered hshistory
    exact (List.pairwise_append.mp hordered).2.2 r hrkept s
      ((List.mem_append.mp hshistory).resolve_left hsleft)

end Histories

/-- A filter with a time asks for the hosts that were seen then or later. -/
theorem Database.Dated.mem_hosts_iff {store : Store} (hdb : store.database.Dated)
    {filter : HostFilter} {t : Time.Instant} (hsince : filter.seenSince = some t) (ht : t.Valid)
    (hyear : t.FourDigitYear) {hosts : List Host} (hhosts : store.hosts filter = .ok hosts)
    {r : HostRow} (hr : r ∈ store.database.hosts) {h : Host} (tells : r.Tells h) :
    h ∈ hosts ↔ filter.AsksFor (fun t u => ¬u.Before t) h := by
  obtain ⟨hvalid, hseenYear, -⟩ := (hdb.hosts r hr).read tells.lastSeen
  have hadmits : ∀ s ∈ store.database.hosts, s.Tells h → (filter.admits s = true ↔
      filter.AsksFor (fun t u => Time.storedText t ≤ Time.storedText u) h) := fun s hs tells' =>
    HostFilter.admits_iff_of_tells tells' ((hdb.hosts s hs).read tells'.lastSeen).2.2
  have hstored : h ∈ hosts ↔
      filter.AsksFor (fun t u => Time.storedText t ≤ Time.storedText u) h := by
    refine (Store.mem_hosts_iff hhosts).trans ⟨?_, fun hasked => ?_⟩
    · rintro ⟨s, hs, hadmitted, tells'⟩
      exact (hadmits s hs tells').mp hadmitted
    · exact ⟨r, hr, (hadmits r hr tells).mpr hasked, tells⟩
  refine hstored.trans (HostFilter.asksFor_congr fun t' hsince' => ?_)
  obtain rfl := Option.some.inj (hsince.symm.trans hsince')
  rw [Time.storedText_le_iff ht hvalid hseenYear]
  exact or_iff_right (Int.not_lt.mpr hyear.2)

/-- Within the years of four digits an instant's stored form stands before, at or after another's in
the order of bytes as the instant does in time. Where all times on record are of these years, checks
are therefore listed by age, a history that is cut keeps the newest, and a filter with a time finds
the hosts that were last seen then or later. -/
theorem stored_times_stand_in_order :
    (∀ t u : Time.Instant, t.Valid → u.Valid → t.FourDigitYear → u.FourDigitYear →
      (Text.Utf8.encode (Time.storedText t) < Text.Utf8.encode (Time.storedText u) ↔
        t.Before u) ∧
      (Text.Utf8.encode (Time.storedText t) = Text.Utf8.encode (Time.storedText u) ↔ t = u) ∧
      (Text.Utf8.encode (Time.storedText u) < Text.Utf8.encode (Time.storedText t) ↔
        u.Before t)) ∧
    ∀ store : Store, store.database.Dated →
      (∀ b limit cs, store.checks b limit = .ok cs → cs.Pairwise Check.AsNewAs) ∧
      (∀ b limit, ∀ r ∈ trimmed store.database.checks b limit, ∀ s ∈ store.database.checks,
        r.columns.isIn b = true → s.columns.isIn b = true →
          s ∉ trimmed store.database.checks b limit →
            ∀ c d, r.read = .ok c → s.read = .ok d → c.AsNewAs d) ∧
      ∀ (filter : HostFilter) (t : Time.Instant) (hosts : List Host),
        filter.seenSince = some t → t.Valid → t.FourDigitYear → store.hosts filter = .ok hosts →
          ∀ r ∈ store.database.hosts, ∀ h, r.Tells h →
            (h ∈ hosts ↔ filter.AsksFor (fun t u => ¬u.Before t) h) := by
  refine ⟨fun t u ht hu hty huy => ?_, fun store hdb => ⟨fun b limit cs hcs => ?_, ?_, ?_⟩⟩
  · simp only [Text.Utf8.encode_lt_iff, Text.Utf8.encode_inj]
    exact ⟨Time.storedText_lt_iff ht hu hty huy, Time.storedText_inj ht hu,
      Time.storedText_lt_iff hu ht huy hty⟩
  · exact hdb.checks_ordered hcs
  · intro b limit r hr s hs hrb hsb hgone c d hc hd
    have hrmem : r ∈ store.database.checks := (trimmed_sublist _ _ _).subset hr
    have hnewer := newer_of_trimmed hdb.numbers hr hrb hs hsb hgone
    exact (newer_iff_asNewAs (hdb.checks r hrmem) (hdb.checks s hs) hc hd).mp hnewer
  · intro filter t hosts hsince ht hyear hhosts r hr h tells
    exact hdb.mem_hosts_iff hsince ht hyear hhosts hr tells

/-- A check just after a leap second, and one within it. -/
def afterLeap : Check := sampleResult.toCheck 1 ⟨60, 0⟩ 1

def withinLeap : Check := sampleResult.toCheck 1 ⟨59, 1500000000⟩ 2

/-- A store with these checks, in this order, of one of the hosts that are seen around the leap
second. -/
def leapStore : Store :=
  ({} : Store).after
    (sightings ++
      [.recordCheck ⟨afterLeap.checkedAt, by decide⟩ 1 sampleResult,
        .recordCheck ⟨withinLeap.checkedAt, by decide⟩ 1 sampleResult])

theorem checks_leapStore :
    leapStore.database.checks = [afterLeap.row, withinLeap.row] := by
  decide +kernel

/-- The check within the leap second is listed last and is the first to go, and the peers that were
seen within it or after it are found by a filter with its start. -/
theorem stored_times_stand_in_order_of_leap_second :
    Text.Utf8.encode (Time.storedText withinLeap.checkedAt) <
        Text.Utf8.encode (Time.storedText afterLeap.checkedAt) ∧
      leapStore.database.Dated ∧
      leapStore.checks afterLeap.bucket 2 = .ok [afterLeap, withinLeap] ∧
      [afterLeap, withinLeap].Pairwise Check.AsNewAs ∧
      trimmed leapStore.database.checks afterLeap.bucket 1 = [afterLeap.row] ∧
      afterLeap.AsNewAs withinLeap ∧
      ∃ hosts, leapStore.hosts leapFilter = .ok hosts ∧ hosts.map (·.hostname) = ["b", "c"] ∧
        ∀ r ∈ leapStore.database.hosts, ∀ h, r.Tells h →
          (h ∈ hosts ↔ h.isLocal = false ∧ ¬h.lastSeen.Before ⟨59, 1000000000⟩) := by
  obtain ⟨hinstants, hstores⟩ := stored_times_stand_in_order
  have hdated : leapStore.database.Dated :=
    ⟨by decide +kernel, by rw [checks_leapStore]; decide +kernel,
      by rw [checks_leapStore]; decide⟩
  obtain ⟨hlists, hcuts, hfinds⟩ := hstores leapStore hdated
  have hlisted : leapStore.checks afterLeap.bucket 2 = .ok [afterLeap, withinLeap] :=
    toOption_eq_some_iff.mp (by decide +kernel)
  have hkept : trimmed leapStore.database.checks afterLeap.bucket 1 = [afterLeap.row] := by
    rw [checks_leapStore]
    decide +kernel
  have hnames : (leapStore.hosts leapFilter).toOption.map (·.map (·.hostname)) =
      some ["b", "c"] := by
    decide +kernel
  obtain ⟨hosts, hhosts, hmap⟩ := Option.map_eq_some_iff.mp hnames
  refine ⟨?_, hdated, hlisted, hlists _ _ _ hlisted, hkept, ?_, hosts,
    toOption_eq_some_iff.mp hhosts, hmap, fun r hr h tells => ?_⟩
  · exact (hinstants _ _ (by decide) (by decide) (by decide) (by decide)).1.mpr (by decide)
  · refine hcuts afterLeap.bucket 1 afterLeap.row (hkept ▸ List.mem_singleton_self _)
      withinLeap.row (by simp [checks_leapStore]) (by decide) (by decide) ?_ _ _
      (read_row (by decide)) (read_row (by decide))
    rw [hkept, List.mem_singleton]
    decide
  · refine (hfinds leapFilter _ hosts rfl (by decide) (by decide) (toOption_eq_some_iff.mp hhosts) r
      hr h tells).trans ?_
    simp [HostFilter.AsksFor, leapFilter]

end Store
end PeerHealth
