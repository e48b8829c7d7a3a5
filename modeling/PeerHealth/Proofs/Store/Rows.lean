import Mathlib.Data.List.Forall2
import PeerHealth.Proofs.Except
import PeerHealth.Proofs.Time.StoredText
import PeerHealth.Store.Read

/-! Columns and rows: counting in a column, and what a row must hold to read as a host or as the
local host's record. -/

namespace PeerHealth.Store

/-- A column of whole numbers counts as long as it has room. -/
theorem Cell.plus_natCast {m n : Nat} (h : m + n < Number.limit63) :
    (Cell.whole m).plus n = .whole (m + n : Nat) := by
  have hrange : lowest ≤ (m : Int) + n ∧ (m : Int) + n ≤ highest := by
    unfold lowest highest
    omega
  simp only [Cell.plus]
  rw [if_pos hrange]
  rfl

theorem Cell.plus_one {n : Nat} (h : n + 1 < Number.limit63) :
    (Cell.whole n).plus 1 = .whole (n + 1 : Nat) := plus_natCast h

theorem toOption_eq_some_iff {ε α : Type} {x : Except ε α} {a : α} :
    x.toOption = some a ↔ x = .ok a := by
  cases x <;> simp [Except.toOption]

theorem ofTable_eq_ok_iff {α : Type} {x : Except TableFault α} {a : α} :
    ofTable x = .ok a ↔ x = .ok a := by
  cases x <;> simp [ofTable]

theorem readWhole_eq_ok_iff {column : Nat} {name : String} {c : Cell} {n : Int} :
    readWhole column name c = .ok n ↔ c = .whole n := by
  cases c <;> simp [readWhole]

theorem readWord_eq_ok_iff {column : Nat} {name : String} {c : Cell} {w : UInt16} :
    readWord column name c = .ok w ↔ c = .whole w.toNat := by
  simp only [readWord, bind_eq_ok_iff, readWhole_eq_ok_iff]
  constructor
  · rintro ⟨n, rfl, h⟩
    split at h
    · rename_i hn
      have hw : UInt16.ofNat n.toNat = w := by simpa using h
      rw [← hw, UInt16.toNat_ofNat_of_lt' (by show n.toNat < 65536; omega)]
      congr 1
      omega
    · simp at h
  · rintro rfl
    have := w.toNat_lt
    refine ⟨_, rfl, ?_⟩
    rw [if_pos (by omega)]
    simp

theorem readTime_eq_ok_iff {column : Nat} {text : String} {t : Time.Instant} :
    readTime column text = .ok t ↔ Time.parseTime? text = some t := by
  unfold readTime
  split <;> simp_all

theorem readOptionalTime_eq_ok_iff {column : Nat} {name : String} {text : Option String}
    {t : Time.Instant} :
    readOptionalTime column name text = .ok t ↔
      ∃ s, text = some s ∧ Time.parseTime? s = some t := by
  cases text <;> simp [readOptionalTime, readTime_eq_ok_iff]

theorem readName_eq_ok_iff {α : Type} {ofName? : String → Option α} {column : Nat} {name : String}
    {a : α} : readName ofName? column name = .ok a ↔ ofName? name = some a := by
  unfold readName
  split <;> simp_all

/-- The row is that of a host. -/
structure HostRow.Tells (r : HostRow) (h : Host) : Prop where
  id : h.id = r.id
  hostname : h.hostname = r.hostname
  internal : h.internalAddress = r.internalAddress
  external : h.publicAddress = r.publicAddress
  discovered : h.discoveredAddress = r.discoveredAddress
  servicePort : r.servicePort = .whole h.servicePort.toNat
  firstSeen : Time.parseTime? r.firstSeen = some h.firstSeen
  lastSeen : Time.parseTime? r.lastSeen = some h.lastSeen
  isLocal : ∃ n, r.isLocal = .whole n ∧ h.isLocal = decide (n ≠ 0)

theorem HostRow.read_eq_ok_iff {r : HostRow} {h : Host} : r.read = .ok h ↔ r.Tells h := by
  simp only [HostRow.read, bind_eq_ok_iff, readWord_eq_ok_iff, readTime_eq_ok_iff,
    readWhole_eq_ok_iff]
  constructor
  · rintro ⟨port, hport, first, hfirst, last, hlast, n, hn, hh⟩
    cases hh
    exact ⟨rfl, rfl, rfl, rfl, rfl, hport, hfirst, hlast, n, hn, rfl⟩
  · rintro ⟨hid, hname, hin, hout, hdisc, hport, hfirst, hlast, n, hn, hl⟩
    refine ⟨_, hport, _, hfirst, _, hlast, n, hn, ?_⟩
    rw [← hid, ← hname, ← hin, ← hout, ← hdisc, ← hl]
    rfl

theorem HostRow.Tells.isLocal_eq {r : HostRow} {h : Host} (tells : r.Tells h) :
    h.isLocal = !r.isPeer := by
  obtain ⟨n, hn, hl⟩ := tells.isLocal
  simp [HostRow.isPeer, hn, hl]

section ReadAll

variable {ρ α : Type} {read : ρ → Except TableFault α} {rows : List ρ}

/-- Rows are read if each of them reads, and as what it reads as. -/
theorem readAll_eq_ok_iff {as : List α} :
    readAll read rows = .ok as ↔ List.Forall₂ (fun r a => read r = .ok a) rows as := by
  simp only [readAll, ofTable_eq_ok_iff]
  induction rows generalizing as with
  | nil =>
    rw [List.mapM_nil, List.forall₂_nil_left_iff]
    exact ⟨fun h => (Except.ok.inj h).symm, fun h => h ▸ rfl⟩
  | cons r rows ih =>
    simp only [List.mapM_cons, bind_eq_ok_iff, List.forall₂_cons_left_iff]
    constructor
    · rintro ⟨a, ha, as, has, h⟩
      exact ⟨a, as, ha, ih.mp has, (Except.ok.inj h).symm⟩
    · rintro ⟨a, as, ha, has, rfl⟩
      exact ⟨a, ha, as, ih.mpr has, rfl⟩

theorem exists_readAll_eq_ok (h : ∀ r ∈ rows, ∃ a, read r = .ok a) :
    ∃ as, readAll read rows = .ok as := by
  simp only [readAll_eq_ok_iff]
  induction rows with
  | nil => exact ⟨[], .nil⟩
  | cons r rows ih =>
    obtain ⟨a, ha⟩ := h r (List.mem_cons_self ..)
    obtain ⟨as, has⟩ := ih fun s hs => h s (List.mem_cons_of_mem _ hs)
    exact ⟨a :: as, .cons ha has⟩

/-- What is read is what one of the rows reads as. -/
theorem mem_iff_of_readAll {as : List α} (h : readAll read rows = .ok as) {a : α} :
    a ∈ as ↔ ∃ r ∈ rows, read r = .ok a := by
  rw [readAll_eq_ok_iff] at h
  induction h with
  | nil => simp
  | cons hread _ ih =>
    simp only [List.mem_cons, exists_eq_or_imp, ih, hread, Except.ok.injEq]
    exact or_congr_left eq_comm

end ReadAll

section Listings

variable {rows : List HostRow} {hosts : List Host}

/-- Rows that each tell of a host are read as those hosts. -/
theorem exists_readAll (h : ∀ r ∈ rows, ∃ host, r.Tells host) :
    ∃ hosts, readAll HostRow.read rows = .ok hosts ∧ List.Forall₂ HostRow.Tells rows hosts := by
  obtain ⟨hosts, hread⟩ := exists_readAll_eq_ok fun r hr =>
    (h r hr).imp fun _ htells => HostRow.read_eq_ok_iff.mpr htells
  exact ⟨hosts, hread, (readAll_eq_ok_iff.mp hread).imp fun _ _ => HostRow.read_eq_ok_iff.mp⟩

theorem map_eq_of_tells {α : Type} (h : List.Forall₂ HostRow.Tells rows hosts) {f : Host → α}
    {g : HostRow → α} (hfg : ∀ r host, r.Tells host → f host = g r) :
    hosts.map f = rows.map g := by
  induction h with
  | nil => rfl
  | cons htells _ ih => rw [List.map_cons, List.map_cons, hfg _ _ htells, ih]

theorem any_eq_of_tells (h : List.Forall₂ HostRow.Tells rows hosts) {p : Host → Bool}
    {q : HostRow → Bool} (hpq : ∀ r host, r.Tells host → p host = q r) :
    hosts.any p = rows.any q := by
  simpa [List.any_map] using congrArg (List.any · id) (map_eq_of_tells h hpq)

end Listings

theorem HostRow.readSelf_eq_ok_iff {r : HostRow} {s : SelfRecord} :
    r.readSelf = .ok s ↔ r.Tells s.host ∧ r.restarts = .whole s.restarts ∧
      (∃ text, r.firstStart = some text ∧ Time.parseTime? text = some s.firstStart) ∧
      ∃ text, r.lastStart = some text ∧ Time.parseTime? text = some s.lastStart := by
  simp only [HostRow.readSelf, bind_eq_ok_iff, HostRow.read_eq_ok_iff, readWhole_eq_ok_iff,
    readOptionalTime_eq_ok_iff]
  constructor
  · rintro ⟨host, hhost, n, hn, first, hfirst, last, hlast, hs⟩
    cases hs
    exact ⟨hhost, hn, hfirst, hlast⟩
  · rintro ⟨hhost, hn, hfirst, hlast⟩
    exact ⟨_, hhost, _, hn, _, hfirst, _, hlast, rfl⟩

end PeerHealth.Store
