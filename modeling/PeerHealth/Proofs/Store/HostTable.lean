import PeerHealth.Proofs.Store.Statements

/-! The host table and what it may not hold twice: a name, an address in a column, the local host,
or a number. Main statements: which rows may stand side by side, and the changes to rows after which
they still may. -/

namespace PeerHealth.Store

/-- Two rows that may both stand in the host table. -/
structure HostRow.Apart (r s : HostRow) : Prop where
  hostname : r.hostname ≠ "" → r.hostname ≠ s.hostname
  internal : r.internalAddress ≠ "" → r.internalAddress ≠ s.internalAddress
  external : r.publicAddress ≠ "" → r.publicAddress ≠ s.publicAddress
  self : r.isSelf = true → s.isSelf = false
  id : r.id ≠ s.id

theorem HostRow.clash?_eq_none_iff (r s : HostRow) : r.clash? s = none ↔ r.Apart s := by
  constructor
  · intro h
    unfold HostRow.clash? at h
    constructor <;> grind
  · intro h
    obtain ⟨hn, hi, he, hs, hid⟩ := h
    unfold HostRow.clash?
    grind

theorem HostRow.Apart.symm {r s : HostRow} (h : r.Apart s) : s.Apart r := by
  obtain ⟨hn, hi, he, hs, hid⟩ := h
  constructor <;> grind

/-- Row `s` is row `r` without some of its addresses, and otherwise tells the same host. -/
structure HostRow.Stripped (r s : HostRow) : Prop where
  hostname : s.hostname = r.hostname
  internal : s.internalAddress = r.internalAddress ∨ s.internalAddress = ""
  external : s.publicAddress = r.publicAddress ∨ s.publicAddress = ""
  isLocal : s.isLocal = r.isLocal
  id : s.id = r.id

/-- Rows of which each two may stand side by side. -/
def Distinct (rows : List HostRow) : Prop := rows.Pairwise HostRow.Apart

theorem firstClash?_eq_none_iff {α : Type} (clash? : α → α → Option String) (rows : List α) :
    firstClash? clash? rows = none ↔ rows.Pairwise fun r s => clash? r s = none := by
  induction rows with
  | nil => simp [firstClash?]
  | cons r rows ih => simp [firstClash?, List.pairwise_cons, ih]

/-- The table takes rows exactly if they are distinct. -/
theorem firstClash?_hosts_iff (rows : List HostRow) :
    firstClash? HostRow.clash? rows = none ↔ Distinct rows := by
  rw [firstClash?_eq_none_iff, Distinct]
  simp only [HostRow.clash?_eq_none_iff]

namespace Distinct

variable {rows : List HostRow}

theorem apart (h : Distinct rows) {r s : HostRow} (hr : r ∈ rows) (hs : s ∈ rows) :
    r = s ∨ r.Apart s := by
  refine List.Pairwise.forall_of_forall_of_flip (R := fun r s => r = s ∨ r.Apart s)
    (fun r _ => .inl rfl) ?_ ?_ hr hs
  · exact List.Pairwise.imp .inr h
  · exact List.Pairwise.imp (fun ha => .inr ha.symm) h

theorem eq_of_id (h : Distinct rows) {r s : HostRow} (hr : r ∈ rows) (hs : s ∈ rows)
    (hid : r.id = s.id) : r = s :=
  (h.apart hr hs).resolve_right fun ha => ha.id hid

theorem nodup_ids (h : Distinct rows) : (rows.map (·.id)).Nodup :=
  List.pairwise_map.mpr (h.imp fun hap => hap.id)

theorem filter (h : Distinct rows) (p : HostRow → Bool) : Distinct (rows.filter p) :=
  List.Pairwise.filter p h

theorem strip (h : Distinct rows) {f : HostRow → HostRow} (hf : ∀ r : HostRow, r.Stripped (f r)) :
    Distinct (rows.map f) := by
  rw [Distinct, List.pairwise_map]
  refine List.Pairwise.imp (fun {r s} ha => ?_) h
  have hr := hf r
  have hs := hf s
  constructor
  · rw [hr.hostname, hs.hostname]
    exact ha.hostname
  · rcases hr.internal with h1 | h1 <;> rcases hs.internal with h2 | h2 <;> grind [ha.internal]
  · rcases hr.external with h1 | h1 <;> rcases hs.external with h2 | h2 <;> grind [ha.external]
  · rw [HostRow.isSelf, HostRow.isSelf, hr.isLocal, hs.isLocal]
    exact ha.self
  · rw [hr.id, hs.id]
    exact ha.id

/-- The rows stay distinct when the one with a number is changed into one that is apart from the
others. -/
theorem update (h : Distinct rows) {id : Int} {f : HostRow → HostRow}
    (hf : ∀ r ∈ rows, r.id = id → ∀ s ∈ rows, s.id ≠ id → (f r).Apart s) :
    Distinct (rows.map fun r => if r.id = id then f r else r) := by
  rw [Distinct, List.pairwise_map]
  refine List.Pairwise.imp_of_mem (fun {r s} hr hs ha => ?_) h
  by_cases h1 : r.id = id
  · have h2 : s.id ≠ id := fun h2 => ha.id (h1.trans h2.symm)
    rw [if_pos h1, if_neg h2]
    exact hf r hr h1 s hs h2
  · rw [if_neg h1]
    by_cases h2 : s.id = id
    · rw [if_pos h2]
      exact (hf s hs h2 r hr h1).symm
    · rw [if_neg h2]
      exact ha

theorem append (h : Distinct rows) {row : HostRow} (hrow : ∀ s ∈ rows, row.Apart s) :
    Distinct (rows ++ [row]) := by
  rw [Distinct, List.pairwise_append]
  refine ⟨h, List.pairwise_singleton _ _, fun s hs r hr => ?_⟩
  rw [List.mem_singleton.mp hr]
  exact (hrow s hs).symm

end Distinct

/-- A peer other than the one with number `keep`. -/
def HostRow.isOther (keep : Int) (r : HostRow) : Bool := r.id ≠ keep && r.isPeer

/-- A row from which an internal address is taken if it is another peer's. -/
def HostRow.dropInternal (keep : Int) (address : String) (r : HostRow) : HostRow :=
  if r.isOther keep && r.internalAddress = address then { r with internalAddress := "" } else r

/-- A row from which a public address is taken if it is another peer's. -/
def HostRow.dropExternal (keep : Int) (address : String) (r : HostRow) : HostRow :=
  if r.isOther keep && r.publicAddress = address then { r with publicAddress := "" } else r

/-- A row from which the addresses of an identity are taken if it is another peer's. -/
def HostRow.release (identity : Identity) (keep : Int) (r : HostRow) : HostRow :=
  (r.dropInternal keep identity.internalAddress).dropExternal keep identity.publicAddress

namespace HostRow

theorem stripped_dropInternal (keep : Int) (address : String) (r : HostRow) :
    r.Stripped (r.dropInternal keep address) := by
  unfold dropInternal
  split
  · exact ⟨rfl, .inr rfl, .inl rfl, rfl, rfl⟩
  · exact ⟨rfl, .inl rfl, .inl rfl, rfl, rfl⟩

theorem stripped_dropExternal (keep : Int) (address : String) (r : HostRow) :
    r.Stripped (r.dropExternal keep address) := by
  unfold dropExternal
  split
  · exact ⟨rfl, .inl rfl, .inr rfl, rfl, rfl⟩
  · exact ⟨rfl, .inl rfl, .inl rfl, rfl, rfl⟩

theorem dropInternal_empty (keep : Int) (r : HostRow) : r.dropInternal keep "" = r := by
  unfold dropInternal
  split <;> rename_i h
  · simp only [Bool.and_eq_true, decide_eq_true_eq] at h
    rw [← h.2]
  · rfl

theorem dropExternal_empty (keep : Int) (r : HostRow) : r.dropExternal keep "" = r := by
  unfold dropExternal
  split <;> rename_i h
  · simp only [Bool.and_eq_true, decide_eq_true_eq] at h
    rw [← h.2]
  · rfl

/-- No more than addresses are taken. -/
theorem release_eq (identity : Identity) (keep : Int) (r : HostRow) :
    ∃ i e, (i = r.internalAddress ∨ i = "") ∧ (e = r.publicAddress ∨ e = "") ∧
      r.release identity keep = { r with internalAddress := i, publicAddress := e } := by
  unfold release dropInternal dropExternal
  by_cases hi : (r.isOther keep && r.internalAddress = identity.internalAddress) = true
  · rw [if_pos hi]
    split
    · exact ⟨"", "", .inr rfl, .inr rfl, rfl⟩
    · exact ⟨"", r.publicAddress, .inr rfl, .inl rfl, rfl⟩
  · rw [if_neg hi]
    split
    · exact ⟨r.internalAddress, "", .inl rfl, .inr rfl, rfl⟩
    · exact ⟨r.internalAddress, r.publicAddress, .inl rfl, .inl rfl, rfl⟩

theorem stripped_release (identity : Identity) (keep : Int) (r : HostRow) :
    r.Stripped (r.release identity keep) := by
  obtain ⟨i, e, hi, he, h⟩ := release_eq identity keep r
  rw [h]
  exact ⟨rfl, hi, he, rfl, rfl⟩

/-- The rows of no other peers stay as they are. -/
theorem release_of_not_isOther {keep : Int} {r : HostRow} (identity : Identity)
    (h : r.isOther keep = false) : r.release identity keep = r := by
  simp [release, dropInternal, dropExternal, h]

/-- Another peer does not keep an address of the identity. -/
theorem release_ne {identity : Identity} {keep : Int} {r : HostRow} (h : r.isOther keep = true) :
    (identity.internalAddress ≠ "" →
        (r.release identity keep).internalAddress ≠ identity.internalAddress) ∧
      (identity.publicAddress ≠ "" →
        (r.release identity keep).publicAddress ≠ identity.publicAddress) := by
  have h' : (r.dropInternal keep identity.internalAddress).isOther keep = true := by
    obtain ⟨-, -, -, hl, hid⟩ := r.stripped_dropInternal keep identity.internalAddress
    simpa only [isOther, isPeer, hl, hid] using h
  have hin : (r.release identity keep).internalAddress =
      (r.dropInternal keep identity.internalAddress).internalAddress := by
    unfold release dropExternal
    split <;> rfl
  constructor
  · intro hne
    rw [hin, dropInternal, h]
    split <;> rename_i hi
    · exact fun heq => hne heq.symm
    · simpa using hi
  · intro hne
    rw [release, dropExternal, h']
    split <;> rename_i he
    · exact fun heq => hne heq.symm
    · simpa using he

/-- A row with the addresses of an identity, or with others that it may have beside `s`, stands
beside row `s` once the addresses are taken from this. -/
theorem apart_release {row s : HostRow} {identity : Identity} {keep : Int} (hid : row.id ≠ s.id)
    (hname : row.hostname ≠ s.hostname) (hself : row.isSelf = true → s.isSelf = false)
    (hin : row.internalAddress = identity.internalAddress ∨
      (row.internalAddress ≠ "" → row.internalAddress ≠ s.internalAddress))
    (hout : row.publicAddress = identity.publicAddress ∨
      (row.publicAddress ≠ "" → row.publicAddress ≠ s.publicAddress))
    (hs : s.isOther keep = true ∨
      (identity.internalAddress ≠ "" → s.internalAddress ≠ identity.internalAddress) ∧
        (identity.publicAddress ≠ "" → s.publicAddress ≠ identity.publicAddress)) :
    row.Apart (s.release identity keep) := by
  have hst := s.stripped_release identity keep
  have hne : (identity.internalAddress ≠ "" →
        (s.release identity keep).internalAddress ≠ identity.internalAddress) ∧
      (identity.publicAddress ≠ "" →
        (s.release identity keep).publicAddress ≠ identity.publicAddress) := by
    rcases hs with hs | ⟨h1, h2⟩
    · exact release_ne hs
    · constructor
      · rcases hst.internal with h | h <;> rw [h]
        · exact h1
        · exact fun hn he => hn he.symm
      · rcases hst.external with h | h <;> rw [h]
        · exact h2
        · exact fun hn he => hn he.symm
  constructor
  · intro _
    rw [hst.hostname]
    exact hname
  · intro hne0 heq
    rcases hin with h | h
    · exact hne.1 (h ▸ hne0) (heq ▸ h)
    · rcases hst.internal with hi | hi
      · exact h hne0 (hi ▸ heq)
      · exact hne0 (hi ▸ heq)
  · intro hne0 heq
    rcases hout with h | h
    · exact hne.2 (h ▸ hne0) (heq ▸ h)
    · rcases hst.external with hi | hi
      · exact h hne0 (hi ▸ heq)
      · exact hne0 (hi ▸ heq)
  · rw [isSelf, isSelf, hst.isLocal]
    exact hself
  · rw [hst.id]
    exact hid

end HostRow

namespace Statements

theorem exec_setHosts {rows : List HostRow} (h : Distinct rows) (db : Database) :
    exec (setHosts rows) db = (.ok (), { db with hosts := rows }) := by
  rw [setHosts, (firstClash?_hosts_iff rows).mpr h]
  rfl

theorem exec_updateHosts {p : HostRow → Bool} {change : HostRow → HostRow} {db : Database}
    (h : Distinct (db.hosts.map fun r => if p r then change r else r)) :
    exec (updateHosts p change) db =
      (.ok (), { db with hosts := db.hosts.map fun r => if p r then change r else r }) := by
  rw [updateHosts, exec_bind_of_ok (exec_get db)]
  exact exec_setHosts h db

/-- The row with a number, and the tables in which it is changed. -/
theorem exec_updateHosts_id {db : Database} {id : Int} {f : HostRow → HostRow}
    (h : Distinct (db.hosts.map fun r => if r.id = id then f r else r)) :
    exec (updateHosts (·.id = id) f) db =
      (.ok (), { db with hosts := db.hosts.map fun r => if r.id = id then f r else r }) := by
  have hfun : (fun r : HostRow => if (decide (r.id = id)) = true then f r else r) =
      fun r => if r.id = id then f r else r := by
    funext r
    simp only [decide_eq_true_eq]
  rw [← hfun] at h ⊢
  exact exec_updateHosts h

theorem exec_insertHost (db : Database) (row : Int → HostRow)
    (hnum : ∀ r ∈ db.hosts, r.id ≤ db.lastHost)
    (h : Distinct (db.hosts ++ [row (db.lastHost + 1)])) :
    exec (insertHost row) db =
      if db.lastHost < Cell.highest then
        (.ok (db.lastHost + 1),
          { db with hosts := db.hosts ++ [row (db.lastHost + 1)], lastHost := db.lastHost + 1 })
      else (.error full, db) := by
  have hid : nextId db.lastHost (db.hosts.map (·.id)) = db.lastHost + 1 :=
    nextId_eq fun id hmem => by
      obtain ⟨r, hr, rfl⟩ := List.mem_map.mp hmem
      exact hnum r hr
  rw [insertHost, exec_bind_of_ok (exec_get db)]
  have hnew := exec_newId db.lastHost (db.hosts.map (·.id)) db
  rw [hid] at hnew
  by_cases hroom : db.lastHost < Cell.highest
  · rw [if_neg (by omega)] at hnew
    rw [exec_bind_of_ok hnew, exec_bind_of_ok (exec_setHosts h db), if_pos hroom]
    rfl
  · rw [if_pos (by omega)] at hnew
    rw [exec_bind_of_error hnew, if_neg hroom]

/-- Addresses are taken away without a clash. -/
theorem exec_releaseAddresses (identity : Identity) (keep : Int) {db : Database}
    (h : Distinct db.hosts) :
    exec (releaseAddresses identity keep) db =
      (.ok (), { db with hosts := db.hosts.map (HostRow.release identity keep) }) := by
  have hin := h.strip (HostRow.stripped_dropInternal keep identity.internalAddress)
  have hout := h.strip (HostRow.stripped_dropExternal keep identity.publicAddress)
  have hboth := hin.strip (HostRow.stripped_dropExternal keep identity.publicAddress)
  show _ = (Except.ok (), { db with hosts := db.hosts.map fun r : HostRow =>
    (r.dropInternal keep identity.internalAddress).dropExternal keep identity.publicAddress })
  rw [releaseAddresses]
  by_cases h1 : identity.internalAddress = "" <;> by_cases h2 : identity.publicAddress = ""
  · rw [if_neg (not_not_intro h1), if_neg (not_not_intro h2), exec_pure, h1, h2]
    simp only [HostRow.dropInternal_empty, HostRow.dropExternal_empty, List.map_id']
  · rw [if_neg (not_not_intro h1), if_pos h2, h1]
    simp only [HostRow.dropInternal_empty]
    exact exec_updateHosts hout
  · rw [if_pos h1]
    refine (exec_bind_of_ok (exec_updateHosts hin)).trans ?_
    rw [if_neg (not_not_intro h2), exec_pure, h2]
    simp only [HostRow.dropExternal_empty]
    rfl
  · rw [if_pos h1]
    refine (exec_bind_of_ok (exec_updateHosts hin)).trans ?_
    rw [if_pos h2]
    refine (exec_updateHosts ?_).trans ?_
    · exact hboth
    · rw [List.map_map]
      rfl

end Statements
end PeerHealth.Store
