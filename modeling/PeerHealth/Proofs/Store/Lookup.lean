import PeerHealth.Proofs.Store.Listing
import PeerHealth.Proofs.Store.Merging

/-! Hosts that are looked up by an address. Main statements: an address leads to a host exactly if a
host that is listed is known by it, and to which of them; and the addresses of an identity lead to
the host that it has just been recorded of, but for a public one that is the internal address of
another host. -/

namespace PeerHealth.Store

section Finding

variable {db : Database} {address : String} {r : HostRow} {host : Host}

theorem Database.HostsSound.hostWhere_cases (hdb : db.HostsSound) (p : HostRow → Bool) :
    (∀ r ∈ db.hosts, p r = false) ∧ db.hostWhere p = .error .notFound ∨
      ∃ r ∈ db.hosts, p r = true ∧ ∃ host, r.Tells host ∧ db.hostWhere p = .ok host := by
  cases hf : db.hosts.find? p with
  | none =>
    have hnone : ∀ r ∈ db.hosts, p r = false := fun r hr =>
      Bool.eq_false_iff.mpr (List.find?_eq_none.mp hf r hr)
    exact .inl ⟨hnone, Database.hostWhere_eq_notFound hnone⟩
  | some r =>
    have hr := List.mem_of_find?_eq_some hf
    obtain ⟨host, tells⟩ := (hdb.rows r hr).read
    refine .inr ⟨r, hr, List.find?_some hf, host, tells, ?_⟩
    rw [Database.hostWhere, hf]
    exact ofTable_eq_ok_iff.mpr (HostRow.read_eq_ok_iff.mpr tells)

/-- The one host that has an address in a column is found there. -/
theorem Database.HostsSound.hostWhere_key (hdb : db.HostsSound) {column : HostRow → String}
    (hkey : HostRow.Key column) (hne : address ≠ "") (hr : r ∈ db.hosts)
    (holds : column r = address) (tells : r.Tells host) :
    db.hostWhere (fun s => column s = address) = .ok host :=
  Database.hostWhere_eq_ok hr (decide_eq_true holds)
    (fun _ hs hs' => hkey.eq hdb.distinct hs hr (of_decide_eq_true hs' ▸ hne)
      ((of_decide_eq_true hs').trans holds.symm)) tells

/-- An internal address leads to the host that has it. -/
theorem Database.HostsSound.hostByAddress_internal (hdb : db.HostsSound) (hne : address ≠ "")
    (hr : r ∈ db.hosts) (holds : r.internalAddress = address) (tells : r.Tells host) :
    db.hostByAddress address = .ok host := by
  rw [Database.hostByAddress, if_neg hne,
    hdb.hostWhere_key HostRow.key_internalAddress hne hr holds tells]

/-- A public address that is no internal one leads to the host that has it. -/
theorem Database.HostsSound.hostByAddress_external (hdb : db.HostsSound) (hne : address ≠ "")
    (free : ∀ s ∈ db.hosts, s.internalAddress ≠ address) (hr : r ∈ db.hosts)
    (holds : r.publicAddress = address) (tells : r.Tells host) :
    db.hostByAddress address = .ok host := by
  rw [Database.hostByAddress, if_neg hne,
    Database.hostWhere_eq_notFound fun s hs => decide_eq_false (free s hs),
    hdb.hostWhere_key HostRow.key_publicAddress hne hr holds tells]

theorem Database.hostByAddress_discovered (hne : address ≠ "")
    (free : ∀ s ∈ db.hosts, s.internalAddress ≠ address)
    (unheld : ∀ s ∈ db.hosts, s.publicAddress ≠ address) :
    db.hostByAddress address = db.hostWhere (·.discoveredAddress = address) := by
  rw [Database.hostByAddress, if_neg hne,
    Database.hostWhere_eq_notFound fun s hs => decide_eq_false (free s hs),
    Database.hostWhere_eq_notFound fun s hs => decide_eq_false (unheld s hs)]

end Finding

/-- The host, of some, that an address leads to: the one that has it as its internal address,
otherwise the one that has it as its public address, otherwise one that was found at it. -/
inductive LeadsTo (hosts : List Host) (address : String) (h : Host) : Prop
  | internal (holds : h.internalAddress = address)
  | external (free : ∀ g ∈ hosts, g.internalAddress ≠ address)
      (holds : h.publicAddress = address)
  | discovered (free : ∀ g ∈ hosts, g.internalAddress ≠ address)
      (unheld : ∀ g ∈ hosts, g.publicAddress ≠ address)
      (holds : h.discoveredAddress = address)

section Known

variable {store : Store} {address : String} {hosts : List Host}

theorem hasAddress_iff {h : Host} :
    h.hasAddress address = true ↔ address ≠ "" ∧
      (h.internalAddress = address ∨ h.publicAddress = address ∨
        h.discoveredAddress = address) := by
  simp [Host.hasAddress, or_assoc]

theorem LeadsTo.hasAddress {h : Host} (hleads : LeadsTo hosts address h) (hne : address ≠ "") :
    h.hasAddress address = true := by
  refine hasAddress_iff.mpr ⟨hne, ?_⟩
  cases hleads with
  | internal holds => exact .inl holds
  | external _ holds => exact .inr (.inl holds)
  | discovered _ _ holds => exact .inr (.inr holds)

/-- The listing with the local host is of all rows. -/
theorem mem_hosts_all_iff (hhosts : store.hosts { includeLocal := true } = .ok hosts)
    {host : Host} : host ∈ hosts ↔ ∃ r ∈ store.database.hosts, r.Tells host := by
  rw [mem_hosts_iff hhosts]
  simp [HostFilter.admits]

/-- Two listed hosts that share a text that no two rows may share are one. -/
theorem eq_of_listed (hdb : store.database.HostsSound)
    (hhosts : store.hosts { includeLocal := true } = .ok hosts) {column : HostRow → String}
    (hkey : HostRow.Key column) {told : Host → String}
    (htold : ∀ (r : HostRow) h, r.Tells h → told h = column r) {g h : Host} (hg : g ∈ hosts)
    (hh : h ∈ hosts) (hne : told g ≠ "") (heq : told g = told h) : g = h := by
  obtain ⟨r, hr, tells⟩ := (mem_hosts_all_iff hhosts).mp hg
  obtain ⟨s, hs, tells'⟩ := (mem_hosts_all_iff hhosts).mp hh
  rw [htold r g tells] at hne heq
  rw [htold s h tells'] at heq
  obtain rfl := hkey.eq hdb.distinct hr hs hne heq
  exact tells.unique tells'

/-- An address leads to no host if none that is listed is known by it, and otherwise to one. -/
theorem hostByAddress_cases (hdb : store.database.HostsSound)
    (hhosts : store.hosts { includeLocal := true } = .ok hosts) (address : String) :
    (∀ h ∈ hosts, h.hasAddress address = false) ∧
        store.hostByAddress address = .error .notFound ∨
      ∃ h ∈ hosts, address ≠ "" ∧ LeadsTo hosts address h ∧
        store.hostByAddress address = .ok h := by
  by_cases hne : address = ""
  · refine .inl ⟨fun h _ => ?_, if_pos hne⟩
    exact Bool.eq_false_iff.mpr fun hhas => (hasAddress_iff.mp hhas).1 hne
  have hrow : ∀ r ∈ store.database.hosts, ∃ h ∈ hosts, r.Tells h := by
    intro r hr
    obtain ⟨h, tells⟩ := (hdb.rows r hr).read
    exact ⟨h, (mem_hosts_all_iff hhosts).mpr ⟨r, hr, tells⟩, tells⟩
  -- A column is asked only if no host has the address in those before it.
  by_cases hin : ∃ h ∈ hosts, h.internalAddress = address
  · obtain ⟨h, hh, holds⟩ := hin
    obtain ⟨r, hr, tells⟩ := (mem_hosts_all_iff hhosts).mp hh
    exact .inr ⟨h, hh, hne, .internal holds,
      hdb.hostByAddress_internal hne hr (tells.internal ▸ holds) tells⟩
  have free : ∀ h ∈ hosts, h.internalAddress ≠ address := fun h hh holds => hin ⟨h, hh, holds⟩
  have free' : ∀ r ∈ store.database.hosts, r.internalAddress ≠ address := by
    intro r hr
    obtain ⟨h, hh, tells⟩ := hrow r hr
    exact tells.internal ▸ free h hh
  by_cases hout : ∃ h ∈ hosts, h.publicAddress = address
  · obtain ⟨h, hh, holds⟩ := hout
    obtain ⟨r, hr, tells⟩ := (mem_hosts_all_iff hhosts).mp hh
    exact .inr ⟨h, hh, hne, .external free holds,
      hdb.hostByAddress_external hne free' hr (tells.external ▸ holds) tells⟩
  have unheld : ∀ h ∈ hosts, h.publicAddress ≠ address := fun h hh holds => hout ⟨h, hh, holds⟩
  have unheld' : ∀ r ∈ store.database.hosts, r.publicAddress ≠ address := by
    intro r hr
    obtain ⟨h, hh, tells⟩ := hrow r hr
    exact tells.external ▸ unheld h hh
  have hlookup : store.hostByAddress address =
      store.database.hostWhere (·.discoveredAddress = address) :=
    Database.hostByAddress_discovered hne free' unheld'
  rw [hlookup]
  obtain ⟨hnone, hmissing⟩ | ⟨r, hr, hfound, h, tells, hread⟩ :=
    hdb.hostWhere_cases (·.discoveredAddress = address)
  · refine .inl ⟨fun h hh => Bool.eq_false_iff.mpr fun hhas => ?_, hmissing⟩
    obtain ⟨r, hr, tells⟩ := (mem_hosts_all_iff hhosts).mp hh
    obtain ⟨-, holds | holds | holds⟩ := hasAddress_iff.mp hhas
    · exact free h hh holds
    · exact unheld h hh holds
    · exact of_decide_eq_false (hnone r hr) (tells.discovered ▸ holds)
  · exact .inr ⟨h, (mem_hosts_all_iff hhosts).mpr ⟨r, hr, tells⟩, hne,
      .discovered free unheld (tells.discovered.trans (of_decide_eq_true hfound)), hread⟩

end Known

/-- After every run an address leads to no host exactly if no listed host, the local one included,
is known by it, as none is by the empty text. Otherwise it leads to the host that has it as its
internal address, without one to the host that has it as its public address, and without one to a
host that was found at it. Only one host has an address in a column. -/
theorem hostByAddress_finds_listed (writes : List Write) (address : String) :
    let store := ({} : Store).after writes
    ∃ hosts, store.hosts { includeLocal := true } = .ok hosts ∧
      (store.hostByAddress address = .error .notFound ↔
        ∀ h ∈ hosts, h.hasAddress address = false) ∧
      (address = "" → store.hostByAddress address = .error .notFound) ∧
      (∀ fault, store.hostByAddress address = .error fault → fault = .notFound) ∧
      (∀ h, store.hostByAddress address = .ok h →
        h ∈ hosts ∧ h.hasAddress address = true ∧ LeadsTo hosts address h) ∧
      (address ≠ "" → ∀ g ∈ hosts, ∀ h ∈ hosts,
        (g.internalAddress = address → h.internalAddress = address → g = h) ∧
          (g.publicAddress = address → h.publicAddress = address → g = h)) := by
  intro store
  have hdb : store.database.HostsSound := hostsSound_after hostsSound_empty writes
  obtain ⟨_, hosts, -, hhosts, -⟩ := exists_listing hdb { includeLocal := true }
  have hcases := hostByAddress_cases hdb hhosts address
  refine ⟨hosts, hhosts, ?_, fun hempty => if_pos hempty, ?_, ?_, fun hne g hg h hh =>
    ⟨fun hin hin' => ?_, fun hout hout' => ?_⟩⟩
  · obtain ⟨hnone, hmissing⟩ | ⟨h, hh, hne, hleads, hfound⟩ := hcases
    · exact ⟨fun _ => hnone, fun _ => hmissing⟩
    · constructor
      · intro hmissing
        rw [hfound] at hmissing
        cases hmissing
      · intro hnone
        have hhas := hleads.hasAddress hne
        rw [hnone h hh] at hhas
        cases hhas
  · intro fault hfault
    obtain ⟨-, hmissing⟩ | ⟨h, -, -, -, hfound⟩ := hcases
    · exact Except.error.inj (hfault.symm.trans hmissing)
    · rw [hfound] at hfault
      cases hfault
  · intro h hanswer
    obtain ⟨-, hmissing⟩ | ⟨g, hg, hne, hleads, hfound⟩ := hcases
    · rw [hmissing] at hanswer
      cases hanswer
    · obtain rfl := Except.ok.inj (hfound.symm.trans hanswer)
      exact ⟨hg, hleads.hasAddress hne, hleads⟩
  · exact eq_of_listed hdb hhosts HostRow.key_internalAddress (fun _ _ tells => tells.internal) hg
      hh (hin ▸ hne) (hin.trans hin'.symm)
  · exact eq_of_listed hdb hhosts HostRow.key_publicAddress (fun _ _ tells => tells.external) hg
      hh (hout ▸ hne) (hout.trans hout'.symm)

/-! ### The addresses of an identity -/

/-- Another host than the one of a number has an identity's public address as its internal one,
which to record the identity does not take from it. -/
structure Database.Shadows (db : Database) (identity : Identity) (id : Int) (r : HostRow) :
    Prop where
  mem : r ∈ db.hosts
  other : r.id ≠ id
  holds : r.internalAddress = identity.publicAddress
  kept : identity.publicAddress ≠ identity.internalAddress

section Claimed

variable {db after : Database} {identity : Identity} {now : Time.Moment} {host : Host}

/-- A public address is no other host's internal one afterwards if it was not before. -/
theorem Upserted.internalAddress_ne
    (h : Upserted db identity (Time.storedText now.1) (.ok host) after)
    (hdb : db.HostsSound) (hne : identity.publicAddress ≠ "")
    (kept : identity.publicAddress ≠ identity.internalAddress)
    (unshadowed : ∀ r, ¬db.Shadows identity host.id r) {s : HostRow} (hs : s ∈ after.hosts)
    (other : s.id ≠ host.id) : s.internalAddress ≠ identity.publicAddress := by
  obtain ⟨r, hr, hother, rfl⟩ := (h.others hdb).mp ⟨hs, other⟩
  intro holds
  rw [HostRow.internalAddress_yielding] at holds
  split at holds
  · exact hne holds.symm
  · exact unshadowed r ⟨hr, hother, holds, kept⟩

/-- A host with a public address as its internal one still has it afterwards. -/
theorem Upserted.exists_of_shadows
    (h : Upserted db identity (Time.storedText now.1) (.ok host) after) (hdb : db.HostsSound)
    {r : HostRow} (shadows : db.Shadows identity host.id r) :
    ∃ s ∈ after.hosts, s.id = r.id ∧ s.internalAddress = identity.publicAddress := by
  obtain ⟨hs, -⟩ := (h.others hdb).mpr ⟨r, shadows.mem, shadows.other, rfl⟩
  refine ⟨r.yielding identity, hs, r.id_yielding identity, ?_⟩
  rw [HostRow.internalAddress_yielding, if_neg, shadows.holds]
  rintro ⟨-, heq⟩
  exact shadows.kept (shadows.holds.symm.trans heq)

end Claimed

/-- After every run, if an identity is recorded of a host, its internal address leads to that host,
and so does its public address, unless that is the internal address of another host: then it leads
to the other host. -/
theorem claimed_addresses_lead_to_host (writes : List Write) (now : Time.Moment)
    {identity : Identity} {host : Host} {after : Store}
    (recorded : (({} : Store).after writes).upsertHost now.1 identity = (.ok host, after)) :
    (identity.internalAddress ≠ "" →
        after.hostByAddress identity.internalAddress = .ok host) ∧
      (identity.publicAddress ≠ "" →
        let db := (({} : Store).after writes).database
        ((∀ r, ¬db.Shadows identity host.id r) →
          after.hostByAddress identity.publicAddress = .ok host) ∧
        ∀ r, db.Shadows identity host.id r →
          ∃ other, other.id = r.id ∧
            after.hostByAddress identity.publicAddress = .ok other) := by
  have hdb := hostsSound_after hostsSound_empty writes
  obtain ⟨answer, db', hrun, h⟩ := upsertHost_upserted hdb now identity
  obtain ⟨rfl, rfl⟩ := Prod.mk.inj (hrun.symm.trans recorded)
  have hdb' : db'.HostsSound := h.sound hdb (isStoredTime_storedText now)
  obtain ⟨-, row, hrow, -, carries, tells, -⟩ := h.carries hdb
  have hinternal (hne : identity.internalAddress ≠ "") :
      db'.hostByAddress identity.internalAddress = .ok host :=
    hdb'.hostByAddress_internal hne hrow (carries.internal hne) tells
  refine ⟨hinternal, fun hne => ⟨fun unshadowed => ?_, fun r shadows => ?_⟩⟩
  · -- Internal addresses are asked for first, and the host's own may be the text that is looked up.
    show db'.hostByAddress identity.publicAddress = .ok host
    by_cases kept : identity.publicAddress = identity.internalAddress
    · rw [kept]
      exact hinternal (kept ▸ hne)
    by_cases own : row.internalAddress = identity.publicAddress
    · exact hdb'.hostByAddress_internal hne hrow own tells
    refine hdb'.hostByAddress_external hne (fun s hs => ?_) hrow (carries.external hne) tells
    by_cases heq : s.id = host.id
    · rwa [hdb'.distinct.eq_of_id hs hrow (heq.trans tells.id)]
    · exact h.internalAddress_ne hdb hne kept unshadowed hs heq
  · obtain ⟨s, hs, hid, holds⟩ := h.exists_of_shadows hdb shadows
    obtain ⟨other, tells'⟩ := (hdb'.rows s hs).read
    exact ⟨other, tells'.id.trans hid, hdb'.hostByAddress_internal hne hs holds tells'⟩

/-- The addresses of two peers lead to the third one once it has claimed them. -/
theorem claimed_addresses_lead_to_host_of_fleet :
    ∃ host, mixedOnce = (.ok host, mixedOnce.2) ∧ host.id = 1 ∧
      (∀ r, ¬(({} : Store).after fleet).database.Shadows mixedIdentity host.id r) ∧
      mixedOnce.2.hostByAddress "10.0.0.2" = .ok host ∧
      mixedOnce.2.hostByAddress "1.2.3.4" = .ok host := by
  have hfirst : mixedOnce.1.toOption.map (·.id) = some 1 := by decide +kernel
  obtain ⟨host, hfound, hid⟩ := Option.map_eq_some_iff.mp hfirst
  have recorded : mixedOnce = (.ok host, mixedOnce.2) :=
    Prod.ext (toOption_eq_some_iff.mp hfound) rfl
  have unshadowed : ∀ r, ¬(({} : Store).after fleet).database.Shadows mixedIdentity host.id r := by
    intro r shadows
    have hall : ∀ s ∈ (({} : Store).after fleet).database.hosts,
        s.internalAddress ≠ mixedIdentity.publicAddress := by decide +kernel
    exact hall r shadows.mem shadows.holds
  obtain ⟨hinternal, hexternal⟩ := claimed_addresses_lead_to_host fleet Time.epoch recorded
  exact ⟨host, recorded, hid, unshadowed, hinternal (by decide),
    (hexternal (by decide)).1 unshadowed⟩

/-- A peer claims as its public address what another has as its internal one, and the address leads
to the other still. -/
theorem claimed_address_leads_to_other :
    let store := ({} : Store).after
      [.upsertHost Time.epoch { hostname := "a", internalAddress := "10.0.0.2" }]
    let claim := store.upsertHost Time.epoch.1 { hostname := "b", publicAddress := "10.0.0.2" }
    claim.1.toOption.map (·.id) = some 2 ∧
      (claim.2.hostByAddress "10.0.0.2").toOption.map (·.id) = some 1 := by
  decide +kernel

end PeerHealth.Store
