import PeerHealth.Proofs.Scheduler.Admission
import PeerHealth.Proofs.Store.Changes

/-! Addresses visited one after the other. Main statements: after a search the store is the one that
the visits leave, and a fetch leads to a record if it does so where the visits before it have led;
discovery and expansion leave all hosts there, and the checks as they are. -/

namespace PeerHealth

/-- A store whose host table is sound, with a clock that only shows instants that there are. -/
structure TimedStore.Sound (t : TimedStore) : Prop where
  hosts : t.store.database.HostsSound
  clock : ∀ n, (t.clock n).Valid

/-- The store with other tables, one write later. -/
def TimedStore.wrote (t : TimedStore) (db : Store.Database) : TimedStore :=
  { t with store := { t.store with database := db }, writes := t.writes + 1 }

theorem TimedStore.sound_of_reachable {t : TimedStore} {writes : List Store.Write}
    (ht : t.store = ({} : Store).after writes) (hclock : ∀ n, (t.clock n).Valid) : t.Sound := by
  refine ⟨?_, hclock⟩
  rw [ht]
  exact Store.hostsSound_after Store.hostsSound_empty writes

/-- Only hosts have been written, and none is gone. -/
structure TimedStore.Hosted (t t' : TimedStore) : Prop where
  sound : t'.Sound
  kept : t.store.database.HostsKept t'.store.database

theorem TimedStore.Sound.hosted {t : TimedStore} (h : t.Sound) : t.Hosted t := ⟨h, .refl _⟩

theorem TimedStore.Hosted.trans {t t' t'' : TimedStore} (h : t.Hosted t') (h' : t'.Hosted t'') :
    t.Hosted t'' := ⟨h'.sound, h.kept.trans h'.kept⟩

namespace Scheduler

open Store (Upserted)

variable {s : Seeker} {t : TimedStore}

/-- To write an identity is one of the things that recording it can come to. -/
theorem writeIdentity_upserted (ht : t.Sound) (identity : Identity) :
    ∃ answer db, writeIdentity t identity = (answer, t.wrote db) ∧
      Upserted t.store.database identity (Time.storedText t.now) answer db := by
  obtain ⟨answer, db, hrun, h⟩ :=
    Store.upsertHost_upserted ht.hosts ⟨t.now, ht.clock t.writes⟩ identity
  refine ⟨answer, db, ?_, h⟩
  rw [writeIdentity, TimedStore.write, hrun]
  rfl

theorem hosted_writeIdentity (ht : t.Sound) (identity : Identity) :
    t.Hosted (writeIdentity t identity).2 := by
  obtain ⟨answer, db, hwrite, h⟩ := writeIdentity_upserted ht identity
  rw [hwrite]
  exact ⟨⟨h.sound ht.hosts ⟨t.now, ht.clock t.writes, rfl⟩, ht.clock⟩, h.hostsKept⟩

theorem writeAll_cons (t : TimedStore) (identity : Identity) (rest : List Identity) :
    writeAll t (identity :: rest) = writeAll (writeIdentity t identity).2 rest := by
  rw [writeAll, List.foldl_cons, ← writeAll]

theorem hosted_writeAll (ht : t.Sound) (identities : List Identity) :
    t.Hosted (writeAll t identities) := by
  induction identities generalizing t with
  | nil => exact ht.hosted
  | cons identity rest ih =>
    have hstep := hosted_writeIdentity ht identity
    rw [writeAll_cons]
    exact hstep.trans (ih hstep.sound)

theorem hosted_run (ht : t.Sound) (s : Seeker) (attempts : List Attempt) (order : List Nat) :
    t.Hosted (Search.run s ⟨attempts, t⟩ order).timed := by
  rw [Search.timed_run]
  exact hosted_writeAll ht _

theorem hosted_discover (ht : t.Sound) (s : Seeker) (schedule : Schedule)
    (candidates : Except String (List String)) :
    t.Hosted (s.discover schedule candidates t).2 := by
  unfold Seeker.discover
  cases candidates with
  | error reason => exact ht.hosted
  | ok candidates =>
    cases hknown : knownHosts t.store with
    | error fault => simpa only [hknown] using ht.hosted
    | ok known => simpa only [hknown] using hosted_run ht s _ _

theorem hosted_expand (ht : t.Sound) (s : Seeker) (schedule : Schedule) (peer : Host) :
    t.Hosted (s.expand schedule peer t).2 := by
  unfold Seeker.expand
  split
  · exact ht.hosted
  · split
    · exact ht.hosted
    · split
      · exact ht.hosted
      · exact hosted_run ht s _ _

/-- What the visit of an address can come to: it tells nothing, or what it tells is written. -/
theorem visit_cases (ht : t.Sound) (s : Seeker) (address : String) :
    (s.told? address = none ∧ s.leads t address = false ∧ s.visit t address = t) ∨
      ∃ identity answer db, s.told? address = some identity ∧
        writeIdentity t identity = (answer, t.wrote db) ∧
        s.leads t address = answer.isOk ∧ s.visit t address = t.wrote db ∧
        Upserted t.store.database identity (Time.storedText t.now) answer db := by
  cases htold : s.told? address with
  | none => exact .inl ⟨rfl, by rw [Seeker.leads, htold], by rw [Seeker.visit, htold]⟩
  | some identity =>
    obtain ⟨answer, db, hwrite, h⟩ := writeIdentity_upserted ht identity
    refine .inr ⟨identity, answer, db, rfl, hwrite, ?_, ?_, h⟩
    · simp only [Seeker.leads, htold, hwrite]
    · simp only [Seeker.visit, htold, hwrite]

theorem sound_visit (ht : t.Sound) (address : String) : (s.visit t address).Sound := by
  rw [Seeker.visit]
  split
  · exact ht
  · exact (hosted_writeIdentity ht _).sound

/-- The store after addresses have been visited one after the other. -/
def Seeker.visits (s : Seeker) (t : TimedStore) (addresses : List String) : TimedStore :=
  addresses.foldl s.visit t

@[simp] theorem visits_nil : s.visits t [] = t := rfl

@[simp] theorem visits_cons (address : String) (rest : List String) :
    s.visits t (address :: rest) = s.visits (s.visit t address) rest := rfl

theorem sound_visits (ht : t.Sound) (addresses : List String) : (s.visits t addresses).Sound := by
  induction addresses generalizing t with
  | nil => exact ht
  | cons address rest ih => exact ih (sound_visit ht address)

/-- To write what addresses tell is to visit them. -/
theorem writeAll_told (addresses : List String) :
    writeAll t (addresses.filterMap s.told?) = s.visits t addresses := by
  induction addresses generalizing t with
  | nil => rfl
  | cons address rest ih =>
    rw [visits_cons, Seeker.visit]
    cases htold : s.told? address with
    | none => rw [List.filterMap_cons_none htold, ih]
    | some identity => rw [List.filterMap_cons_some htold, writeAll_cons, ih]

theorem outcomes_append (earlier later : List String) :
    s.outcomes t (earlier ++ later) =
      s.outcomes t earlier ++ s.outcomes (s.visits t earlier) later := by
  induction earlier generalizing t with
  | nil => rfl
  | cons address rest ih => simp only [List.cons_append, Seeker.outcomes, ih, visits_cons]

theorem length_outcomes (addresses : List String) :
    (s.outcomes t addresses).length = addresses.length := by
  induction addresses generalizing t with
  | nil => rfl
  | cons address rest ih => simp only [Seeker.outcomes, List.length_cons, ih]

namespace Searched

variable {tries : List (List String)} {fetches : List Fetch} {count : Nat} {after : TimedStore}

theorem after_eq (h : Searched s t tries fetches count after) :
    after = s.visits t (fetches.map (·.address)) := by
  rw [h.store, ← writeAll_told, List.filterMap_map]
  rfl

/-- A fetch leads to a record if its address does, where those fetched before have led. -/
theorem admitted_eq (h : Searched s t tries fetches count after) {earlier later : List Fetch}
    {f : Fetch} (hsplit : fetches = earlier ++ f :: later) :
    f.admitted = s.leads (s.visits t (earlier.map (·.address))) f.address := by
  have houtcomes := h.admitted
  simp only [hsplit, List.map_append, List.map_cons, outcomes_append, Seeker.outcomes] at houtcomes
  have hlength : (earlier.map (·.admitted)).length =
      (s.outcomes t (earlier.map (·.address))).length := by simp [length_outcomes]
  exact (List.cons.inj (List.append_inj houtcomes hlength).2).1

theorem sound (h : Searched s t tries fetches count after) (ht : t.Sound) : after.Sound := by
  rw [h.after_eq]
  exact sound_visits ht _

end Searched

end Scheduler
end PeerHealth
