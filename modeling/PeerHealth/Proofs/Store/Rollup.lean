import PeerHealth.Proofs.Store.Counters

/-! The uptime of a host. Main statement: in every reachable store each count of a host that is
there is what the counter of its bucket holds, each total is the sum of the counts below it, and
such sums do not depend on the order of the leaves. -/

namespace PeerHealth.Store

/-- What the counter of a bucket holds; a bucket without a counter holds nothing. -/
def Database.Holds (db : Database) (b : Bucket) (c : Counts) : Prop :=
  (db.counters.filter (·.isOf b) = [] ∧ c = .zero) ∨
    ∃ row, db.counters.filter (·.isOf b) = [row] ∧ row.successes = .whole c.successes ∧
      row.total = .whole c.total

section Rollup

variable {db : Database} {tallies : List Tally}

theorem filter_tallies (hdistinct : (tallies.map Prod.fst).Nodup) (b : Bucket) :
    tallies.filter (fun t => decide (t.1 = b)) = [] ∨
      ∃ t, t.1 = b ∧ tallies.filter (fun t => decide (t.1 = b)) = [t] := by
  cases hmine : tallies.filter fun t => decide (t.1 = b) with
  | nil => exact .inl rfl
  | cons t ts =>
    have hbucket : ∀ s ∈ t :: ts, s.1 = b := by
      intro s hs
      rw [← hmine] at hs
      simpa using (List.mem_filter.mp hs).2
    have hsub := (List.filter_sublist (p := fun t => decide (t.1 = b)) (l := tallies)).map Prod.fst
    have hnodup := hdistinct.sublist hsub
    rw [hmine, List.map_cons, List.nodup_cons] at hnodup
    refine .inr ⟨t, hbucket t (List.mem_cons_self ..), ?_⟩
    cases ts with
    | nil => rfl
    | cons s ts =>
      refine absurd ?_ hnodup.1
      rw [hbucket t (List.mem_cons_self ..),
        ← hbucket s (List.mem_cons_of_mem _ (List.mem_cons_self ..))]
      exact List.mem_map_of_mem (List.mem_cons_self ..)

theorem filter_leavesOf (tallies : List Tally) (id : Int) (n : Network) (p : Protocol) :
    (leavesOf tallies id).filter (fun l => l.network = n ∧ l.protocol = p) =
      (tallies.filter fun t => decide (t.1 = ⟨id, n, p⟩)).map Tally.leaf := by
  rw [leavesOf, List.filter_map, List.filter_filter]
  refine congrArg _ (List.filter_congr fun t _ => ?_)
  obtain ⟨⟨host, network, protocol⟩, c⟩ := t
  simp only [Tally.leaf, Function.comp_apply, Bucket.mk.injEq, Bool.decide_and]
  exact Bool.and_comm _ _

theorem Database.Tallied.holds (h : db.Tallied tallies) (id : Int) (n : Network) (p : Protocol) :
    db.Holds ⟨id, n, p⟩
      (Leaf.sum ((leavesOf tallies id).filter fun l => l.network = n ∧ l.protocol = p)) := by
  have hcounters : db.counters.filter (·.isOf ⟨id, n, p⟩) =
      (tallies.filter fun t => decide (t.1 = ⟨id, n, p⟩)).map Tally.row := by
    rw [h.counters, List.filter_map]
    exact congrArg _ (List.filter_congr fun t _ => isOf_row t _)
  rw [Database.Holds, hcounters, filter_leavesOf]
  rcases filter_tallies h.distinct ⟨id, n, p⟩ with hnone | ⟨t, -, hone⟩
  · rw [hnone]
    exact .inl ⟨rfl, rfl⟩
  · rw [hone]
    exact .inr ⟨t.row, rfl, rfl, rfl⟩

end Rollup

/-- After every run the counts of a host that is there are told: they are those of its counters, and
the totals are the sums of them. The same totals come of any leaves whose sum fits, which are added
up without passing the limit on the way and whatever their order. -/
theorem uptime_rolls_up :
    (∀ writes : List Write, ∀ r ∈ (({} : Store).after writes).database.hosts,
      ∃ u, (({} : Store).after writes).uptime r.id = .ok (some u) ∧ u.host = r.id ∧ u.RollsUp ∧
        u.Proper ∧
        ∀ n p, (({} : Store).after writes).database.Holds ⟨r.id, n, p⟩ ((u.of n).of p)) ∧
    ∀ (host : Int) (leaves : List Leaf), (Leaf.sum leaves).Fits →
      ∃ u, Uptime.ofLeaves? host leaves = some u ∧ u.host = host ∧ u.RollsUp ∧
        (∀ n p, (u.of n).of p =
          Leaf.sum (leaves.filter fun l => l.network = n ∧ l.protocol = p)) ∧
        ∀ leaves', leaves'.Perm leaves → Uptime.ofLeaves? host leaves' = some u := by
  refine ⟨fun writes r hr => ?_, fun host leaves hfits => ?_⟩
  · have hdb := hostsSound_after hostsSound_empty writes
    obtain ⟨tallies, htallied⟩ := tallied_after hostsSound_empty tallied_empty writes
    obtain ⟨u, hu, hhost, hsums⟩ := uptime_sums hdb htallied hr
    refine ⟨u, hu, hhost, hsums.rollsUp, hsums.proper (htallied.proper_leavesOf r.id),
      fun n p => ?_⟩
    rw [hsums.protocol]
    exact htallied.holds r.id n p
  · obtain ⟨u, hu, hhost, hsums⟩ := Uptime.ofLeaves?_eq_some host hfits
    refine ⟨u, hu, hhost, hsums.rollsUp, hsums.protocol, fun leaves' hperm => ?_⟩
    have hfits' : (Leaf.sum leaves').Fits := by rwa [Leaf.sum_perm hperm]
    obtain ⟨v, hv, hvhost, hvsums⟩ := Uptime.ofLeaves?_eq_some host hfits'
    rw [hv, hvsums.eq (hsums.perm hperm) (hvhost.trans hhost.symm)]

/-- Counts of one network with a protocol that comes twice. -/
def sampleLeaves : List Leaf :=
  [⟨.internal, .http, ⟨1, 3⟩⟩, ⟨.external, .icmp, ⟨0, 5⟩⟩, ⟨.internal, .http, ⟨2, 2⟩⟩]

/-- One check of a peer is counted in one bucket, and leaves of one kind are counted together. -/
theorem uptime_rolls_up_of_checked :
    (∃ r ∈ (({} : Store).after checkedPeer).database.hosts, r.id = 1 ∧
      ∃ u, (({} : Store).after checkedPeer).uptime r.id = .ok (some u) ∧ u.host = r.id ∧
        u.RollsUp ∧ u.Proper ∧
        ∀ n p, (({} : Store).after checkedPeer).database.Holds ⟨r.id, n, p⟩ ((u.of n).of p)) ∧
    (Leaf.sum sampleLeaves).Fits ∧
      ∃ u, Uptime.ofLeaves? 7 sampleLeaves = some u ∧ (u.of .internal).of .http = ⟨3, 5⟩ ∧
        u.RollsUp ∧ Uptime.ofLeaves? 7 sampleLeaves.reverse = some u := by
  have hthere : ∃ r ∈ (({} : Store).after checkedPeer).database.hosts, r.id = 1 := by
    decide +kernel
  have hfits : (Leaf.sum sampleLeaves).Fits := by decide
  obtain ⟨r, hr, hid⟩ := hthere
  obtain ⟨u, hu, -, hrolls, hsums, hperm⟩ := uptime_rolls_up.2 7 sampleLeaves hfits
  exact ⟨⟨r, hr, hid, uptime_rolls_up.1 checkedPeer r hr⟩, hfits, u, hu, hsums .internal .http,
    hrolls, hperm _ (List.reverse_perm _)⟩

end PeerHealth.Store
