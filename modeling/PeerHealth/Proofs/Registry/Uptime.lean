import Mathlib.Algebra.BigOperators.Group.List.Basic
import Mathlib.Algebra.GroupWithZero.Nat
import PeerHealth.Registry.Uptime

/-! Counts summed up. Main statements: as long as the sum of all leaves fits, the counts of a host
are the sums of its leaves, in whatever order these come, and each total is the sum of the counts
below it. -/

namespace PeerHealth

def Leaf.sum (leaves : List Leaf) : Counts :=
  ⟨(leaves.map (·.counts.successes)).sum, (leaves.map (·.counts.total)).sum⟩

/-- No more checks succeeded than there were. -/
def Counts.Proper (c : Counts) : Prop := c.successes ≤ c.total

namespace Leaf

variable {leaves leaves' : List Leaf}

@[simp] theorem sum_nil : sum [] = .zero := rfl

@[simp] theorem sum_cons (leaf : Leaf) (leaves : List Leaf) :
    sum (leaf :: leaves) = leaf.counts.add (sum leaves) := by
  simp [sum, Counts.add]

theorem sum_append (leaves leaves' : List Leaf) :
    sum (leaves ++ leaves') = (sum leaves).add (sum leaves') := by
  simp [sum, Counts.add]

theorem sum_perm (h : leaves'.Perm leaves) : sum leaves' = sum leaves := by
  rw [sum, sum, (h.map _).sum_eq, (h.map _).sum_eq]

theorem sum_filter_append_one (p : Leaf → Bool) (leaves : List Leaf) (leaf : Leaf) :
    sum ((leaves ++ [leaf]).filter p) =
      if p leaf then (sum (leaves.filter p)).add leaf.counts else sum (leaves.filter p) := by
  rw [List.filter_append, sum_append]
  by_cases h : p leaf = true <;> simp [h, Counts.add, Counts.zero]

theorem sum_filter_le (p : Leaf → Bool) (leaves : List Leaf) :
    (sum (leaves.filter p)).successes ≤ (sum leaves).successes ∧
      (sum (leaves.filter p)).total ≤ (sum leaves).total := by
  induction leaves with
  | nil => exact ⟨Nat.le_refl _, Nat.le_refl _⟩
  | cons leaf leaves ih =>
    by_cases h : p leaf = true
    · simp only [List.filter_cons_of_pos h, sum_cons, Counts.add]
      omega
    · simp only [List.filter_cons_of_neg h, sum_cons, Counts.add]
      omega

theorem proper_sum (h : ∀ leaf ∈ leaves, leaf.counts.Proper) : (sum leaves).Proper := by
  induction leaves with
  | nil => exact Nat.le_refl _
  | cons leaf leaves ih =>
    rw [sum_cons]
    exact Nat.add_le_add (h leaf (List.mem_cons_self ..))
      (ih fun l hl => h l (List.mem_cons_of_mem _ hl))

theorem sum_eq_networks (leaves : List Leaf) :
    sum leaves = (sum (leaves.filter fun l => l.network = .internal)).add
      (sum (leaves.filter fun l => l.network = .external)) := by
  induction leaves with
  | nil => rfl
  | cons leaf leaves ih =>
    obtain ⟨n, p, c⟩ := leaf
    rw [sum_cons, ih]
    cases n <;> simp [Counts.add] <;> omega

theorem sum_eq_protocols (leaves : List Leaf) (n : Network) :
    sum (leaves.filter fun l => l.network = n) =
      (((sum (leaves.filter fun l => l.network = n ∧ l.protocol = .http)).add
        (sum (leaves.filter fun l => l.network = n ∧ l.protocol = .tcp))).add
          (sum (leaves.filter fun l => l.network = n ∧ l.protocol = .udp))).add
            (sum (leaves.filter fun l => l.network = n ∧ l.protocol = .icmp)) := by
  induction leaves with
  | nil => rfl
  | cons leaf leaves ih =>
    obtain ⟨m, p, c⟩ := leaf
    by_cases h : m = n
    · simp only [h, List.filter_cons, decide_true, if_true, sum_cons, ih, true_and]
      cases p <;> simp [Counts.add] <;> omega
    · simpa [List.filter_cons, h] using ih

end Leaf

@[simp] theorem NetworkUptime.of_set (u : NetworkUptime) (p q : Protocol) (c total : Counts) :
    NetworkUptime.of { u.set p c with total } q = if p = q then c else u.of q := by
  cases p <;> cases q <;> rfl

theorem NetworkUptime.eq_of_of {u v : NetworkUptime} (htotal : u.total = v.total)
    (h : ∀ p, u.of p = v.of p) : u = v := by
  obtain ⟨total, http, tcp, udp, icmp⟩ := u
  obtain rfl : total = v.total := htotal
  obtain rfl : http = v.http := h .http
  obtain rfl : tcp = v.tcp := h .tcp
  obtain rfl : udp = v.udp := h .udp
  obtain rfl : icmp = v.icmp := h .icmp
  rfl

@[simp] theorem Uptime.of_set (u : Uptime) (m n : Network) (v : NetworkUptime) (total : Counts) :
    Uptime.of { u.set m v with total } n = if m = n then v else u.of n := by
  cases m <;> cases n <;> rfl

theorem Counts.add?_eq_some {c d : Counts} (h : (c.add d).Fits) : c.add? d = some (c.add d) :=
  if_pos h

namespace Uptime

/-- All counts of a host are sums of leaves. -/
structure Sums (u : Uptime) (leaves : List Leaf) : Prop where
  total : u.total = Leaf.sum leaves
  network : ∀ n, (u.of n).total = Leaf.sum (leaves.filter fun l => l.network = n)
  protocol : ∀ n p,
    (u.of n).of p = Leaf.sum (leaves.filter fun l => l.network = n ∧ l.protocol = p)

/-- The total of a network is the sum of its protocols, and that of the host the sum of both
networks. -/
structure RollsUp (u : Uptime) : Prop where
  network : ∀ n, (u.of n).total =
    (((u.of n).http.add (u.of n).tcp).add (u.of n).udp).add (u.of n).icmp
  total : u.total = u.internal.total.add u.external.total

/-- Nowhere did more checks succeed than there were. -/
structure Proper (u : Uptime) : Prop where
  total : u.total.Proper
  network : ∀ n, (u.of n).total.Proper
  protocol : ∀ n p, ((u.of n).of p).Proper

section Sums

variable {u v : Uptime} {leaves leaves' : List Leaf}

theorem sums_nil (host : Int) : ({ host } : Uptime).Sums [] :=
  ⟨rfl, fun n => by cases n <;> rfl, fun n p => by cases n <;> cases p <;> rfl⟩

theorem Sums.rollsUp (h : u.Sums leaves) : u.RollsUp := by
  refine ⟨fun n => ?_, ?_⟩
  · refine (h.network n).trans ((Leaf.sum_eq_protocols leaves n).trans ?_)
    rw [← h.protocol n .http, ← h.protocol n .tcp, ← h.protocol n .udp, ← h.protocol n .icmp]
    rfl
  · refine h.total.trans ((Leaf.sum_eq_networks leaves).trans ?_)
    rw [← h.network .internal, ← h.network .external]
    rfl

theorem Sums.proper (h : u.Sums leaves) (hleaves : ∀ leaf ∈ leaves, leaf.counts.Proper) :
    u.Proper := by
  have hsome : ∀ p : Leaf → Bool, (Leaf.sum (leaves.filter p)).Proper :=
    fun p => Leaf.proper_sum fun leaf hleaf => hleaves leaf (List.mem_filter.mp hleaf).1
  refine ⟨?_, fun n => ?_, fun n p => ?_⟩
  · rw [h.total]
    exact Leaf.proper_sum hleaves
  · rw [h.network]
    exact hsome _
  · rw [h.protocol]
    exact hsome _

theorem Sums.perm (h : u.Sums leaves) (hperm : leaves'.Perm leaves) : u.Sums leaves' := by
  refine ⟨?_, fun n => ?_, fun n p => ?_⟩
  · rw [h.total, Leaf.sum_perm hperm]
  · rw [h.network, Leaf.sum_perm (hperm.filter _)]
  · rw [h.protocol, Leaf.sum_perm (hperm.filter _)]

theorem Sums.eq (hu : u.Sums leaves) (hv : v.Sums leaves) (hhost : u.host = v.host) : u = v := by
  have hof : ∀ n, u.of n = v.of n := fun n =>
    NetworkUptime.eq_of_of ((hu.network n).trans (hv.network n).symm)
      fun p => (hu.protocol n p).trans (hv.protocol n p).symm
  obtain ⟨host, total, internal, external⟩ := u
  obtain rfl : host = v.host := hhost
  obtain rfl : total = v.total := hu.total.trans hv.total.symm
  obtain rfl : internal = v.internal := hof .internal
  obtain rfl : external = v.external := hof .external
  rfl

/-- As long as the whole fits, a leaf is added to all that it is part of. -/
theorem Sums.add? (h : u.Sums leaves) {leaf : Leaf}
    (hfits : (Leaf.sum (leaves ++ [leaf])).Fits) :
    ∃ v, u.add? leaf = some v ∧ v.host = u.host ∧ v.Sums (leaves ++ [leaf]) := by
  obtain ⟨m, q, c⟩ := leaf
  rw [Leaf.sum_append] at hfits
  simp only [Leaf.sum_cons, Leaf.sum_nil, Counts.Fits, Counts.add, Counts.zero] at hfits
  have hpart : ∀ (part : Counts) (p : Leaf → Bool), part = Leaf.sum (leaves.filter p) →
      part.add? c = some (part.add c) := by
    rintro part p rfl
    have hle := Leaf.sum_filter_le p leaves
    refine Counts.add?_eq_some ?_
    simp only [Counts.Fits, Counts.add]
    omega
  have hprotocol := hpart _ _ (h.protocol m q)
  have hnetwork := hpart _ _ (h.network m)
  have htotal := hpart u.total (fun _ => true) (by rw [h.total, List.filter_true])
  let part : NetworkUptime :=
    { (u.of m).set q (((u.of m).of q).add c) with total := (u.of m).total.add c }
  refine ⟨{ u.set m part with total := u.total.add c }, ?_, ?_, ?_, fun n => ?_, fun n p => ?_⟩
  · simp only [Uptime.add?, NetworkUptime.add?, hprotocol, hnetwork, htotal, Option.bind_eq_bind,
      Option.bind_some, part]
  · cases m <;> rfl
  · rw [Leaf.sum_append, ← h.total]
    rfl
  · rw [Uptime.of_set, Leaf.sum_filter_append_one, ← h.network]
    by_cases hn : m = n
    · subst hn
      simp [part]
    · simp [hn]
  · rw [Uptime.of_set, Leaf.sum_filter_append_one, ← h.protocol]
    by_cases hn : m = n
    · subst hn
      by_cases hp : q = p
      · subst hp
        simp [part]
      · simp [part, hp]
    · simp [hn]

theorem Sums.foldlM {later : List Leaf} (h : u.Sums leaves)
    (hfits : (Leaf.sum (leaves ++ later)).Fits) :
    ∃ v, later.foldlM (fun u leaf => u.add? leaf) u = some v ∧ v.host = u.host ∧
      v.Sums (leaves ++ later) := by
  induction later generalizing u leaves with
  | nil => exact ⟨u, rfl, rfl, by rwa [List.append_nil]⟩
  | cons leaf later ih =>
    have hfront : (Leaf.sum (leaves ++ [leaf])).Fits := by
      simp only [Leaf.sum_append, Leaf.sum_cons, Leaf.sum_nil, Counts.Fits, Counts.add,
        Counts.zero] at hfits ⊢
      omega
    obtain ⟨v, hv, hvhost, hvsums⟩ := h.add? hfront
    rw [List.append_cons] at hfits ⊢
    obtain ⟨w, hw, hwhost, hwsums⟩ := ih hvsums hfits
    refine ⟨w, ?_, hwhost.trans hvhost, hwsums⟩
    rw [List.foldlM_cons, hv]
    exact hw

end Sums

/-- The counts of a host are the sums of its leaves, if the sum of all of them fits. -/
theorem ofLeaves?_eq_some (host : Int) {leaves : List Leaf} (hfits : (Leaf.sum leaves).Fits) :
    ∃ u, ofLeaves? host leaves = some u ∧ u.host = host ∧ u.Sums leaves :=
  (sums_nil host).foldlM hfits

end Uptime
end PeerHealth
