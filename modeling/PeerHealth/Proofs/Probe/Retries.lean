import PeerHealth.Proofs.Probe.Outcomes
import PeerHealth.Proofs.Text.Utf8

/-! The datagram probe tries again. Main statement: it sends its message until the right reply
comes, three times at most, and when none comes it fails for the reason of the last try. -/

namespace PeerHealth.Probe.Datagram

/-- Why a try failed, if what followed it was not the right reply. -/
def Reaction.fault (timeout : Duration) : Reaction → Fault
  | .unsent => .network "failed to send"
  | .silence => .timedOut timeout
  | .refusal => .network "failed to recv"
  | .reply bytes => .protocol
      ("wrong response: " ++ Text.quoted (Text.Utf8.decodeLossy (bytes.take maxReply)))

/-- How many messages a probe sends: one for each try, unless it cannot be sent. -/
def sent (timeout : Duration) (script : Script) : Nat :=
  ((List.range (run timeout script).2).map script).countP (· ≠ .unsent)

section Tries

variable {timeout : Duration} {r : Reaction}

theorem judge_of_ne_pong (h : r ≠ .reply pong) : judge timeout r = .error (r.fault timeout) := by
  have hwrong : judge timeout r ≠ .ok () := fun hok => h (judge_eq_ok_iff.mp hok)
  cases r with
  | unsent | silence | refusal => rfl
  | reply bytes =>
    unfold judge at hwrong ⊢
    dsimp only at hwrong ⊢
    split at hwrong
    · exact absurd rfl hwrong
    · rename_i hcut
      exact if_neg hcut

/-- The tries end with the first right reply. -/
theorem converse_of_first_pong {before : List Reaction} (h : .reply pong ∉ before)
    (last : Except Fault Unit) (after : List Reaction) :
    converse timeout last (before ++ .reply pong :: after) = (.ok (), before.length + 1) := by
  induction before generalizing last with
  | nil => rw [List.nil_append, converse, judge_eq_ok_iff.mpr rfl]; rfl
  | cons r before ih =>
    simp only [List.mem_cons, not_or] at h
    rw [List.cons_append, converse, judge_of_ne_pong (Ne.symm h.1)]
    simp only [ih h.2, List.length_cons]

/-- Without the right reply all tries are made, and the last of them is judged. -/
theorem converse_of_no_pong {rs : List Reaction} (h : .reply pong ∉ rs)
    (hr : r ≠ .reply pong) (last : Except Fault Unit) :
    converse timeout last (rs ++ [r]) = (.error (r.fault timeout), rs.length + 1) := by
  induction rs generalizing last with
  | nil => rw [List.nil_append, converse, judge_of_ne_pong hr]; rfl
  | cons r' rs ih =>
    simp only [List.mem_cons, not_or] at h
    rw [List.cons_append, converse, judge_of_ne_pong (Ne.symm h.1)]
    simp only [ih h.2, List.length_cons]

end Tries

section Scripts

variable {timeout : Duration} {script : Script} {i : Nat}

/-- What follows the tries before one of them does not hold the right reply. -/
theorem pong_not_mem (h : ∀ j < i, script j ≠ .reply pong) :
    .reply pong ∉ (List.range i).map script := by
  intro hmem
  obtain ⟨j, hj, heq⟩ := List.mem_map.mp hmem
  exact h j (List.mem_range.mp hj) heq

theorem run_of_first_pong (hi : i < attempts) (hpong : script i = .reply pong)
    (hbefore : ∀ j < i, script j ≠ .reply pong) : run timeout script = (.ok (), i + 1) := by
  obtain ⟨k, hk⟩ : ∃ k, attempts = i + (k + 1) := ⟨attempts - i - 1, by omega⟩
  rw [run, hk, List.range_add, List.range_succ_eq_map, List.map_append, List.map_cons,
    List.map_cons, Nat.add_zero, hpong, converse_of_first_pong (pong_not_mem hbefore),
    List.length_map, List.length_range]

theorem run_of_no_pong (h : ∀ i < attempts, script i ≠ .reply pong) :
    run timeout script = (.error ((script 2).fault timeout), attempts) := by
  have hbefore : ∀ j < 2, script j ≠ .reply pong := fun j hj => h j (Nat.lt_succ_of_lt hj)
  have hsplit : (List.range attempts).map script = (List.range 2).map script ++ [script 2] := rfl
  rw [run, hsplit, converse_of_no_pong (pong_not_mem hbefore) (h 2 (by decide))]
  rfl

/-- If every message can be sent, there is one for each try. -/
theorem sent_eq {tries : Nat} (hsent : ∀ i < attempts, script i ≠ .unsent)
    (hrun : (run timeout script).2 = tries) (htries : tries ≤ attempts) :
    sent timeout script = tries := by
  rw [sent, hrun, List.countP_eq_length.mpr, List.length_map, List.length_range]
  intro r hr
  obtain ⟨i, hi, rfl⟩ := List.mem_map.mp hr
  exact decide_eq_true (hsent i (Nat.lt_of_lt_of_le (List.mem_range.mp hi) htries))

/-- The message is sent until the right reply comes: then the probe is a success, whatever would
have come later. If none of three messages gets it, the probe fails for the reason of the third,
whatever came of the first two. A wrong reply is quoted, as far as it is received. -/
theorem run_until_pong (hsent : ∀ i < 3, script i ≠ .unsent) :
    ((run timeout script).1 = .ok () ↔ ∃ i < 3, script i = .reply pong) ∧
    (∀ i < 3, script i = .reply pong → (∀ j < i, script j ≠ .reply pong) →
      sent timeout script = i + 1 ∧
      ∀ other : Script, (∀ j ≤ i, other j = script j) →
        run timeout other = run timeout script) ∧
    ((∀ i < 3, script i ≠ .reply pong) → sent timeout script = 3 ∧
      (run timeout script).1 = .error ((script 2).fault timeout)) ∧
    ∀ s : String, (Text.Utf8.encode s).length ≤ maxReply →
      Reaction.fault timeout (.reply (Text.Utf8.encode s)) =
        .protocol ("wrong response: " ++ Text.quoted s) := by
  refine ⟨run_eq_ok_iff, fun i hi hpong hbefore => ?_, fun hnone => ?_, fun s hs => ?_⟩
  · have hrun : run timeout script = (.ok (), i + 1) := run_of_first_pong hi hpong hbefore
    refine ⟨sent_eq hsent (congrArg Prod.snd hrun) hi, fun other hother => ?_⟩
    have hbefore' : ∀ j < i, other j ≠ .reply pong := fun j hj => by
      rw [hother j (Nat.le_of_lt hj)]
      exact hbefore j hj
    rw [hrun, run_of_first_pong hi ((hother i (Nat.le_refl i)).trans hpong) hbefore']
  · have hrun : run timeout script = (.error ((script 2).fault timeout), attempts) :=
      run_of_no_pong hnone
    exact ⟨sent_eq hsent (congrArg Prod.snd hrun) (Nat.le_refl attempts), congrArg Prod.fst hrun⟩
  · rw [Reaction.fault, List.take_of_length_le hs, Text.Utf8.decodeLossy_encode]

end Scripts

/-- A peer that is silent once, then sends a wrong reply, and then right ones. -/
def slowPeer : Script
  | 0 => .silence
  | 1 => .reply (Text.Utf8.encode "nope\n")
  | _ => .reply pong

/-- A peer that refuses a message, keeps silent on one, and sends a wrong reply and then right ones,
when it is too late. -/
def latePeer : Script
  | 0 => .refusal
  | 1 => .silence
  | 2 => .reply (Text.Utf8.encode "nope\n")
  | _ => .reply pong

theorem run_until_pong_of_three :
    (∀ i < 3, slowPeer i ≠ .unsent) ∧ (∀ i < 3, latePeer i ≠ .unsent) ∧
    (run (.ofSeconds 3) slowPeer).1 = .ok () ∧ sent (.ofSeconds 3) slowPeer = 3 ∧
    (run (.ofSeconds 3) latePeer).1 =
      .error (.protocol ("wrong response: " ++ Text.quoted "nope\n")) ∧
    sent (.ofSeconds 3) latePeer = 3 := by
  have hslow : ∀ i < 3, slowPeer i ≠ .unsent := by decide
  have hlate : ∀ i < 3, latePeer i ≠ .unsent := by decide
  obtain ⟨hok, hpong, -, -⟩ := @run_until_pong (.ofSeconds 3) slowPeer hslow
  obtain ⟨-, -, hnone, hquoted⟩ := @run_until_pong (.ofSeconds 3) latePeer hlate
  obtain ⟨hsent, hfailed⟩ := hnone (by decide)
  rw [latePeer, hquoted "nope\n" (by decide)] at hfailed
  exact ⟨hslow, hlate, hok.mpr ⟨2, by decide, rfl⟩, (hpong 2 (by decide) rfl (by decide)).1,
    hfailed, hsent⟩

end PeerHealth.Probe.Datagram
