import Mathlib.Algebra.BigOperators.Group.List.Basic
import Mathlib.Algebra.GroupWithZero.Nat
import PeerHealth.Probe.Echo
import PeerHealth.Proofs.Number.Halves

/-! The checksum of an echo message. Main statement: up to 131074 bytes it is the complement of the
one's complement sum of the words, with no sum on the way past 32 bits, and data that carries its
own checksum has the checksum zero. -/

namespace PeerHealth.Probe.Echo

/-- The words of the data, high byte first; an odd last byte is filled up with zero. -/
def words : List UInt8 → List UInt16
  | [] => []
  | [high] => [word high 0]
  | high :: low :: rest => word high low :: words rest

/-- One's complement addition: the carry out of the sixteen bits is added in again. -/
def addEndAround (a b : UInt16) : UInt16 :=
  if a.toNat + b.toNat < 65536 then a + b else a + b + 1

/-- The one's complement sum. -/
def endAroundSum (ws : List UInt16) : UInt16 := ws.foldl addEndAround 0

/-- What one round of adding the carries in leaves. -/
def addCarries (n : Nat) : Nat := n % 65536 + n / 65536

/-- A loop on a number of 32 bits that adds the carries in ends after so many rounds, with this
result. -/
inductive Folds : Nat → Nat → Nat → Prop
  | done {n : Nat} (h : n < 65536) : Folds n 0 n
  | round {n rounds m : Nat} (h : 65536 ≤ n) (fits : addCarries n < Number.limit32)
      (rest : Folds (addCarries n) rounds m) : Folds n (rounds + 1) m

section Carries

variable {m n : Nat}

theorem foldCarries_of_lt (h : n < 65536) : foldCarries n = n := by
  rw [foldCarries, if_pos h]

theorem foldCarries_of_le (h : 65536 ≤ n) : foldCarries n = foldCarries (addCarries n) := by
  rw [foldCarries, if_neg (Nat.not_lt.mpr h), addCarries]

/-- Of the two sixteen bit numbers that stand for zero, only zero itself folds to the lower one. -/
theorem foldCarries_eq (n : Nat) : foldCarries n = if n = 0 then 0 else (n - 1) % 65535 + 1 := by
  induction n using Nat.strongRecOn with
  | _ n ih =>
    by_cases h : n < 65536
    · rw [foldCarries_of_lt h]
      split <;> omega
    · have hle : 65536 ≤ n := Nat.not_lt.mp h
      have hpos : addCarries n ≠ 0 := by unfold addCarries; omega
      rw [foldCarries_of_le hle, ih (addCarries n) (by unfold addCarries; omega), if_neg hpos,
        if_neg (by omega), addCarries]
      omega

theorem foldCarries_lt (n : Nat) : foldCarries n < 65536 := by
  rw [foldCarries_eq]
  split <;> omega

theorem foldCarries_add (m n : Nat) : foldCarries (foldCarries m + n) = foldCarries (m + n) := by
  rw [foldCarries_eq (_ + n), foldCarries_eq (m + n), foldCarries_eq m]
  by_cases hm : m = 0
  · rw [if_pos hm, hm]
  · rw [if_neg hm, if_neg (by omega), if_neg (by omega)]
    omega

/-- A sum and the complement of what it folds to make the upper of the two numbers for zero. -/
theorem foldCarries_add_not (n : Nat) :
    foldCarries (n + (~~~ (UInt16.ofNat (foldCarries n))).toNat) = 65535 := by
  rw [UInt16.toNat_not, UInt16.toNat_ofNat', Nat.mod_eq_of_lt (foldCarries_lt n),
    foldCarries_eq (n + _), foldCarries_eq n]
  simp only [UInt16.size]
  split <;> split <;> omega

/-- A sum of 32 bits has no carries left after two rounds. -/
theorem exists_folds (h : n < Number.limit32) : ∃ rounds ≤ 2, Folds n rounds (foldCarries n) := by
  unfold Number.limit32 at h
  have hfits : ∀ m < 4294967296, addCarries m < Number.limit32 := by
    intro m hm
    unfold addCarries Number.limit32
    omega
  by_cases h₀ : n < 65536
  · exact ⟨0, by decide, by rw [foldCarries_of_lt h₀]; exact .done h₀⟩
  · have hle₀ : 65536 ≤ n := Nat.not_lt.mp h₀
    rw [foldCarries_of_le hle₀]
    by_cases h₁ : addCarries n < 65536
    · exact ⟨1, by decide, .round hle₀ (hfits n h) (by rw [foldCarries_of_lt h₁]; exact .done h₁)⟩
    · have hle₁ : 65536 ≤ addCarries n := Nat.not_lt.mp h₁
      have h₂ : addCarries (addCarries n) < 65536 := by unfold addCarries at hle₁ ⊢; omega
      rw [foldCarries_of_le hle₁, foldCarries_of_lt h₂]
      exact ⟨2, by decide, .round hle₀ (hfits n h)
        (.round hle₁ (hfits _ (by unfold addCarries; omega)) (.done h₂))⟩

end Carries

section Words

variable {data other before after : List UInt8} {c : UInt16}

theorem toNat_word (high low : UInt8) : (word high low).toNat = high.toNat * 256 + low.toNat :=
  Number.toNat_halves high low

theorem toNat_addEndAround (a b : UInt16) :
    (addEndAround a b).toNat = foldCarries (a.toNat + b.toNat) := by
  have ha := a.toNat_lt
  have hb := b.toNat_lt
  unfold addEndAround
  split
  · rename_i h
    rw [foldCarries_of_lt h, UInt16.toNat_add, Nat.mod_eq_of_lt h]
  · rw [foldCarries_eq, if_neg (by omega)]
    simp only [UInt16.toNat_add, UInt16.reduceToNat]
    omega

theorem toNat_foldl_addEndAround (ws : List UInt16) (a : UInt16) :
    (ws.foldl addEndAround a).toNat = foldCarries (a.toNat + (ws.map UInt16.toNat).sum) := by
  induction ws generalizing a with
  | nil => exact (foldCarries_of_lt a.toNat_lt).symm
  | cons w ws ih =>
    rw [List.foldl_cons, ih, toNat_addEndAround, foldCarries_add, List.map_cons, List.sum_cons,
      Nat.add_assoc]

theorem toNat_endAroundSum (ws : List UInt16) :
    (endAroundSum ws).toNat = foldCarries (ws.map UInt16.toNat).sum := by
  rw [endAroundSum, toNat_foldl_addEndAround, UInt16.toNat_zero, Nat.zero_add]

theorem wordSum_eq (data : List UInt8) : wordSum data = ((words data).map UInt16.toNat).sum := by
  induction data using wordSum.induct with
  | case1 => rfl
  | case2 high => simp [wordSum, words, toNat_word]
  | case3 high low rest ih => simp [wordSum, words, toNat_word, ih]

theorem wordSum_le (data : List UInt8) : wordSum data ≤ 65535 * ((data.length + 1) / 2) := by
  induction data using wordSum.induct with
  | case1 => exact Nat.zero_le _
  | case2 high =>
    have hhigh := high.toNat_lt
    simp only [wordSum, List.length_cons, List.length_nil]
    omega
  | case3 high low rest ih =>
    have hhigh := high.toNat_lt
    have hlow := low.toNat_lt
    simp only [wordSum, List.length_cons]
    omega

theorem wordSum_lt (h : data.length ≤ 131074) : wordSum data < Number.limit32 := by
  have := wordSum_le data
  unfold Number.limit32
  omega

theorem checksum?_eq (h : data.length ≤ 131074) :
    checksum? data = some (~~~ (UInt16.ofNat (foldCarries (wordSum data)))) :=
  if_pos (wordSum_lt h)

theorem checksum?_of_perm (h : (words other).Perm (words data)) :
    checksum? other = checksum? data := by
  have hsum : wordSum other = wordSum data := by
    rw [wordSum_eq, wordSum_eq, (h.map UInt16.toNat).sum_eq]
  rw [checksum?, checksum?, hsum]

theorem wordSum_append (h : before.length % 2 = 0) (after : List UInt8) :
    wordSum (before ++ after) = wordSum before + wordSum after := by
  induction before using wordSum.induct with
  | case1 => simp [wordSum]
  | case2 high => simp at h
  | case3 high low rest ih =>
    have hrest : rest.length % 2 = 0 := by
      simp only [List.length_cons] at h
      omega
    simp only [List.cons_append, wordSum, ih hrest, Nat.add_assoc]

theorem wordSum_wordBytes (w : UInt16) (after : List UInt8) :
    wordSum (wordBytes w ++ after) = w.toNat + wordSum after := by
  have hw : w.toNat = (w / 256).toUInt8.toNat * 256 + w.toUInt8.toNat := by
    rw [← toNat_word, word, Number.halves_eq]
  rw [hw]
  rfl

/-- Data whose checksum is written into a field of it that was zero. -/
theorem checksum?_sealed (heven : before.length % 2 = 0)
    (hlength : (before ++ wordBytes 0 ++ after).length ≤ 131074)
    (h : checksum? (before ++ wordBytes 0 ++ after) = some c) :
    checksum? (before ++ wordBytes c ++ after) = some 0 := by
  have hsum (w : UInt16) :
      wordSum (before ++ wordBytes w ++ after) = wordSum before + wordSum after + w.toNat := by
    rw [List.append_assoc, wordSum_append heven, wordSum_wordBytes]
    omega
  have hzero := hsum 0
  rw [UInt16.toNat_zero, Nat.add_zero] at hzero
  rw [checksum?_eq hlength, hzero] at h
  obtain rfl := Option.some.inj h
  rw [checksum?_eq (by simpa [wordBytes] using hlength), hsum, foldCarries_add_not]
  decide

end Words

section Requests

theorem length_lowBytes (count n : Nat) : (lowBytes count n).length = count := by
  induction count generalizing n with
  | zero => rfl
  | succ count ih => rw [lowBytes, List.length_append, ih]; rfl

theorem length_packet (kind : UInt8) (checksum identifier sequence : UInt16) (stamp : UInt64) :
    (packet kind checksum identifier sequence stamp).length = 64 := by
  simp [packet, wordBytes, stampBytes, length_lowBytes]

theorem exists_packet_eq (kind : UInt8) (identifier sequence : UInt16) (stamp : UInt64) :
    ∃ after, ∀ checksum, packet kind checksum identifier sequence stamp =
      [kind, 0] ++ wordBytes checksum ++ after := by
  refine ⟨wordBytes identifier ++ wordBytes sequence ++ stampBytes stamp ++ List.replicate 48 0,
    fun checksum => ?_⟩
  simp only [packet, List.append_assoc]

theorem checksum?_request (kind : UInt8) (identifier sequence : UInt16) (stamp : UInt64) :
    checksum? (request kind identifier sequence stamp true) = some 0 := by
  have hlength : (packet kind 0 identifier sequence stamp).length ≤ 131074 := by
    rw [length_packet]
    decide
  obtain ⟨c, hblank⟩ : ∃ c, checksum? (packet kind 0 identifier sequence stamp) = some c :=
    ⟨_, checksum?_eq hlength⟩
  rw [request, if_pos rfl, hblank, Option.getD_some]
  obtain ⟨after, hpacket⟩ := exists_packet_eq kind identifier sequence stamp
  rw [hpacket] at hlength hblank ⊢
  exact checksum?_sealed (by simp) hlength hblank

end Requests

/-- The sum of the words of up to 131074 bytes fits 32 bits, also in part, and its carries are
added in within two rounds. The checksum is the complement of the one's complement sum of the words,
in whatever order they stand. Written into two zero bytes at an even place it makes the checksum of
the whole zero, as in every request that carries one. -/
theorem checksum_complements_sum {data : List UInt8} (h : data.length ≤ 131074) :
    (∀ part, part <+: data → wordSum part < Number.limit32) ∧
    (∃ rounds ≤ 2, Folds (wordSum data) rounds (foldCarries (wordSum data))) ∧
    checksum? data = some (~~~ (endAroundSum (words data))) ∧
    (∀ other, (words other).Perm (words data) → checksum? other = checksum? data) ∧
    (∀ before after c, data = before ++ [0, 0] ++ after → before.length % 2 = 0 →
      checksum? data = some c → checksum? (before ++ wordBytes c ++ after) = some 0) ∧
    ∀ kind identifier sequence stamp,
      checksum? (request kind identifier sequence stamp true) = some 0 := by
  refine ⟨fun part hpart => wordSum_lt (Nat.le_trans hpart.length_le h),
    exists_folds (wordSum_lt h), ?_, fun other => checksum?_of_perm, ?_, checksum?_request⟩
  · rw [checksum?_eq h, wordSum_eq, ← toNat_endAroundSum, UInt16.ofNat_toNat]
  · rintro before after c rfl heven hc
    exact checksum?_sealed heven h hc

theorem wordSum_replicate (n : Nat) : wordSum (List.replicate (2 * n) 255) = 65535 * n := by
  induction n with
  | zero => rfl
  | succ n ih =>
    rw [Nat.mul_succ, List.replicate_succ, List.replicate_succ, wordSum, ih]
    simp only [UInt8.reduceToNat]
    omega

/-- The longest data with the largest sum, and data of an odd length with a field for its
checksum. -/
theorem checksum_complements_sum_of_longest :
    (List.replicate 131074 (255 : UInt8)).length ≤ 131074 ∧
    wordSum (List.replicate 131074 255) + 1 = Number.limit32 ∧
    checksum? (List.replicate 131074 255) = some 0 ∧
    checksum? [8, 0, 0, 0, 18, 52, 0, 7, 255] = some 0xE6C3 ∧
    checksum? [8, 0, 0xE6, 0xC3, 18, 52, 0, 7, 255] = some 0 := by
  have hlongest : (List.replicate 131074 (255 : UInt8)).length ≤ 131074 :=
    Nat.le_of_eq List.length_replicate
  have hsum : wordSum (List.replicate 131074 255) = 4294967295 := wordSum_replicate 65537
  have hones : endAroundSum (words (List.replicate 131074 255)) = 65535 := by
    rw [← UInt16.toNat_inj, toNat_endAroundSum, ← wordSum_eq, hsum, foldCarries_eq]
    decide
  have hblank : checksum? [8, 0, 0, 0, 18, 52, 0, 7, 255] = some 0xE6C3 := by decide +kernel
  obtain ⟨-, -, hlargest, -⟩ := checksum_complements_sum hlongest
  obtain ⟨-, -, -, -, hsealed, -⟩ :=
    @checksum_complements_sum [8, 0, 0, 0, 18, 52, 0, 7, 255] (by decide)
  rw [hones] at hlargest
  exact ⟨hlongest, congrArg (· + 1) hsum, hlargest, hblank,
    hsealed [8, 0] [18, 52, 0, 7, 255] 0xE6C3 rfl rfl hblank⟩

end PeerHealth.Probe.Echo
