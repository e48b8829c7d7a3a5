import PeerHealth.Number.Decimal

/-! Numbers written in a fixed number of places. Such texts consist of digits, have the length asked
for, and are ordered as the numbers are. -/

namespace PeerHealth.Number

theorem toNat_digitChar {n : Nat} (h : n < 10) : (digitChar n).toNat = 48 + n := by
  have : ∀ m : Fin 10, (digitChar m.1).toNat = 48 + m.1 := by decide
  exact this ⟨n, h⟩

theorem isDigit_digitChar {n : Nat} (h : n < 10) : isDigit (digitChar n) = true := by
  simp [isDigit, digit?_digitChar h]

theorem digitChar_lt {m n : Nat} (h : m < n) (hn : n < 10) : digitChar m < digitChar n := by
  have hm := toNat_digitChar (show m < 10 by omega)
  have hn := toNat_digitChar hn
  show (digitChar m).toNat < (digitChar n).toNat
  omega

theorem digits_lt_ten {n : Nat} (h : n < 10) : digits n = [digitChar n] := by
  rw [digits, if_pos h]

theorem digits_ten_le {n : Nat} (h : 10 ≤ n) :
    digits n = digits (n / 10) ++ [digitChar (n % 10)] := by
  rw [digits, if_neg (by omega)]

theorem digits_ne_nil (n : Nat) : digits n ≠ [] := by
  rw [digits]
  split <;> simp

/-- The last place of a text of two or more places. -/
theorem padded_succ (w n : Nat) :
    padded (w + 2) n = padded (w + 1) (n / 10) ++ [digitChar (n % 10)] := by
  by_cases h : n < 10
  · have hz : n / 10 = 0 := by omega
    rw [padded, padded, digits_lt_ten h, hz, digits_lt_ten (by decide : 0 < 10),
      Nat.mod_eq_of_lt h]
    simp only [List.length_cons, List.length_nil, Nat.zero_add, Nat.add_sub_cancel,
      show w + 2 - 1 = w + 1 by omega]
    rw [List.replicate_succ']
    rfl
  · rw [padded, padded, digits_ten_le (by omega)]
    simp only [List.length_append, List.length_cons, List.length_nil, List.append_assoc]
    congr 2
    omega

theorem padded_one {n : Nat} (h : n < 10) : padded 1 n = [digitChar n] := by
  simp [padded, digits_lt_ten h]

theorem length_padded {w n : Nat} (h : n < tenTo (w + 1)) : (padded (w + 1) n).length = w + 1 := by
  induction w generalizing n with
  | zero => rw [padded_one (by simpa using h)]; rfl
  | succ w ih =>
    rw [tenTo_succ] at h
    rw [padded_succ, List.length_append, ih (by omega)]
    rfl

theorem length_digits {w n : Nat} (h : n < tenTo (w + 1)) : (digits n).length ≤ w + 1 := by
  have hlength := length_padded h
  rw [padded, List.length_append, List.length_replicate] at hlength
  omega

/-- No zero leads. -/
theorem head?_digits {n : Nat} (h : 0 < n) : (digits n).head? ≠ some '0' := by
  induction n using Nat.strongRecOn with
  | _ n ih =>
    by_cases hten : n < 10
    · have hne : digitChar n ≠ '0' := by
        intro hzero
        have htoNat := toNat_digitChar hten
        rw [hzero] at htoNat
        have : '0'.toNat = 48 := rfl
        omega
      rw [digits_lt_ten hten]
      simpa using hne
    · have hten : 10 ≤ n := Nat.not_lt.mp hten
      obtain ⟨d, ds, hds⟩ := List.exists_cons_of_ne_nil (digits_ne_nil (n / 10))
      have hhead := ih (n / 10) (by omega) (by omega)
      rw [digits_ten_le hten, hds]
      rwa [hds] at hhead

theorem isDigit_of_mem_digits (n : Nat) : ∀ c ∈ digits n, isDigit c = true := by
  induction n using Nat.strongRecOn with
  | _ n ih =>
    intro c hc
    by_cases h : n < 10
    · rw [digits_lt_ten h, List.mem_singleton] at hc
      rw [hc]
      exact isDigit_digitChar h
    · rw [digits_ten_le (by omega), List.mem_append, List.mem_singleton] at hc
      rcases hc with hc | rfl
      · exact ih (n / 10) (by omega) c hc
      · exact isDigit_digitChar (by omega)

theorem isDigit_of_mem_padded {w n : Nat} : ∀ c ∈ padded w n, isDigit c = true := by
  intro c hc
  rw [padded, List.mem_append] at hc
  rcases hc with hc | hc
  · rw [(List.mem_replicate.mp hc).2]
    decide
  · exact isDigit_of_mem_digits n c hc

theorem digitChar_of_isDigit {c : Char} (h : isDigit c = true) :
    ∃ d < 10, digit? c = some d ∧ digitChar d = c := by
  unfold isDigit digit? at h
  split at h
  · rename_i hc
    refine ⟨c.toNat - 48, by omega, if_pos hc, ?_⟩
    rw [digitChar, show 48 + (c.toNat - 48) = c.toNat by omega, Char.ofNat_toNat]
  · simp at h

theorem value_concat (cs : List Char) {c : Char} {d : Nat} (h : digit? c = some d) :
    value (cs ++ [c]) = 10 * value cs + d := by
  simp only [value, List.foldl_append, List.foldl_cons, List.foldl_nil]
  rw [addDigit, h, Option.getD_some]

/-- Text of some length stands for no number of more places. -/
theorem value_lt_tenTo (cs : List Char) : value cs < tenTo cs.length := by
  induction cs with
  | nil => decide
  | cons c cs ih =>
    have hdigit : (digit? c).getD 0 ≤ 9 := by
      unfold digit?
      split
      · simp only [Option.getD_some]
        omega
      · exact Nat.zero_le 9
    have hcons : value (c :: cs) = (digit? c).getD 0 * tenTo cs.length + value cs := by
      refine (foldl_addDigit cs (addDigit 0 c)).trans ?_
      rw [addDigit, Nat.mul_zero, Nat.zero_add]
    have hmul := Nat.mul_le_mul_right (tenTo cs.length) hdigit
    rw [hcons, List.length_cons, tenTo_succ]
    omega

theorem tenTo_le_tenTo {m n : Nat} (h : m ≤ n) : tenTo m ≤ tenTo n := by
  induction h with
  | refl => exact Nat.le_refl _
  | step _ ih =>
    rw [tenTo_succ]
    omega

theorem append_lt_append {as bs : List Char} (cs ds : List Char) (hl : as.length = bs.length)
    (h : as < bs) : as ++ cs < bs ++ ds := by
  induction as generalizing bs with
  | nil =>
    cases bs with
    | nil => exact absurd h (List.lt_irrefl _)
    | cons b bs => simp at hl
  | cons a as ih =>
    cases bs with
    | nil => simp at hl
    | cons b bs =>
      rw [List.cons_lt_cons_iff] at h
      simp only [List.cons_append, List.cons_lt_cons_iff]
      rcases h with h | ⟨rfl, h⟩
      · exact .inl h
      · exact .inr ⟨rfl, ih (by simpa using hl) h⟩

theorem padded_lt {w m n : Nat} (h : m < n) (hn : n < tenTo (w + 1)) :
    padded (w + 1) m < padded (w + 1) n := by
  induction w generalizing m n with
  | zero =>
    have hn : n < 10 := by simpa using hn
    rw [padded_one (show m < 10 by omega), padded_one hn]
    exact List.cons_lt_cons_iff.mpr (.inl (digitChar_lt h hn))
  | succ w ih =>
    rw [tenTo_succ] at hn
    rw [padded_succ, padded_succ]
    by_cases hq : m / 10 = n / 10
    · rw [hq]
      exact List.append_left_lt
        (List.cons_lt_cons_iff.mpr (.inl (digitChar_lt (by omega) (by omega))))
    · refine append_lt_append _ _ ?_ (ih (by omega) (by omega))
      rw [length_padded (by omega), length_padded (by omega)]

end PeerHealth.Number
