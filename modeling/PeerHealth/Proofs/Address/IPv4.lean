import Mathlib.Data.List.Induction
import PeerHealth.Address.IPv4
import PeerHealth.Proofs.Number.Padded
import PeerHealth.Proofs.Text.Trim

/-! IPv4 addresses in text. Main statement: an address is read at the front of a text exactly if the
text starts with its dotted form and no digit follows. -/

namespace PeerHealth.Address

open Number (digits isDigit value)

/-- Digits without a leading zero are those of the number that they stand for. -/
theorem digits_value {ds : List Char} (h : ∀ c ∈ ds, isDigit c = true) (hne : ds ≠ [])
    (hlead : ¬(ds.head? = some '0' ∧ 1 < ds.length)) : digits (value ds) = ds := by
  induction ds using List.reverseRecOn with
  | nil => exact absurd rfl hne
  | append_singleton es c ih =>
    obtain ⟨d, hd, hdigit, hchar⟩ := Number.digitChar_of_isDigit (h c (by simp))
    rw [Number.value_concat es hdigit]
    cases es with
    | nil =>
      rw [Number.digits_lt_ten (by simpa [value] using hd)]
      simp [value, hchar]
    | cons e es =>
      have he : e ≠ '0' := fun hzero => hlead (by simp [hzero])
      have hes := ih (fun x hx => h x (List.mem_append_left _ hx)) (List.cons_ne_nil e es)
        (by simp [he])
      have hpos : value (e :: es) ≠ 0 := by
        intro hzero
        rw [hzero, Number.digits_lt_ten (by decide)] at hes
        exact he (List.cons.inj hes).1.symm
      rw [Number.digits_ten_le (by omega), Nat.mul_add_div (by decide), Nat.div_eq_of_lt hd,
        Nat.add_zero, hes, Nat.mul_add_mod, Nat.mod_eq_of_lt hd, hchar]

theorem skip?_eq_some_iff {c : Char} {cs rest : List Char} :
    skip? c cs = some rest ↔ cs = c :: rest := by
  cases cs with
  | nil => simp [skip?]
  | cons d cs =>
    rw [skip?, List.cons.injEq]
    split
    · rename_i hd
      simp [hd]
    · rename_i hd
      simp [hd]

/-- No digit comes next. -/
def StopsDigits (rest : List Char) : Prop := ∀ c ∈ rest.head?, isDigit c = false

theorem stopsDigits_cons {c : Char} (h : isDigit c = false) (rest : List Char) :
    StopsDigits (c :: rest) := by
  intro d hd
  rwa [← Option.some.inj hd]

namespace IPv4

variable {a : UInt8} {ip : IPv4} {cs rest : List Char}

theorem octet?_digits (a : UInt8) (hrest : StopsDigits rest) :
    octet? (digits a.toNat ++ rest) = some (a, rest) := by
  have ha := a.toNat_lt
  have htake := Text.takeWhile_append_of_stop rest (Number.isDigit_of_mem_digits a.toNat) hrest
  have hlength : (digits a.toNat).length ≤ 3 :=
    Number.length_digits (Nat.lt_trans ha (by decide))
  have hlead : ¬((digits a.toNat).head? = some '0' ∧ 1 < (digits a.toNat).length) := by
    rintro ⟨hhead, hlong⟩
    by_cases hpos : 0 < a.toNat
    · exact Number.head?_digits hpos hhead
    · rw [Nat.eq_zero_of_not_pos hpos, Number.digits_lt_ten (by decide)] at hlong
      exact absurd hlong (by simp)
  unfold octet?
  rw [htake]
  dsimp only
  rw [if_neg, Number.value_digits, List.drop_left, UInt8.ofNat_toNat]
  rintro (hnil | hlong | hled | hlarge)
  · exact Number.digits_ne_nil _ hnil
  · omega
  · exact hlead hled
  · rw [Number.value_digits] at hlarge
    omega

theorem octet?_eq_some_iff :
    octet? cs = some (a, rest) ↔ cs = digits a.toNat ++ rest ∧ StopsDigits rest := by
  constructor
  · intro h
    unfold octet? at h
    dsimp only at h
    split at h
    · cases h
    · rename_i hds
      simp only [not_or, Nat.not_lt] at hds
      obtain ⟨hne, -, hlead, hle⟩ := hds
      cases h
      have hdigits : digits (value (cs.takeWhile isDigit)) = cs.takeWhile isDigit :=
        digits_value (List.all_eq_true.mp List.all_takeWhile) hne (by simpa using hlead)
      have hsplit : cs.takeWhile isDigit ++ cs.drop (cs.takeWhile isDigit).length = cs :=
        List.prefix_iff_eq_append.mp (List.takeWhile_prefix _)
      have hdrop : cs.drop (cs.takeWhile isDigit).length = cs.dropWhile isDigit :=
        List.append_cancel_left (hsplit.trans List.takeWhile_append_dropWhile.symm)
      rw [UInt8.toNat_ofNat_of_lt' (Nat.lt_succ_of_le hle), hdigits]
      refine ⟨hsplit.symm, fun c hc => ?_⟩
      have hstop := List.head?_dropWhile_not isDigit cs
      rw [← hdrop, hc] at hstop
      exact hstop
  · rintro ⟨rfl, hrest⟩
    exact octet?_digits a hrest

theorem nextOctet?_eq_some_iff :
    nextOctet? cs = some (a, rest) ↔ cs = '.' :: (digits a.toNat ++ rest) ∧ StopsDigits rest := by
  rw [nextOctet?, Option.bind_eq_some_iff]
  constructor
  · rintro ⟨body, hskip, hoctet⟩
    obtain ⟨rfl, hrest⟩ := octet?_eq_some_iff.mp hoctet
    exact ⟨skip?_eq_some_iff.mp hskip, hrest⟩
  · rintro ⟨rfl, hrest⟩
    exact ⟨_, skip?_eq_some_iff.mpr rfl, octet?_digits a hrest⟩

theorem read?_eq_some_iff :
    read? cs = some (ip, rest) ↔ cs = ip.render ++ rest ∧ StopsDigits rest := by
  constructor
  · intro h
    obtain ⟨⟨a, afterFirst⟩, ha, h⟩ := Option.bind_eq_some_iff.mp h
    obtain ⟨⟨b, afterSecond⟩, hb, h⟩ := Option.bind_eq_some_iff.mp h
    obtain ⟨⟨c, afterThird⟩, hc, h⟩ := Option.bind_eq_some_iff.mp h
    obtain ⟨⟨d, afterFourth⟩, hd, h⟩ := Option.bind_eq_some_iff.mp h
    cases h
    obtain ⟨rfl, -⟩ := octet?_eq_some_iff.mp ha
    obtain ⟨rfl, -⟩ := nextOctet?_eq_some_iff.mp hb
    obtain ⟨rfl, -⟩ := nextOctet?_eq_some_iff.mp hc
    obtain ⟨rfl, hrest⟩ := nextOctet?_eq_some_iff.mp hd
    exact ⟨by simp [render], hrest⟩
  · rintro ⟨rfl, hrest⟩
    have hpoint (rest : List Char) : StopsDigits ('.' :: rest) := stopsDigits_cons (by decide) rest
    simp only [render, read?, List.append_assoc, List.cons_append, Option.bind_eq_bind,
      octet?_digits ip.a (hpoint _), nextOctet?_eq_some_iff.mpr ⟨rfl, hpoint _⟩,
      nextOctet?_eq_some_iff.mpr ⟨rfl, hrest⟩, Option.bind_some]

/-- A dotted form starts with digits and a point. -/
theorem exists_of_read? (h : read? cs = some (ip, rest)) :
    ∃ a more, cs = digits a ++ '.' :: more := by
  obtain ⟨rfl, -⟩ := read?_eq_some_iff.mp h
  refine ⟨ip.a.toNat, digits ip.b.toNat ++ '.' :: digits ip.c.toNat ++ '.' :: digits ip.d.toNat ++
    rest, ?_⟩
  simp [render]

end IPv4
end PeerHealth.Address
