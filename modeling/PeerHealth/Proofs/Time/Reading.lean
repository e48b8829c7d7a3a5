import PeerHealth.Proofs.Time.StoredText

/-! Stored times that are read. Main statement: every instant reads back from its stored form, and
whatever text a time is read from, in the stored form or by RFC 3339, the instant is one that can be
stored again. -/

namespace PeerHealth.Time

open Number (value tenTo)

theorem lt_tenTo_of_digitsWithin {least most n : Nat} {cs rest : List Char}
    (h : digitsWithin least most cs = some (n, rest)) : n < tenTo most := by
  simp only [digitsWithin, Option.ite_none_left_eq_some, Option.some.injEq, Prod.mk.injEq] at h
  obtain ⟨-, rfl, -⟩ := h
  refine Nat.lt_of_lt_of_le (Number.value_lt_tenTo _) (Number.tenTo_le_tenTo ?_)
  exact Nat.le_trans (List.takeWhile_prefix _).length_le (List.length_take_le _ _)

/-- A clock is less than a day ahead of universal time or behind it, by whole minutes. -/
def IsOffset (seconds : Int) : Prop := -86400 < seconds ∧ seconds < 86400 ∧ seconds % 60 = 0

theorem isOffset_of_zone {cs rest : List Char} {offset : Int} (h : zone cs = some (offset, rest)) :
    IsOffset offset := by
  unfold zone at h
  split at h
  case h_6 => cases h
  · cases h
    exact ⟨by decide, by decide, by decide⟩
  · cases h
    exact ⟨by decide, by decide, by decide⟩
  -- Hours and minutes are read alike after either sign.
  all_goals
    obtain ⟨⟨hours, cs⟩, -, h⟩ := Option.bind_eq_some_iff.mp h
    obtain ⟨cs, -, h⟩ := Option.bind_eq_some_iff.mp h
    obtain ⟨⟨minutes, cs⟩, -, h⟩ := Option.bind_eq_some_iff.mp h
    obtain ⟨hsmall, h⟩ := Option.ite_none_left_eq_some.mp h
    have hoffset := congrArg Prod.fst (Option.some.inj h)
    simp only [Bool.false_eq_true, if_true, if_false] at hoffset
    unfold IsOffset
    omega

/-- What a clock shows is an instant, unless it is that of a day at the end of the years allowed and
not set to universal time. -/
theorem valid_of_ofClock? {date : Date} {hour minute second subsecond : Nat} {offset : Int}
    {t : Instant} (h : Instant.ofClock? date hour minute second subsecond offset = some t)
    (hoffset : offset = 0 ∨ IsOffset offset ∧ 0 ≤ date.year ∧ date.year ≤ 9999) : t.Valid := by
  simp only [Instant.ofClock?, Option.ite_none_right_eq_some, Option.some.injEq] at h
  obtain ⟨⟨⟨hfirst, hlast, hm1, hm12, hd1, hdays⟩, hh, hm, hs, hns⟩, rfl⟩ := h
  have hbetween : ∀ first last, first ≤ date.year ∧ date.year ≤ last →
      Date.dayNumber ⟨first, 1, 1⟩ ≤ date.dayNumber ∧
        date.dayNumber ≤ Date.dayNumber ⟨last, 12, 31⟩ :=
    fun first last => Date.dayNumber_between ⟨hm1, hm12⟩ ⟨hd1, hdays⟩
  have hday : (offset = 0 ∧ -96465292 ≤ date.dayNumber ∧ date.dayNumber ≤ 95026236) ∨
      (IsOffset offset ∧ -719528 ≤ date.dayNumber ∧ date.dayNumber ≤ 2932896) := by
    rcases hoffset with rfl | ⟨hoffset, hyear⟩
    · have hdays := hbetween firstYear lastYear ⟨hfirst, hlast⟩
      rw [show Date.dayNumber ⟨firstYear, 1, 1⟩ = -96465292 by decide,
        show Date.dayNumber ⟨lastYear, 12, 31⟩ = 95026236 by decide] at hdays
      exact .inl ⟨rfl, hdays⟩
    · have hdays := hbetween 0 9999 hyear
      rw [show Date.dayNumber ⟨0, 1, 1⟩ = -719528 by decide,
        show Date.dayNumber ⟨9999, 12, 31⟩ = 2932896 by decide] at hdays
      exact .inr ⟨hoffset, hdays⟩
  unfold Instant.Valid Instant.firstSecond Instant.lastSecond
  unfold nanosPerSecond at *
  unfold IsOffset at hday
  simp only
  refine ⟨by omega, by omega, ?_⟩
  split
  · exact .inr (by omega)
  · exact .inl hns

theorem valid_of_parseStored? {cs : List Char} {t : Instant} (h : parseStored? cs = some t) :
    t.Valid := by
  unfold parseStored? at h
  obtain ⟨⟨year, cs⟩, -, h⟩ := Option.bind_eq_some_iff.mp h
  obtain ⟨cs, -, h⟩ := Option.bind_eq_some_iff.mp h
  obtain ⟨⟨month, cs⟩, -, h⟩ := Option.bind_eq_some_iff.mp h
  obtain ⟨cs, -, h⟩ := Option.bind_eq_some_iff.mp h
  obtain ⟨⟨day, cs⟩, -, h⟩ := Option.bind_eq_some_iff.mp h
  obtain ⟨⟨hour, cs⟩, -, h⟩ := Option.bind_eq_some_iff.mp h
  obtain ⟨cs, -, h⟩ := Option.bind_eq_some_iff.mp h
  obtain ⟨⟨minute, cs⟩, -, h⟩ := Option.bind_eq_some_iff.mp h
  obtain ⟨cs, -, h⟩ := Option.bind_eq_some_iff.mp h
  obtain ⟨⟨second, cs⟩, -, h⟩ := Option.bind_eq_some_iff.mp h
  obtain ⟨⟨nanos, cs⟩, -, h⟩ := Option.bind_eq_some_iff.mp h
  exact valid_of_ofClock? (Option.ite_none_right_eq_some.mp h).2 (.inl rfl)

theorem valid_of_parseRfc3339? {cs : List Char} {t : Instant} (h : parseRfc3339? cs = some t) :
    t.Valid := by
  unfold parseRfc3339? at h
  obtain ⟨⟨year, cs⟩, hyear, h⟩ := Option.bind_eq_some_iff.mp h
  obtain ⟨cs, -, h⟩ := Option.bind_eq_some_iff.mp h
  obtain ⟨⟨month, cs⟩, -, h⟩ := Option.bind_eq_some_iff.mp h
  obtain ⟨cs, -, h⟩ := Option.bind_eq_some_iff.mp h
  obtain ⟨⟨day, cs⟩, -, h⟩ := Option.bind_eq_some_iff.mp h
  -- The three letters that may stand before the time of day are read alike.
  have hclock : ∃ hour minute second nanos offset, IsOffset offset ∧
      Instant.ofClock? ⟨year, month, day⟩ hour minute second nanos offset = some t := by
    simp only at h
    split at h
    case h_4 => cases h
    all_goals
      obtain ⟨cs, -, h⟩ := Option.bind_eq_some_iff.mp h
      obtain ⟨⟨hour, cs⟩, -, h⟩ := Option.bind_eq_some_iff.mp h
      obtain ⟨cs, -, h⟩ := Option.bind_eq_some_iff.mp h
      obtain ⟨⟨minute, cs⟩, -, h⟩ := Option.bind_eq_some_iff.mp h
      obtain ⟨cs, -, h⟩ := Option.bind_eq_some_iff.mp h
      obtain ⟨⟨second, cs⟩, -, h⟩ := Option.bind_eq_some_iff.mp h
      obtain ⟨⟨nanos, cs⟩, -, h⟩ := Option.bind_eq_some_iff.mp h
      obtain ⟨⟨offset, cs⟩, hzone, h⟩ := Option.bind_eq_some_iff.mp h
      exact ⟨hour, minute, second, nanos, offset, isOffset_of_zone hzone,
        (Option.ite_none_right_eq_some.mp h).2⟩
  obtain ⟨hour, minute, second, nanos, offset, hoffset, hclock⟩ := hclock
  have hfour : year < 10000 := lt_tenTo_of_digitsWithin hyear
  exact valid_of_ofClock? hclock (.inr ⟨hoffset, by simp only; omega, by simp only; omega⟩)

theorem valid_of_parseTime? {s : String} {t : Instant} (h : parseTime? s = some t) : t.Valid := by
  rw [parseTime?, Option.orElse_eq_or, Option.or_eq_some_iff] at h
  rcases h with h | ⟨-, h⟩
  · exact valid_of_parseStored? h
  · exact valid_of_parseRfc3339? h

/-- Times are stored without loss: every instant reads back from its stored form, and a time read
from any text is an instant that reads back from its own stored form. -/
theorem stored_times_read_back :
    (∀ t : Instant, t.Valid → parseTime? (storedText t) = some t) ∧
      ∀ (s : String) (t : Instant), parseTime? s = some t →
        t.Valid ∧ parseTime? (storedText t) = some t := by
  refine ⟨fun t ht => parseTime?_storedText ht, fun s t h => ?_⟩
  have ht := valid_of_parseTime? h
  exact ⟨ht, parseTime?_storedText ht⟩

/-- The first instant of all, a leap second at the end of all, and a time read from a text that was
not written here. -/
theorem stored_times_read_back_at_the_ends :
    storedText ⟨Instant.firstSecond, 0⟩ = "-262143-01-01 00:00:00.000000000" ∧
      parseTime? (storedText ⟨Instant.firstSecond, 0⟩) = some ⟨Instant.firstSecond, 0⟩ ∧
      storedText ⟨Instant.lastSecond, 1999999999⟩ = "+262142-12-31 23:59:60.999999999" ∧
      parseTime? (storedText ⟨Instant.lastSecond, 1999999999⟩) =
        some ⟨Instant.lastSecond, 1999999999⟩ ∧
      parseTime? "2017-01-01T01:29:60.5+01:30" = some ⟨1483228799, 1500000000⟩ ∧
      parseTime? (storedText ⟨1483228799, 1500000000⟩) = some ⟨1483228799, 1500000000⟩ :=
  ⟨by decide +kernel, stored_times_read_back.1 _ (by decide), by decide +kernel,
    stored_times_read_back.1 _ (by decide), by decide +kernel,
    (stored_times_read_back.2 "2017-01-01T01:29:60.5+01:30" _ (by decide +kernel)).2⟩

end PeerHealth.Time
