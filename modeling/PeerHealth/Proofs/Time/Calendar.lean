import PeerHealth.Time.Instant

/-! Dates and the numbers of days. The date made from a number of days is a day of its month and has
that number, and of two days the earlier one has the lower number. Both are shown on years counted
from March, of which the 400 years of a cycle are split into centuries, spans of four years, and
years. -/

namespace PeerHealth.Time.Date

/-- Day `c` of a 400-year cycle split into whole centuries, whole four-year spans, whole years and
days. -/
theorem cycle_split {c : Nat} (h : c < 146097) :
    ∃ a q r e : Nat, c = 36524 * a + 1461 * q + 365 * r + e ∧ a ≤ 3 ∧ q ≤ 24 ∧ r ≤ 3 ∧ e ≤ 365 ∧
      (e = 365 → r = 3 ∧ (q = 24 → a = 3)) ∧ yearOfCycle c = 100 * a + 4 * q + r ∧
      dayOfYear c = e := by
  have hy : yearOfCycle c = 100 * centuryOf c + 4 * ((c - 36524 * centuryOf c) / 1461) +
      min ((c - 36524 * centuryOf c) % 1461 / 365) 3 := rfl
  have hd : dayOfYear c = c - (365 * yearOfCycle c + yearOfCycle c / 4 - yearOfCycle c / 100) := rfl
  have ha : centuryOf c = min (c / 36524) 3 := rfl
  generalize centuryOf c = a at *
  have hlow : 36524 * a ≤ c := by omega
  have hhigh : c - 36524 * a ≤ 36524 ∧ (a < 3 → c - 36524 * a < 36524) := by omega
  have hq := Nat.div_add_mod (c - 36524 * a) 1461
  generalize (c - 36524 * a) / 1461 = q at *
  generalize hi : (c - 36524 * a) % 1461 = i at *
  have hr : min (i / 365) 3 ≤ 3 ∧ 365 * min (i / 365) 3 ≤ i ∧ i - 365 * min (i / 365) 3 ≤ 365 ∧
      (i - 365 * min (i / 365) 3 = 365 → i = 1460) := by omega
  generalize min (i / 365) 3 = r at *
  refine ⟨a, q, r, i - 365 * r, by omega, by omega, by omega, hr.1, hr.2.2.1, by omega, hy, ?_⟩
  have h4 : (100 * a + 4 * q + r) / 4 = 25 * a + q := by omega
  have h100 : (100 * a + 4 * q + r) / 100 = a := by omega
  rw [hd, hy, h4, h100]
  omega

/-- The year of a date, counted from March. -/
def marchYear (d : Date) : Int := if d.month ≤ 2 then d.year - 1 else d.year

/-- The month of a date, March being 0. -/
def marchMonth (d : Date) : Nat := if d.month ≤ 2 then d.month + 9 else d.month - 3

/-- The days of all years before a year that is counted from March. -/
def daysBeforeYear (y : Int) : Int := 365 * y + y / 4 - y / 100 + y / 400

theorem dayNumber_eq {d : Date} (h : 1 ≤ d.day) :
    d.dayNumber = daysBeforeYear d.marchYear + daysBefore d.marchMonth + d.day - 719469 := by
  have hc : d.marchYear / 400 * 146097 + ((cycleDays (d.marchYear % 400).toNat : Nat) : Int) =
      daysBeforeYear d.marchYear := by
    unfold cycleDays daysBeforeYear
    omega
  have hd : d.dayNumber = d.marchYear / 400 * 146097 +
      ((cycleDays (d.marchYear % 400).toNat + daysBefore d.marchMonth + d.day - 1 : Nat) : Int) -
      719468 := rfl
  omega

theorem isLeapYear_iff (y : Int) :
    isLeapYear y = true ↔ y % 4 = 0 ∧ (y % 100 ≠ 0 ∨ y % 400 = 0) := by
  simp [isLeapYear]

/-- Day `e` of a March-based year is in a month of that year. -/
theorem monthOf_spec {e : Nat} (he : e ≤ 365) :
    monthOf e ≤ 11 ∧ daysBefore (monthOf e) ≤ e ∧ e - daysBefore (monthOf e) < 31 ∧
      (monthOf e = 1 ∨ monthOf e = 3 ∨ monthOf e = 6 ∨ monthOf e = 8 →
        e - daysBefore (monthOf e) < 30) ∧
      (monthOf e = 11 → e - daysBefore (monthOf e) = e - 337) := by
  have hm : monthOf e = (5 * e + 2) / 153 := rfl
  generalize monthOf e = m at *
  unfold daysBefore
  refine ⟨by omega, by omega, by omega, ?_, ?_⟩
  · rintro (rfl | rfl | rfl | rfl) <;> omega
  · rintro rfl
    omega

/-- Day `e` of the March-based year `y` is a day of its month. Only a leap day is day 365. -/
theorem dayOfMonth_le {y : Int} {e : Nat} (he : e ≤ 365)
    (hleap : e = 365 → isLeapYear (y + 1) = true) :
    e - daysBefore (monthOf e) + 1 ≤
      daysInMonth (if monthOf e < 10 then y else y + 1)
        (if monthOf e < 10 then monthOf e + 3 else monthOf e - 9) := by
  obtain ⟨hm, -, h31, h30, hfeb⟩ := monthOf_spec he
  generalize monthOf e = m at *
  generalize daysBefore m = b at *
  by_cases h11 : m = 11
  · subst h11
    simp only [daysInMonth, show ¬ 11 < 10 by decide, if_false, show 11 - 9 = 2 by decide, if_true]
    by_cases h365 : e = 365
    · rw [if_pos (hleap h365)]
      omega
    · split <;> omega
  · unfold daysInMonth
    by_cases h10 : m < 10
    · simp only [h10, if_true]
      split
      · omega
      · split <;> omega
    · simp only [h10, if_false]
      split
      · omega
      · split <;> omega

/-- The date `n` days after the first of January 1970 is a day of a month and has the number `n`. -/
theorem ofDayNumber_spec (n : Int) :
    (ofDayNumber n).dayNumber = n ∧ 1 ≤ (ofDayNumber n).month ∧ (ofDayNumber n).month ≤ 12 ∧
      1 ≤ (ofDayNumber n).day ∧
      (ofDayNumber n).day ≤ daysInMonth (ofDayNumber n).year (ofDayNumber n).month := by
  obtain ⟨a, q, r, e, hc, ha, hq, hr, he, hleap, hy, hd⟩ :=
    cycle_split (c := ((n + 719468) % 146097).toNat) (by omega)
  obtain ⟨y, hyear⟩ : ∃ y, y = (n + 719468) / 146097 * 400 + (100 * a + 4 * q + r : Nat) :=
    ⟨_, rfl⟩
  have hdate : ofDayNumber n =
      { year := if monthOf e < 10 then y else y + 1
        month := if monthOf e < 10 then monthOf e + 3 else monthOf e - 9
        day := e - daysBefore (monthOf e) + 1 } := by
    simp only [ofDayNumber, hy, hd, hyear]
  obtain ⟨hm, hb, -⟩ := monthOf_spec he
  have hday : 1 ≤ (ofDayNumber n).day := by rw [hdate]; simp
  refine ⟨?_, ?_, ?_, hday, ?_⟩
  · have hmy : (ofDayNumber n).marchYear = y := by
      simp only [hdate, marchYear]
      split <;> split <;> omega
    have hmm : (ofDayNumber n).marchMonth = monthOf e := by
      simp only [hdate, marchMonth]
      split <;> split <;> omega
    have hd : (ofDayNumber n).day = e - daysBefore (monthOf e) + 1 := by rw [hdate]
    have h4 : y / 4 = (n + 719468) / 146097 * 100 + (25 * a + q : Nat) := by omega
    have h100 : y / 100 = (n + 719468) / 146097 * 4 + a := by omega
    have h400 : y / 400 = (n + 719468) / 146097 := by omega
    rw [dayNumber_eq hday, hmy, hmm, daysBeforeYear, h4, h100, h400]
    omega
  · simp only [hdate]
    split <;> omega
  · simp only [hdate]
    split <;> omega
  · rw [hdate]
    refine dayOfMonth_le he ?_
    intro h
    rw [isLeapYear_iff]
    have := hleap h
    omega

theorem daysBeforeYear_mono {y z : Int} (h : y ≤ z) : daysBeforeYear y ≤ daysBeforeYear z := by
  unfold daysBeforeYear
  omega

/-- A day of a month lies before the next month of the year, or before the next year. -/
theorem day_lt_next {d : Date} (hm : 1 ≤ d.month ∧ d.month ≤ 12)
    (hd : d.day ≤ daysInMonth d.year d.month) :
    (d.marchMonth < 11 → daysBefore d.marchMonth + d.day ≤ daysBefore (d.marchMonth + 1)) ∧
      (d.marchMonth ≤ 11 ∧ daysBeforeYear d.marchYear + daysBefore d.marchMonth + d.day ≤
        daysBeforeYear (d.marchYear + 1)) := by
  have hl := isLeapYear_iff d.year
  obtain ⟨y, m, day⟩ := d
  simp only [marchMonth, marchYear, daysInMonth, daysBefore, daysBeforeYear] at *
  have : m = 1 ∨ m = 2 ∨ m = 3 ∨ m = 4 ∨ m = 5 ∨ m = 6 ∨ m = 7 ∨ m = 8 ∨ m = 9 ∨ m = 10 ∨ m = 11 ∨
    m = 12 := by omega
  rcases this with rfl | rfl | rfl | rfl | rfl | rfl | rfl | rfl | rfl | rfl | rfl | rfl
  case inr.inl =>
    by_cases hleap : isLeapYear y = true
    · have := hl.1 hleap
      simp [hleap] at hd ⊢
      omega
    · simp [hleap] at hd ⊢
      omega
  all_goals
    simp at hd ⊢
    omega

/-- The order of dates by year, month and day. -/
def Before (d e : Date) : Prop :=
  d.year < e.year ∨ d.year = e.year ∧ (d.month < e.month ∨ d.month = e.month ∧ d.day < e.day)

theorem dayNumber_lt {d e : Date} (hm : 1 ≤ d.month ∧ d.month ≤ 12)
    (hd : 1 ≤ d.day ∧ d.day ≤ daysInMonth d.year d.month) (hm' : 1 ≤ e.month ∧ e.month ≤ 12)
    (he : 1 ≤ e.day) (h : d.Before e) : d.dayNumber < e.dayNumber := by
  obtain ⟨hmonth, -, hyear⟩ := day_lt_next hm hd.2
  rw [dayNumber_eq hd.1, dayNumber_eq he]
  have hcases : d.marchYear < e.marchYear ∨ d.marchYear = e.marchYear ∧
      (d.marchMonth < e.marchMonth ∧ e.marchMonth ≤ 11 ∨
        d.marchMonth = e.marchMonth ∧ d.day < e.day) := by
    unfold Before at h
    unfold marchYear marchMonth
    split <;> split <;> omega
  rcases hcases with hlt | ⟨heq, ⟨hlt, h11⟩ | ⟨hmm, hlt⟩⟩
  · have := daysBeforeYear_mono (show d.marchYear + 1 ≤ e.marchYear by omega)
    omega
  · have hb : daysBefore (d.marchMonth + 1) ≤ daysBefore e.marchMonth := by
      unfold daysBefore
      omega
    have := hmonth (by omega)
    rw [heq]
    omega
  · rw [heq, hmm]
    omega

theorem before_trichotomy (d e : Date) : d.Before e ∨ d = e ∨ e.Before d := by
  obtain ⟨y, m, n⟩ := d
  obtain ⟨y', m', n'⟩ := e
  simp only [Before, Date.mk.injEq]
  omega

theorem daysInMonth_le (year : Int) (month : Nat) : daysInMonth year month ≤ 31 := by
  unfold daysInMonth
  split
  · split <;> omega
  · split <;> omega

/-- A day has no lower number than the first day of an earlier year or of its own, and no higher one
than the last day of a later year or of its own. -/
theorem dayNumber_between {d : Date} (hm : 1 ≤ d.month ∧ d.month ≤ 12)
    (hd : 1 ≤ d.day ∧ d.day ≤ daysInMonth d.year d.month) {first last : Int}
    (h : first ≤ d.year ∧ d.year ≤ last) :
    dayNumber ⟨first, 1, 1⟩ ≤ d.dayNumber ∧ d.dayNumber ≤ dayNumber ⟨last, 12, 31⟩ := by
  have h31 := daysInMonth_le d.year d.month
  constructor
  · rcases before_trichotomy ⟨first, 1, 1⟩ d with hlt | rfl | hlt
    · exact Int.le_of_lt (dayNumber_lt (d := ⟨first, 1, 1⟩) (by simp) (by simp [daysInMonth])
        hm hd.1 hlt)
    · exact Int.le_refl _
    · simp only [Before] at hlt
      omega
  · rcases before_trichotomy d ⟨last, 12, 31⟩ with hlt | rfl | hlt
    · exact Int.le_of_lt (dayNumber_lt (e := ⟨last, 12, 31⟩) hm hd (by simp) (by simp) hlt)
    · exact Int.le_refl _
    · simp only [Before] at hlt
      omega

theorem ofDayNumber_valid {n : Int} (hlow : -96465292 ≤ n) (hhigh : n ≤ 95026236) :
    (ofDayNumber n).Valid := by
  obtain ⟨hn, hm1, hm12, hd1, hd⟩ := ofDayNumber_spec n
  refine ⟨?_, ?_, hm1, hm12, hd1, hd⟩
  · refine Int.not_lt.mp ?_
    intro h
    have hlt := dayNumber_lt (e := ⟨firstYear, 1, 1⟩) ⟨hm1, hm12⟩ ⟨hd1, hd⟩ (by decide) (by decide)
      (.inl h)
    rw [hn, show dayNumber ⟨firstYear, 1, 1⟩ = -96465292 by decide] at hlt
    omega
  · refine Int.not_lt.mp ?_
    intro h
    have hlt := dayNumber_lt (d := ⟨lastYear, 12, 31⟩) (by decide) (by decide) ⟨hm1, hm12⟩ hd1
      (.inl h)
    rw [hn, show dayNumber ⟨lastYear, 12, 31⟩ = 95026236 by decide] at hlt
    omega

theorem ofDayNumber_before {m n : Int} (h : m < n) : (ofDayNumber m).Before (ofDayNumber n) := by
  obtain ⟨hm, hm1, hm12, hd1, hd⟩ := ofDayNumber_spec m
  obtain ⟨hn, hn1, hn12, he1, he⟩ := ofDayNumber_spec n
  rcases before_trichotomy (ofDayNumber m) (ofDayNumber n) with hlt | heq | hlt
  · exact hlt
  · rw [heq] at hm
    omega
  · have := dayNumber_lt ⟨hn1, hn12⟩ ⟨he1, he⟩ ⟨hm1, hm12⟩ hd1 hlt
    omega

end PeerHealth.Time.Date
