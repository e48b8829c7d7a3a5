import PeerHealth.Proofs.Number.Padded
import PeerHealth.Proofs.Text.Trim
import PeerHealth.Proofs.Time.Calendar
import PeerHealth.Time.Stored

/-! The stored form of instants. Main statements: what is stored reads back as the instant it was
made of, and within the years of four digits the order of the texts is the order in time; all other
years stand before these. -/

namespace PeerHealth.Time

open Number (padded value isDigit tenTo)

theorem isBlankChar_of_isDigit {c : Char} (h : isDigit c = true) : Text.isBlankChar c = false := by
  have hc : 48 ≤ c.toNat ∧ c.toNat ≤ 57 := by
    simp only [isDigit, Number.digit?] at h
    split at h
    · assumption
    · simp at h
  simp [Text.isBlankChar]
  omega

/-- As many digits as may be read are read, whatever follows. -/
theorem digitsWithin_append (least : Nat) {most : Nat} {ds : List Char} (cs : List Char)
    (hd : ∀ c ∈ ds, isDigit c = true) (hl : least ≤ ds.length) (hm : ds.length = most) :
    digitsWithin least most (ds ++ cs) = some (value ds, cs) := by
  have htake : ((ds ++ cs).take most).takeWhile isDigit = ds := by
    rw [← hm, List.take_left]
    simpa using Text.takeWhile_append_of_stop [] hd (by simp)
  simp only [digitsWithin, htake, Nat.not_lt.mpr hl, if_false, List.drop_left]

theorem blanks_digits {ds : List Char} (cs : List Char) (hd : ∀ c ∈ ds, isDigit c = true)
    (hne : ds ≠ []) :
    blanks (ds ++ cs) = ds ++ cs := by
  cases ds with
  | nil => exact absurd rfl hne
  | cons c ds => simp [blanks, isBlankChar_of_isDigit (hd c (by simp))]

theorem padded_ne_nil {w n : Nat} (h : n < tenTo (w + 1)) : padded (w + 1) n ≠ [] := by
  intro hnil
  have := Number.length_padded h
  simp [hnil] at this

/-- A number in two places reads back, whatever follows. -/
theorem shortNumber_padded {n : Nat} (h : n < 100) (cs : List Char) :
    shortNumber (padded 2 n ++ cs) = some (n, cs) := by
  have hl : (padded 2 n).length = 2 := Number.length_padded h
  rw [shortNumber, blanks_digits _ Number.isDigit_of_mem_padded (padded_ne_nil h),
    digitsWithin_append _ _ Number.isDigit_of_mem_padded (by omega) hl, Number.value_padded]

/-- A year reads back if no digit follows. -/
theorem year_yearText (y : Int) {cs : List Char} (hcs : ∀ c ∈ cs.head?, isDigit c = false) :
    year (yearText y ++ cs) = some (y, cs) := by
  by_cases h : 0 ≤ y ∧ y ≤ 9999
  · have hy : y.toNat < tenTo 4 := by
      have : tenTo 4 = 10000 := by decide
      omega
    have hread := digitsWithin_append 1 cs
      (Number.isDigit_of_mem_padded (w := 4) (n := y.toNat))
      (by rw [Number.length_padded hy]; decide) (Number.length_padded hy)
    have hdigit := Number.isDigit_of_mem_padded (w := 4) (n := y.toNat)
    have hblanks := blanks_digits cs hdigit (padded_ne_nil hy)
    rw [Number.value_padded, show ((y.toNat : Nat)) = y.toNat from rfl] at hread
    simp only [yearText, h, and_self, if_true, year, hblanks]
    cases hp : padded 4 y.toNat with
    | nil => exact absurd hp (padded_ne_nil hy)
    | cons c ds =>
      have hc := hdigit c (by simp [hp])
      rw [hp] at hread
      split
      · simp_all [isDigit, Number.digit?]
      · simp_all [isDigit, Number.digit?]
      · simp only [hread, Option.map_some, Option.some.injEq, Prod.mk.injEq, and_true]
        omega
  · have hdigit := Number.isDigit_of_mem_padded (w := 4) (n := y.natAbs)
    have hspan : allDigits (padded 4 y.natAbs ++ cs) = some (y.natAbs, cs) := by
      have htake := Text.takeWhile_append_of_stop cs hdigit hcs
      have hdrop : (padded 4 y.natAbs ++ cs).dropWhile isDigit = cs := by
        have := List.takeWhile_append_dropWhile (p := isDigit) (l := padded 4 y.natAbs ++ cs)
        rw [htake] at this
        exact List.append_cancel_left this
      have hne : padded 4 y.natAbs ≠ [] := by simp [padded, Number.digits_ne_nil]
      simp [allDigits, Number.spanDigits, htake, hdrop, hne]
    by_cases hneg : y < 0
    · have hb : blanks ('-' :: (padded 4 y.natAbs ++ cs)) = '-' :: (padded 4 y.natAbs ++ cs) := by
        simp [blanks, Text.isBlankChar]
      simp only [yearText, h, if_false, hneg, if_true, List.cons_append, year, hb, hspan,
        Option.map_some, Option.some.injEq, Prod.mk.injEq, and_true]
      omega
    · have hb : blanks ('+' :: (padded 4 y.natAbs ++ cs)) = '+' :: (padded 4 y.natAbs ++ cs) := by
        simp [blanks, Text.isBlankChar]
      simp only [yearText, h, if_false, hneg, List.cons_append, year, hb, hspan,
        Option.map_some, Option.some.injEq, Prod.mk.injEq, and_true]
      omega

/-- Nine decimal places read back at the end of a text. -/
theorem fraction_padded {n : Nat} (h : n < tenTo 9) :
    fraction ('.' :: padded 9 n) = some (n, []) := by
  have hdigit := Number.isDigit_of_mem_padded (w := 9) (n := n)
  have htake : (padded 9 n).takeWhile isDigit = padded 9 n := by
    simpa using Text.takeWhile_append_of_stop [] hdigit (by simp)
  have hdrop : (padded 9 n).dropWhile isDigit = [] := by
    have := List.takeWhile_append_dropWhile (p := isDigit) (l := padded 9 n)
    rw [htake] at this
    simpa using this
  have hl : (padded 9 n).length = 9 := Number.length_padded h
  have hall : (padded 9 n).take 9 = padded 9 n := List.take_of_length_le (by omega)
  simp [fraction, Number.spanDigits, htake, hdrop, padded_ne_nil h, hall, hl]

namespace Instant

/-- The time of day of an instant, as a clock shows it. -/
theorem Valid.clock {t : Instant} (h : t.Valid) :
    t.hour < 24 ∧ t.minute < 60 ∧ t.second ≤ 60 ∧ t.subsecond < nanosPerSecond ∧
      t.date.Valid := by
  obtain ⟨hlow, hhigh, hn⟩ := h
  unfold firstSecond at hlow
  unfold lastSecond at hhigh
  unfold hour minute second subsecond secondOfDay nanosPerSecond at *
  refine ⟨by omega, by omega, by omega, by omega, ?_⟩
  exact Date.ofDayNumber_valid (by omega) (by omega)

/-- A clock at universal time tells the instant. -/
theorem Valid.ofClock? {t : Instant} (h : t.Valid) :
    ofClock? t.date t.hour t.minute t.second t.subsecond 0 = some t := by
  obtain ⟨hh, hm, hs, hns, hd⟩ := h.clock
  have hday : t.date.dayNumber = t.seconds / 86400 := (Date.ofDayNumber_spec _).1
  obtain ⟨-, -, hn⟩ := h
  simp only [Instant.ofClock?, hd, hh, hm, hs, hns, and_self, if_true, Option.some.injEq]
  obtain ⟨seconds, nanos⟩ := t
  simp only [Instant.mk.injEq]
  rw [hday]
  unfold hour minute second subsecond secondOfDay nanosPerSecond at *
  simp only at *
  constructor
  · omega
  · split <;> omega

end Instant

theorem parseTime?_storedText {t : Instant} (h : t.Valid) : parseTime? (storedText t) = some t := by
  obtain ⟨hh, hm, hs, hns, hd⟩ := h.clock
  obtain ⟨-, -, hm1, hm12, hd1, hdays⟩ := hd
  have hd31 := Date.daysInMonth_le t.date.year t.date.month
  have hns9 : t.subsecond < tenTo 9 := hns
  have hh2 : t.hour < tenTo 2 := Nat.lt_trans hh (by decide)
  have hblank : ∀ cs, blanks (' ' :: (padded 2 t.hour ++ cs)) = padded 2 t.hour ++ cs := by
    intro cs
    have := blanks_digits cs Number.isDigit_of_mem_padded (padded_ne_nil hh2)
    simpa [blanks, Text.isBlankChar] using this
  have hstored : parseStored? (storedText t).toList = some t := by
    simp only [storedText, dateText, clockText, String.toList_ofList, List.append_assoc,
      List.cons_append, parseStored?]
    rw [year_yearText _ (by simp [isDigit, Number.digit?])]
    simp only [Option.bind_eq_bind, Option.bind_some, literal, if_true]
    rw [shortNumber_padded (by omega)]
    simp only [Option.bind_some, if_true]
    rw [shortNumber_padded (by omega)]
    simp only [Option.bind_some, hblank]
    rw [shortNumber_padded (by omega)]
    simp only [Option.bind_some, if_true]
    rw [shortNumber_padded (by omega)]
    simp only [Option.bind_some, if_true]
    rw [shortNumber_padded (by omega)]
    simp only [Option.bind_some, fraction_padded hns9, List.isEmpty_nil, if_true]
    exact h.ofClock?
  rw [parseTime?, hstored]
  rfl

/-- Of two texts that start with numbers in the same number of places, the one with the lower number
comes first; with equal numbers the rest settles it. -/
theorem padded_append_lt {w m n : Nat} {c : Char} {cs ds : List Char} (hn : n < tenTo (w + 1))
    (hle : m ≤ n) (h : m = n → cs < ds) :
    padded (w + 1) m ++ c :: cs < padded (w + 1) n ++ c :: ds := by
  rcases Nat.lt_or_eq_of_le hle with hlt | rfl
  · refine Number.append_lt_append _ _ ?_ (Number.padded_lt hlt hn)
    rw [Number.length_padded (by omega), Number.length_padded hn]
  · exact List.append_left_lt (List.cons_lt_cons_iff.mpr (.inr ⟨rfl, h rfl⟩))

/-- The year of an instant has four digits. -/
def Instant.FourDigitYear (t : Instant) : Prop := 0 ≤ t.date.year ∧ t.date.year ≤ 9999

instance (t : Instant) : Decidable t.FourDigitYear := by
  unfold Instant.FourDigitYear
  infer_instance

/-- An earlier instant has an earlier date, or an earlier time of the same date. -/
theorem Instant.Before.fields {t u : Instant} (ht : t.Valid) (h : t.Before u) :
    t.date.Before u.date ∨ t.date = u.date ∧ (t.hour < u.hour ∨ t.hour = u.hour ∧
      (t.minute < u.minute ∨ t.minute = u.minute ∧
        (t.second < u.second ∨ t.second = u.second ∧ t.subsecond < u.subsecond))) := by
  by_cases hday : t.seconds / 86400 = u.seconds / 86400
  · refine .inr ⟨by rw [Instant.date, Instant.date, hday], ?_⟩
    obtain ⟨-, -, hn⟩ := ht
    unfold Instant.Before at h
    unfold Instant.hour Instant.minute Instant.second Instant.subsecond Instant.secondOfDay
      nanosPerSecond at *
    omega
  · refine .inl (Date.ofDayNumber_before ?_)
    unfold Instant.Before at h
    omega

/-- Within the years of four digits an earlier instant has a lower stored form. -/
theorem storedText_lt {t u : Instant} (ht : t.Valid) (hu : u.Valid) (hty : t.FourDigitYear)
    (huy : u.FourDigitYear) (h : t.Before u) : storedText t < storedText u := by
  obtain ⟨hh, hm, hs, hns, hd⟩ := hu.clock
  obtain ⟨-, -, hm1, hm12, hd1, hdays⟩ := hd
  have hd31 := Date.daysInMonth_le u.date.year u.date.month
  have hfields := h.fields ht
  rw [show (t.date = u.date) = (t.date.year = u.date.year ∧ t.date.month = u.date.month ∧
    t.date.day = u.date.day) by cases t.date; cases u.date; simp] at hfields
  unfold Date.Before at hfields
  unfold Instant.FourDigitYear at hty huy
  show (storedText t).toList < (storedText u).toList
  simp only [storedText, dateText, clockText, yearText, hty, huy, and_self, if_true,
    String.toList_ofList, List.append_assoc, List.cons_append]
  refine padded_append_lt (show _ < 10000 by omega) (by omega) ?_
  intro hyear
  refine padded_append_lt (show _ < 100 by omega) (by omega) ?_
  intro hmonth
  refine padded_append_lt (show _ < 100 by omega) (by omega) ?_
  intro hday
  refine padded_append_lt (show _ < 100 by omega) (by omega) ?_
  intro hhour
  refine padded_append_lt (show _ < 100 by omega) (by omega) ?_
  intro hminute
  refine padded_append_lt (show _ < 100 by omega) (by omega) ?_
  intro hsecond
  exact Number.padded_lt (by omega) hns

/-- A year of other than four digits is stored with a sign in front, and a sign stands before every
digit. -/
theorem storedText_lt_of_signed {t u : Instant} (hty : ¬t.FourDigitYear) (huy : u.FourDigitYear) :
    storedText t < storedText u := by
  have hu : u.date.year.toNat < tenTo 4 := by
    unfold Instant.FourDigitYear at huy
    show _ < 10000
    omega
  obtain ⟨d, ds, hpadded⟩ := List.exists_cons_of_ne_nil (padded_ne_nil hu)
  have hdigit : isDigit d = true :=
    Number.isDigit_of_mem_padded d (hpadded ▸ List.mem_cons_self ..)
  have hd : 48 ≤ d.toNat := by
    simp only [isDigit, Number.digit?] at hdigit
    split at hdigit
    · omega
    · cases hdigit
  have hsign : (if t.date.year < 0 then '-' else '+') < d := by
    show (if t.date.year < 0 then '-' else '+').toNat < d.toNat
    split
    · exact Nat.lt_of_lt_of_le (by decide) hd
    · exact Nat.lt_of_lt_of_le (by decide) hd
  unfold Instant.FourDigitYear at hty huy
  show (storedText t).toList < (storedText u).toList
  simp only [storedText, dateText, yearText, if_neg hty, if_pos huy, hpadded,
    String.toList_ofList, List.cons_append]
  exact List.cons_lt_cons_iff.mpr (.inl hsign)

theorem Instant.before_or_eq_of_not_before {t u : Instant} (h : ¬u.Before t) :
    t.Before u ∨ t = u := by
  obtain ⟨seconds, nanos⟩ := t
  obtain ⟨seconds', nanos'⟩ := u
  simp only [Instant.Before, Instant.mk.injEq] at h ⊢
  omega

/-- An instant of a year of four digits stands, as it is stored, after all that are not later, and
after all past the year 9999. -/
theorem storedText_le_iff {t u : Instant} (ht : t.Valid) (hu : u.Valid) (huy : u.FourDigitYear) :
    storedText t ≤ storedText u ↔ 9999 < t.date.year ∨ ¬u.Before t := by
  by_cases hty : t.FourDigitYear
  · have hyear : ¬9999 < t.date.year := Int.not_lt.mpr hty.2
    constructor
    · exact fun hle => .inr fun h => String.not_lt.mpr hle (storedText_lt hu ht huy hty h)
    · intro h
      rcases Instant.before_or_eq_of_not_before (h.resolve_left hyear) with hlt | rfl
      · exact Std.le_of_lt (storedText_lt ht hu hty huy hlt)
      · exact String.le_refl _
  · have hle := Std.le_of_lt (storedText_lt_of_signed hty huy)
    refine ⟨fun _ => ?_, fun _ => hle⟩
    by_cases hyear : 9999 < t.date.year
    · exact .inl hyear
    · refine .inr fun h => ?_
      have hfields := h.fields hu
      unfold Instant.FourDigitYear at hty huy
      unfold Date.Before at hfields
      rcases hfields with hdate | ⟨hdate, -⟩
      · omega
      · rw [hdate] at huy
        omega

theorem storedText_inj {t u : Instant} (ht : t.Valid) (hu : u.Valid) :
    storedText t = storedText u ↔ t = u := by
  refine ⟨fun h => ?_, congrArg storedText⟩
  have hread := congrArg parseTime? h
  rw [parseTime?_storedText ht, parseTime?_storedText hu] at hread
  exact Option.some.inj hread

theorem storedText_lt_iff {t u : Instant} (ht : t.Valid) (hu : u.Valid) (hty : t.FourDigitYear)
    (huy : u.FourDigitYear) : storedText t < storedText u ↔ t.Before u := by
  have hyear : ¬9999 < u.date.year := Int.not_lt.mpr huy.2
  rw [← String.not_le, storedText_le_iff hu ht hty, not_or, Decidable.not_not,
    and_iff_right hyear]

end PeerHealth.Time
