import Mathlib.Tactic.Linarith
import PeerHealth.Proofs.Number.Binary64
import PeerHealth.Proofs.Settings.Read

/-! Whether a node can run with the settings that were read. Main statement: it can, if each length
of time that is set is more than half a nanosecond and less than `2 ^ 64` seconds; one of
`2 ^ 64` seconds or more is neither read nor refused, and one of at most half a nanosecond is read
as no time at all. -/

namespace PeerHealth.Settings

open Number (Binary64)

/-- The text, trimmed, is read as this positive number. -/
structure Positive (text : String) (x : Binary64) : Prop where
  reading : Number.reading? (Text.trim text).toList = some (.finite false x)
  pos : 0 < x.value

/-- The variable is set to a text that is read as this positive number. -/
def Environment.SetTo (env : Environment) (key : String) (x : Binary64) : Prop :=
  ∃ v, env.value? key = some v ∧ Positive v x

section Seconds

variable {key text : String} {x y : Binary64}

theorem value_pos_iff : 0 < x.value ↔ x.mantissa ≠ 0 := by
  rw [Binary64.value, mul_pos_iff_of_pos_right (zpow_pos (by norm_num) _), Nat.cast_pos]
  exact Nat.pos_iff_ne_zero

theorem Positive.eq (hx : Positive text x) (hy : Positive text y) : x = y := by
  have heq := hx.reading.symm.trans hy.reading
  cases heq
  rfl

theorem nanosecondsOf_eq (x : Binary64) :
    nanosecondsOf x = Number.roundDiv (x.toRatio.1 * Duration.second) x.toRatio.2 := rfl

theorem nanosecondsOf_eq_zero_iff : nanosecondsOf x = 0 ↔ x.value * 10 ^ 9 ≤ 1 / 2 := by
  have hden : (0 : ℚ) < x.toRatio.2 := Nat.cast_pos.mpr x.toRatio_pos
  rw [nanosecondsOf_eq, Number.roundDiv_eq_zero_iff x.toRatio_pos, x.value_eq, div_mul_eq_mul_div,
    div_le_div_iff₀ hden two_pos, Duration.second]
  constructor
  · intro h
    have hcast : (2 : ℚ) * (x.toRatio.1 * 1000000000) ≤ x.toRatio.2 := by exact_mod_cast h
    linarith
  · intro h
    have hcast : (2 : ℚ) * (x.toRatio.1 * 1000000000) ≤ x.toRatio.2 := by linarith
    exact_mod_cast hcast

/-- A number read from text does not come to `2 ^ 64` seconds by rounding to nanoseconds: those
near it are whole. -/
theorem limit_le_nanosecondsOf_iff (hx : x.mantissa < 2 * Binary64.least) :
    Number.limit64 * Duration.second ≤ nanosecondsOf x ↔ 2 ^ 64 ≤ x.value := by
  have hden := x.toRatio_pos
  rw [nanosecondsOf_eq, x.value_eq, le_div_iff₀ (Nat.cast_pos.mpr hden)]
  by_cases hneg : x.exponent < 0
  · have hnum : x.toRatio.1 = x.mantissa := by rw [Binary64.toRatio, if_pos hneg]
    have hsmall : x.mantissa < 2 ^ 53 := hx
    have hle : x.mantissa * Duration.second ≤ 2 ^ 53 * Duration.second * x.toRatio.2 := by
      calc x.mantissa * Duration.second
          ≤ 2 ^ 53 * Duration.second := Nat.mul_le_mul_right _ (Nat.le_of_lt hsmall)
        _ ≤ 2 ^ 53 * Duration.second * x.toRatio.2 := Nat.le_mul_of_pos_right _ hden
    have hround := Number.roundDiv_le hden hle
    rw [hnum]
    constructor
    · intro h
      exact absurd (Nat.le_trans h hround) (by norm_num [Number.limit64, Duration.second])
    · intro h
      have hcast : 2 ^ 64 * x.toRatio.2 ≤ x.mantissa := by exact_mod_cast h
      omega
  · have hone : x.toRatio.2 = 1 := by rw [Binary64.toRatio, if_neg hneg]
    rw [hone, Number.roundDiv_one, Nat.cast_one, mul_one]
    constructor
    · intro h
      have hle : 2 ^ 64 ≤ x.toRatio.1 := Nat.le_of_mul_le_mul_right h (by decide)
      exact_mod_cast hle
    · intro h
      have hle : 2 ^ 64 ≤ x.toRatio.1 := by exact_mod_cast h
      exact Nat.mul_le_mul_right _ hle

theorem seconds_of_positive (h : Positive text x) :
    seconds key text =
      if 2 ^ 64 ≤ x.value then .error (.tooLong key) else .ok ⟨nanosecondsOf x⟩ := by
  have hlimit := limit_le_nanosecondsOf_iff (Number.mantissa_reading? h.reading)
  have hnonzero : ¬(false = true ∨ x.mantissa = 0) := by simp [value_pos_iff.mp h.pos]
  unfold seconds
  rw [h.reading]
  dsimp only
  rw [if_neg hnonzero]
  simp only [hlimit]

/-- A text that is no positive number is refused. -/
theorem seconds_cases (key text : String) :
    seconds key text = .error (.invalid key text) ∨ ∃ x, Positive text x := by
  unfold seconds
  split
  · rename_i negative x hreading
    split
    · exact .inl rfl
    · rename_i h
      obtain ⟨hsign, hnonzero⟩ := not_or.mp h
      rw [Bool.not_eq_true] at hsign
      subst hsign
      exact .inr ⟨x, hreading, value_pos_iff.mpr hnonzero⟩
  · exact .inl rfl

theorem seconds_eq_ok {d : Duration} (h : seconds key text = .ok d) :
    ∃ x, Positive text x ∧ d = ⟨nanosecondsOf x⟩ := by
  rcases seconds_cases key text with hinvalid | ⟨x, hx⟩
  · rw [hinvalid] at h
    cases h
  · rw [seconds_of_positive hx] at h
    split at h
    · cases h
    · cases h
      exact ⟨x, hx, rfl⟩

theorem seconds_eq_tooLong {k : String} (h : seconds key text = .error (.tooLong k)) :
    k = key ∧ ∃ x, Positive text x ∧ 2 ^ 64 ≤ x.value := by
  rcases seconds_cases key text with hinvalid | ⟨x, hx⟩
  · rw [hinvalid] at h
    cases h
  · rw [seconds_of_positive hx] at h
    split at h
    · rename_i hlong
      cases h
      exact ⟨rfl, x, hx, hlong⟩
    · cases h

/-- A length of time comes to nothing only if the variable is set to next to nothing. -/
theorem eq_zero_iff_of_get {env : Environment} {default d : Duration}
    (hdefault : default.nanoseconds ≠ 0) (h : env.get key seconds default = .ok d) :
    d.nanoseconds = 0 ↔ ∃ x, env.SetTo key x ∧ x.value * 10 ^ 9 ≤ 1 / 2 := by
  cases hvalue : env.value? key with
  | none =>
    rw [get_of_unset hvalue] at h
    cases h
    refine ⟨fun hzero => absurd hzero hdefault, ?_⟩
    rintro ⟨x, ⟨v, hv, -⟩, -⟩
    rw [hvalue] at hv
    cases hv
  | some v =>
    rw [get_of_set hvalue] at h
    obtain ⟨x, hx, rfl⟩ := seconds_eq_ok h
    show nanosecondsOf x = 0 ↔ _
    rw [nanosecondsOf_eq_zero_iff]
    refine ⟨fun hsmall => ⟨x, ⟨v, hvalue, hx⟩, hsmall⟩, ?_⟩
    rintro ⟨y, ⟨v', hv', hy⟩, hsmall⟩
    rw [hvalue] at hv'
    cases hv'
    rwa [hx.eq hy]

end Seconds

section Runnable

variable {files : Files} {env : Environment} {s : Settings}

theorem one_le_of_workerCount {key v : String} {n : Nat} (h : workerCount key v = .ok n) :
    1 ≤ n := by
  obtain ⟨m, -, hm⟩ := bind_eq_ok_iff.mp h
  split at hm
  · cases hm
  · cases hm
    omega

theorem OwnRead.one_le_workers (h : OwnRead env s) : 1 ≤ s.workers := by
  have hworkers := h.workers
  cases hvalue : env.value? "MESHWATCH_PARALLEL_CHECKS" with
  | none =>
    rw [get_of_unset hvalue] at hworkers
    rw [← Except.ok.inj hworkers]
    decide
  | some v =>
    rw [get_of_set hvalue] at hworkers
    exact one_le_of_workerCount hworkers

theorem exists_of_read_tooLong {k : String} (h : read files env = .error (.tooLong k)) :
    k ∈ durationKeys ∧ ∃ x, env.SetTo k x ∧ 2 ^ 64 ≤ x.value := by
  rw [read_eq] at h
  rcases bind_eq_error_iff.mp h with hown | ⟨own, -, h⟩
  · obtain ⟨key, hkey, v, hv, hlong⟩ := exists_of_readOwn_tooLong hown
    obtain ⟨rfl, x, hx, hle⟩ := seconds_eq_tooLong hlong
    exact ⟨hkey, x, ⟨v, hv, hx⟩, hle⟩
  · rcases bind_eq_error_iff.mp h with hsource | ⟨source, -, h⟩
    · exact absurd hsource (readSource_ne_tooLong k)
    · cases h

theorem ownRead_of_read (h : read files env = .ok s) : OwnRead env s := by
  rw [read_eq] at h
  obtain ⟨own, hown, h⟩ := bind_eq_ok_iff.mp h
  obtain ⟨source, -, h⟩ := bind_eq_ok_iff.mp h
  cases h
  have hread := ownRead_of_readOwn hown
  exact ⟨hread.interval, hread.workers, hread.timeout⟩

/-- Settings are read or refused, unless a length of time is set to `2 ^ 64` seconds or more. When
they are read there is at least one worker, and a length of time is none exactly if it is set to a
positive number of at most half a nanosecond. So in any environment whose lengths of time keep
within these bounds the settings are refused, or a node can run with them. -/
theorem runnable_or_refused (files : Files) (env : Environment) :
    (∀ key, read files env = .error (.tooLong key) →
      key ∈ durationKeys ∧ ∃ x, env.SetTo key x ∧ 2 ^ 64 ≤ x.value) ∧
    (∀ s, read files env = .ok s → 1 ≤ s.workers ∧
      (s.interval.nanoseconds = 0 ↔
        ∃ x, env.SetTo "MESHWATCH_CHECK_INTERVAL" x ∧ x.value * 10 ^ 9 ≤ 1 / 2) ∧
      (s.timeout.nanoseconds = 0 ↔
        ∃ x, env.SetTo "MESHWATCH_CHECK_TIMEOUT" x ∧ x.value * 10 ^ 9 ≤ 1 / 2)) ∧
    ((∀ key ∈ durationKeys, ∀ x, env.SetTo key x → 1 / 2 < x.value * 10 ^ 9 ∧ x.value < 2 ^ 64) →
      (∀ key, read files env ≠ .error (.tooLong key)) ∧
      ∀ s, read files env = .ok s →
        0 < s.interval.nanoseconds ∧ 0 < s.timeout.nanoseconds ∧ 1 ≤ s.workers) := by
  have hzero (s : Settings) (h : read files env = .ok s) :
      (s.interval.nanoseconds = 0 ↔
        ∃ x, env.SetTo "MESHWATCH_CHECK_INTERVAL" x ∧ x.value * 10 ^ 9 ≤ 1 / 2) ∧
      (s.timeout.nanoseconds = 0 ↔
        ∃ x, env.SetTo "MESHWATCH_CHECK_TIMEOUT" x ∧ x.value * 10 ^ 9 ≤ 1 / 2) :=
    ⟨eq_zero_iff_of_get (by decide) (ownRead_of_read h).interval,
      eq_zero_iff_of_get (by decide) (ownRead_of_read h).timeout⟩
  refine ⟨fun key => exists_of_read_tooLong, fun s h => ⟨(ownRead_of_read h).one_le_workers,
    hzero s h⟩, fun hbounds => ⟨fun key h => ?_, fun s h => ⟨?_, ?_,
      (ownRead_of_read h).one_le_workers⟩⟩⟩
  · obtain ⟨hkey, x, hx, hlong⟩ := exists_of_read_tooLong h
    exact absurd hlong (not_le.mpr (hbounds key hkey x hx).2)
  · refine Nat.pos_of_ne_zero fun hnone => ?_
    obtain ⟨x, hx, hsmall⟩ := (hzero s h).1.mp hnone
    exact absurd hsmall (not_le.mpr (hbounds _ (by simp [durationKeys]) x hx).1)
  · refine Nat.pos_of_ne_zero fun hnone => ?_
    obtain ⟨x, hx, hsmall⟩ := (hzero s h).2.mp hnone
    exact absurd hsmall (not_le.mpr (hbounds _ (by simp [durationKeys]) x hx).1)

end Runnable

/-- Lengths of time close to the bounds. -/
def farEnvironment : Environment :=
  environmentOf [("MESHWATCH_HOSTS", "b"), ("MESHWATCH_CHECK_INTERVAL", "18446744073709550591"),
    ("MESHWATCH_CHECK_TIMEOUT", " 5e-10 ")]

theorem runnable_or_refused_of_far :
    (∀ key ∈ durationKeys, ∀ x, farEnvironment.SetTo key x →
      1 / 2 < x.value * 10 ^ 9 ∧ x.value < 2 ^ 64) ∧
    ∃ s, read (fun _ => none) farEnvironment = .ok s ∧
      s.interval = .ofSeconds 18446744073709549568 ∧ s.timeout = ⟨1⟩ ∧
      0 < s.interval.nanoseconds ∧ 0 < s.timeout.nanoseconds ∧ 1 ≤ s.workers := by
  have hinterval : Positive "18446744073709550591" ⟨9007199254740991, 11⟩ :=
    ⟨by decide +kernel, by norm_num [Binary64.value]⟩
  have htimeout : Positive " 5e-10 " ⟨4835703278458517, -83⟩ :=
    ⟨by decide +kernel, by norm_num [Binary64.value]⟩
  have hbounds : ∀ key ∈ durationKeys, ∀ x, farEnvironment.SetTo key x →
      1 / 2 < x.value * 10 ^ 9 ∧ x.value < 2 ^ 64 := by
    rintro key hkey x ⟨v, hv, hx⟩
    simp only [durationKeys, List.mem_cons, List.not_mem_nil, or_false] at hkey
    rcases hkey with rfl | rfl
    · have hvalue : farEnvironment.value? "MESHWATCH_CHECK_INTERVAL" =
          some "18446744073709550591" := by decide +kernel
      rw [← Option.some.inj (hvalue.symm.trans hv)] at hx
      rw [hx.eq hinterval]
      norm_num [Binary64.value]
    · have hvalue : farEnvironment.value? "MESHWATCH_CHECK_TIMEOUT" = some " 5e-10 " := by
        decide +kernel
      rw [← Option.some.inj (hvalue.symm.trans hv)] at hx
      rw [hx.eq htimeout]
      norm_num [Binary64.value]
  have hread : read (fun _ => none) farEnvironment = .ok
      { source := .fixed ["b"], interval := .ofSeconds 18446744073709549568, timeout := ⟨1⟩ } := by
    decide +kernel
  obtain ⟨-, -, hruns⟩ := runnable_or_refused (fun _ => none) farEnvironment
  exact ⟨hbounds, _, hread, rfl, rfl, (hruns hbounds).2 _ hread⟩

/-- One length of time that is past all that can be held, and one that is read as none. -/
theorem not_runnable_past_bounds :
    read (fun _ => none)
        (environmentOf [("MESHWATCH_HOSTS", "b"), ("MESHWATCH_CHECK_INTERVAL", "1e20")]) =
      .error (.tooLong "MESHWATCH_CHECK_INTERVAL") ∧
    ∃ s, read (fun _ => none)
        (environmentOf [("MESHWATCH_HOSTS", "b"), ("MESHWATCH_CHECK_INTERVAL", "1e-10")]) = .ok s ∧
      s.interval.nanoseconds = 0 := by
  refine ⟨by decide +kernel, { source := .fixed ["b"], interval := ⟨0⟩ }, by decide +kernel, rfl⟩

end PeerHealth.Settings
