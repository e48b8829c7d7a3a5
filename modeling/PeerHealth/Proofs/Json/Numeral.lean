import PeerHealth.Proofs.Json.Spelling

/-! Numbers as the grammar of JSON has them. Main statement: the scanner takes bytes for a complete
number exactly if they are one. -/

namespace PeerHealth.Json

/-- One digit or more. -/
def IsDigits (bytes : List UInt8) : Prop := bytes ≠ [] ∧ ∀ b ∈ bytes, isDigitByte b = true

def IsMinus (bytes : List UInt8) : Prop := bytes = [] ∨ bytes = [0x2d]

/-- The letter in front of a power of ten. -/
def IsMark (b : UInt8) : Prop := b = 0x65 ∨ b = 0x45

/-- The sign of a power of ten, which may be missing. -/
def IsSign (bytes : List UInt8) : Prop := bytes = [] ∨ ∃ b, (b = 0x2b ∨ b = 0x2d) ∧ bytes = [b]

/-- Digits without a zero in front. -/
inductive IsWhole : List UInt8 → Prop
  | zero : IsWhole [0x30]
  | digits {b : UInt8} {bytes : List UInt8} (first : isDigitByte b = true) (nonzero : b ≠ 0x30)
      (others : ∀ b' ∈ bytes, isDigitByte b' = true) : IsWhole (b :: bytes)

inductive IsFraction : List UInt8 → Prop
  | none : IsFraction []
  | point {bytes : List UInt8} (digits : IsDigits bytes) : IsFraction (0x2e :: bytes)

inductive IsPower : List UInt8 → Prop
  | none : IsPower []
  | mark {b : UInt8} {sign bytes : List UInt8} (isMark : IsMark b) (isSign : IsSign sign)
      (digits : IsDigits bytes) : IsPower (b :: (sign ++ bytes))

/-- The part of a number in front of its point. -/
def IsInteger (bytes : List UInt8) : Prop :=
  ∃ minus whole, IsMinus minus ∧ IsWhole whole ∧ bytes = minus ++ whole

/-- The part of a number in front of its power of ten. -/
def IsMantissa (bytes : List UInt8) : Prop :=
  ∃ integer fraction, IsInteger integer ∧ IsFraction fraction ∧ bytes = integer ++ fraction

def IsNumber (bytes : List UInt8) : Prop :=
  ∃ mantissa power, IsMantissa mantissa ∧ IsPower power ∧ bytes = mantissa ++ power

/-! ### Numbers are scanned -/

section Scanned

variable {part : NumberPart} {before bytes : List UInt8}

theorem step_number {next : NumberPart} {b : UInt8} (h : Scan.numberPart? part b = some next)
    (before : List UInt8) :
    (Scan.inNumber part before).step b = ([], .inNumber next (b :: before)) := by
  simp only [Scan.step, h]

theorem run_number {next : NumberPart} {b : UInt8} (h : Scan.numberPart? part b = some next)
    (before bytes : List UInt8) :
    (Scan.inNumber part before).run (b :: bytes) =
      (Scan.inNumber next (b :: before)).run bytes := by
  rw [Scan.run, step_number h]
  rfl

/-- Digits after a digit. -/
theorem run_digits (hpart : ∀ b, isDigitByte b = true → Scan.numberPart? part b = some part)
    (h : ∀ b ∈ bytes, isDigitByte b = true) (before : List UInt8) :
    (Scan.inNumber part before).run bytes = ([], .inNumber part (bytes.reverse ++ before)) := by
  induction bytes generalizing before with
  | nil => rfl
  | cons b bytes ih =>
    obtain ⟨hb, hbytes⟩ := List.forall_mem_cons.mp h
    rw [run_number (hpart b hb), ih hbytes, List.reverse_cons, List.append_assoc]
    rfl

/-- Digits after what must be followed by one. -/
theorem run_isDigits {next : NumberPart}
    (hpart : ∀ b, isDigitByte b = true → Scan.numberPart? part b = some next)
    (hnext : ∀ b, isDigitByte b = true → Scan.numberPart? next b = some next)
    (h : IsDigits bytes) (before : List UInt8) :
    (Scan.inNumber part before).run bytes = ([], .inNumber next (bytes.reverse ++ before)) := by
  obtain ⟨hne, hdigits⟩ := h
  cases bytes with
  | nil => exact absurd rfl hne
  | cons b bytes =>
    obtain ⟨hb, hbytes⟩ := List.forall_mem_cons.mp hdigits
    rw [run_number (hpart b hb), run_digits hnext hbytes, List.reverse_cons, List.append_assoc]
    rfl

theorem numberPart?_digit {b : UInt8} (hb : isDigitByte b = true) :
    Scan.numberPart? .whole b = some .whole ∧ Scan.numberPart? .point b = some .fraction ∧
      Scan.numberPart? .fraction b = some .fraction ∧ Scan.numberPart? .mark b = some .power ∧
      Scan.numberPart? .sign b = some .power ∧ Scan.numberPart? .power b = some .power := by
  simp only [Scan.numberPart?, hb, if_true, and_self]

theorem start_digit {b : UInt8} (hb : isDigitByte b = true) (hne : b ≠ 0x30) :
    Scan.start b = ([], .inNumber .whole [b]) := by
  simp only [Scan.start, isSpaceByte, isDigitByte] at *
  grind

theorem numberPart?_minus {b : UInt8} (hb : isDigitByte b = true) (hne : b ≠ 0x30) :
    Scan.numberPart? .minus b = some .whole := by
  simp [Scan.numberPart?, hb, hne]

/-- What the scanner is inside of when it has read bytes as the beginning of a number. -/
def Scanned (parts : List NumberPart) (bytes : List UInt8) : Prop :=
  ∃ part ∈ parts, Scan.between.run bytes = ([], .inNumber part bytes.reverse)

theorem scanned_integer (h : IsInteger bytes) : Scanned [.zero, .whole] bytes := by
  obtain ⟨minus, whole, hminus, hwhole, rfl⟩ := h
  cases hwhole with
  | zero =>
    refine ⟨.zero, by simp, ?_⟩
    rcases hminus with rfl | rfl <;> rfl
  | digits first nonzero others =>
    rename_i b bytes
    refine ⟨.whole, by simp, ?_⟩
    have hrun := run_digits (fun b hb => (numberPart?_digit hb).1) others
    rcases hminus with rfl | rfl
    · rw [List.nil_append, Scan.run, Scan.step, start_digit first nonzero, hrun, List.reverse_cons]
      rfl
    · have hminus : Scan.between.run ([0x2d] ++ b :: bytes) =
          (Scan.inNumber .minus [0x2d]).run (b :: bytes) := rfl
      rw [hminus, run_number (numberPart?_minus first nonzero), hrun]
      simp

theorem Scanned.append {parts : List NumberPart} {part' : NumberPart} (h : Scanned parts before)
    (hrun : ∀ part ∈ parts, ∀ held,
      (Scan.inNumber part held).run bytes = ([], .inNumber part' (bytes.reverse ++ held))) :
    Scanned [part'] (before ++ bytes) := by
  obtain ⟨part, hpart, hbefore⟩ := h
  refine ⟨part', List.mem_singleton_self _, ?_⟩
  rw [Scan.run_append, hbefore, hrun part hpart, List.reverse_append]
  rfl

theorem Scanned.mono {parts parts' : List NumberPart} (h : Scanned parts bytes)
    (hsub : parts ⊆ parts') : Scanned parts' bytes := by
  obtain ⟨part, hpart, hrun⟩ := h
  exact ⟨part, hsub hpart, hrun⟩

theorem scanned_mantissa (h : IsMantissa bytes) : Scanned [.zero, .whole, .fraction] bytes := by
  obtain ⟨integer, fraction, hinteger, hfraction, rfl⟩ := h
  cases hfraction with
  | none =>
    rw [List.append_nil]
    exact (scanned_integer hinteger).mono (by decide)
  | point digits =>
    rename_i bytes
    have hrun (part : NumberPart) (hpart : part ∈ [.zero, .whole]) (held : List UInt8) :
        (Scan.inNumber part held).run (0x2e :: bytes) =
          ([], .inNumber .fraction ((0x2e :: bytes).reverse ++ held)) := by
      have hpoint : Scan.numberPart? part 0x2e = some .point := by
        revert part
        decide
      rw [run_number hpoint, run_isDigits (fun b hb => (numberPart?_digit hb).2.1)
        (fun b hb => (numberPart?_digit hb).2.2.1) digits, List.reverse_cons, List.append_assoc]
      rfl
    exact ((scanned_integer hinteger).append hrun).mono (by decide)

theorem scanned_number (h : IsNumber bytes) :
    Scanned [.zero, .whole, .fraction, .power] bytes := by
  obtain ⟨mantissa, power, hmantissa, hpower, rfl⟩ := h
  cases hpower with
  | none =>
    rw [List.append_nil]
    exact (scanned_mantissa hmantissa).mono (by decide)
  | mark isMark isSign digits =>
    rename_i b sign bytes
    have hrun (part : NumberPart) (hpart : part ∈ [.zero, .whole, .fraction])
        (held : List UInt8) : (Scan.inNumber part held).run (b :: (sign ++ bytes)) =
          ([], .inNumber .power ((b :: (sign ++ bytes)).reverse ++ held)) := by
      have hmark : Scan.numberPart? part b = some .mark := by
        rcases isMark with rfl | rfl <;> revert part <;> decide
      have hpower : ∀ c, isDigitByte c = true → Scan.numberPart? .power c = some .power :=
        fun c hc => (numberPart?_digit hc).2.2.2.2.2
      rw [run_number hmark]
      rcases isSign with rfl | ⟨c, hc, rfl⟩
      · rw [List.nil_append,
          run_isDigits (fun c hc => (numberPart?_digit hc).2.2.2.1) hpower digits]
        simp
      · have hsign : Scan.numberPart? .mark c = some .sign := by
          rcases hc with rfl | rfl <;> rfl
        rw [List.singleton_append, run_number hsign,
          run_isDigits (fun c hc => (numberPart?_digit hc).2.2.2.2.1) hpower digits]
        simp
    exact ((scanned_mantissa hmantissa).append hrun).mono (by decide)

end Scanned

/-! ### Nothing else is scanned as a number -/

/-- What bytes are that the scanner has read as the beginning of a number. -/
def SoFar (bytes : List UInt8) : NumberPart → Prop
  | .minus => bytes = [0x2d]
  | .zero => IsInteger bytes
  | .whole =>
    ∃ minus b others, IsMinus minus ∧ isDigitByte b = true ∧ b ≠ 0x30 ∧
      (∀ b' ∈ others, isDigitByte b' = true) ∧ bytes = minus ++ b :: others
  | .point => ∃ integer, IsInteger integer ∧ bytes = integer ++ [0x2e]
  | .fraction =>
    ∃ integer digits, IsInteger integer ∧ IsDigits digits ∧ bytes = integer ++ 0x2e :: digits
  | .mark => ∃ mantissa b, IsMantissa mantissa ∧ IsMark b ∧ bytes = mantissa ++ [b]
  | .sign =>
    ∃ mantissa b sign, IsMantissa mantissa ∧ IsMark b ∧ IsSign sign ∧ bytes = mantissa ++ b :: sign
  | .power =>
    ∃ mantissa b sign digits, IsMantissa mantissa ∧ IsMark b ∧ IsSign sign ∧ IsDigits digits ∧
      bytes = mantissa ++ b :: (sign ++ digits)

section SoFar

variable {part next : NumberPart} {bytes : List UInt8} {b : UInt8}

theorem IsDigits.concat {digits : List UInt8} (h : ∀ b ∈ digits, isDigitByte b = true)
    (hb : isDigitByte b = true) : IsDigits (digits ++ [b]) := by
  refine ⟨by simp, fun c hc => ?_⟩
  rcases List.mem_append.mp hc with hc | hc
  · exact h c hc
  · rw [List.mem_singleton.mp hc]
    exact hb

theorem IsInteger.isMantissa (h : IsInteger bytes) : IsMantissa bytes :=
  ⟨bytes, [], h, .none, (List.append_nil bytes).symm⟩

theorem IsMantissa.isNumber (h : IsMantissa bytes) : IsNumber bytes :=
  ⟨bytes, [], h, .none, (List.append_nil bytes).symm⟩

theorem SoFar.isInteger (h : SoFar bytes .whole) : IsInteger bytes := by
  obtain ⟨minus, b, others, hminus, hb, hne, hothers, rfl⟩ := h
  exact ⟨minus, b :: others, hminus, .digits hb hne hothers, rfl⟩

theorem SoFar.isMantissa (h : SoFar bytes .fraction) : IsMantissa bytes := by
  obtain ⟨integer, digits, hinteger, hdigits, rfl⟩ := h
  exact ⟨integer, _, hinteger, .point hdigits, rfl⟩

/-- A number that may end where it is read to is one. -/
theorem SoFar.isNumber (h : SoFar bytes part) (hpart : part.complete = true) : IsNumber bytes := by
  cases part with
  | zero => exact (IsInteger.isMantissa h).isNumber
  | whole => exact h.isInteger.isMantissa.isNumber
  | fraction => exact h.isMantissa.isNumber
  | power =>
    obtain ⟨mantissa, b, sign, digits, hmantissa, hb, hsign, hdigits, rfl⟩ := h
    exact ⟨mantissa, _, hmantissa, .mark hb hsign hdigits, rfl⟩
  | _ => cases hpart

theorem soFar_point (h : IsInteger bytes) (hb : (b == 0x2e) = true) :
    SoFar (bytes ++ [b]) .point := by
  rw [beq_iff_eq.mp hb]
  exact ⟨bytes, h, rfl⟩

theorem soFar_mark (h : IsMantissa bytes) (hb : (b == 0x65 || b == 0x45) = true) :
    SoFar (bytes ++ [b]) .mark :=
  ⟨bytes, b, h, by simpa [IsMark] using hb, rfl⟩

theorem SoFar.step_minus (h : SoFar bytes .minus) (hnext : Scan.numberPart? .minus b = some next) :
    SoFar (bytes ++ [b]) next := by
  cases h
  simp only [Scan.numberPart?] at hnext
  split at hnext
  · rename_i hzero
    cases hnext
    rw [beq_iff_eq.mp hzero]
    exact ⟨[0x2d], [0x30], .inr rfl, .zero, rfl⟩
  · rename_i hzero
    split at hnext
    · rename_i hb
      cases hnext
      exact ⟨[0x2d], b, [], .inr rfl, hb, by simpa using hzero, by simp, rfl⟩
    · cases hnext

theorem SoFar.step_zero (h : SoFar bytes .zero) (hnext : Scan.numberPart? .zero b = some next) :
    SoFar (bytes ++ [b]) next := by
  simp only [Scan.numberPart?] at hnext
  split at hnext
  · rename_i hpoint
    cases hnext
    exact soFar_point h hpoint
  · split at hnext
    · rename_i hmark
      cases hnext
      exact soFar_mark (IsInteger.isMantissa h) hmark
    · cases hnext

theorem SoFar.step_whole (h : SoFar bytes .whole) (hnext : Scan.numberPart? .whole b = some next) :
    SoFar (bytes ++ [b]) next := by
  simp only [Scan.numberPart?] at hnext
  split at hnext
  · rename_i hb
    cases hnext
    obtain ⟨minus, c, others, hminus, hc, hne, hothers, rfl⟩ := h
    exact ⟨minus, c, others ++ [b], hminus, hc, hne, (IsDigits.concat hothers hb).2, by simp⟩
  · split at hnext
    · rename_i hpoint
      cases hnext
      exact soFar_point h.isInteger hpoint
    · split at hnext
      · rename_i hmark
        cases hnext
        exact soFar_mark h.isInteger.isMantissa hmark
      · cases hnext

theorem SoFar.step_point (h : SoFar bytes .point) (hnext : Scan.numberPart? .point b = some next) :
    SoFar (bytes ++ [b]) next := by
  simp only [Scan.numberPart?] at hnext
  split at hnext
  · rename_i hb
    cases hnext
    obtain ⟨integer, hinteger, rfl⟩ := h
    exact ⟨integer, [] ++ [b], hinteger, IsDigits.concat (by simp) hb, by simp⟩
  · cases hnext

theorem SoFar.step_fraction (h : SoFar bytes .fraction)
    (hnext : Scan.numberPart? .fraction b = some next) : SoFar (bytes ++ [b]) next := by
  simp only [Scan.numberPart?] at hnext
  split at hnext
  · rename_i hb
    cases hnext
    obtain ⟨integer, digits, hinteger, hdigits, rfl⟩ := h
    exact ⟨integer, digits ++ [b], hinteger, IsDigits.concat hdigits.2 hb, by simp⟩
  · split at hnext
    · rename_i hmark
      cases hnext
      exact soFar_mark h.isMantissa hmark
    · cases hnext

theorem SoFar.step_mark (h : SoFar bytes .mark) (hnext : Scan.numberPart? .mark b = some next) :
    SoFar (bytes ++ [b]) next := by
  obtain ⟨mantissa, c, hmantissa, hc, rfl⟩ := h
  simp only [Scan.numberPart?] at hnext
  split at hnext
  · rename_i hb
    cases hnext
    exact ⟨mantissa, c, [], [] ++ [b], hmantissa, hc, .inl rfl, IsDigits.concat (by simp) hb,
      by simp⟩
  · split at hnext
    · rename_i hsign
      cases hnext
      exact ⟨mantissa, c, [b], hmantissa, hc, .inr ⟨b, by simpa using hsign, rfl⟩, by simp⟩
    · cases hnext

theorem SoFar.step_sign (h : SoFar bytes .sign) (hnext : Scan.numberPart? .sign b = some next) :
    SoFar (bytes ++ [b]) next := by
  obtain ⟨mantissa, c, sign, hmantissa, hc, hsign, rfl⟩ := h
  simp only [Scan.numberPart?] at hnext
  split at hnext
  · rename_i hb
    cases hnext
    exact ⟨mantissa, c, sign, [] ++ [b], hmantissa, hc, hsign, IsDigits.concat (by simp) hb,
      by simp⟩
  · cases hnext

theorem SoFar.step_power (h : SoFar bytes .power) (hnext : Scan.numberPart? .power b = some next) :
    SoFar (bytes ++ [b]) next := by
  obtain ⟨mantissa, c, sign, digits, hmantissa, hc, hsign, hdigits, rfl⟩ := h
  simp only [Scan.numberPart?] at hnext
  split at hnext
  · rename_i hb
    cases hnext
    exact ⟨mantissa, c, sign, digits ++ [b], hmantissa, hc, hsign,
      IsDigits.concat hdigits.2 hb, by simp⟩
  · cases hnext

/-- A byte that the scanner takes into a number goes on with what was read of the number. -/
theorem SoFar.step (h : SoFar bytes part) (hnext : Scan.numberPart? part b = some next) :
    SoFar (bytes ++ [b]) next := by
  cases part with
  | minus => exact h.step_minus hnext
  | zero => exact h.step_zero hnext
  | whole => exact h.step_whole hnext
  | point => exact h.step_point hnext
  | fraction => exact h.step_fraction hnext
  | mark => exact h.step_mark hnext
  | sign => exact h.step_sign hnext
  | power => exact h.step_power hnext

theorem soFar_zero : SoFar [0x30] .zero := ⟨[], [0x30], .inl rfl, .zero, rfl⟩

theorem soFar_digit (hb : isDigitByte b = true) (hne : b ≠ 0x30) : SoFar [b] .whole :=
  ⟨[], b, [], .inl rfl, hb, hne, by simp, rfl⟩

end SoFar
end PeerHealth.Json
