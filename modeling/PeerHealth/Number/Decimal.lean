import PeerHealth.Number.Power

/-! Natural numbers in decimal digits. Main statement: reading the digits of a number, with any
zeros in front of them, gives the number. -/

namespace PeerHealth.Number

def digitChar (n : Nat) : Char := Char.ofNat (48 + n)

/-- The number a decimal digit stands for. -/
def digit? (c : Char) : Option Nat :=
  if 48 ≤ c.toNat ∧ c.toNat ≤ 57 then some (c.toNat - 48) else none

def isDigit (c : Char) : Bool := (digit? c).isSome

/-- The digits of a number, without leading zeros. -/
def digits (n : Nat) : List Char :=
  if n < 10 then [digitChar n] else digits (n / 10) ++ [digitChar (n % 10)]

/-- The digits of a number with zeros in front of them up to `width` places. -/
def padded (width n : Nat) : List Char :=
  List.replicate (width - (digits n).length) '0' ++ digits n

/-- What the digits read so far, and one more, stand for. -/
def addDigit (n : Nat) (c : Char) : Nat := 10 * n + (digit? c).getD 0

/-- The number that a string of digits stands for. -/
def value (cs : List Char) : Nat := cs.foldl addDigit 0

/-- The longest run of digits at the front, and what follows it. -/
def spanDigits (cs : List Char) : List Char × List Char :=
  (cs.takeWhile isDigit, cs.dropWhile isDigit)

/-- A whole text read as a number: digits, after at most one plus sign. -/
def natural? (cs : List Char) : Option Nat :=
  let body := match cs with
    | '+' :: rest => rest
    | _ => cs
  if body.isEmpty || !body.all isDigit then none else some (value body)

theorem digit?_digitChar {n : Nat} (h : n < 10) : digit? (digitChar n) = some n := by
  have : ∀ m : Fin 10, digit? (digitChar m.1) = some m.1 := by decide
  exact this ⟨n, h⟩

theorem foldl_addDigit (cs : List Char) (n : Nat) :
    cs.foldl addDigit n = n * tenTo cs.length + value cs := by
  unfold value
  induction cs generalizing n with
  | nil => simp
  | cons c cs ih =>
    simp only [List.foldl_cons, List.length_cons]
    rw [ih, ih (addDigit 0 c)]
    simp only [addDigit, Nat.add_mul, tenTo_succ, Nat.mul_zero, Nat.zero_add]
    rw [Nat.mul_comm 10 n, Nat.mul_assoc, Nat.mul_comm 10 (tenTo cs.length)]
    omega

theorem value_append (cs ds : List Char) :
    value (cs ++ ds) = value cs * tenTo ds.length + value ds := by
  simp only [value, List.foldl_append]
  exact foldl_addDigit ds _

@[simp] theorem value_digits (n : Nat) : value (digits n) = n := by
  induction n using Nat.strongRecOn with
  | _ n ih =>
    rw [digits]
    split
    · rename_i h
      simp [value, addDigit, digit?_digitChar h]
    · rename_i h
      rw [value_append, ih (n / 10) (by omega)]
      have hd := digit?_digitChar (show n % 10 < 10 by omega)
      simp [value, addDigit, hd]
      omega

theorem value_replicate_zero (k : Nat) : value (List.replicate k '0') = 0 := by
  induction k with
  | zero => rfl
  | succ k ih =>
    rw [List.replicate_succ', value_append, ih]
    rfl

/-- Zeros in front of a number do not change it. -/
@[simp] theorem value_padded (width n : Nat) : value (padded width n) = n := by
  rw [padded, value_append, value_replicate_zero]
  simp

end PeerHealth.Number
