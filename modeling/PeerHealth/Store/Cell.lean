import PeerHealth.Store.Numeral

/-! Values in columns of whole numbers. Such a column takes anything; what stands for a whole
number is kept as one, another number as a floating-point number, and any other text as it is. -/

namespace PeerHealth.Store

/-- A value in a column of whole numbers. -/
inductive Cell where
  | whole (n : Int)
  | real (x : Number.Floating)
  | text (s : String)
deriving DecidableEq, Repr, Inhabited

namespace Cell

/-- The whole numbers that a column can hold. -/
def lowest : Int := -(Number.limit63 : Int)

def highest : Int := (Number.limit63 : Int) - 1

/-- A floating-point number as the column keeps it. The lowest whole number is not made of one,
since a number out of range could have been rounded to it. -/
def ofFloating (x : Number.Floating) : Cell :=
  match x.whole? with
  | some n => if lowest < n ∧ n ≤ highest then .whole n else .real x
  | none => .real x

/-- A number, kept as a whole one if it is in range. -/
def ofInt (n : Int) : Cell :=
  if lowest ≤ n ∧ n ≤ highest then .whole n else .real (.ofInt n)

/-- A text as the column keeps it: the number that all of it stands for, or the text itself. -/
def ofText (s : String) : Cell :=
  let n := Numeral.read s
  if !n.isAll then .text s
  else if n.isWhole ∧ lowest ≤ n.whole ∧ n.whole ≤ highest then .whole n.whole
  else ofFloating n.toFloating

/-- The sum with a number. A text counts as the number it starts with, or as zero. Where a whole
number does not do, the sum is one of floating-point numbers. -/
def plus (c : Cell) (n : Int) : Cell :=
  let sum (m : Int) : Cell :=
    if lowest ≤ m + n ∧ m + n ≤ highest then .whole (m + n)
    else ofFloating ((Number.Floating.ofInt m).plus n)
  match c with
  | .whole m => sum m
  | .real x => ofFloating (x.plus n)
  | .text s =>
    let front := Numeral.read s
    if !front.isDecimal ∧ lowest ≤ front.whole ∧ front.whole ≤ highest then sum front.whole
    else ofFloating (front.toFloating.plus n)

/-- The value is the number `n`, in whichever way it is kept. -/
def isNumber (c : Cell) (n : Int) : Bool :=
  match c with
  | .whole m => m = n
  | .real x => x.whole? = some n
  | .text _ => false

@[simp] theorem isNumber_whole (m n : Int) : (whole m).isNumber n = decide (m = n) := rfl

@[simp] theorem isNumber_text (s : String) (n : Int) : (text s).isNumber n = false := rfl

/-- The two values are the same number or the same text. -/
def same (c d : Cell) : Bool :=
  match c, d with
  | .whole n, d => d.isNumber n
  | c, .whole n => c.isNumber n
  | c, d => c = d

end Cell
end PeerHealth.Store
