/-! Powers of two and of ten, and the sizes of machine words. -/

namespace PeerHealth.Number

def twoTo (n : Nat) : Nat := Nat.pow 2 n

def tenTo (n : Nat) : Nat := Nat.pow 10 n

@[simp] theorem twoTo_zero : twoTo 0 = 1 := rfl

theorem twoTo_succ (n : Nat) : twoTo (n + 1) = twoTo n * 2 := rfl

@[simp] theorem tenTo_zero : tenTo 0 = 1 := rfl

@[simp] theorem tenTo_one : tenTo 1 = 10 := rfl

theorem tenTo_succ (n : Nat) : tenTo (n + 1) = tenTo n * 10 := rfl

theorem tenTo_pos (n : Nat) : 0 < tenTo n := by
  induction n with
  | zero => decide
  | succ n ih => rw [tenTo_succ]; omega

/-- The first number that does not fit 32 bits. -/
def limit32 : Nat := 4294967296

/-- The first number that does not fit 63 bits. -/
def limit63 : Nat := 9223372036854775808

/-- The first number that does not fit 64 bits. -/
def limit64 : Nat := 18446744073709551616

end PeerHealth.Number
