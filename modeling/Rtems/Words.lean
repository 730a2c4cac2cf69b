import Mathlib.Algebra.GroupWithZero.Nat

/-! # Words of 32 bits -/

namespace Rtems

def addWord (a b : Nat) : Nat := (a + b) % 2 ^ 32

def subWord (a b : Nat) : Nat := (a + (2 ^ 32 - b)) % 2 ^ 32

theorem addWord_eq {a b} (h : a + b < 2 ^ 32) : addWord a b = a + b := Nat.mod_eq_of_lt h

theorem subWord_eq {a b} (hb : b ≤ a) (ha : a < 2 ^ 32) : subWord a b = a - b := by
  unfold subWord; omega

end Rtems
