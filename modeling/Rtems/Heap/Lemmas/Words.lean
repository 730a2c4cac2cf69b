import Mathlib.Data.Nat.Bitwise
import Rtems.Heap.Model

/-! # Flags and memory -/

namespace Rtems

@[simp] theorem Memory.store_same (m : Memory) (a v : Nat) : m.store a v a = v := by
  simp [Memory.store]

theorem Memory.store_ne (m : Memory) {a x} (v : Nat) (h : x ≠ a) : m.store a v x = m x := by
  simp [Memory.store, h]

theorem Memory.store_comm (m : Memory) {a b} (h : a ≠ b) (v w : Nat) :
    (m.store a v).store b w = (m.store b w).store a v := by
  funext x
  unfold Memory.store
  split <;> split <;> simp_all

namespace Heap

@[simp] theorem frontFlag_set (m : Memory) (b v : Nat) : frontFlag (setFrontFlag m b v) b = v :=
  m.store_same _ _

@[simp] theorem backFlag_set (m : Memory) (b v : Nat) : backFlag (setBackFlag m b v) b = v :=
  m.store_same _ _

theorem buildFlag_used {s} (hs : s % 4 = 0) : buildFlag s blockUsed = s + 1 := by
  have h := Nat.two_pow_add_eq_or_of_lt (i := 1) (b := 1) (by omega) (s / 2)
  have hs' : 2 ^ 1 * (s / 2) = s := by omega
  rw [hs'] at h
  exact h.symm

theorem and_blockUsed (f : Nat) : f &&& blockUsed = f % 2 := Nat.and_one_is_mod f

theorem clearUsed_eq {f} (hf : f < 2 ^ 32) : clearUsed f = f - f % 2 := by
  have h : f &&& (2 ^ 32 - 1 - 1) = f - f % 2 := by
    have hmask : (2 ^ 32 - 1 - 1 : Nat) = (2 ^ 31 - 1) <<< 1 := by decide
    have hdiv : (f &&& (2 ^ 32 - 1 - 1)) / 2 = f / 2 := by
      rw [hmask, ← Nat.shiftRight_one, ← Nat.shiftRight_one, Nat.shiftRight_and_distrib,
        Nat.shiftLeft_shiftRight, Nat.and_two_pow_sub_one_eq_mod, Nat.shiftRight_one]
      omega
    have hmod : (f &&& (2 ^ 32 - 1 - 1)) % 2 = 0 := by
      have := Nat.and_mod_two_pow (a := f) (b := 2 ^ 32 - 1 - 1) (n := 1)
      rw [this, show (2 ^ 32 - 1 - 1) % 2 = 0 by decide, Nat.and_zero]
    omega
  exact h

theorem and_page_aligned {p} (hp : p % 4 = 0) (page : Nat) : (p &&& (page - 1)) % 4 = 0 := by
  have h := Nat.and_mod_two_pow (a := p) (b := page - 1) (n := 2)
  rw [h, hp, Nat.zero_and]

end Heap

end Rtems
