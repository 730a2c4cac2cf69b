import Mathlib.Data.List.Basic
import Mathlib.Logic.Function.Basic
import Mathlib.Tactic.TypeStar

/-! # Ring buffers -/

namespace Ring

open Function

variable {α : Type*} {n tail head k : Nat} {cell cell' : Nat → α} {x : α}

theorem wrap {i} (hi : i < 2 * n) : i % n = if i < n then i else i - n := by
  split <;> rename_i h
  · exact Nat.mod_eq_of_lt h
  · rw [Nat.mod_eq_sub_mod (by omega), Nat.mod_eq_of_lt (by omega)]

def length (n tail head : Nat) : Nat := (head + (n - tail)) % n

def contents (n : Nat) (cell : Nat → α) (tail head : Nat) : List α :=
  (List.range (length n tail head)).map fun i => cell ((tail + i) % n)

def stretch (n tail head : Nat) : Nat := if tail > head then n - tail else head - tail

@[simp]
theorem length_contents : (contents n cell tail head).length = length n tail head := by
  simp [contents]

section

variable (ht : tail < n) (hh : head < n)

include ht hh

theorem length_eq : length n tail head = if tail ≤ head then head - tail else head + n - tail := by
  unfold length
  rw [wrap (by omega)]
  split <;> split <;> omega

theorem length_lt : length n tail head < n := by
  rw [length_eq ht hh]
  split <;> omega

theorem length_eq_zero : length n tail head = 0 ↔ tail = head := by
  rw [length_eq ht hh]
  split <;> omega

theorem stretch_le : tail + stretch n tail head ≤ n ∧ stretch n tail head ≤ length n tail head := by
  rw [length_eq ht hh]
  unfold stretch
  split <;> split <;> omega

omit hh in
theorem stretch_pos (hne : tail ≠ head) : 0 < stretch n tail head := by
  unfold stretch
  split <;> omega

theorem stretch_push (hf : (head + 1) % n ≠ tail) :
    stretch n tail head ≤ stretch n tail ((head + 1) % n) := by
  rw [wrap (by omega)] at hf ⊢
  unfold stretch
  split <;> split <;> split <;> split at hf <;> omega

theorem contents_push (hf : (head + 1) % n ≠ tail) :
    contents n (update cell head x) tail ((head + 1) % n) = contents n cell tail head ++ [x] := by
  have hl : length n tail ((head + 1) % n) = length n tail head + 1 := by
    have hw := wrap (n := n) (i := head + 1) (by omega)
    rw [length_eq ht (Nat.mod_lt _ (by omega)), length_eq ht hh]
    rw [hw] at hf ⊢
    split <;> split <;> split <;> split at hf <;> omega
  have hlt := length_lt ht hh
  have hle := length_eq ht hh
  simp only [contents, hl, List.range_succ, List.map_append, List.map_cons, List.map_nil]
  congr 1
  · refine List.map_congr_left fun i hi => update_of_ne ?_ ..
    rw [List.mem_range] at hi
    rw [wrap (by omega)]
    split at hle <;> split <;> omega
  · have hi : (tail + length n tail head) % n = head := by
      rw [wrap (by omega)]
      split at hle <;> split <;> omega
    rw [hi, update_self]

theorem length_drop (hk : k ≤ length n tail head) :
    length n ((tail + k) % n) head = length n tail head - k := by
  have hw := wrap (n := n) (i := tail + k) (by have := length_lt ht hh; omega)
  rw [length_eq ht hh] at hk ⊢
  rw [length_eq (Nat.mod_lt _ (by omega)) hh, hw]
  split at hk <;> split <;> split <;> omega

theorem contents_drop (hk : k ≤ length n tail head) :
    contents n cell ((tail + k) % n) head = (contents n cell tail head).drop k := by
  have hl := length_drop ht hh hk
  refine List.ext_getElem (by simp [hl]) fun i _ _ => ?_
  simp only [contents, List.getElem_map, List.getElem_range, List.getElem_drop]
  rw [Nat.mod_add_mod, Nat.add_assoc]

omit ht hh in
theorem contents_take (hk : k ≤ length n tail head) (hn : tail + k ≤ n) :
    (contents n cell tail head).take k = (List.range k).map fun i => cell (tail + i) := by
  refine List.ext_getElem (by simp [hk]) fun i hi _ => ?_
  simp only [List.length_take, length_contents] at hi
  simp only [contents, List.getElem_take, List.getElem_map, List.getElem_range]
  rw [Nat.mod_eq_of_lt (by omega)]

end

end Ring
