import Rtems.Psignal.Model

/-! # Members of sets of signals -/

namespace Rtems.Psignal

variable {x y : SigSet} {sig sig' : Nat}

section

variable (h : isValidSigno sig)

include h

theorem signoToMask_eq : signoToMask sig = BitVec.twoPow 32 (sig - 1) := by
  cases sig with
  | zero => simp [isValidSigno] at h
  | succ sig => rfl

omit h in
theorem isValidSigno_of_mask (h : signoToMask sig ≠ 0) : isValidSigno sig := by
  cases sig with
  | zero => exact absurd rfl h
  | succ sig =>
    have hlt : sig < 32 := by
      by_contra hn
      exact h (BitVec.shiftLeft_eq_zero (Nat.le_of_not_lt hn))
    simp only [isValidSigno, decide_eq_true_eq]
    omega

theorem and_mask_ne_zero : x &&& signoToMask sig ≠ 0 ↔ x.getLsbD (sig - 1) = true := by
  have hs : 1 ≤ sig ∧ sig ≤ 32 := by simpa [isValidSigno] using h
  rw [signoToMask_eq h, BitVec.and_twoPow]
  split <;> rename_i hx
  · refine iff_of_true (fun h0 => ?_) hx
    have ht := congrArg (BitVec.getLsbD · (sig - 1)) h0
    simp at ht
    omega
  · exact iff_of_false (fun h0 => h0 rfl) hx

theorem getLsbD_mask (h' : isValidSigno sig') :
    (signoToMask sig).getLsbD (sig' - 1) = decide (sig' = sig) := by
  have hs : 1 ≤ sig ∧ sig ≤ 32 := by simpa [isValidSigno] using h
  have hs' : 1 ≤ sig' ∧ sig' ≤ 32 := by simpa [isValidSigno] using h'
  rw [signoToMask_eq h, BitVec.getLsbD_twoPow]
  by_cases he : sig' = sig
  · simp [he]
    omega
  · have hne : ¬ sig - 1 = sig' - 1 := by omega
    simp [he, hne]

theorem signoToMask_ne_zero : signoToMask sig ≠ 0 := by
  intro h0
  have ht := getLsbD_mask h h
  simp [h0] at ht

theorem or_mask (h' : isValidSigno sig') :
    (x ||| signoToMask sig) &&& signoToMask sig' ≠ 0 ↔ sig' = sig ∨ x &&& signoToMask sig' ≠ 0 := by
  rw [and_mask_ne_zero h', and_mask_ne_zero h', BitVec.getLsbD_or, getLsbD_mask h h']
  simp [or_comm]

theorem and_not_mask (h' : isValidSigno sig') :
    (x &&& ~~~signoToMask sig) &&& signoToMask sig' ≠ 0 ↔ sig' ≠ sig ∧ x &&& signoToMask sig' ≠ 0 := by
  have hs' : 1 ≤ sig' ∧ sig' ≤ 32 := by simpa [isValidSigno] using h'
  have hlt : sig' - 1 < 32 := by omega
  rw [and_mask_ne_zero h', and_mask_ne_zero h', BitVec.getLsbD_and, BitVec.getLsbD_not, getLsbD_mask h h']
  simp [hlt, and_comm]

end

theorem ne_zero_of_checked (h : signoToMask sig &&& (x &&& y) ≠ 0) : x &&& signoToMask sig ≠ 0 := by
  intro h0
  apply h
  calc signoToMask sig &&& (x &&& y) = (x &&& signoToMask sig) &&& y := by
        rw [← BitVec.and_assoc, BitVec.and_comm (signoToMask sig)]
    _ = 0 := by
        rw [h0]
        exact BitVec.zero_and

theorem ne_zero_of_cleared (h : (x &&& y) &&& signoToMask sig ≠ 0) : x &&& signoToMask sig ≠ 0 :=
  ne_zero_of_checked (BitVec.and_comm .. ▸ h)

theorem and_not_and_self : (x &&& ~~~y) &&& y = 0 := by
  rw [BitVec.and_assoc, BitVec.and_comm (~~~y), BitVec.and_not_self]
  exact BitVec.and_zero

theorem isValidSigno_of_mem (h : x &&& signoToMask sig ≠ 0) : isValidSigno sig :=
  isValidSigno_of_mask fun h0 => h (by rw [h0]; exact BitVec.and_zero)

theorem ne_zero_of_mem (h : x &&& signoToMask sig ≠ 0) : x ≠ 0 := by
  rintro rfl
  exact h BitVec.zero_and

end Rtems.Psignal
