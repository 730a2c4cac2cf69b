import Rtems.Priority.Model

/-! # The bit map as a set of priorities -/

namespace Rtems.Priority

open Function

def bit (v : BitVec 16) (n : Fin 16) : Prop := v.getLsbD (15 - n) = true

theorem bit_mask : ∀ n k : Fin 16, bit (mask n) k ↔ k = n := by
  unfold bit mask
  decide

theorem bit_or {v w n} : bit (v ||| w) n ↔ bit v n ∨ bit w n := by
  simp [bit]

theorem bit_and_not {v w n} : bit (v &&& ~~~w) n ↔ bit v n ∧ ¬ bit w n := by
  simp only [bit, BitVec.getLsbD_and, BitVec.getLsbD_not, Bool.and_eq_true, Bool.not_eq_true']
  have : 15 - (n : Nat) < 16 := by omega
  simp [this]

theorem bit_zero (n : Fin 16) : ¬ bit 0 n := by simp [bit]

theorem eq_zero_iff {v} : v = 0 ↔ ∀ n, ¬ bit v n := by
  refine ⟨fun h n => h ▸ bit_zero n, fun h => BitVec.eq_of_getLsbD_eq fun i hi => ?_⟩
  have := h ⟨15 - i, by omega⟩
  simp only [bit] at this
  rw [show 15 - (15 - i) = i by omega] at this
  simpa using this

/-! ## The set of priorities -/

def ofParts (a b : Fin 16) : Priority := ⟨16 * a + b, by omega⟩

@[simp] theorem ofParts_major_minor (p : Priority) : ofParts (major p) (minor p) = p := by
  apply Fin.ext
  simp only [ofParts, major, minor]
  omega

theorem ext_parts {p q} (h1 : major p = major q) (h2 : minor p = minor q) : p = q := by
  rw [← ofParts_major_minor p, h1, h2, ofParts_major_minor]

def BitMap.marked (B : BitMap) (p : Priority) : Prop :=
  bit (B.minor (Priority.major p)) (Priority.minor p)

structure Marks (B : BitMap) (S : Priority → Prop) : Prop where
  minor : ∀ p, B.marked p ↔ S p
  major : ∀ a, bit B.major a ↔ B.minor a ≠ 0

namespace Marks

variable {B : BitMap} {S S' : Priority → Prop} {p : Priority}

theorem congr (h : Marks B S) (hS : ∀ p, S' p ↔ S p) : Marks B S' :=
  ⟨fun p => (h.minor p).trans (hS p).symm, h.major⟩

theorem empty : Marks BitMap.empty fun _ => False :=
  ⟨fun _ => by simp [BitMap.marked, BitMap.empty, bit], fun _ => by simp [BitMap.empty, bit]⟩

theorem add (h : Marks B S) (p : Priority) :
    Marks (B.add (initializeInformation p)) fun q => S q ∨ q = p := by
  refine ⟨fun q => ?_, fun a => ?_⟩
  · rw [← h.minor q]
    simp only [BitMap.marked, BitMap.add, initializeInformation]
    by_cases hm : Priority.major q = Priority.major p
    · rw [hm, update_self, bit_or, bit_mask]
      refine or_congr_right ⟨fun hq => ext_parts hm hq, fun hq => hq ▸ rfl⟩
    · rw [update_of_ne hm]
      exact ⟨Or.inl, fun h => h.resolve_right fun hq => hm (hq ▸ rfl)⟩
  · simp only [BitMap.add, initializeInformation, bit_or, bit_mask, h.major a]
    by_cases ha : a = Priority.major p
    · subst ha
      simp only [or_true, update_self, ne_eq, true_iff, eq_zero_iff, bit_or, bit_mask]
      exact fun h => h _ (Or.inr rfl)
    · simp [ha]

theorem remove (h : Marks B S) (p : Priority) :
    Marks (B.remove (initializeInformation p)) fun q => S q ∧ q ≠ p := by
  refine ⟨fun q => ?_, fun a => ?_⟩
  · rw [← h.minor q]
    simp only [BitMap.marked, BitMap.remove, initializeInformation]
    by_cases hm : Priority.major q = Priority.major p
    · rw [hm, update_self, bit_and_not, bit_mask]
      refine and_congr_right fun _ => not_congr ⟨fun hq => ext_parts hm hq, fun hq => hq ▸ rfl⟩
    · rw [update_of_ne hm]
      exact ⟨fun hb => ⟨hb, fun hq => hm (hq ▸ rfl)⟩, And.left⟩
  · change bit (if B.minor (Priority.major p) &&& ~~~mask (Priority.minor p) = 0 then
        B.major &&& ~~~mask (Priority.major p) else B.major) a ↔
      update B.minor (Priority.major p)
        (B.minor (Priority.major p) &&& ~~~mask (Priority.minor p)) a ≠ 0
    by_cases ha : a = Priority.major p
    · subst ha
      rw [update_self]
      by_cases hz : B.minor (Priority.major p) &&& ~~~mask (Priority.minor p) = 0
      · rw [if_pos hz, bit_and_not, bit_mask]
        simp [hz]
      · rw [if_neg hz, h.major]
        simp only [ne_eq, hz, not_false_eq_true, iff_true]
        intro h0
        simp [h0] at hz
    · rw [update_of_ne ha, ← h.major a]
      by_cases hz : B.minor (Priority.major p) &&& ~~~mask (Priority.minor p) = 0
      · rw [if_pos hz, bit_and_not, bit_mask]
        simp [ha]
      · rw [if_neg hz]

end Marks

end Rtems.Priority
