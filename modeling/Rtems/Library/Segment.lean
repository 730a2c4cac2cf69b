import Mathlib.Data.List.Basic
import Mathlib.Tactic.TypeStar

/-!
# Singly linked lists

A list may end in any link.
-/

def Segment {α β : Type*} (ref next : α → β) : β → List α → β → Prop
  | p, [], q => p = q
  | p, a :: l, q => p = ref a ∧ Segment ref next (next a) l q

namespace Segment

variable {α β : Type*} {ref next next' : α → β} {p q r : β} {l l' l1 l2 : List α} {a : α}

@[simp]
theorem nil_iff : Segment ref next p [] q ↔ p = q := Iff.rfl

@[simp]
theorem cons_iff : Segment ref next p (a :: l) q ↔ p = ref a ∧ Segment ref next (next a) l q := Iff.rfl

theorem congr (h : Segment ref next p l q) (hn : ∀ a ∈ l, next' a = next a) : Segment ref next' p l q := by
  induction l generalizing p with
  | nil => exact h
  | cons a l ih =>
    obtain ⟨hp, h⟩ := h
    refine ⟨hp, ?_⟩
    rw [hn a List.mem_cons_self]
    exact ih h fun b hb => hn b (List.mem_cons_of_mem a hb)

theorem append_iff : Segment ref next p (l1 ++ l2) q ↔
    ∃ r, Segment ref next p l1 r ∧ Segment ref next r l2 q := by
  induction l1 generalizing p with
  | nil => simp
  | cons a l1 ih => simp [ih, and_assoc]

theorem concat_iff : Segment ref next p (l ++ [a]) q ↔ Segment ref next p l (ref a) ∧ next a = q := by
  rw [append_iff]
  constructor
  · rintro ⟨r, h, rfl, hq⟩
    exact ⟨h, hq⟩
  · rintro ⟨h, hq⟩
    exact ⟨_, h, rfl, hq⟩

theorem unique (hr : Function.Injective ref) (hq : ∀ a, ref a ≠ q) (h : Segment ref next p l q)
    (h' : Segment ref next p l' q) : l' = l := by
  induction l generalizing p l' with
  | nil =>
    cases l' with
    | nil => rfl
    | cons b l' => exact absurd (h'.1.symm.trans h) (hq b)
  | cons a l ih =>
    cases l' with
    | nil => exact absurd (h.1.symm.trans h') (hq a)
    | cons b l' =>
      obtain rfl : b = a := hr (h'.1.symm.trans h.1)
      rw [ih h.2 h'.2]

end Segment
