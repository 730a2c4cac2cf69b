import Mathlib.Data.List.Nodup
import Mathlib.Data.List.Perm.Basic

/-!
# Things in places

Of the things with the numbers below `n`, each is at one place.
-/

structure Placement {π : Type*} (n : Nat) (contents : π → List Nat) : Prop where
  nodup : ∀ p, (contents p).Nodup
  lt : ∀ {p e}, e ∈ contents p → e < n
  unique : ∀ {p r e}, e ∈ contents p → e ∈ contents r → p = r
  total : ∀ {e}, e < n → ∃ p, e ∈ contents p

namespace Placement

variable {π : Type*} {n : Nat} {contents contents' : π → List Nat} {p r : π} {e : Nat}

theorem empty (h : ∀ p, contents p = []) : Placement 0 contents where
  nodup := fun p => h p ▸ List.nodup_nil
  lt := fun {p _} he => absurd (h p ▸ he) List.not_mem_nil
  unique := fun {p _ _} he => absurd (h p ▸ he) List.not_mem_nil
  total := fun he => absurd he (Nat.not_lt_zero _)

section

variable (h : Placement n contents)

include h

theorem existsUnique (he : e < n) : ∃! p, e ∈ contents p := by
  obtain ⟨p, hp⟩ := h.total he
  exact ⟨p, hp, fun r hr => h.unique hr hp⟩

theorem disjoint (hne : p ≠ r) (he : e ∈ contents p) : e ∉ contents r :=
  fun hr => hne (h.unique he hr)

theorem move (hne : p ≠ r) (hp : (contents p).Perm (e :: contents' p))
    (hr : (contents' r).Perm (e :: contents r)) (ho : ∀ t, t ≠ p → t ≠ r → contents' t = contents t) :
    Placement n contents' := by
  have hep : e ∈ contents p := hp.symm.subset List.mem_cons_self
  have hn : (e :: contents' p).Nodup := hp.nodup (h.nodup p)
  -- where a thing is now, and where it was
  have hmem {t : π} {x : Nat} : x ∈ contents' t ↔ x ≠ e ∧ x ∈ contents t ∨ x = e ∧ t = r := by
    by_cases htp : t = p
    · subst htp
      rw [hp.mem_iff, List.mem_cons]
      constructor
      · intro hx
        refine Or.inl ⟨?_, Or.inr hx⟩
        rintro rfl
        exact (List.nodup_cons.mp hn).1 hx
      · rintro (⟨hx, hx' | hx'⟩ | ⟨-, ht⟩)
        · exact absurd hx' hx
        · exact hx'
        · exact absurd ht hne
    · by_cases htr : t = r
      · subst htr
        rw [hr.mem_iff, List.mem_cons]
        constructor
        · rintro (hx | hx)
          · exact Or.inr ⟨hx, rfl⟩
          · refine Or.inl ⟨?_, hx⟩
            rintro rfl
            exact h.disjoint hne hep hx
        · rintro (⟨-, hx⟩ | ⟨hx, -⟩)
          · exact Or.inr hx
          · exact Or.inl hx
      · rw [ho t htp htr]
        constructor
        · intro hx
          refine Or.inl ⟨?_, hx⟩
          rintro rfl
          exact h.disjoint (Ne.symm htp) hep hx
        · rintro (⟨-, hx⟩ | ⟨-, ht⟩)
          · exact hx
          · exact absurd ht htr
  refine ⟨fun t => ?_, fun {t x} hx => ?_, fun {t t' x} hx hx' => ?_, fun {x} hx => ?_⟩
  · by_cases htp : t = p
    · exact htp ▸ (List.nodup_cons.mp hn).2
    · by_cases htr : t = r
      · exact htr ▸ hr.symm.nodup (List.nodup_cons.mpr ⟨h.disjoint hne hep, h.nodup r⟩)
      · exact (ho t htp htr).symm ▸ h.nodup t
  · rcases hmem.mp hx with ⟨-, hx⟩ | ⟨rfl, -⟩
    · exact h.lt hx
    · exact h.lt hep
  · rcases hmem.mp hx with ⟨hne, hx⟩ | ⟨he, ht⟩ <;> rcases hmem.mp hx' with ⟨hne', hx'⟩ | ⟨he', ht'⟩
    · exact h.unique hx hx'
    · exact absurd he' hne
    · exact absurd he hne'
    · rw [ht, ht']
  · by_cases hxe : x = e
    · exact ⟨r, hmem.mpr (Or.inr ⟨hxe, rfl⟩)⟩
    · obtain ⟨t, ht⟩ := h.total hx
      exact ⟨t, hmem.mpr (Or.inl ⟨hxe, ht⟩)⟩

theorem add (hr : (contents' r).Perm (n :: contents r))
    (ho : ∀ t, t ≠ r → contents' t = contents t) : Placement (n + 1) contents' := by
  have hnew {t : π} : n ∉ contents t := fun hn => Nat.lt_irrefl n (h.lt hn)
  have hmem {t : π} {x : Nat} : x ∈ contents' t ↔ x ∈ contents t ∨ x = n ∧ t = r := by
    by_cases ht : t = r
    · subst ht
      rw [hr.mem_iff, List.mem_cons]
      simp [or_comm]
    · rw [ho t ht]
      simp [ht]
  refine ⟨fun t => ?_, fun {t x} hx => ?_, fun {t t' x} hx hx' => ?_, fun {x} hx => ?_⟩
  · by_cases ht : t = r
    · exact ht ▸ hr.symm.nodup (List.nodup_cons.mpr ⟨hnew, h.nodup r⟩)
    · exact (ho t ht).symm ▸ h.nodup t
  · rcases hmem.mp hx with hx | ⟨rfl, -⟩
    · exact Nat.lt_succ_of_lt (h.lt hx)
    · exact Nat.lt_succ_self x
  · rcases hmem.mp hx with hx | ⟨rfl, ht⟩ <;> rcases hmem.mp hx' with hx' | ⟨he, ht'⟩
    · exact h.unique hx hx'
    · exact absurd (he ▸ hx) hnew
    · exact absurd hx' hnew
    · rw [ht, ht']
  · rcases Nat.lt_succ_iff_lt_or_eq.mp hx with hx | rfl
    · obtain ⟨t, ht⟩ := h.total hx
      exact ⟨t, hmem.mpr (Or.inl ht)⟩
    · exact ⟨r, hmem.mpr (Or.inr ⟨rfl, rfl⟩)⟩

end

end Placement
