import Mathlib.Tactic.TypeStar

/-! # Transition systems -/

namespace Transition

variable {σ μ : Type*} {step : σ → μ → Option σ} {P P' : σ → μ → Prop} {s s' s'' : σ} {ms : List μ}

inductive Steps (step : σ → μ → Option σ) (P : σ → μ → Prop) (s : σ) : σ → Prop
  | refl : Steps step P s s
  | tail {s' s'' : σ} {m : μ} (h : Steps step P s s') (hP : P s' m) (he : step s' m = some s'') :
      Steps step P s s''

theorem Steps.invariant {I : σ → Prop} (hI : ∀ {s m s'}, I s → P s m → step s m = some s' → I s')
    (h : Steps step P s s') (hs : I s) : I s' := by
  induction h with
  | refl => exact hs
  | tail _ hP he ih => exact hI ih hP he

theorem Steps.mono (hP : ∀ {s m}, P s m → P' s m) (h : Steps step P s s') : Steps step P' s s' := by
  induction h with
  | refl => exact .refl
  | tail _ hm he ih => exact ih.tail (hP hm) he

def run (step : σ → μ → Option σ) : List μ → σ → Option σ
  | [], s => some s
  | m :: ms, s => (step s m).bind (run step ms)

def checked (step : σ → μ → Option σ) (P : σ → μ → Prop) [∀ s m, Decidable (P s m)] (s : σ) (m : μ) :
    Option σ :=
  if P s m then step s m else none

theorem Steps.run_checked [∀ s m, Decidable (P s m)] (h : Steps step P s s')
    (he : run (checked step P) ms s' = some s'') : Steps step P s s'' := by
  induction ms generalizing s' with
  | nil => exact Option.some.inj he ▸ h
  | cons m ms ih =>
    obtain ⟨s1, h1, he⟩ := Option.bind_eq_some_iff.mp he
    unfold checked at h1
    split at h1 <;> rename_i hP
    · exact ih (h.tail hP h1) he
    · cases h1

theorem Steps.of_run (hP : ∀ s m, P s m) (he : run step ms s = some s') : Steps step P s s' := by
  suffices h : ∀ s1, Steps step P s s1 → run step ms s1 = some s' → Steps step P s s' from h s .refl he
  clear he
  induction ms with
  | nil => exact fun s1 h he => Option.some.inj he ▸ h
  | cons m ms ih =>
    intro s1 h he
    obtain ⟨s2, h2, he⟩ := Option.bind_eq_some_iff.mp he
    exact ih s2 (h.tail (hP s1 m) h2) he

/-- The end of a run tells which run it was. -/
theorem exists_of_map {ρ : Type*} {o : Option σ} {p : σ → Prop} (f : σ → ρ) (r : ρ) (h : o.map f = some r)
    (hp : ∀ s, o = some s → f s = r → p s) : ∃ s, o = some s ∧ p s := by
  obtain ⟨s, hs, hr⟩ := Option.map_eq_some_iff.mp h
  exact ⟨s, hs, hp s hs hr⟩

end Transition
