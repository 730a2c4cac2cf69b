import Mathlib.Data.List.MinMax
import Mathlib.Data.List.Nodup

/-! # Stable priority queues -/

namespace StableQueue

variable {α κ : Type*} [LinearOrder κ]

structure Ranks (key : α → κ) (arrivals served : List α) : Prop where
  sorted : served.Pairwise fun x y => key x ≤ key y
  stable : ∀ k, served.filter (fun x => key x = k) = arrivals.filter fun x => key x = k

namespace Ranks

variable {key key' : α → κ} {arrivals served l1 l2 : List α} {t x : α}

theorem nil : Ranks key [] [] := ⟨.nil, fun _ => rfl⟩

section

variable (h : Ranks key arrivals served)

include h

theorem mem_iff : x ∈ served ↔ x ∈ arrivals := by
  have hx := congrArg (x ∈ ·) (h.stable (key x))
  simpa using hx

theorem perm : served.Perm arrivals := by
  classical
  refine List.perm_iff_count.mpr fun x => ?_
  have hc (l : List α) : (l.filter fun y => key y = key x).count x = l.count x :=
    List.count_filter (by simp)
  rw [← hc served, h.stable, hc]

theorem eq_nil_iff : served = [] ↔ arrivals = [] := by
  simp only [List.eq_nil_iff_forall_not_mem, h.mem_iff]

theorem congr (hk : ∀ x ∈ arrivals, key' x = key x) :
    Ranks key' arrivals served := by
  refine ⟨h.sorted.imp_of_mem fun {x y} hx hy hxy => ?_, fun k => ?_⟩
  · rw [hk x (h.mem_iff.mp hx), hk y (h.mem_iff.mp hy)]
    exact hxy
  · have hs : served.filter (fun x => key' x = k) = served.filter fun x => key x = k :=
      List.filter_congr fun x hx => by rw [hk x (h.mem_iff.mp hx)]
    have ha : arrivals.filter (fun x => key' x = k) = arrivals.filter fun x => key x = k :=
      List.filter_congr fun x hx => by rw [hk x hx]
    rw [hs, ha, h.stable]

omit h in
theorem insert (h : Ranks key arrivals (l1 ++ l2)) (h1 : ∀ x ∈ l1, key x ≤ key t)
    (h2 : ∀ x ∈ l2, key t < key x) : Ranks key (arrivals ++ [t]) (l1 ++ t :: l2) := by
  obtain ⟨hs1, hs2, hs⟩ := List.pairwise_append.mp h.sorted
  refine ⟨List.pairwise_append.mpr ⟨hs1, .cons (fun x hx => (h2 x hx).le) hs2, fun x hx y hy => ?_⟩,
    fun k => ?_⟩
  · rcases List.mem_cons.mp hy with rfl | hy
    · exact h1 x hx
    · exact hs x hx y hy
  · have hk := h.stable k
    rw [List.filter_append] at hk
    by_cases ht : key t = k
    · have h2' : l2.filter (fun x => key x = k) = [] := by
        simp only [List.filter_eq_nil_iff, decide_eq_true_eq]
        exact fun x hx hxk => (h2 x hx).ne (ht.trans hxk.symm)
      rw [h2', List.append_nil] at hk
      simp [List.filter_append, ht, hk, h2']
    · simp [List.filter_append, ht, hk]

theorem erase [DecidableEq α] (t : α) :
    Ranks key (arrivals.erase t) (served.erase t) := by
  refine ⟨h.sorted.sublist List.erase_sublist, fun k => ?_⟩
  rw [← List.erase_filter, ← List.erase_filter, h.stable]

theorem head?_eq : served.head? = arrivals.argmin key := by
  classical
  cases served with
  | nil => rw [h.eq_nil_iff.mp rfl]; rfl
  | cons t l =>
    have hle : ∀ x ∈ arrivals, key t ≤ key x := by
      intro x hx
      rcases List.mem_cons.mp (h.mem_iff.mpr hx) with rfl | hx
      · exact le_rfl
      · exact List.rel_of_pairwise_cons h.sorted hx
    -- nothing of the same key has arrived before it
    have hf : arrivals.find? (fun x => key x = key t) = some t := by
      rw [← List.head?_filter, ← h.stable (key t)]
      simp
    obtain ⟨-, l1, l2, rfl, hl⟩ := List.find?_eq_some_iff_append.mp hf
    have hl : ∀ x ∈ l1, key x ≠ key t := fun x hx => by simpa using hl x hx
    refine (List.argmin_eq_some_iff.mpr ⟨by simp, hle, fun x hx hxt => ?_⟩).symm
    have hx1 : x ∉ l1 := fun hx1 => hl x hx1 (le_antisymm hxt (hle x hx))
    have ht1 : t ∉ l1 := fun ht1 => hl t ht1 rfl
    rw [List.idxOf_append_of_notMem hx1, List.idxOf_append_of_notMem ht1]
    simp

end

end Ranks

end StableQueue
