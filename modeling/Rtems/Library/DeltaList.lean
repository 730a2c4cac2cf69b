import Mathlib.Algebra.GroupWithZero.Nat
import Mathlib.Data.List.Nodup
import Mathlib.Logic.Function.Basic
import Mathlib.Algebra.BigOperators.Group.List.Basic

/-! # Delta lists -/

namespace DeltaList

open Function

variable {α : Type*} [DecidableEq α] {δ δ' : α → Nat} {l l1 l2 : List α} {a v w : α} {d : Nat}

def due (δ : α → Nat) : List α → α → Nat
  | [], _ => 0
  | a :: l, w => if a = w then δ a else δ a + due δ l w

def total (δ : α → Nat) (l : List α) : Nat := (l.map δ).sum

@[simp] theorem due_cons_self : due δ (w :: l) w = δ w := by simp [due]

theorem due_cons_ne (h : a ≠ w) : due δ (a :: l) w = δ a + due δ l w := by simp [due, h]

theorem le_due_cons : δ a ≤ due δ (a :: l) w := by
  unfold due
  split <;> omega

theorem le_due (h : w ∈ l) : δ w ≤ due δ l w := by
  induction l with
  | nil => cases h
  | cons a l ih =>
    by_cases ha : a = w
    · subst ha
      exact Nat.le_of_eq due_cons_self.symm
    · rw [due_cons_ne ha]
      exact Nat.le_add_left_of_le (ih ((List.mem_cons.mp h).resolve_left (Ne.symm ha)))

theorem due_congr (h : ∀ a ∈ l, δ' a = δ a) : due δ' l w = due δ l w := by
  induction l with
  | nil => rfl
  | cons a l ih =>
    have ha := h a (by simp)
    have hl := ih fun b hb => h b (by simp [hb])
    simp only [due, ha, hl]

omit [DecidableEq α] in
theorem total_congr (h : ∀ a ∈ l, δ' a = δ a) : total δ' l = total δ l := by
  unfold total
  rw [List.map_congr_left h]

theorem due_append_left (hw : w ∈ l1) : due δ (l1 ++ l2) w = due δ l1 w := by
  induction l1 with
  | nil => simp at hw
  | cons a l ih =>
    by_cases ha : a = w
    · subst ha; simp
    · rw [List.cons_append, due_cons_ne ha, due_cons_ne ha,
        ih (by simpa [Ne.symm ha] using hw)]

theorem due_append_right (hw : w ∉ l1) : due δ (l1 ++ l2) w = total δ l1 + due δ l2 w := by
  induction l1 with
  | nil => simp [total]
  | cons a l ih =>
    simp only [List.mem_cons, not_or] at hw
    rw [List.cons_append, due_cons_ne (Ne.symm hw.1), ih hw.2]
    simp only [total, List.map_cons, List.sum_cons]
    omega

theorem due_middle (h : (l1 ++ w :: l2).Nodup) : due δ (l1 ++ w :: l2) w = total δ (l1 ++ [w]) := by
  have hw : w ∉ l1 := fun hm => (List.nodup_append.mp h).2.2 w hm w (by simp) rfl
  rw [due_append_right hw]
  simp [total]

theorem due_update_head (hnd : (a :: l).Nodup) (hv : v ∈ a :: l) (x : Nat) :
    due (update δ a x) (a :: l) v + δ a = due δ (a :: l) v + x := by
  have hal := (List.nodup_cons.mp hnd).1
  have hl : ∀ b ∈ l, update δ a x b = δ b := fun b hb =>
    update_of_ne (by rintro rfl; exact hal hb) x δ
  by_cases hav : a = v
  · subst hav; simp; omega
  · rw [due_cons_ne hav, due_cons_ne hav, due_congr hl, update_self]
    omega

theorem due_update_middle (hnd : (l1 ++ a :: l2).Nodup) (x : Nat) :
    (v ∈ l1 → due (update δ a x) (l1 ++ a :: l2) v = due δ (l1 ++ a :: l2) v) ∧
      (v ∈ a :: l2 →
        due (update δ a x) (l1 ++ a :: l2) v + δ a = due δ (l1 ++ a :: l2) v + x) := by
  obtain ⟨-, hnd2, hdisj⟩ := List.nodup_append.mp hnd
  have h1 : ∀ b ∈ l1, update δ a x b = δ b := fun b hb =>
    update_of_ne (hdisj b hb a (by simp)) x δ
  refine ⟨fun hv => ?_, fun hv => ?_⟩
  · rw [due_append_left hv, due_append_left hv, due_congr h1]
  · have hv1 : v ∉ l1 := fun h => hdisj v h v hv rfl
    have := due_update_head (δ := δ) hnd2 hv x
    rw [due_append_right hv1, due_append_right hv1, total_congr h1]
    omega

def inherit (δ : α → Nat) (w : α) : List α → α → Nat
  | [] => δ
  | a :: _ => update δ a (δ a + δ w)

theorem inherit_of_notMem (h : v ∉ l) : inherit δ w l v = δ v := by
  cases l with
  | nil => rfl
  | cons a l => exact update_of_ne (by rintro rfl; simp at h) _ δ

theorem due_inherit (hnd : (l1 ++ w :: l2).Nodup) (hv : v ∈ l1 ++ l2) :
    due (inherit δ w l2) (l1 ++ l2) v = due δ (l1 ++ w :: l2) v := by
  simp only [List.nodup_append, List.nodup_cons, List.mem_cons] at hnd
  obtain ⟨-, ⟨hw2, hnd2⟩, hdisj⟩ := hnd
  have h1 : ∀ b ∈ l1, inherit δ w l2 b = δ b := fun b hb =>
    inherit_of_notMem fun h => hdisj b hb b (Or.inr h) rfl
  by_cases hv1 : v ∈ l1
  · rw [due_append_left hv1, due_append_left hv1, due_congr h1]
  · have hv2 : v ∈ l2 := (List.mem_append.mp hv).resolve_left hv1
    have hwv : w ≠ v := by rintro rfl; exact hw2 hv2
    rw [due_append_right hv1, due_append_right hv1, total_congr h1, due_cons_ne hwv]
    cases l2 with
    | nil => simp at hv2
    | cons a l =>
      have := due_update_head (δ := δ) hnd2 hv2 (δ a + δ w)
      simp only [inherit]
      omega

/-- `w` is put in before `l`, to be due `d` after what stands before. -/
def place (δ : α → Nat) (w : α) (d : Nat) : List α → α → Nat
  | [] => update δ w d
  | a :: _ => update (update δ a (δ a - d)) w d

theorem place_self : place δ w d l w = d := by cases l <;> simp [place]

theorem place_of_notMem (hv : v ∉ l) (hne : v ≠ w) : place δ w d l v = δ v := by
  cases l with
  | nil => simp [place, hne]
  | cons a l =>
    have hva : v ≠ a := by rintro rfl; simp at hv
    simp [place, hne, hva]

theorem due_place_self (hw : w ∉ l1 ++ l2) (hnd : (l1 ++ l2).Nodup) :
    due (place δ w d l2) (l1 ++ w :: l2) w = total δ l1 + d := by
  simp only [List.mem_append, not_or] at hw
  have h1 : ∀ b ∈ l1, place δ w d l2 b = δ b := fun b hb =>
    place_of_notMem (fun h => (List.nodup_append.mp hnd).2.2 b hb b h rfl)
      (by rintro rfl; exact hw.1 hb)
  rw [due_append_right hw.1, total_congr h1, due_cons_self, place_self]

theorem due_place (hw : w ∉ l1 ++ l2) (hnd : (l1 ++ l2).Nodup) (hd : ∀ a ∈ l2.head?, d ≤ δ a)
    (hv : v ∈ l1 ++ l2) : due (place δ w d l2) (l1 ++ w :: l2) v = due δ (l1 ++ l2) v := by
  have hwv : w ≠ v := by rintro rfl; exact hw hv
  simp only [List.mem_append, not_or] at hw
  obtain ⟨-, hnd2, hdisj⟩ := List.nodup_append.mp hnd
  have h1 : ∀ b ∈ l1, place δ w d l2 b = δ b := fun b hb =>
    place_of_notMem (fun h => hdisj b hb b h rfl) (by rintro rfl; exact hw.1 hb)
  by_cases hv1 : v ∈ l1
  · rw [due_append_left hv1, due_append_left hv1, due_congr h1]
  · have hv2 : v ∈ l2 := (List.mem_append.mp hv).resolve_left hv1
    rw [due_append_right hv1, due_append_right hv1, total_congr h1, due_cons_ne hwv, place_self]
    cases l2 with
    | nil => simp at hv2
    | cons a l =>
      have hda := hd a (by simp)
      have hpl : ∀ b ∈ a :: l, place δ w d (a :: l) b = update δ a (δ a - d) b :=
        fun b hb => update_of_ne (by rintro rfl; exact hw.2 hb) _ _
      have := due_update_head (δ := δ) hnd2 hv2 (δ a - d)
      rw [due_congr hpl]
      omega

end DeltaList
