import Mathlib.Data.List.Chain

/-! # Doubly linked lists -/

def Linked {α : Type*} (next prev : α → α) (l : List α) : Prop :=
  l.IsChain fun x y => next x = y ∧ prev y = x

namespace Linked

open List (append_assoc cons_append mem_append mem_cons nodup_append)

variable {α : Type*} {next prev next' prev' : α → α} {l1 l2 l : List α} {w x y z : α}

theorem append_iff :
    Linked next prev (l1 ++ x :: l2) ↔ Linked next prev (l1 ++ [x]) ∧ Linked next prev (x :: l2) :=
  List.isChain_split

theorem cons_cons_iff :
    Linked next prev (x :: y :: l) ↔ (next x = y ∧ prev y = x) ∧ Linked next prev (y :: l) :=
  List.isChain_cons_cons

theorem singleton (x : α) : Linked next prev [x] := List.isChain_singleton x

theorem mid (h : Linked next prev (l1 ++ x :: y :: l2)) : next x = y ∧ prev y = x :=
  (cons_cons_iff.mp (append_iff.mp h).2).1

theorem congr (h : Linked next prev l) (hn : ∀ a ∈ l.dropLast, next' a = next a)
    (hp : ∀ a ∈ l.tail, prev' a = prev a) : Linked next' prev' l := by
  induction l with
  | nil => exact List.isChain_nil
  | cons x l ih =>
    cases l with
    | nil => exact singleton x
    | cons y l =>
      obtain ⟨⟨h1, h2⟩, h3⟩ := cons_cons_iff.mp h
      simp only [List.dropLast_cons_cons, List.tail_cons, mem_cons] at hn hp
      refine cons_cons_iff.mpr ⟨⟨?_, ?_⟩, ih h3 (fun a ha => hn a (Or.inr ha)) ?_⟩
      · rw [hn x (Or.inl rfl), h1]
      · rw [hp y (Or.inl rfl), h2]
      · exact fun a ha => hp a (Or.inr ha)

theorem congr_left (h : Linked next prev (l1 ++ [x])) (hn : ∀ a ∈ l1, next' a = next a)
    (hp : ∀ a ∈ l1 ++ [x], prev' a = prev a) : Linked next' prev' (l1 ++ [x]) :=
  h.congr (by simpa using hn) fun a ha => hp a (List.mem_of_mem_tail ha)

theorem congr_right (h : Linked next prev (x :: l2)) (hn : ∀ a ∈ x :: l2, next' a = next a)
    (hp : ∀ a ∈ l2, prev' a = prev a) : Linked next' prev' (x :: l2) :=
  h.congr (fun a ha => hn a ((List.dropLast_sublist _).mem ha)) hp

theorem splice (m m' : List α) (h : Linked next prev (l1 ++ x :: (m ++ z :: l2)))
    (hm : Linked next' prev' (x :: (m' ++ [z])))
    (hn : ∀ a ∈ l1 ++ z :: l2, next' a = next a) (hp : ∀ a ∈ l1 ++ x :: l2, prev' a = prev a) :
    Linked next' prev' (l1 ++ x :: (m' ++ z :: l2)) := by
  simp only [mem_append, mem_cons] at hn hp
  obtain ⟨hl, hr⟩ := append_iff.mp h
  rw [← cons_append, append_iff] at hr
  refine append_iff.mpr ⟨hl.congr_left (fun a ha => hn a (Or.inl ha)) ?_, ?_⟩
  · intro a ha
    rcases mem_append.mp ha with ha | ha
    · exact hp a (Or.inl ha)
    · exact hp a (Or.inr (Or.inl (List.mem_singleton.mp ha)))
  · rw [← cons_append, append_iff]
    refine ⟨hm, hr.2.congr_right ?_ fun a ha => hp a (Or.inr (Or.inr ha))⟩
    exact fun a ha => hn a (Or.inr (mem_cons.mp ha))

theorem insert (h : Linked next prev (l1 ++ x :: z :: l2)) (hx : next' x = y) (hy : prev' y = x)
    (hy' : next' y = z) (hz : prev' z = y) (hn : ∀ a ∈ l1 ++ z :: l2, next' a = next a)
    (hp : ∀ a ∈ l1 ++ x :: l2, prev' a = prev a) : Linked next' prev' (l1 ++ x :: y :: z :: l2) :=
  splice [] [y] h
    (cons_cons_iff.mpr ⟨⟨hx, hy⟩, cons_cons_iff.mpr ⟨⟨hy', hz⟩, singleton z⟩⟩) hn hp

/-! ## Lists between two ends -/

theorem mem_without {a} (h : (l1 ++ y :: l2).Nodup) :
    a ∈ l1 ++ l2 ↔ a ∈ l1 ++ y :: l2 ∧ a ≠ y := by
  simp only [nodup_append, List.nodup_cons, mem_cons] at h
  simp only [mem_append, mem_cons]
  constructor
  · rintro (ha | ha)
    · exact ⟨Or.inl ha, h.2.2 a ha y (Or.inl rfl)⟩
    · exact ⟨Or.inr (Or.inr ha), by rintro rfl; exact h.2.1.1 ha⟩
  · rintro ⟨ha | ha | ha, hne⟩
    · exact Or.inl ha
    · exact absurd ha hne
    · exact Or.inr ha

theorem nodup_without (h : (l1 ++ y :: l2).Nodup) : (l1 ++ l2).Nodup :=
  h.sublist ((List.sublist_cons_self y l2).append_left l1)

variable {s t : α}

section

variable (h : Linked next prev (s :: (l1 ++ y :: (l2 ++ [t]))))

include h

theorem neighbours :
    ∃ k1 x z k2, s :: l1 = k1 ++ [x] ∧ l2 ++ [t] = z :: k2 ∧
      next y = z ∧ prev y = x := by
  obtain ⟨k1, x, hk1⟩ : ∃ k1 x, s :: l1 = k1 ++ [x] :=
    ⟨(s :: l1).dropLast, (s :: l1).getLast (by simp), (List.dropLast_append_getLast _).symm⟩
  obtain ⟨z, k2, hk2⟩ : ∃ z k2, l2 ++ [t] = z :: k2 := by
    cases l2 with
    | nil => exact ⟨t, [], rfl⟩
    | cons z l2 => exact ⟨z, l2 ++ [t], rfl⟩
  rw [← cons_append, hk1, hk2, append_assoc, List.singleton_append] at h
  have hxy := h.mid
  rw [List.append_cons] at h
  exact ⟨k1, x, z, k2, hk1, hk2, h.mid.1, hxy.2⟩

variable (hnd : (s :: (l1 ++ y :: (l2 ++ [t]))).Nodup)
  (hn : ∀ a ∈ s :: (l1 ++ l2 ++ [t]), a ≠ prev y → next' a = next a)
  (hp : ∀ a ∈ s :: (l1 ++ l2 ++ [t]), a ≠ next y → prev' a = prev a)

include hnd hn hp

theorem splice_node (m : List α) (hm : Linked next' prev' (prev y :: (m ++ [next y]))) :
    Linked next' prev' (s :: (l1 ++ m ++ l2 ++ [t])) := by
  obtain ⟨k1, x, z, k2, h1, h2, hyz, hyx⟩ := h.neighbours
  have hmem : ∀ a, a ∈ k1 ∨ a = x ∨ a = z ∨ a ∈ k2 → a ∈ s :: (l1 ++ l2 ++ [t]) := by
    rw [← cons_append, ← cons_append, h1, append_assoc, h2]
    simp
  rw [← cons_append, h1, h2, append_assoc, List.singleton_append] at h hnd
  have hxk : ∀ a, a ∈ k1 ∨ a = z ∨ a ∈ k2 → a ≠ x := fun a ha =>
    ((mem_without hnd).mp (by simp only [mem_append, mem_cons]; tauto)).2
  have hzk : ∀ a, a ∈ k1 ∨ a = x ∨ a ∈ k2 → a ≠ z := fun a ha =>
    ((mem_without (show (k1 ++ [x, y] ++ z :: k2).Nodup by simpa using hnd)).mp
      (by simp only [mem_append, mem_cons]; tauto)).2
  rw [hyz, hyx] at hm
  rw [hyx] at hn
  rw [hyz] at hp
  have key := splice [y] m (by simpa using h) hm
    (fun a ha => by
      simp only [mem_append, mem_cons] at ha
      exact hn a (hmem a (by tauto)) (hxk a (by tauto)))
    (fun a ha => by
      simp only [mem_append, mem_cons] at ha
      exact hp a (hmem a (by tauto)) (hzk a (by tauto)))
  rw [← h2, ← List.singleton_append, ← append_assoc, ← h1] at key
  simpa using key

theorem remove_node (hx : next' (prev y) = next y) (hz : prev' (next y) = prev y) :
    Linked next' prev' (s :: (l1 ++ l2 ++ [t])) := by
  simpa using h.splice_node hnd hn hp [] (cons_cons_iff.mpr ⟨⟨hx, hz⟩, singleton _⟩)

theorem replace_node (hx : next' (prev y) = w) (hw : prev' w = prev y) (hw' : next' w = next y)
    (hz : prev' (next y) = w) : Linked next' prev' (s :: (l1 ++ w :: (l2 ++ [t]))) := by
  have hm : Linked next' prev' (prev y :: ([w] ++ [next y])) :=
    cons_cons_iff.mpr ⟨⟨hx, hw⟩, cons_cons_iff.mpr ⟨⟨hw', hz⟩, singleton _⟩⟩
  simpa using h.splice_node hnd hn hp [w] hm

end

theorem insert_after (h : Linked next prev (l1 ++ x :: z :: l2))
    (hnd : (l1 ++ x :: z :: l2).Nodup) (hx : next' x = w) (hw : prev' w = x) (hw' : next' w = z)
    (hz : prev' z = w) (hn : ∀ a ∈ l1 ++ x :: z :: l2, a ≠ x → next' a = next a)
    (hp : ∀ a ∈ l1 ++ x :: z :: l2, a ≠ z → prev' a = prev a) :
    Linked next' prev' (l1 ++ x :: w :: z :: l2) := by
  refine h.insert hx hw hw' hz (fun a ha => ?_) fun a ha => ?_
  · obtain ⟨hm, hne⟩ := (mem_without hnd).mp ha
    exact hn a hm hne
  · rw [List.append_cons] at ha hnd
    obtain ⟨hm, hne⟩ := (mem_without hnd).mp ha
    exact hp a (List.append_cons .. ▸ hm) hne

end Linked
