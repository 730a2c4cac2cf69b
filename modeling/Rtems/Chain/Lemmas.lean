import Rtems.Chain.Model

/-! # Chains are lists -/

namespace Rtems.Chain

open Function Intrusive

variable {C α : Type*} {L : Links C α} {ch : C → Option (List α)} {c : C} {l l1 l2 : List α}
  {a b : α}

theorem first_eq (h : Holds L c l) : first L c = succ c l := h.next_head

theorem last_eq (h : Holds L c l) : last L c = pred c l := h.previous_tail

variable [DecidableEq C] [DecidableEq α]

theorem isEmpty_iff (h : Holds L c l) : isEmpty L c = true ↔ l = [] := by
  unfold isEmpty
  rw [first_eq h]
  cases l <;> simp

theorem hasOnlyOneNode_iff (h : Holds L c l) (hnd : l.Nodup) :
    hasOnlyOneNode L c = true ↔ ∃ a, l = [a] := by
  unfold hasOnlyOneNode
  rw [first_eq h, last_eq h]
  rcases List.eq_nil_or_concat' l with rfl | ⟨k, b, rfl⟩
  · simp
  · rw [pred_concat]
    cases k with
    | nil => simp
    | cons a k =>
      have hab : a ≠ b := by rintro rfl; simp at hnd
      simp [hab]

/-! ## Editing a chain -/

section

variable (hR : Represents L ch)

include hR

theorem initializeEmpty_represents (c : C) :
    Represents (initializeEmpty L c) (update ch c (some [])) := by
  refine hR.change_one ⟨?_, ?_⟩ (by simp) (by simp) (fun n h1 h2 _ => ?_) fun n h1 h2 _ => ?_
  · refine Linked.cons_cons_iff.mpr ⟨⟨?_, ?_⟩, Linked.singleton _⟩
    · simp [initializeEmpty, Links.setNext, Links.setPrevious]
    · simp [initializeEmpty, Links.setNext, Links.setPrevious]
  · simp [initializeEmpty, Links.setNext, Links.setPrevious]
  · simp [initializeEmpty, Links.setNext, Links.setPrevious, h1, h2]
  · simp [initializeEmpty, Links.setNext, Links.setPrevious, h1, h2]

theorem initializeEmpty_all (cs : List C) :
    Represents (cs.foldl initializeEmpty L) fun c => if c ∈ cs then some [] else ch c := by
  induction cs generalizing L ch with
  | nil => simpa using hR
  | cons a cs ih =>
    refine (ih (initializeEmpty_represents hR a)).mono fun {c l} h => ?_
    by_cases hc : c ∈ cs
    · simpa [hc] using h
    · by_cases ha : c = a
      · simpa [ha] using h
      · simpa [hc, ha] using h

theorem extract_represents (hc : ch c = some (l1 ++ a :: l2)) :
    Represents (extract L (.obj a)) (update ch c (some (l1 ++ l2))) := by
  have hH := hR.holds hc
  have hnd := hR.nodup hc
  have hn := hH.next_obj
  have hp := hH.previous_obj
  unfold extract
  simp only [hn, hp]
  refine hR.change_one ⟨?_, ?_⟩ (Linked.nodup_without hnd) (fun x hx => ?_) (fun n h1 h2 h3 => ?_)
    fun n h1 h2 h3 => ?_
  · have hkey : Linked ((L.setPrevious (succ c l2) (pred c l1)).setNext (pred c l1) (succ c l2)).next
        (L.setPrevious (succ c l2) (pred c l1)).previous _ :=
      hH.split.remove_node (by simpa [nodes] using nodes_nodup hnd)
        (fun n _ hne => by rw [hp] at hne; simp [Links.next_setNext_ne hne])
        (fun n _ hne => by rw [hn] at hne; simp [Links.previous_setPrevious_ne hne])
        (by simp [hn, hp]) (by simp [hn, hp])
    simpa [nodes] using hkey
  · rw [Links.next_setNext_ne (tail_ne_pred c l1)]
    exact hH.stop
  · rw [hc]
    exact Or.inl ((Linked.mem_without hnd).mp hx).1
  all_goals
    obtain ⟨hnp, hns⟩ := outside_ne l1 l2 h1 h2 fun x hx => (h3 x hx).2
  · rw [Links.next_setNext_ne hnp]; rfl
  · exact Links.previous_setPrevious_ne hns

theorem getFirst_represents (hc : ch c = some (a :: l)) :
    (getFirst L c).2 = .obj a ∧
      Represents (getFirst L c).1 (update ch c (some l)) := by
  have hH := hR.holds hc
  have hE := extract_represents hR (show ch c = some ([] ++ a :: l) from hc)
  have hf : first L c = .obj a := first_eq hH
  have hp : L.previous (.obj a) = .head c := 
    (show Holds L c ([] ++ a :: l) from hH).previous_obj
  unfold extract at hE
  unfold getFirst
  simp only [hf, hp] at hE ⊢
  exact ⟨trivial, hE⟩

theorem insert_represents (hc : ch c = some (l1 ++ l2)) (ha : Off ch a) :
    Represents (insert L (pred c l1) (.obj a)) (update ch c (some (l1 ++ a :: l2))) := by
  have hH := hR.holds hc
  have hnd := hR.nodup hc
  have hal : a ∉ l1 ++ l2 := ha c _ hc
  obtain ⟨hn, hp⟩ := hH.link
  have hout : Node.obj a ≠ pred c l1 ∧ Node.obj a ≠ succ c l2 :=
    outside_ne l1 l2 (by simp) (by simp) fun x hx => by rw [← Node.obj.inj hx]; exact hal
  unfold insert
  simp only [Links.next_setPrevious, hn]
  refine hR.change_one ⟨?_, ?_⟩ ?_ (fun x hx => ?_) (fun n h1 h2 h3 => ?_) fun n h1 h2 h3 => ?_
  · obtain ⟨k1, k2, he, he1, he2⟩ := nodes_split c l1 l2
    have hnodes : nodes c (l1 ++ a :: l2) = k1 ++ pred c l1 :: Node.obj a :: succ c l2 :: k2 := by
      rw [nodes, List.map_append, List.map_cons, List.append_assoc, List.cons_append, he2,
        ← List.cons_append, he1, List.append_assoc, List.singleton_append]
    have hfar : ∀ n ∈ k1 ++ pred c l1 :: succ c l2 :: k2, n ≠ Node.obj a := by
      rintro n hm rfl
      rw [← he, mem_nodes] at hm
      simp only [reduceCtorEq, Node.obj.injEq, exists_eq_right', false_or] at hm
      exact hal hm
    rw [hnodes]
    refine Linked.insert_after (he ▸ hH.linked) (he ▸ nodes_nodup hnd) ?_ ?_ ?_ ?_
      (fun n hm hne => ?_) fun n hm hne => ?_
    · simp [Links.next_setNext_ne hout.1.symm]
    · simp [Links.previous_setPrevious_ne hout.2]
    · simp
    · simp
    · simp [Links.next_setNext_ne (hfar n hm), Links.next_setNext_ne hne]
    · simp [Links.previous_setPrevious_ne hne, Links.previous_setPrevious_ne (hfar n hm)]
  · simp [Links.next_setNext_ne (tail_ne_pred c l1), Links.next_setNext_ne, hH.stop]
  · exact List.perm_middle.nodup_iff.mpr (List.nodup_cons.mpr ⟨hal, hnd⟩)
  · rw [hc]
    simp only [List.mem_append, List.mem_cons] at hx
    rcases hx with hx | rfl | hx
    · exact Or.inl (by simp [hx])
    · exact Or.inr ha
    · exact Or.inl (by simp [hx])
  all_goals
    obtain ⟨hnp, hns⟩ := outside_ne l1 l2 h1 h2 fun x hx => by
      have := (h3 x hx).1; rwa [hc] at this
    have hna : n ≠ .obj a := fun he => (h3 a he).2 (by simp)
  · simp [Links.next_setNext_ne hna, Links.next_setNext_ne hnp]
  · simp [Links.previous_setPrevious_ne hns, Links.previous_setPrevious_ne hna]

theorem prepend_represents (hc : ch c = some l) (ha : Off ch a) :
    Represents (prepend L c (.obj a)) (update ch c (some (a :: l))) :=
  insert_represents hR (show ch c = some ([] ++ l) from hc) ha

omit hR in
theorem append_eq_insert (hH : Holds L c l) (ha : a ∉ l) :
    append L c (.obj a) = insert L (pred c l) (.obj a) := by
  have hl := hH.previous_tail
  rw [← List.append_nil l] at hH
  have hn := hH.link.1
  have hout : Node.obj a ≠ pred c l ∧ Node.obj a ≠ .tail c :=
    ⟨(outside_ne l [] (by simp) (by simp) fun x hx => by
      rw [← Node.obj.inj hx]; simpa using ha).1, by simp⟩
  unfold append insert last
  simp only [Links.setNext, Links.setPrevious, hl, hn, succ_nil]
  rw [update_comm hout.1, update_comm hout.2.symm]

theorem append_represents (hc : ch c = some l) (ha : Off ch a) :
    Represents (append L c (.obj a)) (update ch c (some (l ++ [a]))) := by
  rw [append_eq_insert (hR.holds hc) (ha c l hc)]
  exact insert_represents hR (show ch c = some (l ++ []) by rw [hc, List.append_nil]) ha

end

/-! ## A chain of all the nodes of an area -/

theorem initializeNodes_concat (L : Links C α) (n : Node C α) (l : List α) (a : α) :
    initializeNodes L n (l ++ [a]) =
      (((initializeNodes L n l).1.setNext (initializeNodes L n l).2 (.obj a)).setPrevious (.obj a)
        (initializeNodes L n l).2, .obj a) := by
  induction l generalizing L n with
  | nil => rfl
  | cons b l ih => exact ih _ _

theorem initializeNodes_current (L : Links C α) (n : Node C α) (l : List α) :
    (initializeNodes L n l).2 = n ∨ ∃ b ∈ l, (initializeNodes L n l).2 = .obj b := by
  rcases List.eq_nil_or_concat' l with rfl | ⟨k, b, rfl⟩
  · exact Or.inl rfl
  · refine Or.inr ⟨b, by simp, ?_⟩
    rw [initializeNodes_concat]

theorem initializeChain_concat (L : Links C α) (c : C) (ha : a ∉ l) :
    initializeChain L c (l ++ [a]) = append (initializeChain L c l) c (.obj a) := by
  unfold initializeChain append last
  simp only [initializeNodes_concat]
  have hcur := initializeNodes_current ((L.setPrevious (.head c) .null).setNext (.tail c) .null)
    (.head c) l
  generalize initializeNodes ((L.setPrevious (.head c) .null).setNext (.tail c) .null) (.head c) l = r
    at hcur ⊢
  have hne : r.2 ≠ .obj a := by
    rcases hcur with h | ⟨b, hb, h⟩
    · simp [h]
    · rw [h]
      exact fun he => ha (Node.obj.inj he ▸ hb)
  have htail : Node.tail c ≠ .obj a := by simp
  simp only [Links.setNext, Links.setPrevious, update_self, update_idem]
  rw [update_comm hne.symm, update_idem,
    update_comm htail]

theorem initializeChain_nil (L : Links C α) (c : C) :
    initializeChain L c [] = initializeEmpty L c := by
  have hne : Node.tail c ≠ (Node.head c : Node C α) := by simp
  simp only [initializeChain, initializeNodes, initializeEmpty, Links.setNext, Links.setPrevious]
  rw [update_comm hne]

theorem initializeChain_represents (hR : Represents L ch) (c : C) (hnd : l.Nodup)
    (ha : ∀ a ∈ l, Off ch a) :
    Represents (initializeChain L c l) (update ch c (some l)) := by
  induction l using List.reverseRecOn with
  | nil =>
    rw [initializeChain_nil]
    exact initializeEmpty_represents hR c
  | append_singleton l a ih =>
    obtain ⟨hnd', hal⟩ : l.Nodup ∧ a ∉ l :=
      (List.nodup_cons.mp (List.nodup_append_comm.mp hnd)).symm
    have h := ih hnd' fun b hb => ha b (by simp [hb])
    rw [initializeChain_concat L c hal]
    have hoff : Off (update ch c (some l)) a := by
      intro d k hk
      by_cases hd : d = c
      · subst hd
        rw [update_self] at hk
        exact Option.some.inj hk ▸ hal
      · rw [update_of_ne hd] at hk
        exact ha a (by simp) d k hk
    simpa using append_represents h (update_self ..) hoff

end Rtems.Chain
