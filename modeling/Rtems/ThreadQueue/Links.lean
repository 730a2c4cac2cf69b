import Rtems.Chain.Lemmas
import Rtems.ThreadQueue.Model

/-! # What the routines of a priority queue do to the links -/

namespace Rtems.ThreadQueue

open Function Intrusive Thread

variable {Q T : Type*} [DecidableEq Q] [DecidableEq T] {L : Links (QueueName Q T) T}
  {ch : QueueName Q T → Option (List T)} {c : QueueName Q T}
  {l1 l2 fs : List T} {t f : T} {n : Node (QueueName Q T) T}

theorem linkAfter_eq (h : .obj t ≠ n) : linkAfter L t n = Chain.insert L n (.obj t) := by
  simp only [linkAfter, Chain.insert, Links.setNext, Links.setPrevious]
  rw [update_comm h.symm]

theorem linkBefore_eq (h : L.next (L.previous n) = n) (hn : .obj t ≠ L.previous n) :
    linkBefore L t n = Chain.insert L (L.previous n) (.obj t) := by
  simp only [linkBefore, Chain.insert, Links.setNext, Links.setPrevious, h]
  rw [update_comm hn.symm]

section

variable (hR : Represents L ch)

include hR

omit hR [DecidableEq Q] [DecidableEq T] in
theorem ne_pred (hc : ch c = some (l1 ++ l2)) (ht : Off ch t) : Node.obj t ≠ pred c l1 :=
  (outside_ne l1 l2 (by simp) (by simp) fun x hx => Node.obj.inj hx ▸ ht c _ hc).1

theorem linkAfter_represents (hc : ch c = some (l1 ++ l2)) (ht : Off ch t) :
    Represents (linkAfter L t (pred c l1)) (update ch c (some (l1 ++ t :: l2))) := by
  rw [linkAfter_eq (ne_pred hc ht)]
  exact Chain.insert_represents hR hc ht

theorem linkBefore_represents (hc : ch c = some (l1 ++ l2)) (ht : Off ch t) :
    Represents (linkBefore L t (succ c l2)) (update ch c (some (l1 ++ t :: l2))) := by
  obtain ⟨hn, hp⟩ := (hR.holds hc).link
  rw [linkBefore_eq (by rw [hp, hn]) (by rw [hp]; exact ne_pred hc ht), hp]
  exact Chain.insert_represents hR hc ht

/-! ## Unlinking -/

theorem unlinkPriority_alone (hc : ch c = some (l1 ++ t :: l2))
    (hb : ch (block2n t) = some []) :
    Represents (unlinkPriority L t) (update ch c (some (l1 ++ l2))) := by
  have he : Chain.isEmpty L (block2n t) = true := (Chain.isEmpty_iff (hR.holds hb)).mpr rfl
  have hu : unlinkPriority L t = Chain.extract L (.obj t) := by
    simp only [unlinkPriority, he, not_true_eq_false, if_false]
    rfl
  rw [hu]
  exact Chain.extract_represents hR hc

theorem promote_represents (hc : ch c = some (l1 ++ t :: l2))
    (hb : ch (block2n t) = some (f :: fs)) (hf : ch (block2n f) = some []) (hcb : c ≠ block2n t) :
    Represents (promote L t f) (handOver ch c (block2n t) (block2n f) (l1 ++ f :: l2) fs) := by
  have hB := hR.holds hb
  have hC := hR.holds hc
  have hcf : block2n f ≠ c := by
    rintro rfl
    simp [hf] at hc
  have hobj : ∀ x ∈ f :: fs, Node.obj x ≠ pred c l1 ∧ Node.obj x ≠ succ c l2 := fun x hx =>
    hR.ne_around hc hcb.symm hb (by simp only [mem_nodes]; exact Or.inr (Or.inr ⟨x, hx, rfl⟩))
  have hhead : ∀ {x k}, x ≠ c → ch x = some k → Node.head x ≠ pred c l1 := fun hx hk =>
    (hR.ne_around hc hx hk (show Node.head _ ∈ _ by simp [nodes])).1
  have htail : ∀ {x k}, x ≠ c → ch x = some k → Node.tail x ≠ succ c l2 := fun hx hk =>
    (hR.ne_around hc hx hk (show Node.tail _ ∈ _ by simp [nodes])).2
  have hfP := (hobj f (by simp)).1
  have hfN := (hobj f (by simp)).2
  have hsecond : L.next (.obj f) = succ (block2n t) fs :=
    (show Holds L (block2n t) ([] ++ f :: fs) from hB).next_obj
  have hbf := hR.holds hf
  simp only [promote, hC.next_obj, hC.previous_obj, hsecond, Chain.hasOnlyOneNode,
    Chain.first, Chain.last, Links.setNext, Links.setPrevious]
  rw [update_of_ne (by simp), update_of_ne (hhead hcb.symm hb),
    update_of_ne (by simp), update_of_ne (htail hcb.symm hb), hB.next_head,
    hB.previous_tail, succ_cons]
  cases fs with
  | nil =>
    refine hR.handOver hc hb hf hcb ?_ ?_ ?_ ?_ ?_ ?_ ?_ ?_ (fun n h1 h2 _ _ => ?_) fun n h1 h2 _ _ => ?_
    · simp [hfP.symm]
    · simp
    · simp
    · simp [hfN.symm]
    · simp [hhead hcf hf, hbf.next_head]
    · simp [htail hcf hf, hbf.previous_tail]
    · simp [hhead hcf hf, hbf.next_head]
    · simp [htail hcf hf, hbf.previous_tail]
    · simp [h1, h2]
    · simp [h1, h2]
  | cons s rest =>
    obtain ⟨x, hx, hlast⟩ := pred_cons (C := QueueName Q T) s rest
    obtain ⟨hfs, hnd⟩ := List.nodup_cons.mp (hR.nodup hb)
    have hfx : Node.obj (C := QueueName Q T) f ≠ .obj x := by
      rintro ⟨⟩
      exact hfs hx
    have hfs' : Node.obj (C := QueueName Q T) f ≠ .obj s := by
      rintro ⟨⟩
      exact hfs (by simp)
    have hxP := (hobj x (by simp only [List.mem_cons] at hx ⊢; tauto)).1
    have hsN := (hobj s (by simp)).2
    rw [pred_cons_cons, hlast, if_pos (by simpa using hfx)]
    refine hR.handOver hc hb hf hcb ?_ ?_ ?_ ?_ ?_ ?_ ?_ ?_ (fun n h1 h2 h3 h4 => ?_) fun n h1 h2 h3 h4 => ?_
    · simp [hfP.symm, hxP.symm, (hhead hcf hf).symm]
    · simp [hfs']
    · simp [hfx]
    · simp [hfN.symm, hsN.symm, (htail hcf hf).symm]
    · simp
    · simp
    · simp [hlast]
    · simp [hlast]
    · rw [hlast] at h4
      simp [h1, h2, h3, h4]
    · rw [succ_cons] at h4
      simp [h1, h2, h3, h4]

theorem unlinkPriority_leader (hc : ch c = some (l1 ++ t :: l2))
    (hb : ch (block2n t) = some (f :: fs)) (hf : ch (block2n f) = some []) (hcb : c ≠ block2n t) :
    Represents (unlinkPriority L t)
      (handOver ch c (block2n t) (block2n f) (l1 ++ f :: l2) fs) := by
  have hB := hR.holds hb
  have he : ¬ Chain.isEmpty L (block2n t) = true := by
    rw [Chain.isEmpty_iff hB]
    simp
  have hu : unlinkPriority L t = promote L t f := by
    simp only [unlinkPriority, if_pos he, Chain.first_eq hB, succ_cons]
  rw [hu]
  exact promote_represents hR hc hb hf hcb

end

end Rtems.ThreadQueue
