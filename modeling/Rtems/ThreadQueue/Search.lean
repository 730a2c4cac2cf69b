import Rtems.ThreadQueue.Moves

/-! # The search of `_Thread_queue_Enqueue_priority` -/

namespace Rtems.ThreadQueue

open Intrusive Thread

variable {Q T : Type*}

def Kernel.discipline (K : Kernel Q T) (q : Q) : Discipline := (K.queue q).discipline

def Kernel.priority (K : Kernel Q T) (t : T) : Priority := (K.sched.control t).currentPriority

variable [DecidableEq Q] [DecidableEq T] {K : Kernel Q T} {e : Enqueue Q T} {p : Priority}
  {rd : Priority → List T} {oc : Members Q T} {lead : Q → Fin 4 → List T}
  {fol : T → List T} {sp n : Nat} {u : T} {l1 l2 : List T}

structure Seeking (K : Kernel Q T) (e : Enqueue Q T) (p : Priority) (rd : Priority → List T)
    (oc : Members Q T) (lead : Q → Fin 4 → List T) (fol : T → List T) : Prop where
  on : Represents K.sched.links (chains rd oc)
  grouped : Grouped K.discipline oc lead fol
  discipline : K.discipline e.queue = .priority
  off : Off (chains rd oc) e.thread
  absent : ∀ r, e.thread ∉ service (lead r) fol
  block : oc (.block2n e.thread) = some []
  priority : K.priority e.thread = p

def Beyond (K : Kernel Q T) (p : Priority) (u : T) : Prop :=
  if isReverseSearch p then p < K.priority u else K.priority u < p

inductive Searched (K : Kernel Q T) (e : Enqueue Q T) (p : Priority) (rd : Priority → List T)
    (lead : Q → Fin 4 → List T) (fol : T → List T) (n : Nat) : Kernel Q T × EnqueuePoint Q T → Prop
  | stopped (hs : (K.queue e.queue).syncState ≠ .nothingHappened) :
      Searched K e p rd lead fol n (K.synchronize e)
  | joined {L' : Links (QueueName Q T) T} {oc' : Members Q T}
      {lead' : Q → Fin 4 → List T} {fol' : T → List T}
      (hs : (K.queue e.queue).syncState = .nothingHappened)
      (hJ : Joined K.discipline K.priority rd L' oc' lead lead' fol fol' e.queue e.thread) :
      Searched K e p rd lead fol n ((K.setSyncState e.queue .synchronized).setLinks L', .done)
  | flash {sp : Nat} {u : T} {l1 l2 : List T} (hsp : p.val ≠ sp)
      (hu : lead e.queue (headerNumber p) = l1 ++ u :: l2) (hb : Beyond K p u)
      (hn : (if isReverseSearch p then l1 else l2).length < n) :
      Searched K e p rd lead fol n (K, .search p sp (.obj u))

section

variable (h : Seeking K e p rd oc lead fol)

include h

section

variable (hi : lead e.queue (headerNumber p) = l1 ++ l2)

include hi

theorem Seeking.place_leader {node : Node (QueueName Q T) T}
    {insert : Links (QueueName Q T) T → T → Node (QueueName Q T) T →
      Links (QueueName Q T) T} (hsp : p.val ≠ sp)
    (h1 : ∀ x ∈ l1.getLast?, K.priority x < p) (h2 : ∀ x ∈ l2.head?, p < K.priority x)
    (hL : Represents (insert K.sched.links e.thread node) (Function.update (chains rd oc)
      (header e.queue (headerNumber p)) (some (l1 ++ e.thread :: l2)))) :
    Searched K e p rd lead fol n (K.place e p sp node insert) := by
  unfold Kernel.place
  split <;> rename_i hs
  · exact .stopped hs
  · rw [update_chains_other] at hL
    refine .joined (not_not.mp hs) (joined_leader h.on h.grouped (Or.inl h.discipline) h.absent
      (fun _ => h.block) hi (fun hf => ?_) (fun _ => ?_) hL)
    · simp [h.discipline] at hf
    · rw [h.priority]
      exact ⟨rfl, h1, h2⟩

omit hi in
theorem Seeking.place_follower {insert}
    (hu : u ∈ lead e.queue (headerNumber p)) (hp : K.priority u = p) :
    Searched K e p rd lead fol n (K.place e p p (.obj u) insert) := by
  unfold Kernel.place
  split <;> rename_i hs
  · exact .stopped hs
  · simp only [if_true]
    have hc : chains rd oc (block2n u) = some (fol u ++ []) := by
      rw [List.append_nil]
      exact h.grouped.leader h.discipline hu
    have hL := linkBefore_represents h.on hc h.off
    rw [update_chains_other] at hL
    exact .joined (not_not.mp hs) (joined_follower h.on h.grouped h.discipline h.absent h.block hu
      (hp.trans h.priority.symm) hL)

omit [DecidableEq Q] [DecidableEq T] in
theorem Seeking.holds :
    Holds K.sched.links (header e.queue (headerNumber p)) (l1 ++ l2) :=
  hi ▸ h.on.holds (show chains rd oc (header e.queue (headerNumber p)) = _ from
    h.grouped.header (Or.inl h.discipline))

theorem Seeking.before (hsp : p.val ≠ sp)
    (h1 : ∀ x ∈ l1.getLast?, K.priority x < p) (h2 : ∀ x ∈ l2.head?, p < K.priority x) :
    Searched K e p rd lead fol n
      (K.place e p sp (succ (header e.queue (headerNumber p)) l2) linkBefore) :=
  h.place_leader hi hsp h1 h2 (linkBefore_represents h.on
    (hi ▸ h.grouped.header (Or.inl h.discipline)) h.off)

omit hi in
theorem Seeking.forward_stop (hi : lead e.queue (headerNumber p) = l1 ++ u :: l2)
    (h1 : ∀ x ∈ l1.getLast?, K.priority x < p) (hle : p ≤ K.priority u) :
    Searched K e p rd lead fol n (K.place e p (K.priority u) (.obj u) linkBefore) := by
  rcases hle.eq_or_lt with he | hlt
  · rw [← he]
    exact h.place_follower (by rw [hi]; simp) he.symm
  · refine h.before hi (fun hc => ?_) h1 (by simpa using hlt)
    exact absurd (Fin.ext hc) hlt.ne

theorem Seeking.forward (hsp : p.val ≠ sp)
    (h1 : ∀ x ∈ l1.getLast?, K.priority x < p) (hd : isReverseSearch p = false) :
    Searched K e p rd lead fol l2.length
      (K.searchForward e p sp (succ (header e.queue (headerNumber p)) l2)) := by
  have hne : ∀ {u}, K.priority u < p → p.val ≠ (K.priority u).val := fun hlt hc =>
    absurd (Fin.ext hc) hlt.ne'
  unfold Kernel.searchForward
  cases l2 with
  | nil =>
    rw [if_pos (by simp [Chain.isTail])]
    exact h.before hi hsp h1 (by simp)
  | cons u l2 =>
    change Searched _ _ _ _ _ _ _ (if p ≤ K.priority u then _ else _)
    split <;> rename_i hu
    · exact h.forward_stop hi h1 hu
    · have hu := not_le.mp hu
      have hi' : lead e.queue (headerNumber p) = (l1 ++ [u]) ++ l2 := by simpa using hi
      have h1' : ∀ x ∈ (l1 ++ [u]).getLast?, K.priority x < p := by simpa using hu
      split
      · -- the loop is unrolled once
        rw [(h.holds hi).next_obj]
        cases l2 with
        | nil =>
          rw [if_pos (by simp [Chain.isTail])]
          exact h.before hi' (hne hu) h1' (by simp)
        | cons v l2 =>
          change Searched _ _ _ _ _ _ _ (if p ≤ K.priority v then _ else _)
          split <;> rename_i hv
          · exact h.forward_stop hi' h1' hv
          · have hv := not_le.mp hv
            refine .flash (hne hv) hi' ?_ ?_
            · simpa [Beyond, hd] using hv
            · simp only [hd, Bool.false_eq_true, if_false, List.length_cons]
              omega
      · refine .flash (hne hu) hi ?_ ?_
        · simpa [Beyond, hd] using hu
        · simp [hd]

theorem Seeking.after (hsp : p.val ≠ sp)
    (h1 : ∀ x ∈ l1.getLast?, K.priority x < p) (h2 : ∀ x ∈ l2.head?, p < K.priority x) :
    Searched K e p rd lead fol n
      (K.place e p sp (pred (header e.queue (headerNumber p)) l1) linkAfter) :=
  h.place_leader hi hsp h1 h2 (linkAfter_represents h.on
    (hi ▸ h.grouped.header (Or.inl h.discipline)) h.off)

omit hi in
theorem Seeking.reverse_stop (hi : lead e.queue (headerNumber p) = (l1 ++ [u]) ++ l2)
    (h2 : ∀ x ∈ l2.head?, p < K.priority x) (hle : K.priority u ≤ p) :
    Searched K e p rd lead fol n (K.place e p (K.priority u) (.obj u) linkAfter) := by
  rcases hle.eq_or_lt with he | hlt
  · rw [he]
    exact h.place_follower (by rw [hi]; simp) he
  · have hsp : p.val ≠ (K.priority u).val := fun hc => absurd (Fin.ext hc) hlt.ne'
    have := h.after (n := n) hi hsp (by simpa using hlt) h2
    rwa [pred_concat] at this

theorem Seeking.reverse (hsp : p.val ≠ sp)
    (h2 : ∀ x ∈ l2.head?, p < K.priority x) (hd : isReverseSearch p = true) :
    Searched K e p rd lead fol l1.length
      (K.searchReverse e p sp (pred (header e.queue (headerNumber p)) l1)) := by
  have hne : ∀ {u}, p < K.priority u → p.val ≠ (K.priority u).val := fun hlt hc =>
    absurd (Fin.ext hc) hlt.ne
  unfold Kernel.searchReverse
  rcases List.eq_nil_or_concat' l1 with rfl | ⟨l1, u, rfl⟩
  · rw [if_pos (by simp [Chain.isHead])]
    exact h.after hi hsp (by simp) h2
  · rw [pred_concat, if_neg (by simp [Chain.isHead])]
    change Searched _ _ _ _ _ _ _ (if K.priority u ≤ p then _ else _)
    split <;> rename_i hu
    · exact h.reverse_stop hi h2 hu
    · have hu := not_le.mp hu
      have hi' : lead e.queue (headerNumber p) = l1 ++ u :: l2 := by simpa using hi
      have h2' : ∀ x ∈ (u :: l2).head?, p < K.priority x := by simpa using hu
      split
      · -- the loop is unrolled once
        rw [(h.holds hi').previous_obj]
        rcases List.eq_nil_or_concat' l1 with rfl | ⟨l1, v, rfl⟩
        · rw [if_pos (by simp [Chain.isHead])]
          exact h.after hi' (hne hu) (by simp) h2'
        · rw [pred_concat, if_neg (by simp [Chain.isHead])]
          change Searched _ _ _ _ _ _ _ (if K.priority v ≤ p then _ else _)
          split <;> rename_i hv
          · exact h.reverse_stop hi' h2' hv
          · have hv := not_le.mp hv
            refine .flash (hne hv) (show _ = l1 ++ v :: (u :: l2) by simpa using hi') ?_ ?_
            · simpa [Beyond, hd] using hv
            · simp only [hd, if_true, List.length_append, List.length_cons, List.length_nil]
              omega
      · refine .flash (hne hu) hi' ?_ ?_
        · simpa [Beyond, hd] using hu
        · simp [hd]

end

theorem Seeking.searchRestart :
    Searched K e p rd lead fol (lead e.queue (headerNumber p)).length (K.searchRestart e p) := by
  unfold Kernel.searchRestart
  by_cases hd : isReverseSearch p = true
  · have hi : lead e.queue (headerNumber p) = lead e.queue (headerNumber p) ++ [] := by simp
    rw [if_pos hd, Chain.last_eq (h.holds hi), List.append_nil]
    exact h.reverse hi (by omega) (by simp) hd
  · have hi : lead e.queue (headerNumber p) = [] ++ lead e.queue (headerNumber p) := rfl
    rw [if_neg hd, Chain.first_eq (h.holds hi)]
    refine h.forward hi (fun hc => ?_) (by simp) (Bool.eq_false_iff.mpr hd)
    simp only [subWord] at hc
    omega

theorem Seeking.searchResume (hi : lead e.queue (headerNumber p) = l1 ++ u :: l2)
    (hw : States.areSet (K.sched.control u).currentState (K.queue e.queue).state = true)
    (hsp : p.val ≠ sp) (hb : Beyond K p u) :
    Searched K e p rd lead fol (if isReverseSearch p then l1 else l2).length
      (K.searchResume e p sp (.obj u)) := by
  unfold Kernel.searchResume
  simp only [hw, not_true_eq_false, if_false]
  by_cases hd : isReverseSearch p = true
  · rw [if_pos hd, if_pos hd, (h.holds hi).previous_obj]
    refine h.reverse hi hsp ?_ hd
    simpa [Beyond, hd] using hb
  · have hi' : lead e.queue (headerNumber p) = (l1 ++ [u]) ++ l2 := by simpa using hi
    rw [if_neg hd, if_neg hd, (h.holds hi).next_obj]
    refine h.forward hi' hsp ?_ (Bool.eq_false_iff.mpr hd)
    simpa [Beyond, hd] using hb

end

end Rtems.ThreadQueue
