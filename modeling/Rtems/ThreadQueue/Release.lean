import Rtems.ThreadQueue.Invariant
import Rtems.Watchdog.Interrupt.Runs

/-! # Threads are let go -/

namespace Rtems.ThreadQueue

open Function Intrusive Thread
open Watchdog (Runs)

variable {Q T : Type*} [DecidableEq Q] [DecidableEq T] {K K' : Kernel Q T} {X : Set T} {W : Set Q}
  {rd : Priority → List T} {oc oc' : Members Q T} {lead lead' : Q → Fin 4 → List T}
  {fol fol' : T → List T} {q r : Q} {t u : T} {l : Nat} {fs : List (Watchdog.Frame Unit T)}
  {L' : Links (QueueName Q T) T}

namespace Kernel

def letGo (K : Kernel Q T) (t : T) : Kernel Q T :=
  let (K, p) := K.deactivateTimer t
  K.release t p

omit [DecidableEq Q] in
theorem deactivateTimer_active (h : K.timers.state t = .active) :
    K.deactivateTimer t = (K.setTimers (Watchdog.deactivate K.timers t), .remove) :=
  if_pos (decide_eq_true h)

omit [DecidableEq Q] in
theorem deactivateTimer_inactive (h : K.timers.state t ≠ .active) : K.deactivateTimer t = (K, .unblock) :=
  if_neg (by rw [Watchdog.isActive, decide_eq_true_eq]; exact h)

theorem letGo_active (h : K.timers.state t = .active) :
    K.letGo t = (K.setTimers (Watchdog.remove (Watchdog.deactivate K.timers t) t).1).unblock t := by
  unfold letGo
  rw [deactivateTimer_active h]
  rfl

theorem letGo_inactive (h : K.timers.state t ≠ .active) : K.letGo t = K.unblock t := by
  unfold letGo
  rw [deactivateTimer_inactive h]
  rfl

end Kernel

structure Took (K K' : Kernel Q T) (t : T) : Prop where
  control : K'.sched.control = (K.sched.setCurrentState t
    (States.clear States.blocked (K.sched.control t).currentState)).control
  executing : K'.sched.executing = K.sched.executing
  queue : K'.queue = K.queue
  wait : K'.wait = K.wait
  states : K'.timers.state = update K.timers.state t .inactive
  nest : K'.timers.isrNestLevel = K.timers.isrNestLevel

section

variable {K1 : Kernel Q T} (hK : K1.sched = K.sched)

include hK

theorem control_unblock : (K1.unblock t).sched.control = (K.sched.setCurrentState t
    (States.clear States.blocked (K.sched.control t).currentState)).control := by
  rw [← hK]
  exact Scheduler.control_clearState

theorem executing_unblock : (K1.unblock t).sched.executing = K.sched.executing := by
  rw [← hK]
  exact Scheduler.executing_clearState

end

theorem took_letGo_inactive (hs : K.timers.state t = .inactive) : Took K (K.letGo t) t := by
  have hn : K.timers.state t ≠ .active := by simp [hs]
  rw [Kernel.letGo_inactive hn]
  refine ⟨control_unblock rfl, executing_unblock rfl, rfl, rfl, ?_, rfl⟩
  rw [← hs, update_eq_self]
  rfl

theorem took_letGo (hR : Runs K.timers (.body l :: fs))
    (hs : K.timers.state t = .inactive ∨ K.timers.state t = .active) :
    Took K (K.letGo t) t ∧ Runs (K.letGo t).timers (.body l :: fs) := by
  rcases hs with hs | hs
  · refine ⟨took_letGo_inactive hs, ?_⟩
    rw [Kernel.letGo_inactive (by simp [hs])]
    exact hR
  · rw [Kernel.letGo_active hs]
    obtain ⟨hM, hst⟩ := hR.deactivate_remove hs
    exact ⟨⟨control_unblock rfl, executing_unblock rfl, rfl, rfl, hst, hM.nest.trans hR.nest.symm⟩, hM⟩

theorem Standing.letGo (h : Standing K X rd oc lead fol) (ht : t ∈ X) :
    ∃ rd', Standing (K.letGo t) (X \ {t}) rd' oc lead fol := by
  by_cases hs : K.timers.state t = .active
  · rw [Kernel.letGo_active hs]
    exact (h.setTimers _).unblock ht
  · rw [Kernel.letGo_inactive hs]
    exact h.unblock ht

/-! ## The invariant between operations -/

structure Kept (K : Kernel Q T) (X : Set T) (W : Set Q) (rd : Priority → List T)
    (oc : Members Q T) (lead : Q → Fin 4 → List T) (fol : T → List T) : Prop where
  standing : Standing K X rd oc lead fol
  armed : ∀ {t}, t ∉ X → K.timers.state t = .inactive ∨ K.timers.state t = .active ∧ K.isWaiting t = true
  synced : ∀ {r}, r ∉ W → (K.queue r).syncState = .synchronized

namespace Took

variable (hT : Took K K' t)

include hT

section

omit [DecidableEq Q]

theorem control_ne (hu : u ≠ t) : K'.sched.control u = K.sched.control u := by
  rw [hT.control, Scheduler.control_setCurrentState_ne hu]

theorem currentState : (K'.sched.control t).currentState =
    States.clear States.blocked (K.sched.control t).currentState := by
  rw [hT.control, Scheduler.control_setCurrentState_self]

theorem isWaiting_ne (hu : u ≠ t) : K'.isWaiting u = K.isWaiting u := by
  unfold Kernel.isWaiting
  rw [hT.control_ne hu]

theorem priority : K'.priority = K.priority := by
  funext u
  unfold Kernel.priority
  rw [hT.control, Scheduler.currentPriority_setCurrentState]

theorem discipline : K'.discipline = K.discipline := by
  unfold Kernel.discipline
  rw [hT.queue]

end

end Took

theorem Kept.take (hK : Kept K X W rd oc lead fol)
    (hM : Left K.discipline rd L' oc oc' lead lead' fol fol' q t)
    (hT : Took (K.setLinks L') ((K.setLinks L').letGo t) t) :
    ∃ rd', Kept ((K.setLinks L').letGo t) X W rd' oc' lead' fol' ∧
      Took K ((K.setLinks L').letGo t) t := by
  have htX := (hK.standing.queued hM.mem_self).1
  obtain ⟨rd', hS⟩ := (hK.standing.left hM).letGo (t := t) (by simp)
  rw [Set.insert_sdiff_self_of_notMem htX] at hS
  have hT' : Took K ((K.setLinks L').letGo t) t :=
    ⟨hT.control, hT.executing, hT.queue, hT.wait, hT.states, hT.nest⟩
  refine ⟨rd', ⟨hS, fun {u} hu => ?_, fun {r} hr => ?_⟩, hT'⟩
  · rw [hT'.states]
    by_cases hut : u = t
    · exact Or.inl (by simp [hut])
    · rw [update_of_ne hut, hT'.isWaiting_ne hut]
      exact hK.armed hu
  · rw [hT'.queue]
    exact hK.synced hr

/-! ## `_Thread_queue_Dequeue` -/

theorem Standing.takeFirst (h : Standing K X rd oc lead fol) (q : Q) :
    (∃ t k L' oc' lead' fol', service (lead q) fol = t :: k ∧ K.takeFirst q = some (K.setLinks L', t) ∧
      Left K.discipline rd L' oc oc' lead lead' fol fol' q t) ∨
    service (lead q) fol = [] ∧ K.takeFirst q = none := by
  unfold Kernel.takeFirst
  cases hd : (K.queue q).discipline with
  | fifo =>
    have hd' : K.discipline q = .fifo := hd
    have hs := Grouped.service_fifo h.on h.grouped hd'
    have hc : chains rd oc (header q 0) = some (lead q 0) := h.grouped.header (Or.inr rfl)
    have he := Chain.isEmpty_iff (h.on.holds hc)
    cases hl : lead q 0 with
    | nil => exact Or.inr ⟨hs.trans hl, by simp [he, hl]⟩
    | cons t k =>
      left
      have hi : lead q 0 = [] ++ t :: k := hl
      obtain ⟨h1, h2⟩ := Chain.getFirst_represents h.on (hc.trans (congrArg some hl))
      rw [update_chains_other] at h2
      refine ⟨t, k, (Chain.getFirst K.sched.links (header q 0)).1, _, _, _, hs.trans hl, ?_,
        left_alone h.on h.grouped hi ?_ h2⟩
      · have : Chain.getFirst K.sched.links (header q 0) =
            ((Chain.getFirst K.sched.links (header q 0)).1, .obj t) := Prod.ext rfl h1
        simp only [he, hl]
        rw [this]
        simp
      · exact Grouped.fol_fifo h.on h.grouped hd' (show t ∈ lead q 0 by simp [hl])
  | priority =>
    have hd' : K.discipline q = .priority := hd
    have hf := firstPriority_eq h.on h.grouped hd'
    cases hl : service (lead q) fol with
    | nil =>
      rw [hl] at hf
      exact Or.inr ⟨rfl, by simp [hf]⟩
    | cons t k =>
      rw [hl] at hf
      obtain ⟨oc', lead', fol', hM⟩ := unlink_left h.on h.grouped (show t ∈ service (lead q) fol by
        simp [hl])
      rw [hd'] at hM
      exact Or.inl ⟨t, k, _, oc', lead', fol', rfl, by simp [hf, unlink], hM⟩

theorem Standing.first_eq (h : Standing K X rd oc lead fol) (q : Q) :
    K.first q = (service (lead q) fol).head? := by
  unfold Kernel.first
  cases hd : (K.queue q).discipline with
  | fifo =>
    rw [Grouped.service_fifo h.on h.grouped hd]
    have hH := h.on.holds (show chains rd oc (header q 0) = some (lead q 0) from
      h.grouped.header (Or.inr rfl))
    have he := Chain.isEmpty_iff hH
    simp only [Chain.first_eq hH]
    cases hl : lead q 0 with
    | nil => simp [he, hl]
    | cons t k => simp [he, hl]
  | priority => exact firstPriority_eq h.on h.grouped hd

theorem Kept.dequeue (hK : Kept K X W rd oc lead fol) (hR : Runs K.timers (.body l :: fs))
    {k} (hq : service (lead q) fol = t :: k) :
    ∃ L' rd' oc' lead' fol', K.dequeue q = ((K.setLinks L').letGo t, some t) ∧
      Left K.discipline rd L' oc oc' lead lead' fol fol' q t ∧
      Kept ((K.setLinks L').letGo t) X W rd' oc' lead' fol' ∧ Took K ((K.setLinks L').letGo t) t ∧
      Runs ((K.setLinks L').letGo t).timers (.body l :: fs) := by
  rcases hK.standing.takeFirst q with ⟨t', k', L', oc', lead', fol', hs, he, hM⟩ | ⟨hs, -⟩
  · rw [hq] at hs
    obtain rfl := (List.cons.inj hs).1
    have hX := (hK.standing.queued hM.mem_self).1
    obtain ⟨hT, hR'⟩ := took_letGo (K := K.setLinks L') (t := t) hR ((hK.armed hX).imp_right And.left)
    obtain ⟨rd', hK', hT'⟩ := hK.take hM hT
    refine ⟨L', rd', oc', lead', fol', ?_, hM, hK', hT', hR'⟩
    simp only [Kernel.dequeue, Kernel.dequeueEnter, he, Kernel.letGo]
  · rw [hq] at hs
    cases hs

namespace Kernel

theorem dequeue_of_none (h : K.takeFirst q = none)
    (hs : (K.queue q).syncState = .synchronized ∨ (K.queue q).syncState = .satisfied) :
    K.dequeue q = (K, none) := by
  rcases hs with hs | hs <;> simp only [dequeue, dequeueEnter, h, hs]

theorem dequeue_of_blocking (h : K.takeFirst q = none)
    (hs : (K.queue q).syncState = .nothingHappened ∨ (K.queue q).syncState = .timeout) :
    K.dequeue q = (K.setSyncState q .satisfied, some K.sched.executing) := by
  rcases hs with hs | hs <;> simp only [dequeue, dequeueEnter, h, hs, release]

/-! ## `_Thread_queue_Timeout` -/

theorem extract_of_waiting (h : K.isWaiting t = true) :
    K.extract q t = (K.setLinks (unlink (K.discipline q) K.sched.links t)).letGo t := by
  unfold extract extractEnter discipline unlink
  cases hd : (K.queue q).discipline <;> simp only [h, if_true] <;> rfl

theorem extract_of_not_waiting (h : K.isWaiting t = false) : K.extract q t = K := by
  simp [extract, extractEnter, h, release]

theorem timeout_of_blocking (hs : (K.queue (K.wait t).queue).syncState ≠ .synchronized)
    (ht : t = K.sched.executing) : K.timeout t =
      if (K.queue (K.wait t).queue).syncState ≠ .satisfied then
        K.setSyncState (K.wait t).queue .timeout else K := by
  unfold timeout timeoutEnter
  rw [if_pos ⟨hs, ht⟩]

theorem timeout_of_waiting
    (hs : (K.queue (K.wait t).queue).syncState = .synchronized ∨ t ≠ K.sched.executing) :
    K.timeout t = (K.setReturnCode t (K.queue (K.wait t).queue).timeoutStatus).extract
      (K.wait t).queue t := by
  have hn : ¬ ((K.queue (K.wait t).queue).syncState ≠ .synchronized ∧ t = K.sched.executing) := by
    rintro ⟨h1, h2⟩
    rcases hs with hs | hs
    · exact h1 hs
    · exact hs h2
  unfold timeout timeoutEnter
  simp only [hn, if_false]
  simp [setReturnCode]

end Kernel

omit [DecidableEq Q] in
theorem Kept.setReturnCode (hK : Kept K X W rd oc lead fol) (t : T) (code : Nat) :
    Kept (K.setReturnCode t code) X W rd oc lead fol :=
  ⟨hK.standing.setReturnCode t code, hK.armed, hK.synced⟩

theorem Kept.timeout (hK : Kept K X W rd oc lead fol) (ht : t ∉ X) (hw : K.isWaiting t = true)
    (hi : K.timers.state t = .inactive)
    (hs : (K.queue (K.wait t).queue).syncState = .synchronized ∨ t ≠ K.sched.executing) :
    ∃ L' rd' oc' lead' fol', Left K.discipline rd L' oc oc' lead lead' fol fol' (K.wait t).queue t ∧
      Kept (K.timeout t) X W rd' oc' lead' fol' ∧
      Took (K.setReturnCode t (K.queue (K.wait t).queue).timeoutStatus) (K.timeout t) t := by
  have hq : t ∈ service (lead (K.wait t).queue) fol := (hK.standing.waiting hw).resolve_left ht
  obtain ⟨oc', lead', fol', hM⟩ := unlink_left hK.standing.on hK.standing.grouped hq
  have hK' := hK.setReturnCode t (K.queue (K.wait t).queue).timeoutStatus
  obtain ⟨rd', hK'', hT⟩ := hK'.take hM (took_letGo_inactive hi)
  rw [Kernel.timeout_of_waiting hs, Kernel.extract_of_waiting (K := K.setReturnCode t _) hw]
  exact ⟨_, rd', oc', lead', fol', hM, hK'', hT⟩

theorem Kernel.control_timeout_ne (hi : K.timers.state t = .inactive) (hu : u ≠ t) :
    (K.timeout t).sched.control u = K.sched.control u := by
  by_cases hs : (K.queue (K.wait t).queue).syncState ≠ .synchronized ∧ t = K.sched.executing
  · rw [timeout_of_blocking hs.1 hs.2]
    split <;> rfl
  · rw [timeout_of_waiting (by rwa [not_and_or, not_not] at hs)]
    generalize hK' : K.setReturnCode t _ = K'
    have hc : K'.sched.control = K.sched.control := hK' ▸ rfl
    have hi' : K'.timers.state t = .inactive := hK' ▸ hi
    by_cases hw : K'.isWaiting t = true
    · rw [extract_of_waiting hw, (took_letGo_inactive (K := K'.setLinks (unlink _ _ t)) hi').control_ne hu]
      exact congrFun hc u
    · rw [extract_of_not_waiting (by simpa using hw), hc]

theorem Kernel.timers_timeout (h : K.timers.state t = .inactive) : (K.timeout t).timers = K.timers := by
  have hn : K.timers.state t ≠ .active := by simp [h]
  unfold Kernel.timeout Kernel.timeoutEnter
  dsimp only
  split
  · rename_i K' he
    have hK' : K'.timers = K.timers := by
      split at he
      · split at he <;> simp at he
      · obtain rfl := (Prod.mk.inj he).1
        rfl
    by_cases hw : K'.isWaiting t = true
    · rw [Kernel.extract_of_waiting hw, Kernel.letGo_inactive (by change K'.timers.state t ≠ _; rwa [hK'])]
      exact hK'
    · rw [Kernel.extract_of_not_waiting (Bool.eq_false_iff.mpr hw), hK']
  · rename_i K' he
    split at he
    · split at he <;> obtain rfl := (Prod.mk.inj he).1 <;> rfl
    · simp at he

end Rtems.ThreadQueue
