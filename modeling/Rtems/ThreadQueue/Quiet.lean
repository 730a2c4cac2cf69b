import Rtems.CoreMutex.Model
import Rtems.ThreadQueue.Initialize

/-! # Directives on a quiet kernel -/

namespace Rtems.ThreadQueue


open Intrusive Thread
open Watchdog (Runs)

variable {Q T : Type*} [DecidableEq Q] [DecidableEq T]

namespace Kernel

variable {K : Kernel Q T} {t u : T} {f : Thread.Control → Thread.Control}

omit [DecidableEq Q] in
@[simp] theorem control_modify_self : (K.modify t f).sched.control t = f (K.sched.control t) :=
  Scheduler.control_modify_self f

omit [DecidableEq Q] in
theorem control_modify_ne (hu : u ≠ t) : (K.modify t f).sched.control u = K.sched.control u :=
  Scheduler.control_modify_ne f hu

end Kernel

structure Quiet (K : Kernel Q T) (lead : Q → Fin 4 → List T) (fol : T → List T) : Prop
    extends Calm K lead fol where
  timed : ∃ l, Runs K.timers [.body l]
  steady : ∀ t, States.Steady (K.sched.control t).currentState

variable {K K' : Kernel Q T} {lead lead' : Q → Fin 4 → List T} {fol fol' : T → List T} {q : Q} {t : T}

structure Still (K K' : Kernel Q T) : Prop where
  states : ∀ u, (K'.sched.control u).currentState = (K.sched.control u).currentState
  executing : K'.sched.executing = K.sched.executing
  timers : K'.timers = K.timers

section

omit [DecidableEq Q] [DecidableEq T]

theorem Still.refl (K : Kernel Q T) : Still K K := ⟨fun _ => rfl, rfl, rfl⟩

theorem Still.trans {K1} (h : Still K K1) (h' : Still K1 K') : Still K K' :=
  ⟨fun u => (h'.states u).trans (h.states u), h'.executing.trans h.executing, h'.timers.trans h.timers⟩

theorem Still.isWaiting (h : Still K K') (u : T) : K'.isWaiting u = K.isWaiting u := by
  rw [Kernel.isWaiting, h.states u]
  rfl

end

namespace Quiet

omit [DecidableEq Q] in
theorem of_still (h : Calm K' lead fol) (hQ : Quiet K lead fol) (hs : Still K K') : Quiet K' lead fol := by
  refine ⟨h, ?_, fun u => ?_⟩
  · rw [hs.timers]
    exact hQ.timed
  · rw [hs.states u]
    exact hQ.steady u

section

variable (h : Quiet K lead fol)

include h

omit [DecidableEq Q] in
theorem setReturnCode (t : T) (code : Nat) :
    Quiet (K.setReturnCode t code) lead fol ∧ Still K (K.setReturnCode t code) := by
  have hs : Still K (K.setReturnCode t code) := ⟨fun _ => rfl, rfl, rfl⟩
  exact ⟨.of_still (h.toCalm.setReturnCode t code) h hs, hs⟩

omit [DecidableEq Q] in
theorem modify {f}
    (hs : ∀ c, (f c).currentState = c.currentState ∧ (f c).currentPriority = c.currentPriority ∧
      (f c).ready = c.ready ∧ (f c).priorityMap = c.priorityMap) :
    Quiet (K.modify t f) lead fol ∧ Still K (K.modify t f) := by
  obtain ⟨h1, h2, h3, h4⟩ := hs (K.sched.control t)
  have hst : Still K (K.modify t f) :=
    ⟨fun u => Scheduler.field_modify Thread.Control.currentState h1 u, rfl, rfl⟩
  refine ⟨.of_still (h.toCalm.modify h1 (fun _ => h2) fun hp => ?_) h hst, hst⟩
  simp only [Control.Placed, h2, h3, h4]
  exact hp

theorem changePriority (t : T) (p : Priority) (prependIt : Bool) :
    Quiet (K.changePriority t p prependIt) lead fol ∧ Still K (K.changePriority t p prependIt) := by
  have hst : Still K (K.changePriority t p prependIt) := by
    refine ⟨fun u => ?_, Scheduler.executing_changePriority, rfl⟩
    obtain ⟨rd, oc, hS⟩ := h.standing
    rw [Kernel.changePriority, hS.control_changePriority (h.steady t)]
    exact Scheduler.field_modify Thread.Control.currentState rfl u
  exact ⟨.of_still (h.toCalm.changePriority (h.steady t) p prependIt) h hst, hst⟩

theorem raise (t : T) (p : Priority) : Quiet (K.raise t p) lead fol ∧ Still K (K.raise t p) := by
  unfold Kernel.raise
  split
  · exact h.changePriority t p false
  · exact ⟨h, .refl K⟩

omit [DecidableEq Q] in
theorem switch (t : T) : Quiet { K with sched := { K.sched with executing := t } } lead fol :=
  ⟨h.toCalm.switch t, h.timed, h.steady⟩

theorem initializeQueue (hq : service (lead q) fol = []) (c : Control) :
    Quiet (K.initializeQueue q c) lead fol :=
  ⟨h.toCalm.initializeQueue hq c, h.timed, h.steady⟩

theorem suspend (t : T) : Quiet { K with sched := K.sched.setState t States.suspended } lead fol := by
  refine ⟨h.toCalm.setState (by decide) (by decide) t, h.timed, Rests.steady_of h.steady (t := t) ?_ fun u hu => ?_⟩
  · rw [control_setState_set, Scheduler.control_setCurrentState_self]
    refine .set ?_ (h.steady t)
    unfold States.Steady
    decide
  · rw [control_setState_set, Scheduler.control_setCurrentState_ne hu]

theorem resume (t : T) : Quiet { K with sched := K.sched.resume t } lead fol := by
  refine ⟨h.toCalm.resume t, h.timed, Rests.steady_of h.steady (t := t) ?_ fun u hu => ?_⟩
  · rw [Scheduler.resume, Scheduler.control_clearState, Scheduler.control_setCurrentState_self]
    exact (h.steady t).clear _
  · rw [Scheduler.resume, Scheduler.control_clearState, Scheduler.control_setCurrentState_ne hu]

theorem start (t : T) : Quiet (K.start t) lead fol := by
  by_cases ht : States.isDormant (K.sched.control t).currentState = true
  · refine ⟨h.toCalm.start ht, h.timed, Rests.steady_of h.steady (t := t) ?_ fun u hu => ?_⟩
    · rw [Kernel.start, Scheduler.currentState_start ht]
      exact States.steady_ready
    · rw [Kernel.start, Scheduler.control_start_ne hu]
  · have he : K.start t = K := by rw [Kernel.start, Scheduler.start, if_neg ht]
    rw [he]
    exact h

theorem dequeue {k} (hq : service (lead q) fol = t :: k) :
    ∃ K' lead' fol', K.dequeue q = (K', some t) ∧ Quiet K' lead' fol' ∧ Took K K' t := by
  obtain ⟨l, hR⟩ := h.timed
  obtain ⟨K', lead', fol', he, hC, hT, hR'⟩ := h.toCalm.dequeue hR hq
  exact ⟨K', lead', fol', he, ⟨hC, ⟨l, hR'⟩, Rests.took_steady hT h.steady⟩, hT⟩

theorem extract (hw : K.isWaiting t = true) :
    ∃ lead' fol', Quiet (K.extract (K.wait t).queue t) lead' fol' ∧
      Took K (K.extract (K.wait t).queue t) t := by
  obtain ⟨l, hR⟩ := h.timed
  obtain ⟨lead', fol', hC, hT, hR'⟩ := h.toCalm.extract hR hw
  exact ⟨lead', fol', ⟨hC, ⟨l, hR'⟩, Rests.took_steady hT h.steady⟩, hT⟩

theorem letGo (hw : K.isWaiting t = false) : Quiet (K.letGo t) lead fol ∧ Took K (K.letGo t) t := by
  obtain ⟨l, hR⟩ := h.timed
  obtain ⟨hC, hT, hR'⟩ := h.toCalm.letGo hR hw
  exact ⟨⟨hC, ⟨l, hR'⟩, Rests.took_steady hT h.steady⟩, hT⟩

theorem block {timeout fuel}
    (hr : (K.sched.control K.sched.executing).currentState = States.ready) (hu : timeout < 2 ^ 32)
    (he : K.block q timeout fuel = some K') :
    ∃ lead' fol', Quiet K' lead' fol' ∧ Blocked K K' q K.sched.executing ∧
      K'.timers.state = armedState K K.sched.executing timeout := by
  obtain ⟨l, hR⟩ := h.timed
  obtain ⟨lead', fol', hC, hB, hR', hs⟩ := h.toCalm.block hR hr hu he
  exact ⟨lead', fol', ⟨hC, ⟨l, hR'⟩, Rests.blocked_steady hB h.steady⟩, hB, hs⟩

end

end Quiet

end Rtems.ThreadQueue
