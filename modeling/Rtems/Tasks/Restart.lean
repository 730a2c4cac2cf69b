import Rtems.Tasks.Model
import Rtems.ThreadQueue.Quiet

/-! # Restarting and deleting -/

namespace Rtems.ThreadQueue

open Function Intrusive Thread
open Watchdog (Runs)

variable {Q T : Type*} [DecidableEq Q] [DecidableEq T] {K K' : Kernel Q T}
  {lead lead' : Q → Fin 4 → List T} {fol fol' : T → List T} {q : Q} {t : T} {l : Nat}

/-! ## Off the queues -/

structure Detached (K K' : Kernel Q T) (t : T) : Prop where
  control : ∀ u ≠ t, K'.sched.control u = K.sched.control u
  own : K'.sched.control t = { K.sched.control t with
    currentState := if K.isWaiting t then States.clear States.blocked (K.sched.control t).currentState
      else (K.sched.control t).currentState }
  states : K'.timers.state = update K.timers.state t .inactive

omit [DecidableEq Q] in
theorem Detached.isWaiting (h : Detached K K' t) : K'.isWaiting t = false := by
  rw [Kernel.isWaiting, h.own]
  split
  · exact States.isWaiting_clear_blocked
  · next hw => exact Bool.not_eq_true _ ▸ hw

omit [DecidableEq Q] in
theorem Detached.not_ready (h : Detached K K' t)
    (hi : States.Includes (K.sched.control t).currentState States.transient) :
    (K'.sched.control t).currentState ≠ States.ready := by
  have hi : States.Includes (K'.sched.control t).currentState States.transient := by
    rw [h.own]
    split
    · exact hi.clear (by decide)
    · exact hi
  intro hr
  rw [hr] at hi
  exact absurd hi (by unfold States.Includes; decide)

theorem Calm.detach (h : Calm K lead fol) (hR : Runs K.timers [.body l]) (t : T) :
    ∃ lead' fol', Calm (K.detach t) lead' fol' ∧ Runs (K.detach t).timers [.body l] ∧
      Detached K (K.detach t) t := by
  unfold Kernel.detach Kernel.extractWithProxy
  by_cases hw : K.isWaiting t = true
  · obtain ⟨lead', fol', hC, hT, hR'⟩ := h.extract hR hw
    refine ⟨lead', fol', ?_⟩
    simp only [hw, if_true]
    refine ⟨hC, hR', fun u hu => hT.control_ne hu, ?_, hT.states⟩
    rw [hT.control, Scheduler.control_setCurrentState_self, if_pos hw]
  · refine ⟨lead, fol, ?_⟩
    have hw' : ¬ K.isWaiting t = true := hw
    simp only [hw, Bool.false_eq_true, if_false]
    rcases h.armed t with hi | ⟨ha, -⟩
    · have hn : ¬ Watchdog.isActive K.timers t = true := by
        rw [Watchdog.isActive, decide_eq_true_eq]
        exact fun hc => absurd (hi.symm.trans hc) (by decide)
      rw [if_neg hn]
      refine ⟨h, hR, fun _ _ => rfl, ?_, ?_⟩
      · rw [if_neg hw']
      · rw [← hi, update_eq_self]
    · rw [if_pos (show Watchdog.isActive K.timers t = true from decide_eq_true ha)]
      have hst : (K.removeTimer t).timers.state = update K.timers.state t .inactive := hR.state_remove
      refine ⟨h.setTimers fun u => ?_, hR.remove (by simp), fun _ _ => rfl, ?_, hst⟩
      · change (K.removeTimer t).timers.state u = _ ∨ (K.removeTimer t).timers.state u = _
        rw [hst, update_apply]
        exact (ite_eq_or_eq ..).symm
      · rw [if_neg hw']
        rfl

/-! ## `_Thread_Restart` -/

structure Restarted (K K' : Kernel Q T) (t : T) : Prop where
  control : ∀ u ≠ t, K'.sched.control u = K.sched.control u
  currentState : (K'.sched.control t).currentState = States.ready
  currentPriority : (K'.sched.control t).currentPriority = (K.sched.control t).start.initialPriority
  realPriority : (K'.sched.control t).realPriority =
    if (K.sched.control t).currentPriority = (K.sched.control t).start.initialPriority then
      (K.sched.control t).realPriority else (K.sched.control t).start.initialPriority
  states : K'.timers.state = update K.timers.state t .inactive

omit [DecidableEq Q] in
theorem Calm.resetPriority (h : Calm K lead fol) (ht : (K.sched.control t).currentState ≠ States.ready) :
    Calm (K.resetPriority t) lead fol := by
  unfold Kernel.resetPriority
  dsimp only
  split
  · have h' : Calm (K.modify t fun c => { c with realPriority := c.start.initialPriority }) lead fol :=
      h.modify rfl (fun _ => rfl) id
    rw [Scheduler.setPriority_eq]
    refine h'.modify rfl (fun hr => ?_) fun _ => Control.placed_setPriority _ _
    rw [Kernel.modify, Scheduler.control_modify_self] at hr
    exact absurd hr ht
  · exact h

section

omit [DecidableEq Q]

theorem control_resetPriority_ne {u} (hu : u ≠ t) :
    (K.resetPriority t).sched.control u = K.sched.control u := by
  unfold Kernel.resetPriority
  dsimp only
  split
  · rw [Scheduler.setPriority_eq, Scheduler.control_modify_ne _ hu, Kernel.modify,
      Scheduler.control_modify_ne _ hu]
  · rfl

theorem control_resetPriority : (K.resetPriority t).sched.control t =
    if (K.sched.control t).currentPriority ≠ (K.sched.control t).start.initialPriority then
      { (K.sched.control t).setPriority (K.sched.control t).start.initialPriority with
        realPriority := (K.sched.control t).start.initialPriority }
    else K.sched.control t := by
  unfold Kernel.resetPriority
  dsimp only
  split
  · rw [Scheduler.setPriority_eq, Scheduler.control_modify_self, Kernel.modify,
      Scheduler.control_modify_self]
    rfl
  · rfl

theorem still_resetPriority : Still K (K.resetPriority t) := by
  refine ⟨fun u => ?_, ?_, ?_⟩
  · by_cases hu : u = t
    · rw [hu, control_resetPriority]
      split <;> rfl
    · rw [control_resetPriority_ne hu]
  all_goals
    unfold Kernel.resetPriority
    dsimp only
    split <;> rfl

end

def Kernel.restartBegin (K : Kernel Q T) (t : T) : Kernel Q T :=
  { K with sched := K.sched.setTransient t }.modify t fun c =>
    { c with
      resourceCount := 0
      isPreemptible := c.start.isPreemptible
      budgetAlgorithm := c.start.budgetAlgorithm }

theorem control_restartBegin_ne {u} (hu : u ≠ t) :
    (K.restartBegin t).sched.control u = K.sched.control u := by
  rw [Kernel.restartBegin, Kernel.modify, Scheduler.control_modify_ne _ hu, Scheduler.control_setTransient,
    Scheduler.control_setCurrentState_ne hu]

theorem control_restartBegin : (K.restartBegin t).sched.control t =
    { K.sched.control t with
      currentState := States.set States.transient (K.sched.control t).currentState
      resourceCount := 0
      isPreemptible := (K.sched.control t).start.isPreemptible
      budgetAlgorithm := (K.sched.control t).start.budgetAlgorithm } := by
  rw [Kernel.restartBegin, Kernel.modify, Scheduler.control_modify_self, Scheduler.control_setTransient,
    Scheduler.control_setCurrentState_self]

theorem Calm.restart (h : Calm K lead fol) (hR : Runs K.timers [.body l])
    (ht : States.isDormant (K.sched.control t).currentState = false) :
    ∃ lead' fol', Calm (K.restart t).1 lead' fol' ∧ Runs (K.restart t).1.timers [.body l] ∧
      Restarted K (K.restart t).1 t := by
  have h1 : Calm (K.restartBegin t) lead fol := (h.setTransient t).modify rfl (fun _ => rfl) id
  obtain ⟨lead', fol', h2, hR', hD⟩ := h1.detach hR t
  have hne := hD.not_ready (by rw [control_restartBegin]; exact .set ..)
  have he : K.restart t = ({ ((K.restartBegin t).detach t).resetPriority t with
      sched := ((((K.restartBegin t).detach t).resetPriority t).sched.loadEnvironment t).ready t }, true) := by
    rw [Kernel.restart, if_pos (by rw [ht]; decide)]
    rfl
  generalize (K.restartBegin t).detach t = K2 at *
  have hS : Still K2 (K2.resetPriority t) := still_resetPriority
  have h3 : Calm { K2.resetPriority t with sched := (K2.resetPriority t).sched.loadEnvironment t } lead' fol' :=
    (h2.resetPriority hne).modify rfl (fun _ => rfl) id
  have hst : (((K2.resetPriority t).sched.loadEnvironment t).control t).currentState =
      (K2.sched.control t).currentState := by
    rw [Scheduler.loadEnvironment, Scheduler.control_modify_self]
    exact hS.states t
  have hwait : States.isWaitingOnThreadQueue (K2.sched.control t).currentState = false := hD.isWaiting
  have h4 := h3.ready (by rw [hst]; exact hne) (by rw [Kernel.isWaiting, hst]; exact hwait)
    (by rw [hS.timers, hD.states, update_self])
  have hown : (((K2.resetPriority t).sched.loadEnvironment t).ready t).control t =
      { (K2.resetPriority t).sched.control t with
        doPostTaskSwitchExtension := false
        isPreemptible := ((K2.resetPriority t).sched.control t).start.isPreemptible
        budgetAlgorithm := ((K2.resetPriority t).sched.control t).start.budgetAlgorithm
        currentState := States.ready } := by
    rw [Scheduler.control_ready, Scheduler.control_setCurrentState_self, Scheduler.loadEnvironment,
      Scheduler.control_modify_self]
  obtain ⟨hp, hr, hs⟩ : (K2.sched.control t).currentPriority = (K.sched.control t).currentPriority ∧
      (K2.sched.control t).realPriority = (K.sched.control t).realPriority ∧
      (K2.sched.control t).start = (K.sched.control t).start := by
    rw [hD.own, control_restartBegin]
    exact ⟨rfl, rfl, rfl⟩
  have hprio : ((K2.resetPriority t).sched.control t).currentPriority =
        (K.sched.control t).start.initialPriority ∧
      ((K2.resetPriority t).sched.control t).realPriority =
        (if (K.sched.control t).currentPriority = (K.sched.control t).start.initialPriority then
          (K.sched.control t).realPriority else (K.sched.control t).start.initialPriority) := by
    rw [control_resetPriority, hp, hs]
    by_cases hc : (K.sched.control t).currentPriority = (K.sched.control t).start.initialPriority
    · rw [if_neg (not_not.mpr hc), if_pos hc]
      exact ⟨hp.trans hc, hr⟩
    · rw [if_pos hc, if_neg hc]
      exact ⟨rfl, rfl⟩
  rw [he]
  refine ⟨lead', fol', h4, ?_, fun u hu => ?_, ?_, ?_, ?_, ?_⟩
  · rw [hS.timers]
    exact hR'
  · rw [Scheduler.control_ready, Scheduler.control_setCurrentState_ne hu, Scheduler.loadEnvironment,
      Scheduler.control_modify_ne _ hu, control_resetPriority_ne hu, hD.control u hu,
      control_restartBegin_ne hu]
  · rw [hown]
  · rw [hown]
    exact hprio.1
  · rw [hown]
    exact hprio.2
  · exact (congrArg Watchdog.Timers.state hS.timers).trans hD.states

/-! ## `_Thread_Close` -/

structure Renewed (K K' : Kernel Q T) (t : T) (c : Thread.Control) : Prop where
  control : K'.sched.control = update K.sched.control t c
  states : K'.timers.state = update K.timers.state t .inactive

/-- The kernel in the middle of `_Thread_Close`. -/
def Kernel.closeBegin (K : Kernel Q T) (t : T) : Kernel Q T :=
  { K with sched := K.sched.setState t States.transient }

theorem control_closeBegin : (K.closeBegin t).sched.control = (K.sched.setCurrentState t
    (States.set States.transient (K.sched.control t).currentState)).control := control_setState_set

omit [DecidableEq Q] in
theorem Calm.replace {c} (h : Calm K lead fol)
    (hr : (K.sched.control t).currentState ≠ States.ready) (hw : K.isWaiting t = false)
    (hi : K.timers.state t = .inactive) (hc : c.currentState = States.dormant) (hp : c.Placed) :
    Calm (K.modify t fun _ => c) lead fol := by
  refine h.change (S := K.sched.modify t fun _ => c) (b := States.dormant) (w := K.timers) (t := t)
    (fun {rd _} hS => ⟨rd, ?_⟩) hw ?_ (fun u hu => Scheduler.control_modify_ne _ hu) (by decide) (by decide)
    (fun _ _ => rfl) (Or.inl hi)
  · exact hS.chained.modify (iff_of_false (by rw [hc]; decide) hr) (fun hr' => absurd hr' hr) hp
  · rw [Scheduler.control_modify_self, hc]

theorem Calm.renew (h : Calm K lead fol) (hR : Runs K.timers [.body l]) (t : T) (priority : Priority)
    (isPreemptible : Bool) (budgetAlgorithm : BudgetAlgorithm) :
    ∃ lead' fol', Calm (K.renew t priority isPreemptible budgetAlgorithm) lead' fol' ∧
      Runs (K.renew t priority isPreemptible budgetAlgorithm).timers [.body l] ∧
      Renewed K (K.renew t priority isPreemptible budgetAlgorithm) t
        (newThread priority isPreemptible budgetAlgorithm) := by
  have h1 : Calm (K.closeBegin t) lead fol := h.setState (by decide) (by decide) t
  obtain ⟨lead', fol', h2, hR', hD⟩ := h1.detach hR t
  have hne := hD.not_ready
    (by rw [control_closeBegin, Scheduler.control_setCurrentState_self]; exact .set ..)
  refine ⟨lead', fol', h2.replace hne hD.isWaiting (by rw [hD.states, update_self]) rfl ⟨rfl, rfl⟩,
    hR', ?_, hD.states⟩
  funext u
  by_cases hu : u = t
  · rw [hu, update_self, Kernel.renew, Kernel.control_modify_self]
  · rw [update_of_ne hu, Kernel.renew, Kernel.control_modify_ne hu]
    refine (hD.control u hu).trans ?_
    rw [control_closeBegin, Scheduler.control_setCurrentState_ne hu]

end Rtems.ThreadQueue
