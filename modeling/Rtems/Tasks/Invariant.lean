import Rtems.CoreMutex.Lemmas
import Rtems.Tasks.Restart

/-! # What holds between the moves of the tasks -/

namespace Rtems.Tasks


open Function ThreadQueue Thread
open Watchdog (Runs)

variable {M O T : Type*} [DecidableEq M] [DecidableEq O] [DecidableEq T]

def Asleep (routine : T → ThreadTimer.Routine) (K : Kernel (M ⊕ O) T) : Prop :=
  ∀ t, K.timers.state t = .active → routine t ≠ .queueTimeout → K.isWaiting t = false

structure Sound (s : System M O T) (lead : M ⊕ O → Fin 4 → List T) (fol : T → List T) : Prop where
  quiet : Quiet s.kernel lead fol
  asleep : Asleep s.routine s.kernel

variable {s s' : System M O T} {K K' : Kernel (M ⊕ O) T} {lead lead' : M ⊕ O → Fin 4 → List T}
  {fol fol' : T → List T} {t : T} {fuel : Nat} {routine : T → ThreadTimer.Routine}

section

omit [DecidableEq M] [DecidableEq O] [DecidableEq T]

theorem Asleep.congr (h : Asleep routine K) (hs : ∀ u, K'.timers.state u = .active →
    K.timers.state u = .active ∧ K'.isWaiting u = K.isWaiting u) : Asleep routine K' := by
  intro u hu hr
  obtain ⟨ha, hw⟩ := hs u hu
  rw [hw]
  exact h u ha hr

theorem Asleep.still (h : Asleep routine K) (hs : Still K K') : Asleep routine K' :=
  h.congr fun u hu => ⟨hs.timers ▸ hu, hs.isWaiting u⟩

end

omit [DecidableEq M] [DecidableEq O] in
theorem Asleep.update (h : Asleep routine K)
    (hs : K'.timers.state = update K.timers.state t .inactive)
    (hc : ∀ u ≠ t, K'.sched.control u = K.sched.control u) : Asleep routine K' := by
  refine h.congr fun u hu => ?_
  have hut : u ≠ t := by
    rintro rfl
    rw [hs, update_self] at hu
    cases hu
  rw [hs, update_of_ne hut] at hu
  exact ⟨hu, by rw [Kernel.isWaiting, hc u hut]; rfl⟩

omit [DecidableEq M] [DecidableEq O] in
theorem Asleep.took (h : Asleep routine K) (hT : Took K K' t) : Asleep routine K' :=
  h.update hT.states fun _ hu => hT.control_ne hu

/-! ## Ticks -/

/-- The timer of `t` has expired. -/
def Expires (K K' : Kernel (M ⊕ O) T) (t : T) : Prop :=
  ∃ s, (s = (K.sched.control t).currentState ∨
      s = States.clear States.blocked (K.sched.control t).currentState) ∧
    K'.sched.control = (K.sched.setCurrentState t s).control

namespace Expires

variable (h : Expires K K' t)

include h

omit [DecidableEq M] [DecidableEq O] in
theorem control_ne {u} (hu : u ≠ t) : K'.sched.control u = K.sched.control u := by
  obtain ⟨st, -, hc⟩ := h
  rw [hc, Scheduler.control_setCurrentState_ne hu]

omit [DecidableEq M] [DecidableEq O] in
theorem steady (hs : ∀ u, States.Steady (K.sched.control u).currentState) (u : T) :
    States.Steady (K'.sched.control u).currentState := by
  by_cases hu : u = t
  · obtain ⟨st, hst, hc⟩ := h
    rw [hu, hc, Scheduler.control_setCurrentState_self]
    rcases hst with rfl | rfl
    · exact hs t
    · exact (hs t).clear _
  · rw [h.control_ne hu]
    exact hs u

end Expires

theorem fire_expires (h : Calm s.kernel lead fol) (hi : s.kernel.timers.state t = .inactive)
    (hr : s.routine t ≠ .queueTimeout → s.kernel.isWaiting t = false) :
    ∃ K' lead' fol', s.fire t = s.setKernel K' ∧ Calm K' lead' fol' ∧ Expires s.kernel K' t := by
  unfold System.fire
  cases hrt : s.routine t with
  | delayEnded =>
    obtain ⟨hC, hT⟩ := h.unblock (hr (by simp [hrt])) hi
    exact ⟨_, lead, fol, rfl, hC, _, Or.inr rfl, hT.control⟩
  | eventTimeout =>
    obtain ⟨hC, hT⟩ := (h.setReturnCode t timeoutCode).unblock (hr (by simp [hrt])) hi
    exact ⟨_, lead, fol, rfl, hC, _, Or.inr rfl, hT.control⟩
  | queueTimeout =>
    by_cases hw : s.kernel.isWaiting t = true
    · obtain ⟨lead', fol', hC, hT⟩ := h.timeout hw hi
      exact ⟨_, lead', fol', rfl, hC, _, Or.inr rfl, hT.control⟩
    · have hw : s.kernel.isWaiting t = false := Bool.not_eq_true _ ▸ hw
      have he : s.kernel.timeout t = s.kernel.setReturnCode t
          (s.kernel.queue (s.kernel.wait t).queue).timeoutStatus := by
        rw [Kernel.timeout_of_waiting (Or.inl (h.synced _))]
        exact Kernel.extract_of_not_waiting (K := s.kernel.setReturnCode t _) hw
      rw [he]
      refine ⟨_, lead, fol, rfl, h.setReturnCode t _, _, Or.inl rfl, ?_⟩
      rw [Scheduler.setCurrentState, Scheduler.modify, update_eq_self]
      rfl

theorem timers_fire (hi : s.kernel.timers.state t = .inactive) :
    (s.fire t).kernel.timers = s.kernel.timers := by
  unfold System.fire
  cases s.routine t with
  | delayEnded | eventTimeout => rfl
  | queueTimeout => exact Kernel.timers_timeout hi

structure Ticking (s : System M O T) : Prop where
  calm : ∃ lead fol, Calm s.kernel lead fol
  steady : ∀ t, States.Steady (s.kernel.sched.control t).currentState
  asleep : Asleep s.routine s.kernel

theorem ticking_ticks : Watchdog.Ticks System.host (fun t s => s.fire t) (Ticking (M := M) (O := O) (T := T)) := by
  refine ⟨fun _ _ => rfl, fun {s timers} h hs _ => ?_, timers_fire, fun {s t} h ht hst _ => ?_⟩
  · obtain ⟨lead, fol, hC⟩ := h.calm
    exact ⟨⟨lead, fol, hC.setTimers fun u => Or.inl (congrFun hs u)⟩, h.steady,
      h.asleep.congr fun u hu => ⟨(congrFun hs u).symm.trans hu, rfl⟩⟩
  · obtain ⟨lead, fol, hC⟩ := h.calm
    have ha : s.kernel.timers.state t = .active := by
      rcases hC.armed t with h' | h'
      · have hs : s.kernel.timers.state t = .active ∨ s.kernel.timers.state t = .removeIt := ht
        simp [h'] at hs
      · exact h'.1
    have he : Watchdog.tickleRound System.host (fun t s => s.fire t) s t =
        (s.setKernel (s.kernel.setTimers (Watchdog.remove s.kernel.timers t).1)).fire t :=
      if_pos (Watchdog.remove_snd.trans ha)
    have hst : (Watchdog.remove s.kernel.timers t).1.state =
      update s.kernel.timers.state t .inactive := hst
    have hC1 : Calm (s.kernel.setTimers (Watchdog.remove s.kernel.timers t).1) lead fol := by
      refine hC.setTimers fun u => ?_
      rw [hst, update_apply]
      exact (ite_eq_or_eq ..).symm
    have hin : (s.kernel.setTimers (Watchdog.remove s.kernel.timers t).1).timers.state t = .inactive := by
      rw [Kernel.setTimers, hst, update_self]
    obtain ⟨K', lead', fol', hf, hC', hE⟩ := fire_expires (s := s.setKernel (s.kernel.setTimers _)) hC1 hin
      (h.asleep t ha)
    have hT : K'.timers = (Watchdog.remove s.kernel.timers t).1 := by
      have := timers_fire (s := s.setKernel (s.kernel.setTimers _)) hin
      rwa [hf] at this
    rw [he, hf]
    exact ⟨⟨lead', fol', hC'⟩, hE.steady h.steady,
      h.asleep.update (by rw [← hst, ← hT]; rfl) fun u hu => hE.control_ne hu⟩

theorem Sound.tick (h : Sound s lead fol) (he : s.tick fuel = some s') : ∃ lead' fol', Sound s' lead' fol' := by
  obtain ⟨l, hR⟩ := h.quiet.timed
  obtain ⟨s1, h1, rfl⟩ := Option.map_eq_some_iff.mp he
  have hT : Ticking (s.setKernel (s.kernel.setNest (s.kernel.timers.isrNestLevel + 1))) :=
    ⟨⟨lead, fol, h.quiet.toCalm.setTimers fun _ => Or.inl rfl⟩, h.quiet.steady,
      h.asleep.congr fun _ hu => ⟨hu, rfl⟩⟩
  obtain ⟨⟨⟨lead', fol', hC⟩, hs, ha⟩, hR'⟩ := ticking_ticks.tickle hT (Kernel.runs_raise hR)
    (by simp [Watchdog.Frame.ticks]) h1
  exact ⟨lead', fol', ⟨hC.setTimers fun _ => Or.inl rfl, ⟨l, Kernel.runs_return hR hR'⟩, hs⟩,
    ha.congr fun _ hu => ⟨hu, rfl⟩⟩

/-! ## Sleeping -/

structure Sleep.Off (st : States) : Prop where
  blocked : States.areSet st States.blocked = true
  waiting : States.isWaitingOnThreadQueue st = false
  dormant : States.isDormant st = false
  steady : States.Steady st

theorem Sleep.off (w : Sleep) : Sleep.Off w.state := by
  cases w with
  | delay b => cases b <;> exact ⟨by decide, by decide, by decide, by unfold States.Steady; decide⟩
  | time | event | period => exact ⟨by decide, by decide, by decide, by unfold States.Steady; decide⟩

theorem Sleep.Off.ne_ready {st} (h : Sleep.Off st) : st ≠ States.ready := by
  rintro rfl
  exact absurd h.blocked (by decide)

theorem calm_sleep {st timers} (h : Calm K lead fol) (hst : Sleep.Off st)
    (hr : (K.sched.control K.sched.executing).currentState = States.ready)
    (ht : ∀ u ≠ K.sched.executing, timers.state u = K.timers.state u)
    (hx : timers.state K.sched.executing = .inactive ∨ timers.state K.sched.executing = .active) :
    Calm ({ K with sched := K.sched.setState K.sched.executing st }.setTimers timers) lead fol := by
  have hw : K.isWaiting K.sched.executing = false := by
    rw [Kernel.isWaiting, hr]
    decide
  refine h.change (fun hS => hS.chained.setState hst.ne_ready) hw ?_ (fun u hu => ?_) hst.waiting
    (fun hd => ?_) ht (hx.imp_right fun ha => ⟨ha, hst.blocked⟩)
  · rw [Scheduler.control_setState, Scheduler.control_setCurrentState_self, if_pos hr]
  · rw [Scheduler.control_setState, Scheduler.control_setCurrentState_ne hu]
  · rw [hst.dormant] at hd
    cases hd

end Rtems.Tasks
