import Rtems.Tasks.Invariant

/-! # The moves of the tasks -/

namespace Rtems.Tasks


open Function ThreadQueue Thread Option

variable {M O T : Type*} [DecidableEq M] [DecidableEq O] [DecidableEq T] {s s' : System M O T}
  {K K' : Kernel (M ⊕ O) T} {lead lead' : M ⊕ O → Fin 4 → List T} {fol fol' : T → List T} {t : T}
  {id : T → Nat}

omit [DecidableEq M] [DecidableEq O] in
theorem Asleep.enqueued {r : System M O T} {x} (h : Asleep r.routine K)
    (hs : ∀ u ≠ x, r.kernel.timers.state u = K.timers.state u ∧ r.kernel.isWaiting u = K.isWaiting u) :
    Asleep (r.enqueued x).routine r.kernel := by
  intro u hu hr
  by_cases hux : u = x
  · subst hux
    have ha : Watchdog.isActive r.kernel.timers u = true := decide_eq_true hu
    simp [System.enqueued, ha, System.setRoutine] at hr
  · have hru : (r.enqueued x).routine u = r.routine u := by
      unfold System.enqueued
      split
      · simp [System.setRoutine, hux]
      · rfl
    rw [(hs u hux).2]
    exact h u ((hs u hux).1 ▸ hu) (hru ▸ hr)

omit [DecidableEq M] [DecidableEq O] in
theorem kernel_enqueued {x} : (s.enqueued x).kernel = s.kernel := by
  unfold System.enqueued
  split <;> rfl

omit [DecidableEq M] [DecidableEq O] [DecidableEq T] in
theorem System.call_eq_some {r} (he : s.call r = some s') :
    (s.kernel.sched.control s.kernel.sched.executing).currentState = States.ready ∧ r = some s' := by
  unfold System.call at he
  split at he
  · next hr => exact ⟨States.isReady_iff.mp hr, he⟩
  · cases he

section

variable (h : Sound s lead fol)

include h

/-! ## Waiting -/

theorem Sound.wait {o : O} {timeout fuel}
    (hr : (s.kernel.sched.control s.kernel.sched.executing).currentState = States.ready)
    (hu : timeout < 2 ^ 32) (he : s.wait o timeout fuel = some s') : ∃ lead' fol', Sound s' lead' fol' := by
  obtain ⟨K', hb, rfl⟩ := map_eq_some_iff.mp he
  obtain ⟨lead', fol', hQ, hB, hst⟩ := h.quiet.block hr hu hb
  have hk : ((s.setKernel K').enqueued s.kernel.sched.executing).kernel = K' := kernel_enqueued
  refine ⟨lead', fol', by rw [hk]; exact hQ, ?_⟩
  rw [hk]
  refine h.asleep.enqueued (r := s.setKernel K') fun u hu => ⟨?_, ?_⟩
  · exact (congrFun hst u).trans (armedState_ne hu)
  · rw [Kernel.isWaiting, System.setKernel, hB.control u hu]
    rfl

theorem Sound.dequeue (o : O) :
    ∃ lead' fol', Sound (s.setKernel (s.kernel.dequeue (.inr o)).1) lead' fol' := by
  cases hq : service (lead (.inr o)) fol with
  | nil =>
    rw [h.quiet.toCalm.dequeue_nil hq]
    exact ⟨lead, fol, h⟩
  | cons t k =>
    obtain ⟨K', lead', fol', he, hQ, hT⟩ := h.quiet.dequeue hq
    rw [he]
    exact ⟨lead', fol', hQ, h.asleep.took hT⟩

theorem Sound.extract (t : T) :
    ∃ lead' fol', Sound (s.setKernel (s.kernel.extractWithProxy t).1) lead' fol' := by
  unfold Kernel.extractWithProxy
  split
  · next hw =>
    obtain ⟨lead', fol', hQ, hT⟩ := h.quiet.extract hw
    exact ⟨lead', fol', hQ, h.asleep.took hT⟩
  · exact ⟨lead, fol, h⟩

theorem Sound.rouse (t : T) : Sound (s.rouse t) lead fol := by
  unfold System.rouse
  split
  · exact h
  · next hw =>
    obtain ⟨hQ, hT⟩ := h.quiet.letGo (Bool.not_eq_true _ ▸ hw)
    exact ⟨hQ, h.asleep.took hT⟩

/-! ## Sleeping -/

theorem Sound.fallAsleep {w : Sleep} {timers r l}
    (hr : (s.kernel.sched.control s.kernel.sched.executing).currentState = States.ready)
    (hR : Watchdog.Runs timers [.body l])
    (ht : ∀ u ≠ s.kernel.sched.executing, timers.state u = s.kernel.timers.state u)
    (hx : timers.state s.kernel.sched.executing = .inactive ∨
      timers.state s.kernel.sched.executing = .active) :
    Sound ((s.setKernel ({ s.kernel with
      sched := s.kernel.sched.setState s.kernel.sched.executing w.state }.setTimers timers)).setRoutine
        s.kernel.sched.executing r) lead fol := by
  have hoff := w.off
  have hself : ((s.kernel.sched.setState s.kernel.sched.executing w.state).control
      s.kernel.sched.executing).currentState = w.state := by
    rw [Scheduler.control_setState, Scheduler.control_setCurrentState_self, if_pos hr]
  have hne {u : T} (hu : u ≠ s.kernel.sched.executing) :
      (s.kernel.sched.setState s.kernel.sched.executing w.state).control u = s.kernel.sched.control u := by
    rw [Scheduler.control_setState, Scheduler.control_setCurrentState_ne hu]
  have hsteady : States.Steady ((s.kernel.sched.setState s.kernel.sched.executing w.state).control
      s.kernel.sched.executing).currentState := by
    rw [hself]
    exact hoff.steady
  refine ⟨⟨calm_sleep h.quiet.toCalm hoff hr ht hx, ⟨l, hR⟩, Rests.steady_of h.quiet.steady hsteady
    fun u hu => congrArg _ (hne hu)⟩, fun u hu hru => ?_⟩
  change States.isWaitingOnThreadQueue ((s.kernel.sched.setState _ w.state).control u).currentState = false
  by_cases hux : u = s.kernel.sched.executing
  · rw [hux, hself]
    exact hoff.waiting
  · rw [hne hux]
    refine h.asleep u ((ht u hux).symm.trans hu) ?_
    simpa [System.setRoutine, System.setKernel, hux] using hru

theorem Sound.sleep {w : Sleep} {ticks fuel}
    (hr : (s.kernel.sched.control s.kernel.sched.executing).currentState = States.ready)
    (hu : ticks < 2 ^ 32) (he : s.sleep w ticks fuel = some s') : Sound s' lead fol := by
  obtain ⟨l, hR⟩ := h.quiet.timed
  have hx := h.quiet.toCalm.inactive (t := s.kernel.sched.executing) (by rw [hr]; decide)
  unfold System.sleep at he
  split at he
  · cases he
    have hp := h.fallAsleep (w := w) (r := s.routine s.kernel.sched.executing) hr hR (fun _ _ => rfl)
      (Or.inl hx)
    rwa [System.setRoutine, System.setKernel, update_eq_self] at hp
  · next h0 =>
    obtain ⟨timers, hi, rfl⟩ := map_eq_some_iff.mp he
    obtain ⟨hR', hst⟩ := runs_insert hR hx h0 hu hi
    exact h.fallAsleep hr hR' (fun u hu => by rw [hst, update_of_ne hu]) (Or.inr (by rw [hst, update_self]))

/-! ## States -/

omit h in
omit [DecidableEq M] [DecidableEq O] in
theorem isWaiting_alike {st} (hc : K'.sched.control = (K.sched.setCurrentState t st).control)
    (ha : States.Alike st (K.sched.control t).currentState) (u : T) : K'.isWaiting u = K.isWaiting u := by
  rw [Kernel.isWaiting, hc]
  by_cases hu : u = t
  · rw [hu, Scheduler.control_setCurrentState_self]
    exact ha.isWaiting
  · rw [Scheduler.control_setCurrentState_ne hu]
    rfl

theorem Sound.suspend (t : T) :
    Sound (s.setKernel { s.kernel with sched := s.kernel.sched.setState t States.suspended }) lead fol :=
  ⟨h.quiet.suspend t, h.asleep.congr fun u hu =>
    ⟨hu, isWaiting_alike control_setState_set (States.alike_set (by decide)) u⟩⟩

theorem Sound.resume (t : T) :
    Sound (s.setKernel { s.kernel with sched := s.kernel.sched.resume t }) lead fol :=
  ⟨h.quiet.resume t, h.asleep.congr fun u hu =>
    ⟨hu, isWaiting_alike Scheduler.control_clearState (States.alike_clear (by decide)) u⟩⟩

theorem Sound.start (t : T) : Sound (s.setKernel (s.kernel.start t)) lead fol := by
  by_cases ht : States.isDormant (s.kernel.sched.control t).currentState = true
  · refine ⟨h.quiet.start t, h.asleep.congr fun u hu => ⟨hu, ?_⟩⟩
    by_cases hut : u = t
    · have hw : s.kernel.isWaiting t = false :=
        States.isWaiting_of_isBlocked (h.quiet.toCalm.dormant t ht)
      rw [hut, hw, Kernel.isWaiting, System.setKernel, Kernel.start, Scheduler.currentState_start ht]
      decide
    · rw [Kernel.isWaiting, System.setKernel, Kernel.start, Scheduler.control_start_ne hut]
      rfl
  · have he : s.kernel.start t = s.kernel := by rw [Kernel.start, Scheduler.start, if_neg ht]
    rw [he]
    exact h

/-! ## Mutexes and priorities -/

theorem Sound.create {m attributes initialLock}
    (he : s.create id m attributes initialLock = some s') : Sound s' lead fol := by
  unfold System.create at he
  split at he
  · next hc =>
    obtain ⟨rd, oc, hS⟩ := h.quiet.toCalm.standing
    have hq : service (lead (.inl m)) fol = [] := by
      have := hc.2
      rw [hS.first_eq] at this
      exact List.head?_eq_none_iff.mp this
    have hK : ∃ K c, CoreMutex.mutexInitialize id s.kernel attributes initialLock = (K, c) ∧
        Quiet K lead fol ∧ Still s.kernel K := by
      unfold CoreMutex.mutexInitialize
      split
      · obtain ⟨h', hst⟩ := CoreMutex.quiet_addResource h.quiet s.kernel.sched.executing
        exact ⟨_, _, rfl, h', hst⟩
      · exact ⟨_, _, rfl, h.quiet, .refl _⟩
    obtain ⟨K, c, hm, hQ, hst⟩ := hK
    rw [hm] at he
    cases he
    exact ⟨hQ.initializeQueue hq _, h.asleep.congr fun u hu => ⟨hst.timers ▸ hu, hst.isWaiting u⟩⟩
  · cases he

theorem Sound.seize {m : M} {wait timeout fuel}
    (hr : (s.kernel.sched.control s.kernel.sched.executing).currentState = States.ready)
    (hu : timeout < 2 ^ 32) (he : s.seize id m wait timeout fuel = some s') :
    ∃ lead' fol', Sound s' lead' fol' := by
  obtain ⟨⟨K', c⟩, hz, rfl⟩ := map_eq_some_iff.mp he
  obtain ⟨lead', fol', hQ, hst⟩ := CoreMutex.quiet_seize h.quiet hr hu (CoreMutex.seize_cases hz)
  have hk : (((s.setKernel K').setMutex m c).enqueued s.kernel.sched.executing).kernel = K' :=
    kernel_enqueued
  refine ⟨lead', fol', ⟨by rw [hk]; exact hQ, ?_⟩⟩
  rw [hk]
  exact h.asleep.enqueued (r := (s.setKernel K').setMutex m c) hst

theorem Sound.surrender (m : M) : ∃ lead' fol', Sound (s.surrender id m) lead' fol' := by
  obtain ⟨lead', fol', hQ, hst⟩ := CoreMutex.quiet_surrender h.quiet
    (CoreMutex.surrender_cases id s.kernel (.inl m) (s.mutex m))
  refine ⟨lead', fol', hQ, ?_⟩
  rcases hst with hst | ⟨K1, K2, t, h1, hT, h2⟩
  · exact h.asleep.still hst
  · exact ((h.asleep.still h1).took hT).still h2

theorem Sound.setPriority (t : T) (p : Priority) (prependIt : Bool) :
    Sound (s.setKernel (s.kernel.setPriority t p prependIt)) lead fol := by
  have hK : Quiet (s.kernel.setPriority t p prependIt) lead fol ∧
      Still s.kernel (s.kernel.setPriority t p prependIt) := by
    obtain ⟨h1, hs1⟩ := h.quiet.modify (f := fun c => { c with realPriority := p })
      fun _ => ⟨rfl, rfl, rfl, rfl⟩
    unfold Kernel.setPriority
    dsimp only
    split
    · obtain ⟨h2, hs2⟩ := h1.changePriority t p prependIt
      exact ⟨h2, hs1.trans hs2⟩
    · exact ⟨h1, hs1⟩
  exact ⟨hK.1, h.asleep.still hK.2⟩

theorem Sound.setschedparam (t : T) (p : Priority) :
    Sound (s.setKernel (s.kernel.setschedparam t p)) lead fol := by
  obtain ⟨h1, hs1⟩ := h.quiet.modify (f := fun c => { c with realPriority := p })
    fun _ => ⟨rfl, rfl, rfl, rfl⟩
  obtain ⟨h2, hs2⟩ := h1.changePriority t p true
  exact ⟨h2, h.asleep.still (hs1.trans hs2)⟩

theorem Sound.restart (t : T) : ∃ lead' fol', Sound (s.setKernel (s.kernel.restart t).1) lead' fol' := by
  by_cases ht : States.isDormant (s.kernel.sched.control t).currentState = true
  · have he : s.kernel.restart t = (s.kernel, false) := by
      rw [Kernel.restart, if_neg (not_not.mpr ht)]
    rw [he]
    exact ⟨lead, fol, h⟩
  · obtain ⟨l, hR⟩ := h.quiet.timed
    obtain ⟨lead', fol', hC, hR', hRe⟩ := h.quiet.toCalm.restart hR (Bool.not_eq_true _ ▸ ht)
    refine ⟨lead', fol', ⟨hC, ⟨l, hR'⟩, Rests.steady_of h.quiet.steady (t := t) ?_ fun u hu => ?_⟩,
      h.asleep.update hRe.states hRe.control⟩
    · rw [System.setKernel, hRe.currentState]
      exact States.steady_ready
    · rw [System.setKernel, hRe.control u hu]

theorem Sound.renew (t : T) (priority : Priority) (isPreemptible : Bool) (budgetAlgorithm : BudgetAlgorithm) :
    ∃ lead' fol', Sound (s.setKernel (s.kernel.renew t priority isPreemptible budgetAlgorithm)) lead' fol' := by
  obtain ⟨l, hR⟩ := h.quiet.timed
  obtain ⟨lead', fol', hC, hR', hRe⟩ :=
    h.quiet.toCalm.renew hR t priority isPreemptible budgetAlgorithm
  have hne : ∀ u ≠ t, (s.kernel.renew t priority isPreemptible budgetAlgorithm).sched.control u =
      s.kernel.sched.control u := fun u hu => by rw [hRe.control, update_of_ne hu]
  refine ⟨lead', fol', ⟨hC, ⟨l, hR'⟩, Rests.steady_of h.quiet.steady (t := t) ?_ fun u hu => ?_⟩,
    h.asleep.update hRe.states hne⟩
  · rw [System.setKernel, hRe.control, update_self]
    exact States.steady_dormant
  · rw [System.setKernel, hne u hu]

theorem Sound.perform {m} (he : s.perform id m = some s') :
    ∃ lead' fol', Sound s' lead' fol' := by
  cases m with
  | create m attributes initialLock =>
    obtain ⟨-, he⟩ := System.call_eq_some he
    exact ⟨lead, fol, h.create he⟩
  | seize m wait timeout fuel =>
    obtain ⟨hr, he⟩ := System.call_eq_some he
    exact h.seize hr timeout.isLt he
  | surrender m =>
    obtain ⟨-, he⟩ := System.call_eq_some he
    exact some.inj he ▸ h.surrender m
  | wait o timeout fuel =>
    obtain ⟨hr, he⟩ := System.call_eq_some he
    exact h.wait hr timeout.isLt he
  | dequeue o => exact some.inj he ▸ h.dequeue o
  | sleep w ticks fuel =>
    simp only [System.perform] at he
    split at he
    · obtain ⟨hr, he⟩ := System.call_eq_some he
      exact ⟨lead, fol, h.sleep hr ticks.isLt he⟩
    · cases he
  | rouse t => exact ⟨lead, fol, some.inj he ▸ h.rouse t⟩
  | extract t => exact some.inj he ▸ h.extract t
  | setPriority t p prependIt => exact ⟨lead, fol, some.inj he ▸ h.setPriority t p prependIt⟩
  | setschedparam t p => exact ⟨lead, fol, some.inj he ▸ h.setschedparam t p⟩
  | suspend t => exact ⟨lead, fol, some.inj he ▸ h.suspend t⟩
  | resume t => exact ⟨lead, fol, some.inj he ▸ h.resume t⟩
  | start t => exact ⟨lead, fol, some.inj he ▸ h.start t⟩
  | restart t => exact some.inj he ▸ h.restart t
  | renew t p b a => exact some.inj he ▸ h.renew t p b a
  | switch t =>
    obtain ⟨-, rfl⟩ := ite_some_none_eq_some.mp he
    exact ⟨lead, fol, h.quiet.switch t, h.asleep⟩
  | tick fuel => exact h.tick he

end

end Rtems.Tasks
