import Rtems.Tasks.Moves

/-! # Runs of the tasks -/

namespace Rtems.Tasks

open ThreadQueue Thread

variable {M O T : Type*} [DecidableEq M] [DecidableEq O] [DecidableEq T]

structure Configuration (M O T : Type*) where
  task : T → Start
  attributes : M → CoreMutex.Attributes
  queue : O → ThreadQueue.Control
  wait : T → Wait (M ⊕ O)
  executing : T
  unrollEnqueuePriority : Bool

namespace Configuration

def queues (c : Configuration M O T) : M ⊕ O → ThreadQueue.Control
  | .inl m => CoreMutex.waitQueue (c.attributes m).discipline
  | .inr o => { c.queue o with syncState := .synchronized }

def initial (c : Configuration M O T) : System M O T where
  kernel := Kernel.initial c.queues
    (fun t => newThread (c.task t).initialPriority (c.task t).isPreemptible (c.task t).budgetAlgorithm)
    c.wait c.executing c.unrollEnqueuePriority
  mutex m := ⟨c.attributes m, false, 0, none, 0⟩
  routine _ := .delayEnded

omit [DecidableEq M] [DecidableEq O] in
theorem sound_initial (c : Configuration M O T) : ∃ lead fol, Sound c.initial lead fol := by
  have hq : ∀ q, (c.queues q).syncState = .synchronized := by
    rintro (m | o) <;> rfl
  have hd : ∀ t, (c.initial.kernel.sched.control t).currentState = States.dormant ∧
      (c.initial.kernel.sched.control t).Placed := fun t => ⟨rfl, rfl, rfl⟩
  obtain ⟨rd, oc, lead, fol, l, hK, hR⟩ :=
    Kernel.initial_resting hq c.wait c.executing c.unrollEnqueuePriority hd
  refine ⟨lead, fol, ⟨⟨⟨rd, oc, hK.standing⟩, fun _ => Or.inl rfl, hq, fun t _ => ?_⟩, ⟨l, hR⟩,
    fun t => States.steady_dormant⟩, fun t ht => ?_⟩
  · change States.areSet States.dormant States.blocked = false
    decide
  · cases ht

end Configuration

theorem Sound.steps {id P} {s s' : System M O T}
    (h : ∃ lead fol, Sound s lead fol) (hs : Transition.Steps (System.perform id) P s s') :
    ∃ lead fol, Sound s' lead fol := by
  refine hs.invariant (I := fun s => ∃ lead fol, Sound s lead fol) ?_ h
  rintro s m s' ⟨lead, fol, h⟩ - he
  exact h.perform he

/-! ## `_Thread_Restart` -/

def Masked (c : Thread.Control) : Prop :=
  c.currentPriority = c.start.initialPriority ∧ c.realPriority ≠ c.start.initialPriority

instance (c : Thread.Control) : Decidable (Masked c) := inferInstanceAs (Decidable (_ ∧ _))

/-- A restarted task is ready, on no queue, without a timer, at its priority. -/
theorem restart_ready (c : Configuration M O T) (id : T → Nat) {s : System M O T}
    (hs : Transition.Steps (System.perform id) (fun _ _ => True) c.initial s) (t : T)
    (hd : States.isDormant (s.kernel.sched.control t).currentState = false)
    (hm : ¬ Masked (s.kernel.sched.control t)) :
    (s.kernel.restart t).2 = true ∧
    ((s.kernel.restart t).1.sched.control t).currentState = States.ready ∧
    (∀ q l, (s.kernel.restart t).1.Serves q l → t ∉ l) ∧
    (s.kernel.restart t).1.timers.state t = .inactive ∧
    ((s.kernel.restart t).1.sched.control t).realPriority =
      (s.kernel.sched.control t).start.initialPriority ∧
    ((s.kernel.restart t).1.sched.control t).currentPriority =
      (s.kernel.sched.control t).start.initialPriority := by
  obtain ⟨lead, fol, h⟩ := Sound.steps c.sound_initial hs
  obtain ⟨l, hR⟩ := h.quiet.timed
  obtain ⟨lead', fol', hC, -, hRe⟩ := h.quiet.toCalm.restart hR hd
  refine ⟨by rw [Kernel.restart, if_pos (by rw [hd]; decide)], hRe.currentState, fun q l hl => ?_, ?_, ?_,
    hRe.currentPriority⟩
  · obtain ⟨rd, oc, hS⟩ := hC.standing
    rw [hS.serves_iff.mp hl]
    exact hS.ready_absent hRe.currentState q
  · rw [hRe.states, Function.update_self]
  · rw [hRe.realPriority]
    split
    · next hc => exact by_contra fun hr => hm ⟨hc, hr⟩
    · rfl

def twoTasks : Configuration Unit Empty Bool where
  task _ := ⟨.of 10, true, .none⟩
  attributes _ := ⟨true, .priorityInherit, .of 0⟩
  queue o := o.elim
  wait _ := ⟨.inl (), 0⟩
  executing := false
  unrollEnqueuePriority := true

def inheriting : List (Move Unit Empty Bool) :=
  [.start false, .switch false, .setPriority false (.of 20) false, .seize () true 0 9, .start true,
    .switch true, .seize () true 5 20]

theorem restart_ready_inheriting :
    ∃ s, Transition.run (System.perform fun t => t.toNat + 1) inheriting twoTasks.initial = some s ∧
      s.kernel.isWaiting true = true ∧ s.kernel.timers.state true = .active ∧
      ((s.kernel.restart true).1.sched.control true).currentState = States.ready ∧
      (s.kernel.restart true).1.timers.state true = .inactive := by
  refine Transition.exists_of_map (fun s => (s.kernel.isWaiting true, s.kernel.timers.state true,
    States.isDormant (s.kernel.sched.control true).currentState,
    decide (Masked (s.kernel.sched.control true)))) (true, .active, false, false) (by decide +kernel)
    fun s hs he => ?_
  simp only [Prod.mk.injEq, decide_eq_false_iff_not] at he
  obtain ⟨hw, ha, hd, hm⟩ := he
  obtain ⟨-, hr, -, hi, -⟩ := restart_ready twoTasks (fun t => t.toNat + 1)
    (.of_run (fun _ _ => trivial) hs) true hd hm
  exact ⟨hw, ha, hr, hi⟩

/-- The task has inherited its initial priority, so its own stays. -/
theorem restart_masked :
    ∃ s, Transition.run (System.perform fun t => t.toNat + 1) inheriting twoTasks.initial = some s ∧
      States.isDormant (s.kernel.sched.control false).currentState = false ∧
      (s.kernel.restart false).2 = true ∧
      (s.kernel.sched.control false).start.initialPriority = .of 10 ∧
      ((s.kernel.restart false).1.sched.control false).currentPriority = .of 10 ∧
      ((s.kernel.restart false).1.sched.control false).realPriority = .of 20 := by
  refine Transition.exists_of_map (fun s => (States.isDormant (s.kernel.sched.control false).currentState,
    (s.kernel.restart false).2, (s.kernel.sched.control false).start.initialPriority,
    ((s.kernel.restart false).1.sched.control false).currentPriority,
    ((s.kernel.restart false).1.sched.control false).realPriority))
    (false, true, .of 10, .of 10, .of 20) (by decide +kernel) fun s _ he => ?_
  simpa only [Prod.mk.injEq] using he

/-! ## Queues -/

/-- A queue serves those that wait on it, each once. -/
theorem serves_waiting (c : Configuration M O T) (id : T → Nat) {s : System M O T}
    (hs : Transition.Steps (System.perform id) (fun _ _ => True) c.initial s) (q : M ⊕ O) :
    ∃ l, s.kernel.Serves q l ∧ l.Nodup ∧
      ∀ t, t ∈ l ↔ s.kernel.isWaiting t = true ∧ (s.kernel.wait t).queue = q := by
  obtain ⟨lead, fol, h⟩ := Sound.steps c.sound_initial hs
  obtain ⟨rd, oc, hS⟩ := h.quiet.toCalm.standing
  refine ⟨_, hS.serves q, hS.grouped.nodup_service hS.on q, fun t => ⟨fun ht => ?_, ?_⟩⟩
  · exact ⟨hS.isWaiting ht, (hS.queued ht).2.1⟩
  · rintro ⟨hw, rfl⟩
    exact (hS.waiting hw).resolve_left (Set.notMem_empty t)

theorem serves_waiting_inheriting :
    ∃ s, Transition.run (System.perform fun t => t.toNat + 1) inheriting twoTasks.initial = some s ∧
      ∃ l, s.kernel.Serves (.inl ()) l ∧ l.Nodup ∧ true ∈ l := by
  refine Transition.exists_of_map (fun s => (s.kernel.isWaiting true, (s.kernel.wait true).queue))
    (true, .inl ()) (by decide +kernel) fun s hs he => ?_
  obtain ⟨l, hl, hn, h⟩ := serves_waiting twoTasks _ (.of_run (fun _ _ => trivial) hs) (.inl ())
  exact ⟨l, hl, hn, (h true).mpr (Prod.mk.inj he)⟩

end Rtems.Tasks
