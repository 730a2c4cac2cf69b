import Rtems.Library.Transition
import Rtems.Timeslice.Invariant

/-! # How long a slice lasts -/

namespace Rtems.Timeslice

open Intrusive Thread Transition Option

/-! ## Runs -/

section Runs

variable {C T : Type*} [DecidableEq C] [DecidableEq T] {s s' : System C T} {m : Move T}

theorem Sound.boot {idle n memory} (hn : 1 ≤ n) (hw : n < 2 ^ 32) :
    Sound (System.boot idle n memory : System C T) := by
  have h0 : Sound (System.reset idle n memory : System C T) := by
    refine ⟨hn, hw, ⟨fun _ => [], ⟨⟨?_, fun {p t} => ?_, ?_, fun _ => ⟨rfl, rfl⟩⟩, fun _ => ⟨rfl, rfl⟩⟩⟩,
      fun u => ⟨?_, ?_, ?_, ?_, ?_, ?_⟩, ?_⟩
    · refine Links.empty_represents fun {c l} h => ?_
      cases c with
      | ready p => exact (some.inj h).symm
      | other c => cases h
    · exact iff_of_false (by simp) fun h => absurd h.1 (show ¬ States.dormant = States.ready by decide)
    · exact Priority.Marks.empty.congr fun p => by simp
    all_goals simp [System.reset, System.control, account, timesliced, InSlice]
    decide
  refine h0.change ((h0.create rfl).start rfl) ⟨?_, ?_, ?_, ?_, fun _ _ => rfl, ?_⟩ fun _ => ?_
  all_goals simp [timesliced, InSlice]

/-- The budgets are in order where the code relies on it. -/
def Granted (s : System C T) : Move T → Prop
  | .pthreadCreate t explicit => (s.inherited explicit).1 = .rr →
      1 ≤ (s.control t).cpuTimeBudget ∧ (s.control t).cpuTimeBudget ≤ s.scheduler.ticksPerTimeslice
  | .setschedparam t policy _ =>
    t = s.executing → timesliced policy.budgetAlgorithm = true → s.ahead = 0
  | .taskMode modeSet mask =>
    (turnsOn modeSet mask = true → (s.api s.executing).schedpolicy ≠ .sporadic ∧
      1 ≤ (s.control s.executing).cpuTimeBudget ∧
        s.ahead + (s.control s.executing).cpuTimeBudget ≤ s.scheduler.ticksPerTimeslice) ∧
    (s.selfSwitch = true → s.ahead = 0)
  | .startMultitasking => timesliced (s.control s.scheduler.heir).budgetAlgorithm = true →
      1 ≤ (s.control s.scheduler.heir).cpuTimeBudget ∧
        (s.control s.scheduler.heir).cpuTimeBudget ≤ s.scheduler.ticksPerTimeslice
  | .dispatch => s.selfSwitch = true → s.ahead = 0
  | _ => True

instance (s : System C T) (m : Move T) : Decidable (Granted s m) := by
  cases m <;> unfold Granted <;> infer_instance

theorem Sound.step (h : Sound s) (hg : Granted s m) (he : s.step m = some s') : Sound s' := by
  obtain ⟨rd, hch⟩ := h.chained
  cases m with
  | taskCreate t p modes =>
    obtain ⟨hf, rfl⟩ := ite_some_none_eq_some.mp he
    exact h.taskCreate hf
  | taskStart t =>
    obtain ⟨⟨hc, hd, hte⟩, rfl⟩ := ite_some_none_eq_some.mp he
    exact h.start hc hd hte
  | pthreadCreate t explicit =>
    obtain ⟨hf, rfl⟩ := ite_some_none_eq_some.mp he
    exact h.pthreadCreate hf hg
  | setschedparam t policy param =>
    obtain ⟨hk, rfl⟩ := ite_some_none_eq_some.mp he
    exact h.setschedparam hk hg
  | taskMode modeSet mask =>
    cases he
    exact h.taskMode hg.1 hg.2
  | startMultitasking =>
    obtain ⟨-, he⟩ := Option.ite_none_left_eq_some.mp he
    cases he
    exact h.startMultitasking hg
  | dispatch =>
    cases he
    exact h.dispatch fun hc hx => hg (decide_eq_true ⟨hx, Or.inl hc⟩)
  | tick expired =>
    cases he
    exact (h.expire expired).tickle
  | setState t state =>
    obtain ⟨⟨hd, hr⟩, rfl⟩ := ite_some_none_eq_some.mp he
    exact h.keeps (.setState (decide_eq_false (not_not.mpr hd))) (hch.setState hr)
  | clearState t state =>
    obtain ⟨hd, rfl⟩ := ite_some_none_eq_some.mp he
    exact h.keeps (.clearState hd) (hch.clearState fun _ => off_none)
  | changePriority t p prependIt =>
    cases he
    exact h.keeps .changePriority (hch.changePriority (fun _ => off_none) prependIt)
  | yieldProcessor =>
    obtain ⟨hr, rfl⟩ := ite_some_none_eq_some.mp he
    exact h.keeps .yieldProcessor (hch.yieldProcessor (States.isReady_iff.mp hr))

/-- A thread has a budget of a slice at most, and is not ahead for longer. -/
theorem budget_in_slice {idle : T} {n : Nat} {memory : T → Nat} (hn : 1 ≤ n) (hw : n < 2 ^ 32)
    (h : Steps System.step Granted (System.boot idle n memory : System C T) s)
    (ht : timesliced (s.control s.executing).budgetAlgorithm = true) :
    1 ≤ (s.control s.executing).cpuTimeBudget ∧
      (s.control s.executing).cpuTimeBudget ≤ s.scheduler.ticksPerTimeslice ∧
      s.ahead < s.scheduler.ticksPerTimeslice := by
  have hS : Sound s := h.invariant (I := Sound) (fun hs hP he => hs.step hP he) (.boot hn hw)
  obtain ⟨hb₁, hb₂⟩ : 1 ≤ (s.control s.executing).cpuTimeBudget ∧
      s.ahead + (s.control s.executing).cpuTimeBudget ≤ s.scheduler.ticksPerTimeslice := hS.inSlice ht
  omega

end Runs

def fresh : System Empty Nat := .boot 0 2 fun _ => 0

theorem budget_in_slice_tasks :
    ∃ s, run (checked System.step Granted) [.taskCreate 1 (.of 100) 0, .taskStart 1, .startMultitasking,
        .taskCreate 2 (.of 56) 0x200, .taskCreate 3 (.of 56) 0x200, .taskStart 2, .taskStart 3, .dispatch,
        .tick []] fresh = some s ∧
      s.executing = 2 ∧ s.ahead = 1 ∧ 1 ≤ (s.control s.executing).cpuTimeBudget ∧
        (s.control s.executing).cpuTimeBudget ≤ s.scheduler.ticksPerTimeslice ∧
        s.ahead < s.scheduler.ticksPerTimeslice := by
  refine exists_of_map (fun s => (s.executing, s.ahead, timesliced (s.control s.executing).budgetAlgorithm)) (2, 1, true)
    (by decide +kernel) fun s hs he => ?_
  simp only [Prod.mk.injEq] at he
  exact ⟨he.1, he.2.1,
    budget_in_slice (by decide) (by decide) (Steps.refl.run_checked hs) he.2.2⟩

/-- A thread with `SCHED_RR` starts without a budget. -/
theorem round_robin_without_budget :
    ∃ s, run System.step [.taskCreate 1 (.of 100) 0, .taskStart 1, .startMultitasking,
        .pthreadCreate 2 (some (.rr, ⟨200, 0, 1, 1⟩)), .pthreadCreate 3 (some (.rr, ⟨200, 0, 1, 1⟩)), .dispatch,
        .tick [], .tick [], .tick []] fresh = some s ∧
      s.executing = 2 ∧ (s.control 2).budgetAlgorithm = .exhaustTimeslice ∧ (s.control 2).isPreemptible = true ∧
        (s.control 2).cpuTimeBudget = 2 ^ 32 - 3 ∧ s.scheduler.ticksPerTimeslice = 2 ∧ s.ahead = 3 := by
  refine exists_of_map (fun s => (s.executing, (s.control 2).budgetAlgorithm, (s.control 2).isPreemptible, (s.control 2).cpuTimeBudget, s.scheduler.ticksPerTimeslice, s.ahead)) (2, .exhaustTimeslice, true, 2 ^ 32 - 3, 2, 3)
    (by decide +kernel) fun s hs he => ?_
  simp only [Prod.mk.injEq] at he
  exact he

end Rtems.Timeslice
