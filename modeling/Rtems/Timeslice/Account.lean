import Rtems.Thread.Chained
import Rtems.Timeslice.Model

/-! # What the scheduler leaves to the time slices -/

namespace Rtems.Timeslice

open Intrusive Thread

variable {C T : Type*}

def account (c : Control) : Nat × BudgetAlgorithm × Start × Bool :=
  (c.cpuTimeBudget, c.budgetAlgorithm, c.start, States.isDormant c.currentState)

structure Keeps (S S' : Scheduler C T) : Prop where
  executing : S'.executing = S.executing
  ticksPerTimeslice : S'.ticksPerTimeslice = S.ticksPerTimeslice
  account : ∀ u, account (S'.control u) = account (S.control u)

namespace Keeps

variable {S S' S'' : Scheduler C T} {t u : T} {s : States} {p : Priority} {b : Bool}

theorem refl : Keeps S S := ⟨rfl, rfl, fun _ => rfl⟩

theorem trans (h : Keeps S S') (h' : Keeps S' S'') : Keeps S S'' :=
  ⟨h'.executing.trans h.executing, h'.ticksPerTimeslice.trans h.ticksPerTimeslice,
    fun u => (h'.account u).trans (h.account u)⟩

theorem cpuTimeBudget (h : Keeps S S') (u : T) :
    (S'.control u).cpuTimeBudget = (S.control u).cpuTimeBudget := congrArg (·.1) (h.account u)

theorem budgetAlgorithm (h : Keeps S S') (u : T) :
    (S'.control u).budgetAlgorithm = (S.control u).budgetAlgorithm := congrArg (·.2.1) (h.account u)

theorem of_control (he : S'.executing = S.executing) (hn : S'.ticksPerTimeslice = S.ticksPerTimeslice)
    (hc : S'.control = S.control) : Keeps S S' := ⟨he, hn, fun u => by rw [hc]⟩

theorem needSwitch : Keeps S S.needSwitch := .of_control rfl rfl rfl

theorem setHeir {n} : Keeps S (S.setHeir n) := by
  cases n <;> exact .of_control rfl rfl rfl

theorem calculateHeir : Keeps S S.calculateHeir := setHeir

theorem clearStateFinish : Keeps S (S.clearStateFinish t) := by
  rw [Scheduler.clearStateFinish_eq]
  split <;> exact .of_control rfl rfl rfl

variable [DecidableEq T]

theorem modify {f}
    (hf : Timeslice.account (f (S.control t)) = Timeslice.account (S.control t)) : Keeps S (S.modify t f) :=
  ⟨rfl, rfl, Scheduler.field_modify Timeslice.account hf⟩

theorem setCurrentState (hs : States.isDormant s = States.isDormant (S.control t).currentState) :
    Keeps S (S.setCurrentState t s) :=
  modify (by simp only [Timeslice.account, hs])

theorem setPriority : Keeps S (S.setPriority t p) := by
  rw [Scheduler.setPriority_eq]
  exact modify rfl

theorem reschedule : Keeps S S.reschedule := by
  unfold Scheduler.reschedule
  dsimp only
  split
  · exact calculateHeir.trans needSwitch
  · exact calculateHeir

theorem setStateFinish : Keeps S (S.setStateFinish t) := by
  unfold Scheduler.setStateFinish
  dsimp only
  split <;> split
  · exact calculateHeir.trans needSwitch
  · exact calculateHeir
  · exact needSwitch
  · exact refl

theorem rotateFinish : Keeps S S.rotateFinish := by
  unfold Scheduler.rotateFinish
  split
  · exact setHeir.trans needSwitch
  · exact needSwitch

variable [DecidableEq C]

theorem linkReady : Keeps S (S.linkReady t b) := .of_control rfl rfl rfl

theorem unlinkReady : Keeps S (S.unlinkReady t) := by
  unfold Scheduler.unlinkReady
  dsimp only
  split <;> exact .of_control rfl rfl rfl

theorem rotate : Keeps S S.rotate := .of_control rfl rfl rfl

theorem yieldProcessor : Keeps S S.yieldProcessor := by
  unfold Scheduler.yieldProcessor Scheduler.yieldEnter
  by_cases hone : ¬ Chain.hasOnlyOneNode S.links (.ready (S.control S.executing).ready) = true
  · rw [if_pos hone]
    exact rotate.trans rotateFinish
  · rw [if_neg hone]
    by_cases he : S.executing ≠ S.heir
    · rw [if_pos he]
      exact needSwitch
    · rw [if_neg he]
      exact refl

theorem resetTimeslice : Keeps S S.resetTimeslice := by
  unfold Scheduler.resetTimeslice
  split
  · exact refl
  · exact rotate.trans rotateFinish

/-! ## States and priorities -/

theorem setState (hs : States.isDormant s = false) : Keeps S (S.setState t s) := by
  have hk : Keeps S (S.setStateEnter t s).1 := by
    by_cases ht : (S.control t).currentState = States.ready
    · rw [Scheduler.setStateEnter_ready ht]
      refine (setCurrentState ?_).trans unlinkReady
      rw [hs, ht]
      rfl
    · rw [Scheduler.setStateEnter_set ht]
      refine setCurrentState ((States.areSet_set (s := s)).trans ?_)
      rw [show States.areSet s States.dormant = false from hs, Bool.or_false]
      rfl
  unfold Scheduler.setState
  split <;> rename_i S' he <;> rw [he] at hk
  · exact hk.trans setStateFinish
  · exact hk

theorem clearState (hs : s &&& States.dormant = 0) : Keeps S (S.clearState t s) := by
  have hclear : States.isDormant (States.clear s (S.control t).currentState) =
      States.isDormant (S.control t).currentState := States.areSet_clear hs
  have hk : Keeps S (S.clearStateEnter t s).1 := by
    by_cases hw : S.Wakes t s
    · rw [Scheduler.clearStateEnter_wakes hw]
      refine (setCurrentState ?_).trans linkReady
      rw [← hw.2, hclear]
    · rw [Scheduler.clearStateEnter_clear hw]
      exact setCurrentState hclear
  unfold Scheduler.clearState
  split <;> rename_i S' he <;> rw [he] at hk
  · exact hk.trans clearStateFinish
  · exact hk

theorem setTransient : Keeps S (S.setTransient t) := by
  have hk : Keeps S (S.setCurrentState t (States.set States.transient (S.control t).currentState)) := by
    refine setCurrentState ((States.areSet_set (s := States.transient)).trans ?_)
    rw [show States.areSet States.transient States.dormant = false from by decide, Bool.or_false]
    rfl
  unfold Scheduler.setTransient
  dsimp only
  split
  · exact hk.trans unlinkReady
  · exact hk

theorem changePriority : Keeps S (S.changePriority t p b) := by
  have hk : Keeps S (S.changePriorityBegin t p) := by
    unfold Scheduler.changePriorityBegin
    dsimp only
    split
    · exact setTransient.trans setPriority
    · exact setTransient
  have hk : Keeps S ((S.changePriorityBegin t p).changePriorityEnter t b).1 := by
    refine hk.trans ?_
    unfold Scheduler.changePriorityEnter
    dsimp only
    split
    · exact setCurrentState (States.areSet_clear (by decide))
    · exact (setCurrentState (States.areSet_clear (by decide))).trans linkReady
  unfold Scheduler.changePriority
  split <;> rename_i S' he <;> rw [he] at hk
  · exact hk.trans reschedule
  · exact hk

end Keeps

end Rtems.Timeslice
