import Rtems.Thread.Lemmas

/-! # The operations of the scheduler, one by one -/

namespace Rtems.Thread

open Function Intrusive

variable {C T : Type*} {S S' : Scheduler C T} {rd : Priority → List T} {oc : C → Option (List T)}
  {t u : T} {p q : Priority} {s : States} {l l1 l2 : List T}

def Scheduler.Wakes (S : Scheduler C T) (t : T) (s : States) : Prop :=
  (S.control t).currentState ≠ States.ready ∧
    States.clear s (S.control t).currentState = States.ready

theorem Readied.congr (h : Readied S rd oc) (hl : S'.links = S.links) (hc : S'.control = S.control)
    (hb : S'.bitMap = S.bitMap) : Readied S' rd oc :=
  ⟨hl ▸ h.on, fun {_ _} => by rw [hc]; exact h.mem_iff, hb ▸ h.marks, fun {_} => by rw [hc]; exact h.placed⟩

variable [DecidableEq T]

namespace Scheduler

theorem setCurrentState_self : S.setCurrentState t (S.control t).currentState = S := by
  simp [setCurrentState, modify]

variable [DecidableEq C]

theorem setStateEnter_ready (h : (S.control t).currentState = States.ready) :
    S.setStateEnter t s = ((S.setCurrentState t s).unlinkReady t, true) := by
  simp [setStateEnter, h, States.isReady]

theorem setStateEnter_set (h : (S.control t).currentState ≠ States.ready) :
    S.setStateEnter t s = (S.setCurrentState t (States.set s (S.control t).currentState), false) := by
  simp [setStateEnter, h, States.isReady]

theorem clearStateEnter_wakes (h : S.Wakes t s) :
    S.clearStateEnter t s = ((S.setCurrentState t States.ready).linkReady t false, true) := by
  have hb : (S.control t).currentState &&& s ≠ 0 := fun hb => h.1 (States.clear_eq_self hb ▸ h.2)
  simp only [clearStateEnter, if_pos hb, h.2, States.isReady, decide_true, if_true]

theorem clearStateEnter_clear (h : ¬ S.Wakes t s) :
    S.clearStateEnter t s = (S.setCurrentState t (States.clear s (S.control t).currentState), false) := by
  unfold clearStateEnter
  by_cases hb : (S.control t).currentState &&& s = 0
  · simp only [States.clear_eq_self hb, hb, ne_eq, not_true_eq_false, if_false, setCurrentState_self]
  · have hc : States.clear s (S.control t).currentState ≠ States.ready := by
      refine fun hc => h ⟨fun hr => hb ?_, hc⟩
      rw [hr]
      exact BitVec.zero_and
    simp only [ne_eq, hb, not_false_eq_true, if_true, States.isReady, hc, decide_false, Bool.false_eq_true,
      if_false]

end Scheduler

theorem Readied.setCurrentState (h : Readied S rd oc) (ht : (S.control t).currentState ≠ States.ready)
    (hs : s ≠ States.ready) : Readied (S.setCurrentState t s) rd oc :=
  h.modify (iff_of_false hs ht) fun hr => absurd hr ht

theorem Scheduler.clear_cases (hw : ¬ S.Wakes t s) :
    S.setCurrentState t (States.clear s (S.control t).currentState) = S ∨
      (S.control t).currentState ≠ States.ready ∧
        States.clear s (S.control t).currentState ≠ States.ready := by
  by_cases hr : (S.control t).currentState = States.ready
  · left
    rw [hr, States.clear_ready, ← hr, Scheduler.setCurrentState_self]
  · exact Or.inr ⟨hr, fun hc => hw ⟨hr, hc⟩⟩

variable [DecidableEq C]

theorem Scheduler.control_setState : (S.setState t s).control = (S.setCurrentState t
    (if (S.control t).currentState = States.ready then s
      else States.set s (S.control t).currentState)).control := by
  unfold Scheduler.setState
  by_cases ht : (S.control t).currentState = States.ready
  · simp [Scheduler.setStateEnter_ready ht, ht]
  · simp [Scheduler.setStateEnter_set ht, ht]

theorem Scheduler.control_clearState : (S.clearState t s).control =
    (S.setCurrentState t (States.clear s (S.control t).currentState)).control := by
  unfold Scheduler.clearState
  by_cases hw : S.Wakes t s
  · simp [Scheduler.clearStateEnter_wakes hw, hw.2]
  · rw [Scheduler.clearStateEnter_clear hw]

@[simp] theorem Scheduler.executing_clearState : (S.clearState t s).executing = S.executing := by
  unfold Scheduler.clearState
  by_cases hw : S.Wakes t s
  · simp [Scheduler.clearStateEnter_wakes hw]
  · rw [Scheduler.clearStateEnter_clear hw]; rfl

omit [DecidableEq C] [DecidableEq T] in
theorem Scheduler.clearStateFinish_eq : S.clearStateFinish t =
    if (S.control t).currentPriority < (S.control S.heir).currentPriority then
      { S with
        heir := t
        contextSwitchNecessary := S.contextSwitchNecessary ||
          decide ((S.control S.executing).isPreemptible = true ∨ (S.control t).currentPriority = 0) }
    else S := by
  unfold Scheduler.clearStateFinish
  split
  · dsimp only
    split <;> rename_i hc
    · simp only [Scheduler.needSwitch, decide_eq_true hc, Bool.or_true]
    · simp only [decide_eq_false hc, Bool.or_false]
  · rfl

theorem Scheduler.control_ready : (S.ready t).control = (S.setCurrentState t States.ready).control := by
  simp [Scheduler.ready, Scheduler.readyEnter]

/-! ## `_Thread_Change_priority` -/

namespace Scheduler

@[simp] theorem control_setTransient : (S.setTransient t).control =
    (S.setCurrentState t (States.set States.transient (S.control t).currentState)).control := by
  unfold setTransient
  dsimp only
  split <;> simp

@[simp] theorem executing_setTransient : (S.setTransient t).executing = S.executing := by
  unfold setTransient
  dsimp only
  split <;> simp

theorem setTransient_not_ready :
    ((S.setTransient t).control t).currentState ≠ States.ready := by
  rw [control_setTransient, control_setCurrentState_self]
  intro hc
  have := (States.set_eq_ready_iff.mp hc).2
  revert this
  decide

omit [DecidableEq C] in
theorem setPriority_eq : S.setPriority t p = S.modify t fun c => c.setPriority p := by
  simp [setPriority, setCurrentPriority, setReady, setPriorityMap, modify_modify, Control.setPriority]

theorem changePriorityBegin_eq (h : (S.control t).Placed) :
    S.changePriorityBegin t p = (S.setTransient t).modify t fun c => c.setPriority p := by
  unfold changePriorityBegin
  dsimp only
  split <;> rename_i hp
  · exact setPriority_eq
  · have hpl : ((S.setTransient t).control t).Placed := by
      rw [control_setTransient]
      exact placed_setCurrentState.mpr h
    rw [← not_not.mp hp, modify, hpl.setPriority_self, update_eq_self]

theorem changePriorityEnter_ready {prependIt}
    (h : States.clear States.transient (S.control t).currentState = States.ready) :
    S.changePriorityEnter t prependIt =
      ((S.setCurrentState t States.ready).linkReady t prependIt, true) := by
  simp [changePriorityEnter, h, States.isReady]

theorem changePriorityEnter_clear {prependIt}
    (h : States.clear States.transient (S.control t).currentState ≠ States.ready) :
    S.changePriorityEnter t prependIt =
      (S.setCurrentState t (States.clear States.transient (S.control t).currentState), false) := by
  simp [changePriorityEnter, h, States.isReady]

theorem changePriority_ready {prependIt} (h : States.clear States.transient
    ((S.changePriorityBegin t p).control t).currentState = States.ready) :
    S.changePriority t p prependIt = (((S.changePriorityBegin t p).setCurrentState t
      States.ready).linkReady t prependIt).reschedule := by
  rw [changePriority, changePriorityEnter_ready h]

theorem changePriority_clear {prependIt} (h : States.clear States.transient
    ((S.changePriorityBegin t p).control t).currentState ≠ States.ready) :
    S.changePriority t p prependIt = (S.changePriorityBegin t p).setCurrentState t
      (States.clear States.transient ((S.changePriorityBegin t p).control t).currentState) := by
  rw [changePriority, changePriorityEnter_clear h]

theorem control_changePriority {prependIt} (h : (S.control t).Placed) :
    (S.changePriority t p prependIt).control = (S.modify t fun c => { c.setPriority p with
      currentState := States.clear States.transient c.currentState }).control := by
  have hb : (S.changePriorityBegin t p).control = (S.modify t fun c => { c.setPriority p with
      currentState := States.set States.transient c.currentState }).control := by
    rw [changePriorityBegin_eq h]
    simp [modify, setCurrentState, Control.setPriority]
  have hc : States.clear States.transient ((S.changePriorityBegin t p).control t).currentState =
      States.clear States.transient (S.control t).currentState := by
    rw [hb, control_modify_self, States.clear_set]
  by_cases hr : States.clear States.transient (S.control t).currentState = States.ready
  · rw [changePriority_ready (hc.trans hr)]
    simp [setCurrentState, modify, hb, hr]
  · rw [changePriority_clear (hc ▸ hr), hc]
    simp [setCurrentState, modify, hb]

@[simp] theorem executing_changePriorityBegin : (S.changePriorityBegin t p).executing = S.executing := by
  unfold changePriorityBegin
  dsimp only
  split
  · simp [setPriority_eq, modify]
  · simp

@[simp] theorem executing_changePriority {prependIt} :
    (S.changePriority t p prependIt).executing = S.executing := by
  by_cases h : States.clear States.transient ((S.changePriorityBegin t p).control t).currentState =
      States.ready
  · simp [changePriority_ready h]
  · simp [changePriority_clear h]

end Scheduler

theorem Readied.setTransient (h : Readied S rd oc) : ∃ rd' L B, S.setTransient t =
      (S.setCurrentState t (States.set States.transient (S.control t).currentState)).relink L B ∧
    Readied (S.setTransient t) rd' oc := by
  have hne : States.set States.transient (S.control t).currentState ≠ States.ready := fun hc =>
    absurd (States.set_eq_ready_iff.mp hc).2 (by decide)
  unfold Scheduler.setTransient
  by_cases ht : (S.control t).currentState = States.ready
  · obtain ⟨l1, l2, hp⟩ := h.split ht
    obtain ⟨L, B, he, hR⟩ := unlinkReady_spec h hp hne
    rw [if_pos (States.isReady_iff.mpr ht), he]
    exact ⟨_, L, B, rfl, hR⟩
  · rw [if_neg fun hc => ht (States.isReady_iff.mp hc)]
    exact ⟨rd, _, _, rfl, h.setCurrentState ht hne⟩

omit [DecidableEq C] in
theorem Readied.setPriority (h : Readied S rd oc) (ht : (S.control t).currentState ≠ States.ready) :
    Readied (S.modify t fun c => c.setPriority p) rd oc :=
  h.modify Iff.rfl fun hr => absurd hr ht

theorem Readied.rotate (h : Readied S rd oc) (hr : (S.control S.executing).currentState = States.ready)
    (hp : rd (S.control S.executing).currentPriority = l1 ++ S.executing :: l2) :
    Readied S.rotate (update rd (S.control S.executing).currentPriority
      (l1 ++ l2 ++ [S.executing])) oc := by
  have hpl := (h.placed hr).1
  generalize (S.control S.executing).currentPriority = p at hp hpl ⊢
  have hc : chains rd oc (.ready p) = some (l1 ++ S.executing :: l2) := congrArg some hp
  have hR := Chain.append_represents (Chain.extract_represents h.on hc) (update_self _ _ _)
    (h.on.off_without hc)
  rw [update_idem, update_chains_ready] at hR
  have hmem : ∀ {q u}, u ∈ update rd p (l1 ++ l2 ++ [S.executing]) q ↔ u ∈ rd q := by
    intro q u
    by_cases hq : q = p
    · subst hq
      rw [update_self, hp]
      simp only [List.mem_append, List.mem_cons, List.not_mem_nil, or_false]
      tauto
    · rw [update_of_ne hq]
  refine ⟨?_, hmem.trans h.mem_iff, h.marks.congr fun q => ?_, h.placed⟩
  · unfold Scheduler.rotate
    rw [hpl]
    exact hR
  · simp only [ne_eq, List.eq_nil_iff_forall_not_mem, hmem]

theorem Scheduler.applyMode_fst (modeSet mask : BitVec 32) (c : Control) :
    ((Scheduler.applyMode modeSet mask c).1.currentState,
      (Scheduler.applyMode modeSet mask c).1.currentPriority,
      (Scheduler.applyMode modeSet mask c).1.ready, (Scheduler.applyMode modeSet mask c).1.priorityMap) =
    (c.currentState, c.currentPriority, c.ready, c.priorityMap) := by
  unfold Scheduler.applyMode
  dsimp only
  split_ifs <;> rfl

omit [DecidableEq C] in
theorem Readied.loadEnvironment (h : Readied S rd oc) : Readied (S.loadEnvironment t) rd oc :=
  h.modify Iff.rfl fun hr => ⟨rfl, h.placed hr⟩

end Rtems.Thread
