import Rtems.Thread.Operations

/-! # The chains, whichever thread is the heir -/

namespace Rtems.Thread

open Intrusive

variable {C T : Type*} {S S' : Scheduler C T} {rd : Priority → List T} {oc oc' : C → Option (List T)}
  {t u : T} {p : Priority} {s : States}

structure Chained (S : Scheduler C T) (rd : Priority → List T) (oc : C → Option (List T)) : Prop
    extends Readied S rd oc where
  pointers : ∀ t, (S.control t).Placed

namespace Chained

theorem congr (h : Chained S rd oc) (hl : S'.links = S.links) (hc : S'.control = S.control)
    (hb : S'.bitMap = S.bitMap) : Chained S' rd oc :=
  ⟨h.toReadied.congr hl hc hb, fun t => by rw [hc]; exact h.pointers t⟩

theorem relink {L} (h : Chained S rd oc) (hL : Represents L (chains rd oc')) :
    Chained { S with links := L } rd oc' :=
  ⟨⟨hL, h.mem_iff, h.marks, h.placed⟩, h.pointers⟩

end Chained

/-! ## Links and bit map, where they stay as they are -/

namespace Scheduler

variable {n : Node (ChainName C) T}

@[simp] theorem links_setHeir : (S.setHeir n).links = S.links := by cases n <;> rfl

@[simp] theorem bitMap_setHeir : (S.setHeir n).bitMap = S.bitMap := by cases n <;> rfl

@[simp] theorem links_calculateHeir : S.calculateHeir.links = S.links := links_setHeir

@[simp] theorem bitMap_calculateHeir : S.calculateHeir.bitMap = S.bitMap := bitMap_setHeir

@[simp] theorem links_clearStateFinish : (S.clearStateFinish t).links = S.links := by
  rw [clearStateFinish_eq]
  split <;> rfl

@[simp] theorem bitMap_clearStateFinish : (S.clearStateFinish t).bitMap = S.bitMap := by
  rw [clearStateFinish_eq]
  split <;> rfl

variable [DecidableEq T]

@[simp] theorem links_setStateFinish : (S.setStateFinish t).links = S.links := by
  unfold setStateFinish
  dsimp only
  split <;> split <;> simp [needSwitch]

@[simp] theorem bitMap_setStateFinish : (S.setStateFinish t).bitMap = S.bitMap := by
  unfold setStateFinish
  dsimp only
  split <;> split <;> simp [needSwitch]

@[simp] theorem links_reschedule : S.reschedule.links = S.links := by
  unfold reschedule
  dsimp only
  split <;> simp [needSwitch]

@[simp] theorem bitMap_reschedule : S.reschedule.bitMap = S.bitMap := by
  unfold reschedule
  dsimp only
  split <;> simp [needSwitch]

end Scheduler

namespace Chained

theorem clearStateFinish (h : Chained S rd oc) : Chained (S.clearStateFinish t) rd oc :=
  h.congr (by simp) (by simp) (by simp)

variable [DecidableEq T]

section

variable (h : Chained S rd oc)

include h

theorem setStateFinish : Chained (S.setStateFinish t) rd oc :=
  h.congr (by simp) (by simp) (by simp)

theorem reschedule : Chained S.reschedule rd oc :=
  h.congr (by simp) (by simp) (by simp)

theorem modify {f}
    (hs : (f (S.control t)).currentState = States.ready ↔ (S.control t).currentState = States.ready)
    (hp : (S.control t).currentState = States.ready →
      (f (S.control t)).currentPriority = (S.control t).currentPriority)
    (hpl : (f (S.control t)).Placed) : Chained (S.modify t f) rd oc := by
  refine ⟨h.toReadied.modify hs fun hr => ⟨hp hr, hpl⟩, fun u => ?_⟩
  rw [Scheduler.field_modify Control.Placed (eq_true hpl |>.trans (eq_true (h.pointers t)).symm)]
  exact h.pointers u

theorem touch {f}
    (hf : (f (S.control t)).scheduling = (S.control t).scheduling) : Chained (S.modify t f) rd oc := by
  simp only [Control.scheduling, Prod.mk.injEq] at hf
  obtain ⟨hs, hp, hr, hm, -⟩ := hf
  refine h.modify (by rw [hs]) (fun _ => hp) ?_
  simp only [Control.Placed, hp, hr, hm]
  exact h.pointers t

theorem setCurrentState (ht : (S.control t).currentState ≠ States.ready)
    (hs : s ≠ States.ready) : Chained (S.setCurrentState t s) rd oc :=
  ⟨h.toReadied.setCurrentState ht hs, fun u => Scheduler.placed_setCurrentState.mpr (h.pointers u)⟩

end

variable [DecidableEq C]

section

variable (h : Chained S rd oc)

include h

theorem unlinkReady (ht : (S.control t).currentState = States.ready)
    (hs : s ≠ States.ready) : ∃ rd', Chained ((S.setCurrentState t s).unlinkReady t) rd' oc := by
  obtain ⟨l1, l2, hp⟩ := h.split ht
  obtain ⟨L, B, he, hR⟩ := unlinkReady_spec h.toReadied hp hs
  rw [he]
  exact ⟨_, hR, fun u => Scheduler.placed_setCurrentState.mpr (h.pointers u)⟩

theorem linkReady (ht : (S.control t).currentState ≠ States.ready)
    (ho : Off oc t) (prependIt : Bool) :
    ∃ rd', Chained ((S.setCurrentState t States.ready).linkReady t prependIt) rd' oc := by
  obtain ⟨L, B, he, hR⟩ := linkReady_spec h.toReadied ht ho (h.pointers t) prependIt
  rw [he]
  exact ⟨_, hR, fun u => Scheduler.placed_setCurrentState.mpr (h.pointers u)⟩

theorem setStateEnter (hs : s ≠ States.ready) :
    ∃ rd', Chained (S.setStateEnter t s).1 rd' oc := by
  by_cases ht : (S.control t).currentState = States.ready
  · rw [Scheduler.setStateEnter_ready ht]
    exact h.unlinkReady ht hs
  · rw [Scheduler.setStateEnter_set ht]
    exact ⟨rd, h.setCurrentState ht fun hc => ht (States.set_eq_ready_iff.mp hc).1⟩

theorem clearStateEnter (ho : S.Wakes t s → Off oc t) :
    ∃ rd', Chained (S.clearStateEnter t s).1 rd' oc := by
  by_cases hw : S.Wakes t s
  · rw [Scheduler.clearStateEnter_wakes hw]
    exact h.linkReady hw.1 (ho hw) false
  · rw [Scheduler.clearStateEnter_clear hw]
    rcases Scheduler.clear_cases hw with he | ⟨hr, hc⟩
    · exact ⟨rd, he.symm ▸ h⟩
    · exact ⟨rd, h.setCurrentState hr hc⟩

theorem setState (hs : s ≠ States.ready) :
    ∃ rd', Chained (S.setState t s) rd' oc := by
  obtain ⟨rd', h'⟩ := h.setStateEnter hs
  unfold Scheduler.setState
  split <;> rename_i S' he <;> rw [he] at h'
  · exact ⟨rd', h'.setStateFinish⟩
  · exact ⟨rd', h'⟩

theorem clearState (ho : S.Wakes t s → Off oc t) :
    ∃ rd', Chained (S.clearState t s) rd' oc := by
  obtain ⟨rd', h'⟩ := h.clearStateEnter ho
  unfold Scheduler.clearState
  split <;> rename_i S' he <;> rw [he] at h'
  · exact ⟨rd', h'.clearStateFinish⟩
  · exact ⟨rd', h'⟩

theorem changePriorityBegin :
    ∃ rd', Chained (S.changePriorityBegin t p) rd' oc := by
  obtain ⟨rd', L, B, he, hR⟩ := h.toReadied.setTransient
  rw [Scheduler.changePriorityBegin_eq (h.pointers t)]
  refine ⟨rd', hR.setPriority Scheduler.setTransient_not_ready, fun u => ?_⟩
  by_cases hut : u = t
  · subst hut
    rw [Scheduler.control_modify_self]
    exact Control.placed_setPriority _ p
  · rw [Scheduler.control_modify_ne _ hut, Scheduler.control_setTransient]
    exact Scheduler.placed_setCurrentState.mpr (h.pointers u)

theorem changePriority
    (ho : States.clear States.transient (S.control t).currentState = States.ready → Off oc t)
    (prependIt : Bool) : ∃ rd', Chained (S.changePriority t p prependIt) rd' oc := by
  obtain ⟨rd', h'⟩ := h.changePriorityBegin
  have hst : ((S.changePriorityBegin t p).control t).currentState =
      States.set States.transient (S.control t).currentState := by
    rw [Scheduler.changePriorityBegin_eq (h.pointers t)]
    simp [Control.setPriority]
  have hne : ((S.changePriorityBegin t p).control t).currentState ≠ States.ready := by
    rw [hst]
    exact fun hc => absurd (States.set_eq_ready_iff.mp hc).2 (by decide)
  have hcl : States.clear States.transient ((S.changePriorityBegin t p).control t).currentState =
      States.clear States.transient (S.control t).currentState := by
    rw [hst, States.clear_set]
  by_cases hr : States.clear States.transient (S.control t).currentState = States.ready
  · rw [Scheduler.changePriority_ready (hcl.trans hr)]
    obtain ⟨rd'', h''⟩ := h'.linkReady hne (ho hr) prependIt
    exact ⟨rd'', h''.reschedule⟩
  · rw [Scheduler.changePriority_clear (hcl ▸ hr)]
    exact ⟨rd', h'.setCurrentState hne (hcl ▸ hr)⟩

theorem rotate (hr : (S.control S.executing).currentState = States.ready) {l1 l2}
    (hp : rd (S.control S.executing).currentPriority = l1 ++ S.executing :: l2) :
    Chained S.rotate.rotateFinish (Function.update rd (S.control S.executing).currentPriority
      (l1 ++ l2 ++ [S.executing])) oc := by
  have hR : Chained S.rotate _ oc := ⟨h.toReadied.rotate hr hp, h.pointers⟩
  refine hR.congr ?_ (by simp) ?_ <;> unfold Scheduler.rotateFinish <;> dsimp only <;> split <;>
    simp [Scheduler.needSwitch]

theorem yieldProcessor (hr : (S.control S.executing).currentState = States.ready) :
    ∃ rd', Chained S.yieldProcessor rd' oc := by
  obtain ⟨l1, l2, hp⟩ := h.split hr
  unfold Scheduler.yieldProcessor Scheduler.yieldEnter
  by_cases hone : Chain.hasOnlyOneNode S.links (.ready (S.control S.executing).ready) = true
  · rw [if_neg (not_not.mpr hone)]
    by_cases he : S.executing = S.heir
    · rw [if_neg (not_not.mpr he)]
      exact ⟨rd, h⟩
    · rw [if_pos he]
      exact ⟨rd, h.congr rfl rfl rfl⟩
  · rw [if_pos hone]
    exact ⟨_, h.rotate hr hp⟩

omit [DecidableEq C] in
theorem dispatch : Chained S.dispatch rd oc := by
  unfold Scheduler.dispatch
  split
  · have hS : Chained { S with contextSwitchNecessary := false, executing := S.heir } rd oc :=
      h.congr rfl rfl rfl
    exact (hS.touch rfl).touch rfl
  · exact h.touch rfl

theorem ready (ht : (S.control t).currentState ≠ States.ready) (ho : Off oc t) :
    ∃ rd', Chained (S.ready t) rd' oc := by
  obtain ⟨rd', h'⟩ := h.linkReady ht ho false
  exact ⟨rd', h'.reschedule⟩

theorem start (ho : Off oc t) : ∃ rd', Chained (S.start t).1 rd' oc := by
  unfold Scheduler.start
  split <;> rename_i hd
  · have h' : Chained (S.loadEnvironment t) rd oc :=
      ⟨h.toReadied.loadEnvironment, fun u =>
        (Scheduler.field_modify Control.Placed (by rfl) u).mpr (h.pointers u)⟩
    refine h'.ready ?_ ho
    simp only [Scheduler.loadEnvironment, Scheduler.control_modify_self]
    intro hc
    rw [hc] at hd
    exact absurd hd (by decide)
  · exact ⟨rd, h⟩

end

end Chained

section

variable [DecidableEq C] [DecidableEq T]

theorem Scheduler.control_start_ne (hu : u ≠ t) : (S.start t).1.control u = S.control u := by
  unfold Scheduler.start
  split
  · simp only [Scheduler.control_ready, Scheduler.control_setCurrentState_ne hu, Scheduler.loadEnvironment,
      Scheduler.control_modify_ne _ hu]
  · rfl

theorem Scheduler.currentState_start (ht : States.isDormant (S.control t).currentState = true) :
    ((S.start t).1.control t).currentState = States.ready := by
  rw [Scheduler.start, if_pos ht]
  simp [Scheduler.control_ready]

end

end Rtems.Thread
