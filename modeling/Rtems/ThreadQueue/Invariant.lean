import Mathlib.Data.Set.Insert
import Rtems.Thread.Chained
import Rtems.ThreadQueue.Search

/-!
# The queues and the states of the threads

A thread is in transit when it is about to join a queue or has left one and is not yet unblocked.
-/

namespace Rtems

namespace States

def Includes (cur m : States) : Prop := cur &&& m = m

variable {cur m s b : States}

theorem Includes.refl (m : States) : Includes m m := BitVec.and_self

theorem Includes.set (m cur : States) : Includes (States.set m cur) m := by
  unfold Includes States.set
  ext i hi
  simp only [BitVec.getElem_and, BitVec.getElem_or]
  cases m[i] <;> simp

theorem Includes.set_of (h : Includes cur m) (s : States) : Includes (States.set s cur) m := by
  unfold Includes States.set at *
  ext i hi
  have hb := congrArg (fun x : BitVec 32 => x[i]) h
  simp only [BitVec.getElem_and, BitVec.getElem_or] at hb ⊢
  cases hm : m[i] <;> simp_all

theorem Includes.clear (h : Includes cur m) (hs : s &&& m = 0) : Includes (States.clear s cur) m := by
  unfold Includes
  rw [clear_and_eq hs, h]

theorem areSet_of_includes (h : Includes cur m) (hm : m ≠ 0) : areSet cur m = true := by
  unfold Includes at h
  simpa [areSet, h] using hm

theorem Includes.of_subset (h : Includes cur m) (hm : States.areSet m s = true) :
    States.areSet cur s = true := by
  simp only [States.areSet, ne_eq, decide_eq_true_eq] at *
  intro hc
  refine hm ?_
  rw [← h, BitVec.and_assoc, BitVec.and_comm m s, ← BitVec.and_assoc, hc, BitVec.ofNat_eq_ofNat,
    BitVec.zero_and]

theorem and_of_clear (hm : States.clear b m = ready) (hs : s &&& b = 0) : s &&& m = 0 := by
  rw [← clear_eq_self hs, clear_and, hm]
  exact BitVec.and_zero

theorem areSet_clear_of (h : States.clear b m = ready) : areSet (States.clear b cur) m = false := by
  simp [States.areSet, clear_and, h, ready]

theorem clear_clear_waiting : States.clear blocked waitingOnThreadQueue = ready := by decide

theorem isWaiting_clear_blocked : isWaitingOnThreadQueue (States.clear blocked cur) = false :=
  areSet_clear_of clear_clear_waiting

end States

namespace ThreadQueue

open Intrusive Thread

variable {Q T : Type*}

theorem Control.state_ne (c : Control) : c.state ≠ 0 := by
  intro h
  have := c.waits
  rw [h] at this
  exact absurd this (by decide)

def Kernel.Serves (K : Kernel Q T) (q : Q) (l : List T) : Prop :=
  (K.discipline q = .fifo → Holds K.sched.links (fifoHeader q) l) ∧
  (K.discipline q = .priority → ∃ (lead : Fin 4 → List T) (fol : T → List T),
    (∀ i, Holds K.sched.links (header q i) (lead i)) ∧
    (∀ i, ∀ u ∈ lead i, Holds K.sched.links (block2n u) (fol u)) ∧ l = service lead fol)

theorem Kernel.Serves.unique {K : Kernel Q T} {q l k} (h : K.Serves q l) (h' : K.Serves q k) : l = k := by
  cases hd : K.discipline q with
  | fifo => exact (h.1 hd).unique (h'.1 hd)
  | priority =>
    obtain ⟨lead, fol, hl, hf, rfl⟩ := h.2 hd
    obtain ⟨lead', fol', hl', hf', rfl⟩ := h'.2 hd
    obtain rfl : lead = lead' := funext fun i => (hl i).unique (hl' i)
    exact (service_congr (fun _ => rfl) fun i u hu => ((hf i u hu).unique (hf' i u hu)).symm).symm

structure Standing (K : Kernel Q T) (X : Set T) (rd : Priority → List T)
    (oc : Members Q T) (lead : Q → Fin 4 → List T) (fol : T → List T) : Prop where
  chained : Chained K.sched rd oc
  grouped : Grouped K.discipline oc lead fol
  queued : ∀ {q t}, t ∈ service (lead q) fol → t ∉ X ∧ (K.wait t).queue = q ∧
    States.Includes (K.sched.control t).currentState (K.queue q).state
  waiting : ∀ {t}, K.isWaiting t = true → t ∈ X ∨ t ∈ service (lead (K.wait t).queue) fol

variable {K : Kernel Q T} {X : Set T} {rd rd' : Priority → List T}
  {oc oc' : Members Q T} {lead lead' : Q → Fin 4 → List T} {fol fol' : T → List T}
  {q r : Q} {t u : T} {L' : Links (QueueName Q T) T}
  {S : Scheduler (QueueChain Q T) T}

namespace Standing

section

variable (h : Standing K X rd oc lead fol)

include h

theorem on : Represents K.sched.links (chains rd oc) := h.chained.on

theorem serves (q : Q) : K.Serves q (service (lead q) fol) := by
  refine ⟨fun hd => ?_, fun hd => ⟨lead q, fol, fun i => ?_, fun i u hu => ?_, rfl⟩⟩
  · rw [Grouped.service_fifo h.on h.grouped hd]
    exact h.on.holds (show chains rd oc (header q 0) = _ from h.grouped.header (Or.inr rfl))
  · exact h.on.holds (show chains rd oc (header q i) = _ from h.grouped.header (Or.inl hd))
  · exact h.on.holds (show chains rd oc (block2n u) = _ from h.grouped.leader hd hu)

theorem serves_iff {l : List T} : K.Serves q l ↔ l = service (lead q) fol :=
  ⟨fun hl => hl.unique (h.serves q), fun hl => hl ▸ h.serves q⟩

theorem isWaiting (ht : t ∈ service (lead q) fol) : K.isWaiting t = true :=
  (h.queued ht).2.2.of_subset (K.queue q).waits

theorem absent (ht : t ∈ X) (q : Q) : t ∉ service (lead q) fol := fun hq => (h.queued hq).1 ht

theorem absent_of_not_waiting (ht : K.isWaiting t = false) (q : Q) : t ∉ service (lead q) fol := by
  intro hq
  rw [h.isWaiting hq] at ht
  cases ht

theorem off (ht : ∀ q, t ∉ service (lead q) fol) : Off oc t := h.grouped.off ht

theorem ready_absent (ht : (K.sched.control t).currentState = States.ready) (q : Q) :
    t ∉ service (lead q) fol := by
  refine h.absent_of_not_waiting ?_ q
  simp only [Kernel.isWaiting, ht]
  decide

theorem enter (ht : K.isWaiting t = false) : Standing K (insert t X) rd oc lead fol := by
  refine ⟨h.chained, h.grouped, fun {q u} hu => ⟨?_, (h.queued hu).2⟩, fun {u} hu => ?_⟩
  · rintro (rfl | hx)
    · exact h.absent_of_not_waiting ht q hu
    · exact (h.queued hu).1 hx
  · exact (h.waiting hu).imp (Set.mem_insert_of_mem t) id

theorem leave (ht : K.isWaiting t = false) : Standing K (X \ {t}) rd oc lead fol := by
  refine ⟨h.chained, h.grouped, fun {q u} hu => ⟨fun hx => (h.queued hu).1 hx.1, (h.queued hu).2⟩,
    fun {u} hu => ?_⟩
  refine (h.waiting hu).imp (fun hx => ⟨hx, ?_⟩) id
  rintro rfl
  rw [ht] at hu
  cases hu

theorem withSched (hS : Chained S rd' oc)
    (hq : ∀ {q u}, u ∈ service (lead q) fol → States.Includes (S.control u).currentState (K.queue q).state)
    (hw : ∀ {u}, u ∉ X → States.isWaitingOnThreadQueue (S.control u).currentState = true →
      K.isWaiting u = true) : Standing { K with sched := S } X rd' oc lead fol := by
  refine ⟨hS, h.grouped, fun hu => ⟨(h.queued hu).1, (h.queued hu).2.1, hq hu⟩, fun {u} hu => ?_⟩
  by_cases hx : u ∈ X
  · exact Or.inl hx
  · exact h.waiting (hw hx hu)

theorem withSched_transit (hS : Chained S rd' oc)
    (hc : ∀ u ∉ X, (S.control u).currentState = (K.sched.control u).currentState) :
    Standing { K with sched := S } X rd' oc lead fol := by
  refine h.withSched hS (fun hu => ?_) fun hx hu => ?_
  · rw [hc _ (h.queued hu).1]
    exact (h.queued hu).2.2
  · rwa [hc _ hx] at hu

theorem setTimers (timers : Watchdog.Timers Unit T) : Standing (K.setTimers timers) X rd oc lead fol :=
  ⟨h.chained, h.grouped, h.queued, h.waiting⟩

theorem left (hM : Left K.discipline rd L' oc oc' lead lead' fol fol' q t) :
    Standing (K.setLinks L') (insert t X) rd oc' lead' fol' := by
  refine ⟨h.chained.relink hM.on, hM.grouped, fun {r u} hu => ?_, fun {u} hu => ?_⟩
  · obtain ⟨hu, hne⟩ := (hM.mem_iff h.on h.grouped).mp hu
    obtain ⟨hx, hr, hi⟩ := h.queued hu
    exact ⟨by simp [hne, hx], hr, hi⟩
  · by_cases hut : u = t
    · exact Or.inl (by simp [hut])
    · rcases h.waiting hu with hx | hs
      · exact Or.inl (Set.mem_insert_of_mem t hx)
      · exact Or.inr ((hM.mem_iff h.on h.grouped).mpr ⟨hs, hut⟩)

theorem joined (hJ : Joined K.discipline K.priority rd L' oc' lead lead' fol fol' q t)
    (hq : (K.wait t).queue = q)
    (hi : States.Includes (K.sched.control t).currentState (K.queue q).state) :
    Standing (K.setLinks L') (X \ {t}) rd oc' lead' fol' := by
  refine ⟨h.chained.relink hJ.on, hJ.grouped, fun {r u} hu => ?_, fun {u} hu => ?_⟩
  · rcases hJ.mem.mp hu with hu | ⟨rfl, rfl⟩
    · obtain ⟨hx, hr, hi⟩ := h.queued hu
      exact ⟨fun hx' => hx hx'.1, hr, hi⟩
    · exact ⟨by simp, hq, hi⟩
  · by_cases hut : u = t
    · subst hut
      exact Or.inr (hJ.mem.mpr (Or.inr ⟨hq, rfl⟩))
    · rcases h.waiting hu with hx | hs
      · exact Or.inl ⟨hx, hut⟩
      · exact Or.inr (hJ.mem.mpr (Or.inl hs))

end

variable [DecidableEq T] [DecidableEq Q]

omit [DecidableEq Q] in
theorem setWaitQueue (h : Standing K X rd oc lead fol) (ht : t ∈ X) (q : Q) :
    Standing (K.setWaitQueue t q) X rd oc lead fol := by
  have hne : ∀ u ∉ X, (K.setWaitQueue t q).wait u = K.wait u := by
    intro u hu
    refine Function.update_of_ne ?_ _ _
    rintro rfl
    exact hu ht
  refine ⟨h.chained, h.grouped, fun {q u} hu => ?_, fun {u} hu => ?_⟩
  · rw [hne u (h.queued hu).1]
    exact h.queued hu
  · by_cases hx : u ∈ X
    · exact Or.inl hx
    · rw [hne u hx]
      exact h.waiting hu

omit [DecidableEq Q] in
theorem setReturnCode (h : Standing K X rd oc lead fol) (t : T) (code : Nat) :
    Standing (K.setReturnCode t code) X rd oc lead fol := by
  have hq : ∀ u, ((K.setReturnCode t code).wait u).queue = (K.wait u).queue := by
    intro u
    simp only [Kernel.setReturnCode]
    by_cases hut : u = t
    · subst hut
      simp
    · simp [hut]
  refine ⟨h.chained, h.grouped, fun {q u} hu => ?_, fun {u} hu => ?_⟩
  · rw [hq]
    exact h.queued hu
  · rw [hq]
    exact h.waiting hu

end Standing

namespace Kernel

variable [DecidableEq Q] {s : SyncState}

@[simp] theorem queue_setSyncState_self :
    (K.setSyncState q s).queue q = { K.queue q with syncState := s } := by
  simp [setSyncState]

theorem queue_setSyncState_ne (h : r ≠ q) : (K.setSyncState q s).queue r = K.queue r := by
  simp [setSyncState, h]

theorem field_setSyncState {β : Type*} (f : Control → β) (hf : ∀ c s, f { c with syncState := s } = f c)
    (r : Q) : f ((K.setSyncState q s).queue r) = f (K.queue r) := by
  by_cases hr : r = q
  · subst hr
    rw [queue_setSyncState_self, hf]
  · rw [queue_setSyncState_ne hr]

@[simp] theorem state_setSyncState : ((K.setSyncState q s).queue r).state = (K.queue r).state :=
  field_setSyncState Control.state (fun _ _ => rfl) r

@[simp] theorem discipline_setSyncState : (K.setSyncState q s).discipline = K.discipline :=
  funext fun r => field_setSyncState Control.discipline (fun _ _ => rfl) r

end Kernel

theorem Standing.setSyncState [DecidableEq Q] (h : Standing K X rd oc lead fol) (q : Q) (s : SyncState) :
    Standing (K.setSyncState q s) X rd oc lead fol := by
  refine ⟨h.chained, ?_, fun {r u} hu => ?_, h.waiting⟩
  · rw [Kernel.discipline_setSyncState]
    exact h.grouped
  · rw [Kernel.state_setSyncState]
    exact h.queued hu

section

variable [DecidableEq Q] [DecidableEq T] (h : Standing K X rd oc lead fol)

include h

theorem Standing.unblockEnter (ht : t ∈ X) : ∃ rd',
    Standing { K with sched := (K.sched.clearStateEnter t States.blocked).1 } (X \ {t}) rd' oc lead fol := by
  obtain ⟨rd', hS⟩ := h.chained.clearStateEnter (t := t) (s := States.blocked)
    fun _ => h.off (h.absent ht)
  have hc : (K.sched.clearStateEnter t States.blocked).1.control =
      (K.sched.setCurrentState t (States.clear States.blocked (K.sched.control t).currentState)).control := by
    by_cases hw : K.sched.Wakes t States.blocked
    · simp [Scheduler.clearStateEnter_wakes hw, hw.2]
    · rw [Scheduler.clearStateEnter_clear hw]
  have hX := h.withSched_transit hS fun u hu => by
    rw [hc, Scheduler.control_setCurrentState_ne]
    rintro rfl
    exact hu ht
  refine ⟨rd', hX.leave ?_⟩
  simp only [Kernel.isWaiting, hc, Scheduler.control_setCurrentState_self]
  exact States.isWaiting_clear_blocked

theorem Standing.unblock (ht : t ∈ X) : ∃ rd', Standing (K.unblock t) (X \ {t}) rd' oc lead fol := by
  obtain ⟨rd', hS⟩ := h.unblockEnter ht
  refine ⟨rd', ?_⟩
  unfold Kernel.unblock Scheduler.unblock Scheduler.clearState
  split <;> rename_i S he <;> rw [he] at hS
  · refine hS.withSched_transit hS.chained.clearStateFinish fun u _ => ?_
    simp
  · exact hS

theorem Standing.setStateEnter (ht : t ∈ X) {s} (hs : s ≠ States.ready) : ∃ rd',
    Standing { K with sched := (K.sched.setStateEnter t s).1 } X rd' oc lead fol := by
  obtain ⟨rd', hS⟩ := h.chained.setStateEnter (t := t) hs
  refine ⟨rd', h.withSched_transit hS fun u hu => ?_⟩
  have hne : u ≠ t := by
    rintro rfl
    exact hu ht
  by_cases hr : (K.sched.control t).currentState = States.ready
  · simp [Scheduler.setStateEnter_ready hr, Scheduler.control_setCurrentState_ne hne]
  · simp [Scheduler.setStateEnter_set hr, Scheduler.control_setCurrentState_ne hne]

omit [DecidableEq Q] in
theorem Standing.setStateFinish : Standing { K with sched := K.sched.setStateFinish t } X rd oc lead fol :=
  h.withSched_transit h.chained.setStateFinish fun u _ => by simp

theorem Standing.initializeBlock (ht : t ∈ X) :
    Standing (K.setLinks (Chain.initializeEmpty K.sched.links (block2n t))) X rd
      (Function.update oc (.block2n t) (some [])) lead fol := by
  have hL := Chain.initializeEmpty_represents h.on (block2n t)
  rw [update_chains_other] at hL
  exact ⟨h.chained.relink hL, h.grouped.initializeBlock (h.absent ht), h.queued, h.waiting⟩

end

end ThreadQueue

end Rtems
