import Rtems.ThreadQueue.Call

/-! # The kernel between operations -/

namespace Rtems.ThreadQueue


open Function Intrusive Thread
open Watchdog (Runs)

variable {Q T : Type*}

/-! ## Initialization -/

/-- What `_Thread_Initialize` leaves in a control block. -/
def newThread (priority : Priority) (isPreemptible : Bool) (budgetAlgorithm : BudgetAlgorithm) :
    Thread.Control where
  currentState := States.dormant
  currentPriority := priority
  realPriority := priority
  resourceCount := 0
  doPostTaskSwitchExtension := false
  isPreemptible := isPreemptible
  cpuTimeBudget := 0
  budgetAlgorithm := budgetAlgorithm
  ticksExecuted := 0
  ready := priority
  priorityMap := Priority.initializeInformation priority
  start := ⟨priority, isPreemptible, budgetAlgorithm⟩
  asr := ⟨true, 0, 0⟩
  lowPriority := priority

namespace Kernel

def initial (queue : Q → Control) (control : T → Thread.Control) (wait : T → Wait Q) (executing : T)
    (unrollEnqueuePriority : Bool) : Kernel Q T where
  sched :=
    { links := .empty
      control := control
      bitMap := .empty
      executing := executing
      heir := executing
      contextSwitchNecessary := false
      ticksPerTimeslice := 1 }
  queue := queue
  wait := wait
  timers := .idle
  unrollEnqueuePriority := unrollEnqueuePriority

variable [DecidableEq Q] [DecidableEq T]

def start (K : Kernel Q T) (t : T) : Kernel Q T := { K with sched := (K.sched.start t).1 }

def Resting (K : Kernel Q T) : Prop :=
  ∃ rd oc lead fol l, Kept K ∅ ∅ rd oc lead fol ∧ Runs K.timers [.body l]

def emptyChains (queue : Q → Control) : Members Q T
  | .queue q i => if (queue q).discipline = .priority ∨ i.val = 0 then some [] else none
  | .block2n _ => none

omit [DecidableEq Q] [DecidableEq T] in
theorem emptyChains_eq {queue} {c : QueueChain Q T} {l} (h : emptyChains queue c = some l) : l = [] := by
  cases c with
  | queue q i =>
    simp only [emptyChains] at h
    split at h
    · exact (Option.some.inj h).symm
    · cases h
  | block2n u => cases h

omit [DecidableEq Q] in
theorem initial_resting {queue} {control : T → Thread.Control}
    (hq : ∀ q, (queue q).syncState = .synchronized) (wait : T → Wait Q) (executing : T) (unroll : Bool)
    (hc : ∀ t, (control t).currentState = States.dormant ∧ (control t).Placed) :
    (initial queue control wait executing unroll).Resting := by
  refine ⟨fun _ => [], emptyChains queue, fun _ _ => [], fun _ => [], 0,
    ⟨⟨⟨⟨?_, fun {p t} => ?_, ?_, fun {t} _ => (hc t).2⟩, fun t => (hc t).2⟩, ?_, fun {q t} ht => ?_,
      fun {t} ht => ?_⟩, fun _ => Or.inl rfl, fun {q} _ => hq q⟩, ?_⟩
  · refine Links.empty_represents fun {c l} h => ?_
    cases c with
    | ready p => exact (Option.some.inj h).symm
    | other c => exact emptyChains_eq h
  · refine iff_of_false (by simp) fun h => ?_
    have := (hc t).1.symm.trans h.1
    exact absurd this (by decide)
  · exact Priority.Marks.empty.congr fun p => by simp
  · refine ⟨fun {q i} h => if_pos (h.imp id (congrArg Fin.val)), fun {q i} h hi => ⟨if_neg ?_, rfl⟩, by simp, by simp [emptyChains],
      by simp⟩
    have h : (queue q).discipline = .fifo := h
    rw [h]
    rintro (hp | h0)
    · cases hp
    · exact hi (Fin.ext h0)
  · simp [mem_service] at ht
  · have ht : States.isWaitingOnThreadQueue (control t).currentState = true := ht
    rw [(hc t).1] at ht
    exact absurd ht (by decide)
  · exact .idle

end Kernel

variable [DecidableEq Q] [DecidableEq T] {K K' : Kernel Q T} {rd rd' : Priority → List T}
  {oc oc' : Members Q T} {lead lead' : Q → Fin 4 → List T} {fol fol' : T → List T}
  {l fuel : Nat} {q : Q} {t : T} {S : Scheduler (QueueChain Q T) T} {p : Priority}

section

variable (hK : Kept K ∅ ∅ rd oc lead fol)

include hK

omit [DecidableEq Q] [DecidableEq T] in
theorem Kept.withSched (hS : Chained S rd' oc)
    (hc : ∀ u, (S.control u).currentState = (K.sched.control u).currentState) :
    Kept { K with sched := S } ∅ ∅ rd' oc lead fol := by
  refine ⟨hK.standing.withSched_transit hS fun u _ => hc u, fun {u} hu => ?_, hK.synced⟩
  have hw : States.isWaitingOnThreadQueue (S.control u).currentState = K.isWaiting u := by rw [hc u]; rfl
  rw [Kernel.isWaiting, hw]
  exact hK.armed hu

omit [DecidableEq Q] [DecidableEq T] in
theorem Kept.switch (t : T) :
    Kept { K with sched := { K.sched with executing := t } } ∅ ∅ rd oc lead fol :=
  hK.withSched (hK.standing.chained.congr rfl rfl rfl) fun _ => rfl

theorem Kept.changePriority
    (ht : States.clear States.transient (K.sched.control t).currentState = (K.sched.control t).currentState)
    (p : Priority) (prependIt : Bool) :
    ∃ rd', Kept { K with sched := K.sched.changePriority t p prependIt } ∅ ∅ rd' oc lead fol := by
  have hS := hK.standing
  obtain ⟨rd', hC⟩ := hS.chained.changePriority (t := t) (p := p)
    (fun hr => hS.off fun q => hS.ready_absent (ht.symm.trans hr) q) prependIt
  refine ⟨rd', hK.withSched hC fun u => ?_⟩
  rw [Scheduler.control_changePriority (hS.chained.pointers t)]
  exact Scheduler.field_modify Thread.Control.currentState ht u

theorem Kept.start (ht : (K.sched.control t).currentState = States.dormant) :
    ∃ rd', Kept (K.start t) ∅ ∅ rd' oc lead fol := by
  have hS := hK.standing
  have hw : K.isWaiting t = false := by
    rw [Kernel.isWaiting, ht]
    decide
  have hr : ((K.sched.start t).1.control t).currentState = States.ready :=
    Scheduler.currentState_start (by rw [ht]; decide)
  obtain ⟨rd', hC⟩ := hS.chained.start (hS.off (hS.absent_of_not_waiting hw))
  have hiw {u : T} (hu : States.isWaitingOnThreadQueue ((K.sched.start t).1.control u).currentState = true) :
      u ≠ t := by
    rintro rfl
    rw [hr] at hu
    exact absurd hu (by decide)
  refine ⟨rd', hS.withSched hC (fun {q u} hu => ?_) fun {u} _ hu => ?_, fun {u} hu => ?_, hK.synced⟩
  · have hut : u ≠ t := by
      rintro rfl
      exact hS.absent_of_not_waiting hw q hu
    rw [Scheduler.control_start_ne hut]
    exact (hS.queued hu).2.2
  · rw [Scheduler.control_start_ne (hiw hu)] at hu
    exact hu
  · refine (hK.armed hu).imp id fun h => ⟨h.1, ?_⟩
    have hut : u ≠ t := by
      rintro rfl
      rw [hw] at h
      cases h.2
    simp only [Kernel.isWaiting, Kernel.start, Scheduler.control_start_ne hut]
    exact h.2

/-! ## Ticks -/

structure Expired (K K' : Kernel Q T) (q : Q) (t : T) (lead lead' : Q → Fin 4 → List T)
    (fol fol' : T → List T) : Prop where
  queue : (K.wait t).queue = q
  departs : Departs K.discipline lead lead' fol fol' q t
  took : Took (K.setReturnCode t (K.queue q).timeoutStatus) K' t

omit [DecidableEq Q] [DecidableEq T] in
theorem Kept.setTimers {timers}
    (hs : ∀ u, timers.state u = K.timers.state u ∨ timers.state u = .inactive) :
    Kept (K.setTimers timers) ∅ ∅ rd oc lead fol := by
  refine ⟨hK.standing.setTimers _, fun {u} hu => ?_, hK.synced⟩
  rcases hs u with h | h
  · exact (hK.armed hu).imp h.trans fun h' => ⟨h.trans h'.1, h'.2⟩
  · exact Or.inl h

end

section

variable {I : Kernel Q T → (Q → Fin 4 → List T) → (T → List T) → Prop}
  (hI : ∀ {K lead fol} timers, I K lead fol → I (K.setTimers timers) lead fol)
  (hE : ∀ {K K' rd oc lead fol q t lead' fol'}, I K lead fol → Kept K ∅ ∅ rd oc lead fol →
    Expired K K' q t lead lead' fol fol' → I K' lead' fol')

include hI hE

theorem Kept.tickleRound (hK : Kept K ∅ ∅ rd oc lead fol) (h : I K lead fol)
    (hs : K.timers.state t = .active ∨ K.timers.state t = .removeIt)
    (hst : (Watchdog.remove K.timers t).1.state = update K.timers.state t .inactive) :
    ∃ rd' oc' lead' fol', Kept (Watchdog.tickleRound Kernel.host (fun t K => K.timeout t) K t) ∅ ∅
        rd' oc' lead' fol' ∧
      I (Watchdog.tickleRound Kernel.host (fun t K => K.timeout t) K t) lead' fol' := by
  obtain ⟨ha, hw⟩ : K.timers.state t = .active ∧ K.isWaiting t = true := by
    rcases hK.armed (Set.notMem_empty t) with h' | h'
    · simp [h'] at hs
    · exact h'
  have he : Watchdog.tickleRound Kernel.host (fun t K => K.timeout t) K t =
      (K.setTimers (Watchdog.remove K.timers t).1).timeout t := if_pos (Watchdog.remove_snd.trans ha)
  have hK1 : Kept (K.setTimers (Watchdog.remove K.timers t).1) ∅ ∅ rd oc lead fol := by
    refine hK.setTimers fun u => ?_
    rw [hst, update_apply]
    exact (ite_eq_or_eq ..).symm
  obtain ⟨L', rd', oc', lead', fol', hM, hK', hT⟩ := hK1.timeout (t := t) (Set.notMem_empty t) hw
    (by rw [Kernel.setTimers, hst, update_self]) (Or.inl (hK1.synced (Set.notMem_empty _)))
  rw [he]
  exact ⟨rd', oc', lead', fol', hK', hE (hI _ h) hK1
    ⟨rfl, hM.departs hK1.standing.on hK1.standing.grouped, hT⟩⟩

theorem Kept.tick {fs} (hK : Kept K ∅ ∅ rd oc lead fol) (hR : Runs K.timers (.body l :: fs))
    (hf : ∀ f ∈ fs, f.ticks ≠ some ()) (h : I K lead fol) (he : K.tick fuel = some K') :
    ∃ rd' oc' lead' fol', Kept K' ∅ ∅ rd' oc' lead' fol' ∧ Runs K'.timers (.body l :: fs) ∧
      I K' lead' fol' := by
  have hT : Watchdog.Ticks Kernel.host (fun t K => K.timeout t)
      fun K => ∃ rd oc lead fol, Kept K ∅ ∅ rd oc lead fol ∧ I K lead fol := by
    refine ⟨fun _ _ => rfl, ?_, fun h => Kernel.timers_timeout h, ?_⟩
    · rintro K timers ⟨rd, oc, lead, fol, hK, h⟩ hs -
      exact ⟨rd, oc, lead, fol, hK.setTimers fun u => Or.inl (congrFun hs u), hI timers h⟩
    · rintro K t ⟨rd, oc, lead, fol, hK, h⟩ hs hst -
      exact hK.tickleRound hI hE h hs hst
  obtain ⟨⟨rd', oc', lead', fol', hK', h'⟩, hR'⟩ := hT.tickle ⟨rd, oc, lead, fol, hK, h⟩ hR hf he
  exact ⟨rd', oc', lead', fol', hK', hR', h'⟩

end

end Rtems.ThreadQueue
