import Rtems.ThreadQueue.Enqueue

/-! # `_Thread_queue_Enqueue` without interrupts -/

namespace Rtems.ThreadQueue

open Intrusive Thread
open Watchdog (Runs)

variable {Q T : Type*} {e : Enqueue Q T} {code n : Nat} {K K' : Kernel Q T} {p : EnqueuePoint Q T}
  {rd rd' : Priority → List T} {oc oc' : Members Q T}
  {lead lead' : Q → Fin 4 → List T} {fol fol' : T → List T} {l : Nat} {X : Set T} {q : Q}

theorem Standing.areSet (h : Standing K X rd oc lead fol) {q i u} (hu : u ∈ lead q i) :
    States.areSet (K.sched.control u).currentState (K.queue q).state = true := by
  have hs := (h.queued (mem_service.mpr ⟨i, u, hu, Or.inl rfl⟩)).2.2
  exact States.areSet_of_includes hs (K.queue q).state_ne

variable [DecidableEq Q] [DecidableEq T]

/-! ## The end of the call -/

namespace Kernel

variable {fuel : Nat} {p' : EnqueuePoint Q T}

theorem enqueueFrom_done (h : K.enqueueStep e p = (K', .done)) :
    enqueueFrom e (fuel + 1) K p = some K' := by
  unfold enqueueFrom
  rw [h]

theorem enqueueFrom_step (h : K.enqueueStep e p = (K', p')) (hp : p' ≠ .done) :
    enqueueFrom e (fuel + 1) K p = enqueueFrom e fuel K' p' := by
  rw [enqueueFrom, h]
  cases p' with
  | done => exact absurd rfl hp
  | entry | stateFlash | blocked | initialized | inserting | linking | restart | search | releasing => rfl

end Kernel

def Ends (e : Enqueue Q T) (r : Kernel Q T × EnqueuePoint Q T) : Prop :=
  r.2 = .done ∨ ∃ fuel K', Kernel.enqueueFrom e fuel r.1 r.2 = some K'

theorem Ends.of_step (h : Ends e (K.enqueueStep e p)) : Ends e (K, p) := by
  right
  generalize hr : K.enqueueStep e p = r at h
  obtain ⟨K', p'⟩ := r
  by_cases hp : p' = .done
  · subst hp
    exact ⟨1, K', Kernel.enqueueFrom_done hr⟩
  · obtain ⟨fuel, K'', h⟩ := h.resolve_left hp
    exact ⟨fuel + 1, K'', (Kernel.enqueueFrom_step hr hp).trans h⟩

theorem ends_releasing (K : Kernel Q T) (rp : ReleasePoint) : Ends e (K, .releasing rp) := by
  have hflash (K : Kernel Q T) : Ends e (K, .releasing .flash) := .of_step (Or.inl rfl)
  have hunblock (K : Kernel Q T) : Ends e (K, .releasing .unblock) := by
    refine .of_step ?_
    simp only [Kernel.enqueueStep, Kernel.releaseStep]
    generalize K.sched.clearStateEnter e.thread States.blocked = r
    obtain ⟨S, b⟩ := r
    cases b with
    | false => exact Or.inl rfl
    | true => exact hflash _
  cases rp with
  | remove => exact .of_step (hunblock _)
  | unblock => exact hunblock K
  | flash => exact hflash K
  | done => exact .of_step (Or.inl rfl)

theorem ends_synchronize : Ends e (K.synchronize e) := by
  unfold Kernel.synchronize
  cases (K.queue e.queue).syncState <;> exact ends_releasing _ _

theorem Searched.ends {p m r} (hr : Searched K e p rd lead fol m r) (hP : Seeking K e p rd oc lead fol)
    (hw : ∀ u ∈ lead e.queue (headerNumber p),
      States.areSet (K.sched.control u).currentState (K.queue e.queue).state = true) : Ends e r := by
  induction m using Nat.strongRecOn generalizing r with
  | ind m ih =>
    cases hr with
    | stopped => exact ends_synchronize
    | joined => exact Or.inl rfl
    | flash hsp hu hb hn =>
      exact .of_step (ih _ hn (hP.searchResume hu (hw _ (by rw [hu]; simp)) hsp hb))

theorem Blocks.ends_restart {p} (hB : Blocks e code K (.restart p) n rd oc lead fol) :
    Ends e (K, .restart p) :=
  .of_step ((Blocks.seeking hB.kept hB.point).searchRestart.ends (Blocks.seeking hB.kept hB.point)
    fun _ hu => hB.kept.standing.areSet hu)

theorem Blocks.ends_search {p sp node}
    (hB : Blocks e code K (.search p sp node) n rd oc lead fol) : Ends e (K, .search p sp node) := by
  obtain ⟨hP, hsp, u, rfl, hb, hu⟩ := hB.point
  refine .of_step ?_
  by_cases hw : States.areSet (K.sched.control u).currentState (K.queue e.queue).state = true
  · obtain ⟨l1, l2, hi⟩ := List.append_of_mem (hu.resolve_right (by simp [hw]))
    exact ((Blocks.seeking hB.kept hP).searchResume hi hw hsp hb).ends (Blocks.seeking hB.kept hP)
      fun _ hu => hB.kept.standing.areSet hu
  · simp only [Kernel.enqueueStep, Kernel.searchResume, hw]
    exact Blocks.ends_restart ⟨hB.kept, hB.executing, hB.queue, hB.ledger, hP⟩

theorem Blocks.ends_linking (hB : Blocks e code K .linking n rd oc lead fol)
    (hT : Runs K.timers [.body l]) : Ends e (K, .linking) := by
  refine .of_step ?_
  obtain ⟨rd', oc', lead', fol', hB', -⟩ := hB.go_linking hT
  unfold Kernel.enqueueStep at hB' ⊢
  cases hd : (K.queue e.queue).discipline with
  | fifo =>
    dsimp only
    unfold Kernel.enqueueFifo
    split
    · exact Or.inl rfl
    · exact ends_synchronize
  | priority =>
    simp only [hd] at hB' ⊢
    exact hB'.ends_restart

theorem Blocks.ends_inserting {ip fuel timers} (hB : Blocks e code K (.inserting ip) n rd oc lead fol)
    (hT : Timed e K.timers l (.inserting ip))
    (hf : Watchdog.insertFrom () e.thread fuel K.timers ip = some timers) : Ends e (K, .inserting ip) := by
  induction fuel generalizing K ip rd oc lead fol with
  | zero => cases hf
  | succ fuel ih =>
    refine .of_step ?_
    obtain ⟨rd', oc', lead', fol', hB', hT', -⟩ := hB.go_inserting hT
    by_cases hp : (Watchdog.insertStep K.timers () e.thread ip).2 = .done
    · rw [Kernel.enqueueStep_inserted hp] at hB' hT' ⊢
      exact hB'.ends_linking hT'
    · rw [Kernel.enqueueStep_inserting hp] at hB' hT' ⊢
      rw [Watchdog.insertFrom_step rfl hp] at hf
      exact ih hB' hT' hf

theorem Blocks.ends (hB : Blocks e code K p n rd oc lead fol) (hT : Timed e K.timers l p)
    (hu : e.timeout < 2 ^ 32) : Ends e (K, p) := by
  have hinserting {K : Kernel Q T} {rd oc lead fol ip} (hB : Blocks e code K (.inserting ip) n rd oc lead fol)
      (hT : Timed e K.timers l (.inserting ip)) : Ends e (K, .inserting ip) := by
    obtain ⟨c, hc, hct, hcp, hcr, clock, expiry, ch, hS⟩ := id hT
    obtain ⟨fuel, timers, hf⟩ := (hS.calls (c := c) (by simp)).insertFrom_total hS.good
    rw [hc, hct, hcp] at hf
    exact hB.ends_inserting hT hf
  have hinitialized {K : Kernel Q T} {rd oc lead fol} (hB : Blocks e code K .initialized n rd oc lead fol)
      (hT : Timed e K.timers l .initialized) : Ends e (K, .initialized) := by
    obtain ⟨rd', oc', lead', fol', hB', hT', -⟩ := hB.go_initialized hT hu
    exact .of_step (hinserting hB' hT')
  have hblocked {K : Kernel Q T} {rd oc lead fol} (hB : Blocks e code K .blocked n rd oc lead fol)
      (hT : Timed e K.timers l .blocked) : Ends e (K, .blocked) := by
    refine .of_step ?_
    obtain ⟨rd', oc', lead', fol', hB', hT', -⟩ := hB.go_blocked hT
    unfold Kernel.enqueueStep at hB' hT' ⊢
    by_cases h0 : e.timeout = 0
    · simp only [h0, ne_eq, not_true_eq_false, if_false] at hB' hT' ⊢
      exact hB'.ends_linking hT'
    · simp only [h0, ne_eq, not_false_eq_true, if_true] at hB' hT' ⊢
      exact hinitialized hB' hT'
  have hflash {K : Kernel Q T} {rd oc lead fol} (hB : Blocks e code K .stateFlash n rd oc lead fol)
      (hT : Timed e K.timers l .stateFlash) : Ends e (K, .stateFlash) := by
    obtain ⟨rd', oc', lead', fol', hB', hT', -⟩ := hB.go_stateFlash hT
    exact .of_step (hblocked hB' hT')
  cases p with
  | entry =>
    refine .of_step ?_
    obtain ⟨rd', oc', lead', fol', hB', hT', -⟩ := hB.go_entry hT
    rw [Kernel.enqueueStep, Scheduler.setStateEnter_ready hB.point.1] at hB' hT' ⊢
    exact hflash hB' hT'
  | stateFlash => exact hflash hB hT
  | blocked => exact hblocked hB hT
  | initialized => exact hinitialized hB hT
  | inserting ip => exact hinserting hB hT
  | linking => exact hB.ends_linking hT
  | restart p => exact hB.ends_restart
  | search p sp node => exact hB.ends_search
  | releasing rp => exact ends_releasing K rp
  | done => exact Or.inl rfl

/-! ## What the call does -/

theorem Blocks.enqueueFrom {fuel} (hB : Blocks e code K p n rd oc lead fol)
    (hT : Timed e K.timers l p) (hu : e.timeout < 2 ^ 32) (hp : p ≠ .done)
    (he : Kernel.enqueueFrom e fuel K p = some K') :
    ∃ rd' oc' lead' fol', Blocks e code K' .done n rd' oc' lead' fol' ∧ Runs K'.timers [.body l] ∧
      Onward e K K' ∧ ((K.queue e.queue).syncState = .nothingHappened → ∃ rd L' oc',
        Joined K.discipline K.priority rd L' oc' lead lead' fol fol' e.queue e.thread) := by
  induction fuel generalizing K p rd oc lead fol with
  | zero => cases he
  | succ fuel ih =>
    obtain ⟨rd1, oc1, lead1, fol1, hB1, hT1, hO1, hj⟩ := hB.go hT hu hp
    generalize hr : K.enqueueStep e p = r at hB1 hT1 hO1 hj
    obtain ⟨K1, p1⟩ := r
    by_cases hp1 : p1 = .done
    · subst hp1
      rw [Kernel.enqueueFrom_done hr] at he
      cases he
      refine ⟨rd1, oc1, lead1, fol1, hB1, hT1, hO1, fun hs => ?_⟩
      rcases hj with ⟨-, -, hq⟩ | ⟨-, hJ⟩
      · exact absurd rfl (hq hs).1
      · exact hJ
    · rw [Kernel.enqueueFrom_step hr hp1] at he
      obtain ⟨rd', oc', lead', fol', hB', hR', hO', hJ⟩ := ih hB1 hT1 hp1 he
      refine ⟨rd', oc', lead', fol', hB', hR', hO1.trans hO', fun hs => ?_⟩
      rcases hj with ⟨rfl, rfl, hq⟩ | ⟨hd, -⟩
      · rw [← hO1.discipline, ← hO1.priority]
        exact hJ (hq hs).2
      · exact absurd hd hp1

structure Blocked (K K' : Kernel Q T) (q : Q) (t : T) : Prop where
  control : ∀ u ≠ t, K'.sched.control u = K.sched.control u
  own : K'.sched.control t = { K.sched.control t with currentState := (K.queue q).state }
  executing : K'.sched.executing = K.sched.executing
  wait : K'.wait = (K.setWaitQueue t q).wait
  queue : K'.queue = K.queue

omit [DecidableEq Q] in
theorem Blocked.priority (h : Blocked K K' q K.sched.executing) : K'.priority = K.priority := by
  funext u
  unfold Kernel.priority
  by_cases hu : u = K.sched.executing
  · rw [hu, h.own]
  · rw [h.control u hu]

theorem Kept.block {timeout fuel} (hK : Kept K ∅ ∅ rd oc lead fol) (hR : Runs K.timers [.body l])
    (hr : (K.sched.control K.sched.executing).currentState = States.ready) (hu : timeout < 2 ^ 32)
    (he : K.block q timeout fuel = some K') :
    ∃ rd' oc' lead' fol', Kept K' ∅ ∅ rd' oc' lead' fol' ∧ Runs K'.timers [.body l] ∧
      Blocked K K' q K.sched.executing ∧ ∃ rd L' oc',
        Joined K.discipline K.priority rd L' oc' lead lead' fol fol' q K.sched.executing := by
  have hB := hK.prepare hr q timeout
  obtain ⟨rd', oc', lead', fol', hB', hR', hO, hJ⟩ := hB.enqueueFrom hR hu (by simp) he
  have hJ := hJ (by simp [Kernel.prepare, Kernel.enterCriticalSection])
  have hd : (K.prepare q).discipline = K.discipline := Kernel.discipline_setSyncState
  rw [hd] at hJ
  obtain ⟨rd0, L', oc0, hj⟩ := hJ
  -- the thread has joined its queue, so it is not ready
  have hP : Waits ⟨K.sched.executing, q, timeout⟩ K' ∧
      (K'.wait K.sched.executing).returnCode = (K.wait K.sched.executing).returnCode := by
    rcases hB'.point with ⟨hw, -, -, hc⟩ | ⟨hr', -⟩
    · exact ⟨hw, hc⟩
    · exact absurd (hj.mem.mpr (Or.inr ⟨rfl, rfl⟩)) (hB'.kept.standing.ready_absent hr' q)
  have hsync {r : Q} (L : Kernel Q T) (h : (L.queue r).syncState = .synchronized) :
      { L.queue r with syncState := .synchronized } = L.queue r := by rw [← h]
  have hq : K'.queue = K.queue := by
    funext r
    by_cases hrq : r = q
    · subst hrq
      rw [hO.self, hB'.kept.synced (Set.notMem_empty r)]
      simp only [Kernel.prepare, Kernel.enterCriticalSection, Kernel.queue_setSyncState_self]
      exact hsync K (hK.synced (Set.notMem_empty r))
    · rw [hO.queue r hrq, Kernel.prepare, Kernel.enterCriticalSection, Kernel.queue_setSyncState_ne hrq]
      rfl
  refine ⟨rd', oc', lead', fol', hB'.kept, hR', ⟨hO.control, ?_, hO.executing, ?_, hq⟩, rd0, L', oc0, hj⟩
  · have hw := hP.1
    rw [hO.own, hw, hq]
    rfl
  · funext u
    by_cases hut : u = K.sched.executing
    · subst hut
      have hc := hP.2
      have hwq : (K'.wait K.sched.executing).queue = q := hB'.queue
      rw [Kernel.setWaitQueue]
      simp only [Function.update_self]
      rw [← hc, ← hwq]
    · rw [hO.wait u hut]
      rfl

theorem Kept.block_total (hK : Kept K ∅ ∅ rd oc lead fol) (hR : Runs K.timers [.body l])
    (hr : (K.sched.control K.sched.executing).currentState = States.ready) (q : Q) {timeout}
    (hu : timeout < 2 ^ 32) : ∃ fuel K', K.block q timeout fuel = some K' :=
  ((hK.prepare hr q timeout).ends hR hu).resolve_left (by simp)

end Rtems.ThreadQueue
