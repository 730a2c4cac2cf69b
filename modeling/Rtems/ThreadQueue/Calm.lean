import Rtems.ThreadQueue.Directives
import Rtems.ThreadQueue.Untimed

/-! # The kernel when threads also sleep -/

namespace Rtems


open Function

namespace States

variable {s s' b m : States}

def Alike (s s' : States) : Prop := s &&& (blocked ||| dormant) = s' &&& (blocked ||| dormant)

theorem Alike.refl (s : States) : Alike s s := rfl

section

variable (h : Alike s s')

include h

theorem Alike.symm : Alike s' s := Eq.symm h

theorem Alike.and_eq (hm : m &&& (blocked ||| dormant) = m) : s &&& m = s' &&& m := by
  rw [← hm, BitVec.and_comm m, ← BitVec.and_assoc, h, BitVec.and_assoc]

theorem Alike.areSet (hm : m &&& (blocked ||| dormant) = m) : areSet s m = areSet s' m := by
  unfold States.areSet
  rw [h.and_eq hm]

theorem Alike.isWaiting : isWaitingOnThreadQueue s = isWaitingOnThreadQueue s' :=
  h.areSet (by decide)

theorem Alike.isBlocked : States.areSet s blocked = States.areSet s' blocked :=
  h.areSet (by decide)

theorem Alike.isDormant : isDormant s = isDormant s' := h.areSet (by decide)

theorem Alike.includes (hm : States.clear blocked m = ready) (hi : Includes s m) :
    Includes s' m := by
  have hb : m &&& (blocked ||| dormant) = m := by
    unfold States.clear ready at hm
    ext i hi
    have hb := congrArg (fun x : BitVec 32 => x[i]) hm
    simp only [BitVec.getElem_and, BitVec.getElem_or, BitVec.getElem_not, BitVec.getElem_zero] at hb ⊢
    cases hm : m[i] <;> simp_all
  unfold Includes at *
  rw [← h.and_eq hb, hi]

end

theorem alike_set (hb : b &&& (blocked ||| dormant) = 0#32) : Alike (States.set b s) s := by
  unfold Alike States.set
  ext i hi
  have hb := congrArg (fun x : BitVec 32 => x[i]) hb
  simp only [BitVec.getElem_and, BitVec.getElem_or, BitVec.getElem_zero] at hb ⊢
  cases hm : b[i] <;> simp_all

theorem alike_clear (hb : b &&& (blocked ||| dormant) = 0#32) : Alike (States.clear b s) s :=
  clear_and_eq hb

theorem isBlocked_clear : States.areSet (States.clear blocked s) blocked = false :=
  areSet_clear_of (by decide)

theorem isWaiting_of_isBlocked (h : States.areSet s blocked = false) : isWaitingOnThreadQueue s = false := by
  simp only [isWaitingOnThreadQueue, States.areSet, ne_eq, decide_eq_false_iff_not, not_not] at *
  have hm : waitingOnThreadQueue = blocked &&& waitingOnThreadQueue := by decide
  rw [hm, ← BitVec.and_assoc, h, BitVec.ofNat_eq_ofNat, BitVec.zero_and]

end States

namespace ThreadQueue

open Intrusive Thread
open Watchdog (Runs)

variable {Q T : Type*} {K K' : Kernel Q T} {X : Set T} {rd : Priority → List T}
  {oc : Members Q T} {lead lead' : Q → Fin 4 → List T} {fol fol' : T → List T}
  {q : Q} {t : T} {S : Scheduler (QueueChain Q T) T}

theorem control_setState_set [DecidableEq Q] [DecidableEq T] {s} : (S.setState t s).control =
    (S.setCurrentState t (States.set s (S.control t).currentState)).control := by
  rw [Scheduler.control_setState]
  split
  · next hr =>
    have hs : States.set s States.ready = s := BitVec.zero_or
    rw [hr, hs]
  · rfl

theorem Standing.widen (h : Standing K ∅ rd oc lead fol) (hX : ∀ t ∈ X, K.isWaiting t = false) :
    Standing K X rd oc lead fol := by
  refine ⟨h.chained, h.grouped, fun {q t} ht => ⟨fun hx => ?_, (h.queued ht).2⟩, fun {t} ht => ?_⟩
  · exact h.absent_of_not_waiting (hX t hx) q ht
  · exact (h.waiting ht).imp (fun hx => hx.elim) id

theorem Standing.narrow (h : Standing K X rd oc lead fol) (hX : ∀ t ∈ X, K.isWaiting t = false) :
    Standing K ∅ rd oc lead fol := by
  refine ⟨h.chained, h.grouped, fun ht => ⟨Set.notMem_empty _, (h.queued ht).2⟩, fun {t} ht => ?_⟩
  refine (h.waiting ht).imp (fun hx => ?_) id
  rw [hX t hx] at ht
  cases ht

structure Calm (K : Kernel Q T) (lead : Q → Fin 4 → List T) (fol : T → List T) : Prop where
  standing : ∃ rd oc, Standing K ∅ rd oc lead fol
  armed : ∀ t, K.timers.state t = .inactive ∨
    K.timers.state t = .active ∧ States.areSet (K.sched.control t).currentState States.blocked = true
  synced : ∀ q, (K.queue q).syncState = .synchronized
  dormant : ∀ t, States.isDormant (K.sched.control t).currentState = true →
    States.areSet (K.sched.control t).currentState States.blocked = false

namespace Calm

section

variable (h : Calm K lead fol)

include h

theorem mem_iff : t ∈ service (lead q) fol ↔ K.isWaiting t = true ∧ (K.wait t).queue = q := by
  obtain ⟨rd, oc, hS⟩ := h.standing
  refine ⟨fun ht => ⟨hS.isWaiting ht, (hS.queued ht).2.1⟩, ?_⟩
  rintro ⟨hw, rfl⟩
  exact (hS.waiting hw).resolve_left (Set.notMem_empty t)

theorem inactive (ht : States.areSet (K.sched.control t).currentState States.blocked = false) :
    K.timers.state t = .inactive := by
  refine (h.armed t).resolve_right fun ha => ?_
  rw [ht] at ha
  cases ha.2

theorem withSched (hC : ∀ {rd oc}, Standing K ∅ rd oc lead fol → ∃ rd', Chained S rd' oc)
    (ha : ∀ u, States.Alike (S.control u).currentState (K.sched.control u).currentState) :
    Calm { K with sched := S } lead fol := by
  obtain ⟨rd, oc, hS⟩ := h.standing
  obtain ⟨rd', hC⟩ := hC hS
  refine ⟨⟨rd', oc, hS.withSched hC (fun {q u} hu => ?_) fun {u} _ hu => ?_⟩, fun u => ?_, h.synced,
    fun u hu => ?_⟩
  · exact (ha u).symm.includes (K.queue q).blocks (hS.queued hu).2.2
  · exact (ha u).isWaiting.symm.trans hu
  · simp only [(ha u).isBlocked]
    exact h.armed u
  · simp only [(ha u).isBlocked, (ha u).isDormant] at *
    exact h.dormant u hu

theorem setTimers {timers} (hs : ∀ u, timers.state u = K.timers.state u ∨ timers.state u = .inactive) :
    Calm (K.setTimers timers) lead fol := by
  obtain ⟨rd, oc, hS⟩ := h.standing
  refine ⟨⟨rd, oc, hS.setTimers _⟩, fun u => ?_, h.synced, h.dormant⟩
  rcases hs u with hu | hu
  · exact (h.armed u).imp hu.trans (And.imp_left hu.trans)
  · exact Or.inl hu

theorem switch (t : T) : Calm { K with sched := { K.sched with executing := t } } lead fol :=
  h.withSched (fun {rd _} hS => ⟨rd, hS.chained.congr rfl rfl rfl⟩) fun _ => .refl _

variable [DecidableEq T]

theorem setReturnCode (t : T) (code : Nat) : Calm (K.setReturnCode t code) lead fol := by
  obtain ⟨rd, oc, hS⟩ := h.standing
  exact ⟨⟨rd, oc, hS.setReturnCode t code⟩, h.armed, h.synced, h.dormant⟩

theorem modify {f} (hs : (f (K.sched.control t)).currentState = (K.sched.control t).currentState)
    (hp : (K.sched.control t).currentState = States.ready →
      (f (K.sched.control t)).currentPriority = (K.sched.control t).currentPriority)
    (hpl : (K.sched.control t).Placed → (f (K.sched.control t)).Placed) :
    Calm { K with sched := K.sched.modify t f } lead fol := by
  refine h.withSched (fun {rd _} hS => ⟨rd, hS.chained.modify (by rw [hs]) hp ?_⟩) fun u => ?_
  · exact hpl (hS.chained.pointers t)
  · rw [Scheduler.field_modify Thread.Control.currentState hs u]
    exact .refl _

end

section

variable [DecidableEq T] [DecidableEq Q] (h : Calm K lead fol)

include h

/-! ### Operations of the scheduler -/

omit [DecidableEq Q] in
theorem withState {s} (hC : ∀ {rd oc}, Standing K ∅ rd oc lead fol → ∃ rd', Chained S rd' oc)
    (hc : S.control = (K.sched.setCurrentState t s).control)
    (ha : States.Alike s (K.sched.control t).currentState) : Calm { K with sched := S } lead fol := by
  refine h.withSched hC fun u => ?_
  rw [hc]
  by_cases hu : u = t
  · subst hu
    rw [Scheduler.control_setCurrentState_self]
    exact ha
  · rw [Scheduler.control_setCurrentState_ne hu]
    exact .refl _

theorem setState {s} (hr : s ≠ States.ready)
    (hs : s &&& (States.blocked ||| States.dormant) = 0#32) (t : T) :
    Calm { K with sched := K.sched.setState t s } lead fol :=
  h.withState (fun hS => hS.chained.setState hr) control_setState_set (States.alike_set hs)

theorem resume (t : T) : Calm { K with sched := K.sched.resume t } lead fol := by
  have ha : States.Alike (States.clear States.suspended (K.sched.control t).currentState)
      (K.sched.control t).currentState := States.alike_clear (by decide)
  refine h.withState (fun hS => hS.chained.clearState fun hw => ?_) Scheduler.control_clearState ha
  refine hS.off (hS.absent_of_not_waiting (ha.isWaiting.symm.trans ?_))
  rw [hw.2]
  decide

theorem changePriority (ht : States.Steady (K.sched.control t).currentState) (p : Priority)
    (prependIt : Bool) : Calm { K with sched := K.sched.changePriority t p prependIt } lead fol := by
  obtain ⟨rd, oc, hS⟩ := h.standing
  have hpl := hS.chained.pointers t
  refine h.withSched (fun hS => hS.chained.changePriority (t := t) (p := p) (fun hr => ?_) prependIt)
    fun u => ?_
  · exact hS.off fun q => hS.ready_absent (Eq.trans (Eq.symm ht) hr) q
  · have hc := Scheduler.field_modify (S := K.sched) (t := t) (f := fun c => { c.setPriority p with
      currentState := States.clear States.transient c.currentState }) Thread.Control.currentState ht u
    rw [Scheduler.control_changePriority hpl, hc]
    exact .refl _

theorem setTransient (t : T) : Calm { K with sched := K.sched.setTransient t } lead fol := by
  refine h.withState (fun hS => ?_) Scheduler.control_setTransient (States.alike_set (by decide))
  obtain ⟨rd', L, B, he, hR⟩ := hS.chained.toReadied.setTransient (t := t)
  refine ⟨rd', hR, fun u => ?_⟩
  rw [Scheduler.control_setTransient]
  exact Scheduler.placed_setCurrentState.mpr (hS.chained.pointers u)

omit [DecidableEq Q] in
/-- A thread that is on no queue gets another state and timer. -/
theorem change {b w} (hC : ∀ {rd oc}, Standing K ∅ rd oc lead fol → ∃ rd', Chained S rd' oc)
    (hw : K.isWaiting t = false) (hself : (S.control t).currentState = b)
    (hne : ∀ u ≠ t, S.control u = K.sched.control u)
    (hst : States.isWaitingOnThreadQueue b = false)
    (hd : States.isDormant b = true → States.areSet b States.blocked = false)
    (ht : ∀ u ≠ t, w.state u = K.timers.state u)
    (ha : w.state t = .inactive ∨ w.state t = .active ∧ States.areSet b States.blocked = true) :
    Calm ({ K with sched := S }.setTimers w) lead fol := by
  obtain ⟨rd, oc, hS⟩ := h.standing
  obtain ⟨rd', hC⟩ := hC hS
  refine ⟨⟨rd', oc, (hS.withSched hC (fun {q u} hu => ?_) fun {u} _ hu => ?_).setTimers w⟩, fun u => ?_,
    h.synced, fun u hu => ?_⟩
  · have hut : u ≠ t := by
      rintro rfl
      exact hS.absent_of_not_waiting hw q hu
    rw [hne u hut]
    exact (hS.queued hu).2.2
  · by_cases hut : u = t
    · rw [hut, hself, hst] at hu
      cases hu
    · rwa [hne u hut] at hu
  · by_cases hut : u = t
    · simp only [Kernel.setTimers, hut, hself]
      exact ha
    · simp only [Kernel.setTimers, hne u hut, ht u hut]
      exact h.armed u
  · by_cases hut : u = t
    · simp only [Kernel.setTimers, hut, hself] at hu ⊢
      exact hd hu
    · simp only [Kernel.setTimers, hne u hut] at hu ⊢
      exact h.dormant u hu

theorem ready (hr : (K.sched.control t).currentState ≠ States.ready) (hw : K.isWaiting t = false)
    (hi : K.timers.state t = .inactive) : Calm { K with sched := K.sched.ready t } lead fol := by
  refine h.change (S := K.sched.ready t) (b := States.ready) (w := K.timers)
    (fun hS => hS.chained.ready hr (hS.off (hS.absent_of_not_waiting hw))) hw ?_ (fun u hu => ?_) (by decide)
    (by decide) (fun _ _ => rfl) (Or.inl hi)
  · rw [Scheduler.control_ready, Scheduler.control_setCurrentState_self]
  · rw [Scheduler.control_ready, Scheduler.control_setCurrentState_ne hu]

theorem start (ht : States.isDormant (K.sched.control t).currentState = true) :
    Calm (K.start t) lead fol := by
  have hb := h.dormant t ht
  have h' : Calm { K with sched := K.sched.loadEnvironment t } lead fol :=
    h.modify rfl (fun _ => rfl) id
  have hst : ((K.sched.loadEnvironment t).control t).currentState = (K.sched.control t).currentState := by
    simp [Scheduler.loadEnvironment]
  have he : K.start t = { K with sched := (K.sched.loadEnvironment t).ready t } := by
    rw [Kernel.start, Scheduler.start, if_pos ht]
  rw [he]
  refine h'.ready (fun hr => ?_) ?_ (h.inactive hb)
  · rw [← hst, hr] at ht
    exact absurd ht (by decide)
  · rw [Kernel.isWaiting, hst]
    exact States.isWaiting_of_isBlocked hb

/-! ### Threads are let go -/

omit [DecidableEq Q] in
theorem took (hT : Took K K' t) (hS : ∃ rd oc, Standing K' ∅ rd oc lead' fol') : Calm K' lead' fol' := by
  refine ⟨hS, fun u => ?_, fun r => ?_, fun u hu => ?_⟩
  · rw [hT.states]
    by_cases hut : u = t
    · exact Or.inl (by simp [hut])
    · rw [update_of_ne hut, hT.control_ne hut]
      exact h.armed u
  · rw [hT.queue]
    exact h.synced r
  · by_cases hut : u = t
    · rw [hut, hT.currentState]
      exact States.isBlocked_clear
    · rw [hT.control_ne hut] at hu ⊢
      exact h.dormant u hu

omit [DecidableEq T] [DecidableEq Q] in
theorem kept : ∃ rd oc, Kept K {t | K.isWaiting t = false} ∅ rd oc lead fol := by
  obtain ⟨rd, oc, hS⟩ := h.standing
  refine ⟨rd, oc, hS.widen fun _ ht => ht, fun {t} ht => ?_, fun _ => h.synced _⟩
  have ht : K.isWaiting t = true := Bool.not_eq_false _ ▸ ht
  exact (h.armed t).imp id fun ha => ⟨ha.1, ht⟩

omit [DecidableEq Q] in
theorem of_kept (hw : K.isWaiting t = true) (hT : Took K K' t)
    (hK : ∃ rd oc, Kept K' {t | K.isWaiting t = false} ∅ rd oc lead' fol') : Calm K' lead' fol' := by
  obtain ⟨rd, oc, hK⟩ := hK
  refine h.took hT ⟨rd, oc, hK.standing.narrow fun u hu => ?_⟩
  have hut : u ≠ t := by
    rintro rfl
    exact absurd (hw.symm.trans hu) (by decide)
  rw [hT.isWaiting_ne hut]
  exact hu

theorem dequeue_nil (hq : service (lead q) fol = []) : K.dequeue q = (K, none) := by
  obtain ⟨rd, oc, hS⟩ := h.standing
  refine Kernel.dequeue_of_none ?_ (Or.inl (h.synced q))
  rcases hS.takeFirst q with ⟨t, k, L', oc', lead', fol', hs, -⟩ | ⟨-, hn⟩
  · rw [hq] at hs
    cases hs
  · exact hn

variable {l : Nat} {fs : List (Watchdog.Frame Unit T)}

theorem dequeue (hR : Runs K.timers (.body l :: fs)) {k} (hq : service (lead q) fol = t :: k) :
    ∃ K' lead' fol', K.dequeue q = (K', some t) ∧ Calm K' lead' fol' ∧ Took K K' t ∧
      Runs K'.timers (.body l :: fs) := by
  obtain ⟨rd, oc, hK⟩ := h.kept
  obtain ⟨L', rd', oc', lead', fol', he, -, hK', hT, hR'⟩ := hK.dequeue hR hq
  have hw := hK.standing.isWaiting (show t ∈ service (lead q) fol by simp [hq])
  exact ⟨_, lead', fol', he, h.of_kept hw hT ⟨rd', oc', hK'⟩, hT, hR'⟩

theorem extract (hR : Runs K.timers (.body l :: fs)) (hw : K.isWaiting t = true) :
    ∃ lead' fol', Calm (K.extract (K.wait t).queue t) lead' fol' ∧
      Took K (K.extract (K.wait t).queue t) t ∧
      Runs (K.extract (K.wait t).queue t).timers (.body l :: fs) := by
  obtain ⟨rd, oc, hK⟩ := h.kept
  have hS := hK.standing
  obtain ⟨oc', lead', fol', hM⟩ := unlink_left hS.on hS.grouped (h.mem_iff.mpr ⟨hw, rfl⟩)
  rw [Kernel.extract_of_waiting hw]
  obtain ⟨hT, hR'⟩ := took_letGo (K := K.setLinks (unlink (K.discipline _) K.sched.links t)) hR
    ((h.armed t).imp id And.left)
  obtain ⟨rd', hK', hT⟩ := hK.take hM hT
  exact ⟨lead', fol', h.of_kept hw hT ⟨rd', oc', hK'⟩, hT, hR'⟩

theorem timeout (hw : K.isWaiting t = true) (hi : K.timers.state t = .inactive) :
    ∃ lead' fol', Calm (K.timeout t) lead' fol' ∧
      Took (K.setReturnCode t (K.queue (K.wait t).queue).timeoutStatus) (K.timeout t) t := by
  obtain ⟨rd, oc, hK⟩ := h.kept
  obtain ⟨L', rd', oc', lead', fol', -, hK', hT⟩ := hK.timeout (t := t) (by simp [hw]) hw hi
    (Or.inl (h.synced _))
  exact ⟨lead', fol', (h.setReturnCode t _).of_kept hw hT ⟨rd', oc', hK'⟩, hT⟩

theorem letGo (hR : Runs K.timers (.body l :: fs)) (hw : K.isWaiting t = false) :
    Calm (K.letGo t) lead fol ∧ Took K (K.letGo t) t ∧ Runs (K.letGo t).timers (.body l :: fs) := by
  obtain ⟨rd, oc, hS⟩ := h.standing
  obtain ⟨hT, hR'⟩ := took_letGo hR ((h.armed t).imp id And.left)
  obtain ⟨rd', hS'⟩ := (hS.enter hw).letGo (t := t) (by simp)
  rw [Set.insert_sdiff_self_of_notMem (Set.notMem_empty t)] at hS'
  exact ⟨h.took hT ⟨rd', oc, hS'⟩, hT, hR'⟩

theorem unblock (hw : K.isWaiting t = false) (hi : K.timers.state t = .inactive) :
    Calm (K.unblock t) lead fol ∧ Took K (K.unblock t) t := by
  obtain ⟨rd, oc, hS⟩ := h.standing
  have hT := took_letGo_inactive hi
  obtain ⟨rd', hS'⟩ := (hS.enter hw).letGo (t := t) (by simp)
  rw [Set.insert_sdiff_self_of_notMem (Set.notMem_empty t)] at hS'
  rw [Kernel.letGo_inactive (by simp [hi])] at hT hS'
  exact ⟨h.took hT ⟨rd', oc, hS'⟩, hT⟩

end

end Calm

/-! ## Threads are blocked -/

section

variable [DecidableEq T]

def armedState (K : Kernel Q T) (t : T) (timeout : Nat) : T → Watchdog.TimerState :=
  if timeout = 0 then K.timers.state else update K.timers.state t .active

theorem armedState_ne {timeout u} (hu : u ≠ t) :
    armedState K t timeout u = K.timers.state u := by
  unfold armedState
  split
  · rfl
  · exact update_of_ne hu _ _

theorem armedState_self (hi : K.timers.state t = .inactive) {timeout} :
    armedState K t timeout t = .inactive ∨ armedState K t timeout t = .active := by
  unfold armedState
  split
  · exact Or.inl hi
  · exact Or.inr (update_self ..)

theorem runs_insert {timers timers' timeout fuel l}
    (hR : Runs timers [.body l]) (hi : timers.state t = .inactive) (h0 : timeout ≠ 0)
    (hu : timeout < 2 ^ 32)
    (he : Watchdog.insert (Watchdog.initializeTimer timers t) () t timeout fuel = some timers') :
    Runs timers' [.body l] ∧ timers'.state = update timers.state t .active := by
  rw [Watchdog.initializeTimer_eq hi] at he
  exact hR.insert hi (by simp) (Nat.pos_of_ne_zero h0) hu he

theorem Inserts.runs {timeout l} (h : Inserts K K' t timeout) (hR : Runs K.timers [.body l])
    (hi : K.timers.state t = .inactive) (hu : timeout < 2 ^ 32) :
    Runs K'.timers [.body l] ∧ K'.timers.state = armedState K t timeout := by
  rcases h with ⟨h0, hT⟩ | ⟨h0, fuel, he⟩
  · rw [hT, armedState, if_pos h0]
    exact ⟨hR, rfl⟩
  · rw [armedState, if_neg h0]
    exact runs_insert hR hi h0 hu he

end

theorem Calm.block [DecidableEq T] [DecidableEq Q] {timeout fuel l} (h : Calm K lead fol)
    (hR : Runs K.timers [.body l])
    (hr : (K.sched.control K.sched.executing).currentState = States.ready) (hu : timeout < 2 ^ 32)
    (he : K.block q timeout fuel = some K') :
    ∃ lead' fol', Calm K' lead' fol' ∧ Blocked K K' q K.sched.executing ∧
      Runs K'.timers [.body l] ∧ K'.timers.state = armedState K K.sched.executing timeout := by
  have hx : K.timers.state K.sched.executing = .inactive := h.inactive (by rw [hr]; decide)
  obtain ⟨hi, hb⟩ := Kernel.block_setTimers hr he
  obtain ⟨hR', hst⟩ := hi.runs hR hx hu
  -- without the timers of the other threads the kernel rests
  obtain ⟨m, hb⟩ := hb .idle
  obtain ⟨rd, oc, hS⟩ := h.standing
  have hK : Kept (K.setTimers .idle) ∅ ∅ rd oc lead fol :=
    ⟨hS.setTimers _, fun _ => Or.inl rfl, fun _ => h.synced _⟩
  obtain ⟨rd', oc', lead', fol', hK', -, hB, -⟩ := hK.block .idle hr (by decide) hb
  have hB' : Blocked K K' q K.sched.executing := ⟨hB.control, hB.own, hB.executing, hB.wait, hB.queue⟩
  have hown : (K'.sched.control K.sched.executing).currentState = (K.queue q).state := by rw [hB'.own]
  refine ⟨lead', fol', ⟨⟨rd', oc', hK'.standing.setTimers K'.timers⟩, fun u => ?_, fun r => ?_,
    fun u hu => ?_⟩, hB', hR', hst⟩
  · rw [hst]
    by_cases hux : u = K.sched.executing
    · rw [hux, hown]
      refine (armedState_self hx).imp id fun ha => ⟨ha, ?_⟩
      by_contra hc
      have := States.isWaiting_of_isBlocked (Bool.not_eq_true _ ▸ hc)
      rw [(K.queue q).waits] at this
      cases this
    · rw [armedState_ne hux, hB'.control u hux]
      exact h.armed u
  · rw [hB'.queue]
    exact h.synced r
  · by_cases hux : u = K.sched.executing
    · rw [hux, hown] at hu
      have hz : States.dormant &&& (K.queue q).state = 0 :=
        States.and_of_clear (K.queue q).blocks (by decide)
      rw [States.isDormant, BitVec.and_comm, hz] at hu
      cases hu
    · rw [hB'.control u hux] at hu ⊢
      exact h.dormant u hu

end ThreadQueue

end Rtems
