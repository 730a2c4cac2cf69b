import Rtems.ThreadQueue.Enqueue

/-! # Handlers that interrupt `_Thread_queue_Enqueue` -/

namespace Rtems.ThreadQueue

open Function Intrusive Thread
open Watchdog (Runs Ticks)

variable {Q T : Type*} {e : Enqueue Q T} {code n : Nat} {K K' : Kernel Q T} {p : EnqueuePoint Q T}
  {rd rd' : Priority → List T} {oc oc' : Members Q T}
  {lead lead' : Q → Fin 4 → List T} {fol fol' : T → List T} {l : Nat} {q : Q} {t : T}
  {fs : List (Watchdog.Frame Unit T)} {L' : Links (QueueName Q T) T}

/-! ## Other threads -/

structure Aside (e : Enqueue Q T) (K K' : Kernel Q T) (oc oc' : Members Q T)
    (lead lead' : Q → Fin 4 → List T) (fol : T → List T) : Prop where
  queue : K'.queue = K.queue
  wait : K'.wait e.thread = K.wait e.thread
  control : K'.sched.control e.thread = K.sched.control e.thread
  timer : K'.timers.state e.thread = K.timers.state e.thread
  executing : K'.sched.executing = K.sched.executing
  priority : K'.priority = K.priority
  block : (∀ r, e.thread ∉ service (lead r) fol) → oc' (.block2n e.thread) = oc (.block2n e.thread)
  leads : ∀ {r i u}, u ∈ lead r i → u ∈ lead' r i ∨
    States.areSet (K'.sched.control u).currentState (K.queue r).state = false
  states : ∀ {r u}, States.areSet (K.sched.control u).currentState (K.queue r).state = false →
    States.areSet (K'.sched.control u).currentState (K.queue r).state = false

namespace Aside

variable (h : Aside e K K' oc oc' lead lead' fol)

include h

theorem discipline : K'.discipline = K.discipline := by
  funext r
  rw [Kernel.discipline, h.queue]
  rfl

theorem looks {p} (habs : ∀ r, e.thread ∉ service (lead r) fol) (hL : Looks e K oc p) :
    Looks e K' oc' p := by
  simp only [Looks, Waits, Armed, h.queue, h.control, h.timer, h.discipline, h.block habs, h.priority] at hL ⊢
  exact hL

theorem blocks (hB : Blocks e code K p n rd oc lead fol)
    (hK : Kept K' (transit e p) (critical e p) rd' oc' lead' fol') :
    Blocks e code K' p n rd' oc' lead' fol' := by
  refine ⟨hK, h.executing.trans hB.executing, by rw [h.wait]; exact hB.queue, ?_, ?_⟩
  · have hL := hB.ledger
    cases p with
    | done => trivial
    | entry | stateFlash | blocked | initialized | inserting | linking | restart | search | releasing =>
      simpa only [Ledger, Open, Settled, h.queue, h.wait] using hL
  · have hP := hB.point
    have habs (ht : transit e p = {e.thread}) (r : Q) : e.thread ∉ service (lead r) fol :=
      hB.kept.standing.absent (by rw [ht]; rfl) r
    cases p with
    | restart p => exact h.looks (habs rfl) hP
    | search p sp node =>
      obtain ⟨hL, hsp, u, hn, hb, hu⟩ := hP
      refine ⟨h.looks (habs rfl) hL, hsp, u, hn, ?_, ?_⟩
      · simpa only [Beyond, h.priority] using hb
      · rw [h.queue]
        rcases hu with hu | hu
        · exact h.leads hu
        · exact Or.inr (h.states hu)
    | releasing rp =>
      cases rp with
      | done => exact hP
      | remove | unblock | flash =>
        simpa only [AtPoint, Waits, Ready, h.queue, h.control, h.timer] using hP
    | entry | stateFlash | blocked | initialized | inserting | linking | done =>
      simpa only [AtPoint, Waits, Ready, Unarmed, Armed, Settled, h.queue, h.control, h.timer, h.wait]
        using hP

end Aside

section

variable [DecidableEq T]

theorem Left.aside {K0} (hM : Left K.discipline rd L' oc oc' lead lead' fol fol' q t)
    (hT : Took K0 K' t) (ht : t ≠ e.thread) (hs : K0.sched = K.sched) (hq : K0.queue = K.queue)
    (hw : K0.wait e.thread = K.wait e.thread) (hi : K0.timers = K.timers) :
    Aside e K K' oc oc' lead lead' fol := by
  have hne (u : T) (hu : u ≠ t) : K'.sched.control u = K.sched.control u := by
    rw [hT.control_ne hu, hs]
  have hself (r : Q) : States.areSet (K'.sched.control t).currentState (K.queue r).state = false := by
    rw [hT.currentState]
    exact States.areSet_clear_of (K.queue r).blocks
  refine ⟨hT.queue.trans hq, by rw [hT.wait, hw], hne _ ht.symm, ?_, hT.executing.trans (by rw [hs]), ?_,
    hM.block, fun {r i u} hu => ?_, fun {r u} hu => ?_⟩
  · rw [hT.states, update_of_ne ht.symm, hi]
  · rw [hT.priority]
    funext u
    simp only [Kernel.priority, hs]
  · by_cases hut : u = t
    · subst hut
      exact Or.inr (hself r)
    · exact Or.inl (hM.leads hu hut)
  · by_cases hut : u = t
    · subst hut
      exact hself r
    · rwa [hne u hut]

end

/-! ## What happens to the thread while it blocks -/

structure Noted (e : Enqueue Q T) (K K' : Kernel Q T) : Prop where
  onward : Onward e K K'
  sched : K'.sched = K.sched
  wait : K'.wait = K.wait

theorem critical_cases (e : Enqueue Q T) (p : EnqueuePoint Q T) :
    critical e p = ∅ ∨ critical e p = {e.queue} ∧ transit e p = {e.thread} := by
  cases p with
  | releasing | done => exact Or.inl rfl
  | entry | stateFlash | blocked | initialized | inserting | linking | restart | search =>
    exact Or.inr ⟨rfl, rfl⟩

theorem notMem_transit (ht : t ≠ e.thread) (p : EnqueuePoint Q T) : t ∉ transit e p := by
  cases p with
  | releasing rp => cases rp <;> simp [transit, ht]
  | entry | stateFlash | blocked | initialized | inserting | linking | restart | search | done =>
    simp [transit, ht]

theorem transit_of_critical (hp : critical e p = {e.queue}) : transit e p = {e.thread} := by
  rcases critical_cases e p with h | ⟨-, h⟩
  · rw [h] at hp
    exact absurd hp (Set.singleton_ne_empty _).symm
  · exact h

theorem Blocks.open_of_critical (hB : Blocks e code K p n rd oc lead fol)
    (hp : critical e p = {e.queue}) : Open e code K n := by
  have hL := hB.ledger
  cases p with
  | releasing | done => exact absurd hp (Set.singleton_ne_empty _).symm
  | entry | stateFlash | blocked | initialized | inserting | linking | restart | search => exact hL

theorem Blocks.absent (hB : Blocks e code K p n rd oc lead fol) (hp : p ≠ .done) (r : Q) :
    e.thread ∉ service (lead r) fol := by
  have hP := hB.point
  have hS := hB.kept.standing
  cases p with
  | done => exact absurd rfl hp
  | releasing rp =>
    cases rp with
    | done => exact absurd hP id
    | flash => exact hS.ready_absent hP.1 r
    | remove | unblock => exact hS.absent rfl r
  | entry | stateFlash | blocked | initialized | inserting | linking | restart | search =>
    exact hS.absent rfl r

theorem Noted.blocks [DecidableEq Q] [DecidableEq T] {n'} (h : Noted e K K')
    (hB : Blocks e code K p n rd oc lead fol) (hp : critical e p = {e.queue})
    (hs : (K'.queue e.queue).syncState ≠ .synchronized)
    (hn : n' = if (K'.queue e.queue).syncState = .satisfied then 1 else 0)
    (hu : Unarmed e K → Unarmed e K') (ha : Armed e K → Armed e K')
    (hi : K.timers.state e.thread = .inactive ∨ K.timers.state e.thread = .beingInserted →
      (K.queue e.queue).syncState ≠ .timeout →
      (K'.timers.state e.thread = .inactive ∨ K'.timers.state e.thread = .beingInserted) ∧
      (K'.queue e.queue).syncState ≠ .timeout) :
    Blocks e code K' p n' rd oc lead fol := by
  have hst : (K'.queue e.queue).state = (K.queue e.queue).state := by rw [h.onward.self]
  have htr := transit_of_critical hp
  have hS : Standing K' (transit e p) rd oc lead fol := by
    have hk := hB.kept.standing
    refine ⟨h.sched ▸ hk.chained, h.onward.discipline ▸ hk.grouped, fun {q u} hu => ?_, fun {u} hu => ?_⟩
    · rw [h.wait, h.sched, h.onward.field Control.state fun _ _ => rfl]
      exact hk.queued hu
    · rw [Kernel.isWaiting, h.sched] at hu
      rw [h.wait]
      exact hk.waiting hu
  have hK := h.onward.kept hB.kept hS (Set.subset_insert _ _) (Set.subset_insert _ _)
    (fun hx => absurd (htr ▸ rfl) hx) fun hx => absurd (hp ▸ rfl) hx
  have hx : K'.sched.executing = e.thread := h.onward.executing.trans hB.executing
  have hq : (K'.wait e.thread).queue = e.queue := h.onward.waitQueue.trans hB.queue
  have hw : Waits e K → Waits e K' := by
    unfold Waits
    rw [hst, h.sched]
    exact id
  have hl {p : Priority} : Looks e K oc p → Looks e K' oc p := by
    rintro ⟨h1, h2, h3, h4, h5⟩
    exact ⟨hw h1, ha h2, by rw [h.onward.discipline]; exact h3, h4, by rw [h.onward.priority]; exact h5⟩
  have ho : Open e code K n → Open e code K' n' := fun h' => ⟨hs, by rw [h.wait]; exact h'.2.1, hn⟩
  have hP := hB.point
  have hL := hB.ledger
  cases p with
  | releasing | done => exact absurd hp (Set.singleton_ne_empty _).symm
  | entry => exact ⟨hK, hx, hq, ho hL, by unfold Ready; rw [h.sched]; exact hP.1, hu hP.2⟩
  | stateFlash | blocked => exact ⟨hK, hx, hq, ho hL, hw hP.1, hu hP.2⟩
  | initialized => exact ⟨hK, hx, hq, ho hL, hw hP.1, hu hP.2.1, hP.2.2⟩
  | inserting ip =>
    obtain ⟨hi1, hi2⟩ := hi hP.2.1 hP.2.2.1
    exact ⟨hK, hx, hq, ho hL, hw hP.1, hi1, hi2, hP.2.2.2⟩
  | linking => exact ⟨hK, hx, hq, ho hL, hw hP.1, ha hP.2⟩
  | restart p => exact ⟨hK, hx, hq, ho hL, hl hP⟩
  | search p sp node =>
    obtain ⟨hlk, hsp, u, hn, hb, hu⟩ := hP
    refine ⟨hK, hx, hq, ho hL, hl hlk, hsp, u, hn, ?_, ?_⟩
    · simpa only [Beyond, h.onward.priority] using hb
    · rw [hst, h.sched]
      exact hu

variable [DecidableEq Q] [DecidableEq T]

section

variable (hB : Blocks e code K p n rd oc lead fol)

include hB

theorem Blocks.satisfy (hp : critical e p = {e.queue}) :
    Blocks e code (K.setSyncState e.queue .satisfied) p 1 rd oc lead fol := by
  have hN : Noted e K (K.setSyncState e.queue .satisfied) := ⟨.syncState _, rfl, rfl⟩
  refine hN.blocks hB hp (by simp) (by simp) (fun h => ⟨h.1, by simp⟩) (fun h => ?_)
    fun h _ => ⟨h, by simp⟩
  unfold Armed at h ⊢
  split at h <;> rename_i h0
  · rw [if_pos h0]
    exact ⟨h.1, by simp⟩
  · rw [if_neg h0]
    exact h.imp (fun h => ⟨h.1, by simp⟩) fun h => ⟨h.1, by simp⟩

theorem Blocks.expire {timers} (hp : critical e p = {e.queue}) (hact : K.timers.state e.thread = .active)
    (hst : timers.state = update K.timers.state e.thread .inactive) :
    Blocks e code ((K.setTimers timers).timeout e.thread) p n rd oc lead fol := by
  have hO : Onward e K (K.setTimers timers) := .timers fun u hu => by rw [hst, update_of_ne hu]
  have hq : ((K.setTimers timers).wait e.thread).queue = e.queue := hB.queue
  obtain ⟨hs, -, hn⟩ := hB.open_of_critical hp
  have hE : (K.setTimers timers).timeout e.thread = if (K.queue e.queue).syncState ≠ .satisfied then
      (K.setTimers timers).setSyncState e.queue .timeout else K.setTimers timers := by
    rw [Kernel.timeout_of_blocking (K := K.setTimers timers) (by rw [hq]; exact hs) hB.executing.symm, hq]
    rfl
  have hno : ¬ Unarmed e K := fun h => by simp [h.1] at hact
  have hin : timers.state e.thread = .inactive := by rw [hst, update_self]
  have h0 : Armed e K → e.timeout ≠ 0 := by
    unfold Armed
    intro h h0
    rw [if_pos h0, hact] at h
    simp at h
  rw [hE]
  split <;> rename_i hsat
  · have hN : Noted e K ((K.setTimers timers).setSyncState e.queue .timeout) :=
      ⟨hO.trans (.syncState _), rfl, rfl⟩
    refine hN.blocks hB hp (by simp) (by simpa [hsat] using hn) (fun h => absurd h hno) (fun h => ?_)
      fun h => by simp [hact] at h
    unfold Armed
    rw [if_neg (h0 h)]
    exact Or.inr ⟨hin, by simp⟩
  · have hN : Noted e K (K.setTimers timers) := ⟨hO, rfl, rfl⟩
    refine hN.blocks hB hp hs hn (fun h => absurd h hno) (fun h => ?_) fun h => by simp [hact] at h
    unfold Armed
    rw [if_neg (h0 h)]
    exact Or.inr ⟨hin, by simp [Kernel.setTimers, not_not.mp hsat]⟩

omit [DecidableEq Q] hB in
theorem Blocks.taken {K0 n'} (hB : Blocks e code K .done n rd oc lead fol)
    (ht : e.thread ∈ service (lead q) fol) (hT : Took K0 K' e.thread) (hs : K0.sched = K.sched)
    (hw : (K0.wait e.thread).queue = (K.wait e.thread).queue) (hK : Kept K' ∅ ∅ rd' oc' lead' fol')
    (hn : n = 0 → (K.wait e.thread).returnCode = code → Settled e code K' n') :
    Blocks e code K' .done n' rd' oc' lead' fol' := by
  rcases hB.point with ⟨hw', -, h0, hc⟩ | ⟨hr, -⟩
  · refine ⟨hK, hT.executing.trans (by rw [hs]; exact hB.executing), ?_, trivial, Or.inr ⟨?_, ?_, hn h0 hc⟩⟩
    · rw [hT.wait, hw]
      exact hB.queue
    · unfold Ready
      rw [hT.currentState, hs, hw']
      exact (K.queue e.queue).blocks
    · rw [hT.states, update_self]
  · exact absurd ht (hB.kept.standing.ready_absent hr q)

theorem Blocks.dequeue (hR : Runs K.timers (.body l :: fs)) (q : Q) :
    ∃ rd' oc' lead' fol', Blocks e code (K.dequeue q).1 p
      (n + if (K.dequeue q).2 = some e.thread then 1 else 0) rd' oc' lead' fol' ∧
      Runs (K.dequeue q).1.timers (.body l :: fs) := by
  rcases hB.kept.standing.takeFirst q with ⟨t, k, -, -, -, -, hs, -⟩ | ⟨hs, hn⟩
  · obtain ⟨L', rd', oc', lead', fol', he, hM, hK', hT, hR'⟩ := hB.kept.dequeue hR hs
    rw [he]
    refine ⟨rd', oc', lead', fol', ?_, hR'⟩
    by_cases ht : t = e.thread
    · subst ht
      have hp : p = .done := by
        by_contra hp
        exact hB.absent hp q hM.mem_self
      subst hp
      refine hB.taken hM.mem_self hT rfl rfl hK' fun h0 hc => Or.inl ⟨by simp [h0], ?_⟩
      rw [hT.wait]
      exact hc
    · have hA := hM.aside (e := e) hT ht rfl rfl rfl rfl
      simpa [ht] using hA.blocks hB hK'
  · by_cases hq : q ∈ critical e p
    · have hcr : critical e p = {e.queue} := by
        rcases critical_cases e p with h | ⟨h, -⟩
        · rw [h] at hq
          exact absurd hq id
        · exact h
      obtain rfl : q = e.queue := by rw [hcr] at hq; exact hq
      obtain ⟨hs, -, h0⟩ := hB.open_of_critical hcr
      cases hsy : (K.queue e.queue).syncState with
      | synchronized => exact absurd hsy hs
      | satisfied =>
        rw [Kernel.dequeue_of_none hn (Or.inr hsy)]
        exact ⟨rd, oc, lead, fol, by simpa using hB, hR⟩
      | nothingHappened | timeout =>
        rw [Kernel.dequeue_of_blocking hn (by simp [hsy])]
        refine ⟨rd, oc, lead, fol, ?_, hR⟩
        simpa [h0, hsy, hB.executing] using hB.satisfy hcr
    · rw [Kernel.dequeue_of_none hn (Or.inl (hB.kept.synced hq))]
      exact ⟨rd, oc, lead, fol, by simpa using hB, hR⟩

/-! ## Ticks -/

omit [DecidableEq Q] [DecidableEq T] in
theorem Blocks.setTimers {timers}
    (hs : timers.state = K.timers.state) : Blocks e code (K.setTimers timers) p n rd oc lead fol := by
  have hA : Aside e K (K.setTimers timers) oc oc lead lead fol :=
    ⟨rfl, rfl, rfl, congrFun hs _, rfl, rfl, fun _ => rfl, Or.inl, id⟩
  refine hA.blocks hB ⟨hB.kept.standing.setTimers _, fun {u} hu => ?_, hB.kept.synced⟩
  change timers.state u = _ ∨ timers.state u = _ ∧ _
  rw [hs]
  exact hB.kept.armed hu

theorem Blocks.tickle_other {timers} (ht : t ≠ e.thread) (hact : K.timers.state t = .active)
    (hst : timers.state = update K.timers.state t .inactive) :
    ∃ rd' oc' lead' fol', Blocks e code ((K.setTimers timers).timeout t) p n rd' oc' lead' fol' := by
  have hX := notMem_transit ht p
  have hw : K.isWaiting t = true := by
    rcases hB.kept.armed hX with h | h
    · simp [h] at hact
    · exact h.2
  have hA : Aside e K (K.setTimers timers) oc oc lead lead fol :=
    ⟨rfl, rfl, rfl, by change timers.state _ = _; rw [hst, update_of_ne ht.symm], rfl, rfl,
      fun _ => rfl, Or.inl, id⟩
  have hB' : Blocks e code (K.setTimers timers) p n rd oc lead fol := by
    refine hA.blocks hB ⟨hB.kept.standing.setTimers _, fun {u} hu => ?_, hB.kept.synced⟩
    change timers.state u = _ ∨ timers.state u = _ ∧ _
    by_cases hut : u = t
    · exact Or.inl (by rw [hst, hut, update_self])
    · rw [hst, update_of_ne hut]
      exact hB.kept.armed hu
  obtain ⟨L', rd', oc', lead', fol', hM, hK', hT⟩ := hB'.kept.timeout hX hw
    (by change timers.state t = _; rw [hst, update_self])
    (Or.inr (by rw [hB'.executing]; exact ht))
  refine ⟨rd', oc', lead', fol', (hM.aside (e := e) hT ht rfl rfl ?_ rfl).blocks hB' hK'⟩
  simp [Kernel.setReturnCode, ht.symm]

omit hB in
theorem Blocks.tickle_done {timers} (hB : Blocks e code K .done n rd oc lead fol)
    (hact : K.timers.state e.thread = .active)
    (hst : timers.state = update K.timers.state e.thread .inactive) :
    ∃ rd' oc' lead' fol', Blocks e code ((K.setTimers timers).timeout e.thread) .done n rd' oc' lead' fol' := by
  have hin : timers.state e.thread = .inactive := by rw [hst, update_self]
  have hO : Onward e K (K.setTimers timers) := .timers fun u hu => by rw [hst, update_of_ne hu]
  have hK : Kept (K.setTimers timers) ∅ ∅ rd oc lead fol :=
    hO.kept hB.kept (hB.kept.standing.setTimers _) (by simp [transit]) (by simp [critical])
      (fun _ => Or.inl hin) fun _ => hB.kept.synced (by simp [critical])
  have hw : K.isWaiting e.thread = true := by
    rcases hB.kept.armed (t := e.thread) (by simp [transit]) with h | h
    · simp [h] at hact
    · exact h.2
  obtain ⟨L', rd', oc', lead', fol', hM, hK', hT⟩ := hK.timeout (t := e.thread) (by simp) hw hin
    (Or.inl (hK.synced (by simp)))
  refine ⟨rd', oc', lead', fol', hB.taken hM.mem_self hT rfl ?_ hK' fun h0 _ => Or.inr ⟨h0, ?_⟩⟩
  · simp [Kernel.setReturnCode, Kernel.setTimers]
  · have hq : ((K.setTimers timers).wait e.thread).queue = e.queue := hB.queue
    rw [hT.wait, hT.queue, hq]
    simp [Kernel.setReturnCode]

theorem Blocks.tickle_removed {timers} (hrem : K.timers.state t = .removeIt)
    (hst : timers.state = update K.timers.state t .inactive) :
    Blocks e code (K.setTimers timers) p n rd oc lead fol := by
  have ht : t = e.thread := by
    by_contra ht
    rcases hB.kept.armed (notMem_transit ht p) with h | h <;> simp [hrem] at h
  subst ht
  have hO : Onward e K (K.setTimers timers) := .timers fun u hu => by rw [hst, update_of_ne hu]
  have hin : timers.state e.thread = .inactive := by rw [hst, update_self]
  have hP := hB.point
  have hp : p = .releasing .remove := by
    cases p with
    | releasing rp =>
      cases rp with
      | remove => rfl
      | unblock | flash | done => simp_all [AtPoint]
    | entry | stateFlash | blocked | initialized => simp_all [AtPoint, Unarmed]
    | inserting ip => simp_all [AtPoint]
    | linking | restart p | search p sp node =>
      simp only [AtPoint, Looks, Armed] at hP
      split at hP <;> simp_all
    | done =>
      simp only [AtPoint] at hP
      split at hP <;> simp_all
  subst hp
  have hK : Kept K {e.thread} ∅ rd oc lead fol := hB.kept
  exact ⟨hO.kept hK (hK.standing.setTimers _) (by simp) (by simp) (fun h => absurd rfl h)
    fun _ => hK.synced (by simp), hB.executing, hB.queue, hB.ledger, hP.1, Or.inr hin⟩

theorem Blocks.tickleRound (hs : K.timers.state t = .active ∨ K.timers.state t = .removeIt)
    (hst : (Watchdog.remove K.timers t).1.state = update K.timers.state t .inactive) :
    ∃ rd' oc' lead' fol', Blocks e code
      (Watchdog.tickleRound Kernel.host (fun t K => K.timeout t) K t) p n rd' oc' lead' fol' := by
  have hprev : (Watchdog.remove K.timers t).2 = K.timers.state t := Watchdog.remove_snd
  rcases hs with hact | hrem
  · have he : Watchdog.tickleRound Kernel.host (fun t K => K.timeout t) K t =
        (K.setTimers (Watchdog.remove K.timers t).1).timeout t := if_pos (hprev.trans hact)
    rw [he]
    by_cases ht : t = e.thread
    · subst ht
      rcases critical_cases e p with hc | ⟨hc, -⟩
      · have hp : p = .done := by
          have hP := hB.point
          cases p with
          | done => rfl
          | releasing rp => cases rp <;> simp_all [AtPoint]
          | entry | stateFlash | blocked | initialized | inserting | linking | restart | search =>
            exact absurd hc (Set.singleton_ne_empty _)
        subst hp
        exact hB.tickle_done hact hst
      · exact ⟨rd, oc, lead, fol, hB.expire hc hact hst⟩
    · exact hB.tickle_other ht hact hst
  · have hne : (Watchdog.remove K.timers t).2 ≠ .active := by simp [hprev, hrem]
    have he : Watchdog.tickleRound Kernel.host (fun t K => K.timeout t) K t =
        K.setTimers (Watchdog.remove K.timers t).1 := if_neg hne
    rw [he]
    exact ⟨rd, oc, lead, fol, hB.tickle_removed hrem hst⟩

theorem Blocks.tick {fuel} (hR : Runs K.timers (.body l :: fs)) (hf : ∀ f ∈ fs, f.ticks ≠ some ())
    (he : K.tick fuel = some K') :
    ∃ rd' oc' lead' fol', Blocks e code K' p n rd' oc' lead' fol' ∧ Runs K'.timers (.body l :: fs) := by
  have hT : Ticks Kernel.host (fun t K => K.timeout t)
      fun K => ∃ rd oc lead fol, Blocks e code K p n rd oc lead fol := by
    refine ⟨fun _ _ => rfl, ?_, fun h => Kernel.timers_timeout h, ?_⟩
    · rintro K timers ⟨rd, oc, lead, fol, hB⟩ hs -
      exact ⟨rd, oc, lead, fol, hB.setTimers hs⟩
    · rintro K t ⟨rd, oc, lead, fol, hB⟩ hs hst -
      exact hB.tickleRound hs hst
  obtain ⟨⟨rd', oc', lead', fol', hB'⟩, hR'⟩ := hT.tickle ⟨rd, oc, lead, fol, hB⟩ hR hf he
  exact ⟨rd', oc', lead', fol', hB', hR'⟩

end

end Rtems.ThreadQueue
