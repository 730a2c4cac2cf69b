import Rtems.ThreadQueue.Blocking

/-! # Directives that are not interrupted -/

namespace Rtems

namespace States

variable {s m : States}

def Steady (s : States) : Prop := States.clear transient s = s

theorem clear_comm : States.clear m (States.clear transient s) = States.clear transient (States.clear m s) := by
  unfold States.clear
  rw [BitVec.and_assoc, BitVec.and_comm (~~~transient), ← BitVec.and_assoc]

theorem Steady.clear (h : Steady s) (m : States) : Steady (States.clear m s) := by
  unfold Steady at *
  rw [← clear_comm, h]

theorem Steady.set (hm : Steady m) (hs : Steady s) : Steady (States.set m s) := by
  unfold Steady States.clear States.set at *
  rw [BitVec.and_comm, BitVec.and_or_distrib_left, BitVec.and_comm _ s, BitVec.and_comm _ m, hs, hm]

theorem steady_ready : Steady ready := by unfold Steady; decide

theorem steady_dormant : Steady dormant := by unfold Steady; decide

theorem steady_of_blocks (h : States.clear blocked m = ready) : Steady m := by
  have hz : transient &&& m = 0 := and_of_clear h (by decide)
  exact clear_eq_self (by rw [BitVec.and_comm]; exact hz)

end States

namespace ThreadQueue

open Intrusive Thread
open Watchdog (Runs)

variable {Q T : Type*} [DecidableEq T]

/-! ## The kernel at rest -/

structure Rests (K : Kernel Q T) (lead : Q → Fin 4 → List T) (fol : T → List T) : Prop where
  kept : ∃ rd oc, Kept K ∅ ∅ rd oc lead fol
  timed : ∃ l, Runs K.timers [.body l]
  steady : ∀ t, States.Steady (K.sched.control t).currentState

variable {K K' : Kernel Q T} {lead lead' : Q → Fin 4 → List T} {fol fol' : T → List T} {q r : Q} {t u : T}

theorem Standing.control_changePriority [DecidableEq Q] {X rd oc} (hS : Standing K X rd oc lead fol)
    (ht : States.Steady (K.sched.control t).currentState) (p : Priority) (prependIt : Bool) :
    (K.sched.changePriority t p prependIt).control = (K.sched.modify t fun c => c.setPriority p).control := by
  unfold States.Steady at ht
  rw [Scheduler.control_changePriority (hS.chained.pointers t)]
  simp only [Scheduler.modify, ht]
  rfl

namespace Rests

section

variable (h : Rests K lead fol)

include h

theorem serves_iff {l} : K.Serves q l ↔ l = service (lead q) fol := by
  obtain ⟨rd, oc, hK⟩ := h.kept
  exact hK.standing.serves_iff

theorem queue_eq (ht : t ∈ service (lead q) fol) : (K.wait t).queue = q := by
  obtain ⟨rd, oc, hK⟩ := h.kept
  exact (hK.standing.queued ht).2.1

theorem nodup (q : Q) : (service (lead q) fol).Nodup := by
  obtain ⟨rd, oc, hK⟩ := h.kept
  exact Grouped.nodup_service hK.standing.on hK.standing.grouped q

theorem isWaiting_iff : K.isWaiting t = true ↔ t ∈ service (lead (K.wait t).queue) fol := by
  obtain ⟨rd, oc, hK⟩ := h.kept
  refine ⟨fun hw => ?_, fun ht => hK.standing.isWaiting ht⟩
  exact (hK.standing.waiting hw).resolve_left (Set.notMem_empty t)

theorem ready_absent (ht : (K.sched.control t).currentState = States.ready) (q : Q) :
    t ∉ service (lead q) fol := by
  obtain ⟨rd, oc, hK⟩ := h.kept
  exact hK.standing.ready_absent ht q

theorem ordered_congr {prio prio'} (hO : Ordered K.discipline prio lead fol)
    (hp : ∀ q, K.discipline q = .priority → ∀ u ∈ service (lead q) fol, prio' u = prio u) :
    Ordered K.discipline prio' lead fol := by
  obtain ⟨rd, oc, hK⟩ := h.kept
  have hp' : ∀ {q i u}, K.discipline q = .priority → u ∈ lead q i → prio' u = prio u :=
    fun hd hu => hp _ hd _ (mem_service.mpr ⟨_, _, hu, Or.inl rfl⟩)
  refine ⟨fun hd hu => ?_, fun hd => ?_, fun {u f} hf => ?_⟩
  · rw [hp' hd hu]
    exact hO.header hd hu
  · refine (hO.sorted hd).imp_of_mem fun {u v} hu hv huv => ?_
    rw [hp' hd hu, hp' hd hv]
    exact huv
  · obtain ⟨-, q, i, hd, hu⟩ := hK.standing.grouped.follower hf
    rw [hp' hd hu, hp q hd f (mem_service.mpr ⟨i, u, hu, Or.inr hf⟩)]
    exact hO.follower hf

end

theorem steady_of (h : ∀ u, States.Steady (K.sched.control u).currentState)
    (hs : States.Steady (K'.sched.control t).currentState)
    (hc : ∀ u ≠ t, (K'.sched.control u).currentState = (K.sched.control u).currentState) (u : T) :
    States.Steady (K'.sched.control u).currentState := by
  by_cases hu : u = t
  · rw [hu]
    exact hs
  · rw [hc u hu]
    exact h u

theorem took_steady (hT : Took K K' t) (h : ∀ u, States.Steady (K.sched.control u).currentState) (u : T) :
    States.Steady (K'.sched.control u).currentState :=
  steady_of h (hT.currentState ▸ (h t).clear _) (fun u hu => by rw [hT.control_ne hu]) u

theorem blocked_steady (hB : Blocked K K' q t) (h : ∀ u, States.Steady (K.sched.control u).currentState)
    (u : T) : States.Steady (K'.sched.control u).currentState := by
  refine steady_of (t := t) h ?_ (fun u hu => by rw [hB.control u hu]) u
  rw [hB.own]
  exact States.steady_of_blocks (K.queue q).blocks

variable [DecidableEq Q] (h : Rests K lead fol)

include h

theorem first_eq (q : Q) : K.first q = (service (lead q) fol).head? := by
  obtain ⟨rd, oc, hK⟩ := h.kept
  exact hK.standing.first_eq q

theorem dequeue_nil (hq : service (lead q) fol = []) : K.dequeue q = (K, none) := by
  obtain ⟨rd, oc, hK⟩ := h.kept
  refine Kernel.dequeue_of_none ?_ (Or.inl (hK.synced (Set.notMem_empty q)))
  rcases hK.standing.takeFirst q with ⟨t, k, L', oc', lead', fol', hs, -⟩ | ⟨-, hn⟩
  · rw [hq] at hs
    cases hs
  · exact hn

theorem dequeue {k} (hq : service (lead q) fol = t :: k) :
    ∃ K' lead' fol', K.dequeue q = (K', some t) ∧ Rests K' lead' fol' ∧
      Departs K.discipline lead lead' fol fol' q t ∧ Took K K' t := by
  obtain ⟨rd, oc, hK⟩ := h.kept
  obtain ⟨l, hR⟩ := h.timed
  obtain ⟨L', rd', oc', lead', fol', he, hM, hK', hT, hR'⟩ := hK.dequeue hR hq
  exact ⟨_, lead', fol', he, ⟨⟨rd', oc', hK'⟩, ⟨l, hR'⟩, took_steady hT h.steady⟩,
    hM.departs hK.standing.on hK.standing.grouped, hT⟩

theorem extract (ht : t ∈ service (lead q) fol) :
    ∃ lead' fol', Rests (K.extract q t) lead' fol' ∧ Departs K.discipline lead lead' fol fol' q t ∧
      Took K (K.extract q t) t := by
  obtain ⟨rd, oc, hK⟩ := h.kept
  obtain ⟨l, hR⟩ := h.timed
  have hS := hK.standing
  obtain ⟨oc', lead', fol', hM⟩ := unlink_left hS.on hS.grouped ht
  rw [Kernel.extract_of_waiting (hS.isWaiting ht)]
  have hs : K.timers.state t = .inactive ∨ K.timers.state t = .active :=
    (hK.armed (Set.notMem_empty t)).imp id And.left
  obtain ⟨hT, hR'⟩ := took_letGo (K := K.setLinks (unlink (K.discipline q) K.sched.links t)) hR hs
  obtain ⟨rd', hK', hT⟩ := hK.take hM hT
  exact ⟨lead', fol', ⟨⟨rd', oc', hK'⟩, ⟨l, hR'⟩, took_steady hT h.steady⟩, hM.departs hS.on hS.grouped, hT⟩

theorem block {timeout fuel} (hr : (K.sched.control K.sched.executing).currentState = States.ready)
    (hu : timeout < 2 ^ 32) (he : K.block q timeout fuel = some K') :
    ∃ lead' fol', Rests K' lead' fol' ∧ Blocked K K' q K.sched.executing ∧
      Arrives K.discipline K.priority lead lead' fol fol' q K.sched.executing := by
  obtain ⟨rd, oc, hK⟩ := h.kept
  obtain ⟨l, hR⟩ := h.timed
  obtain ⟨rd', oc', lead', fol', hK', hR', hB, rd0, L', oc0, hJ⟩ := hK.block hR hr hu he
  refine ⟨lead', fol', ⟨⟨rd', oc', hK'⟩, ⟨l, hR'⟩, blocked_steady hB h.steady⟩, hB, hJ.toArrives⟩

theorem block_total (hr : (K.sched.control K.sched.executing).currentState = States.ready) (q : Q)
    {timeout} (hu : timeout < 2 ^ 32) : ∃ fuel K', K.block q timeout fuel = some K' := by
  obtain ⟨rd, oc, hK⟩ := h.kept
  obtain ⟨l, hR⟩ := h.timed
  exact hK.block_total hR hr q hu

omit [DecidableEq Q] in
theorem switch (t : T) : Rests { K with sched := { K.sched with executing := t } } lead fol := by
  obtain ⟨rd, oc, hK⟩ := h.kept
  exact ⟨⟨rd, oc, hK.switch t⟩, h.timed, h.steady⟩

omit [DecidableEq Q] in
theorem setReturnCode (t : T) (code : Nat) : Rests (K.setReturnCode t code) lead fol := by
  obtain ⟨rd, oc, hK⟩ := h.kept
  exact ⟨⟨rd, oc, hK.setReturnCode t code⟩, h.timed, h.steady⟩

theorem control_changePriority (t : T) (p : Priority) (prependIt : Bool) :
    (K.sched.changePriority t p prependIt).control = (K.sched.modify t fun c => c.setPriority p).control := by
  obtain ⟨rd, oc, hK⟩ := h.kept
  exact hK.standing.control_changePriority (h.steady t) p prependIt

theorem changePriority (t : T) (p : Priority) (prependIt : Bool) :
    Rests { K with sched := K.sched.changePriority t p prependIt } lead fol := by
  obtain ⟨rd, oc, hK⟩ := h.kept
  obtain ⟨rd', hK'⟩ := hK.changePriority (h.steady t) p prependIt
  refine ⟨⟨rd', oc, hK'⟩, h.timed, fun u => ?_⟩
  have hu : ((K.sched.changePriority t p prependIt).control u).currentState =
      (K.sched.control u).currentState := by
    rw [h.control_changePriority]
    exact Scheduler.field_modify Thread.Control.currentState rfl u
  rw [hu]
  exact h.steady u

theorem priority_changePriority (t : T) (p : Priority) (prependIt : Bool) :
    Kernel.priority { K with sched := K.sched.changePriority t p prependIt } =
      Function.update K.priority t p := by
  funext u
  unfold Kernel.priority
  rw [h.control_changePriority]
  by_cases hu : u = t
  · subst hu
    simp [Scheduler.modify, Control.setPriority]
  · simp [Scheduler.modify, hu]

end Rests

/-! ### No thread waits -/

def Kernel.Idle (K : Kernel Q T) : Prop :=
  K.Resting ∧ ∀ t, K.isWaiting t = false ∧ States.Steady (K.sched.control t).currentState

theorem Kernel.Idle.rests (h : K.Idle) : ∃ lead fol, Rests K lead fol ∧
    (∀ q, service (lead q) fol = []) ∧ ∀ {disc prio}, Ordered disc prio lead fol := by
  obtain ⟨⟨rd, oc, lead, fol, l, hK, hR⟩, hw⟩ := h
  have hs : ∀ q t, t ∉ service (lead q) fol := fun q t => hK.standing.absent_of_not_waiting (hw t).1 q
  have hl : ∀ {q i u}, u ∉ lead q i :=
    fun hu => hs _ _ (mem_service.mpr ⟨_, _, hu, Or.inl rfl⟩)
  refine ⟨lead, fol, ⟨⟨rd, oc, hK⟩, ⟨l, hR⟩, fun t => (hw t).2⟩,
    fun q => List.eq_nil_iff_forall_not_mem.mpr (hs q), fun {disc prio} => ?_⟩
  refine ⟨fun _ hu => absurd hu hl, fun {q i} _ => ?_, fun {u f} hf => ?_⟩
  · rw [List.eq_nil_iff_forall_not_mem.mpr fun u => hl (q := q) (i := i) (u := u)]
    exact .nil
  · obtain ⟨-, q, i, -, hu⟩ := hK.standing.grouped.follower hf
    exact absurd hu hl

def Kernel.boot [DecidableEq Q] (queue : Q → Control) (priority : T → Priority) (noted : Q) (executing : T)
    (unrollEnqueuePriority : Bool) (ts : List T) : Kernel Q T :=
  ts.foldl Kernel.start (Kernel.initial queue (fun t => newThread (priority t) true .none)
    (fun _ => ⟨noted, 0⟩) executing unrollEnqueuePriority)

theorem Kernel.Idle.start [DecidableEq Q] (h : K.Idle)
    (hs : ∀ u, (K.sched.control u).currentState = States.dormant ∨
      (K.sched.control u).currentState = States.ready) (t : T) :
    (K.start t).Idle ∧ ∀ u, ((K.start t).sched.control u).currentState = States.dormant ∨
      ((K.start t).sched.control u).currentState = States.ready := by
  rcases hs t with ht | ht
  · obtain ⟨⟨rd, oc, lead, fol, l, hK, hR⟩, hw⟩ := h
    obtain ⟨rd', hK'⟩ := hK.start ht
    have hr : ((K.start t).sched.control t).currentState = States.ready :=
      Scheduler.currentState_start (by rw [ht]; decide)
    have hu {u : T} (hu : u ≠ t) : (K.start t).sched.control u = K.sched.control u :=
      Scheduler.control_start_ne hu
    refine ⟨⟨⟨rd', oc, lead, fol, l, hK', hR⟩, fun u => ?_⟩, fun u => ?_⟩
    · by_cases hut : u = t
      · rw [hut, Kernel.isWaiting, hr]
        exact ⟨by decide, States.steady_ready⟩
      · rw [Kernel.isWaiting, hu hut]
        exact hw u
    · by_cases hut : u = t
      · rw [hut]
        exact Or.inr hr
      · rw [hu hut]
        exact hs u
  · have he : K.start t = K := by
      have hd : ¬ States.isDormant (K.sched.control t).currentState = true := by
        rw [ht]
        decide
      simp only [Kernel.start, Scheduler.start, if_neg hd]
    rw [he]
    exact ⟨h, hs⟩

theorem Kernel.boot_idle [DecidableEq Q] {queue}
    (hq : ∀ q, (queue q).syncState = .synchronized) (priority : T → Priority) (noted : Q) (executing : T)
    (unroll : Bool) (ts : List T) : (Kernel.boot queue priority noted executing unroll ts).Idle := by
  have hd : ∀ t, (newThread (priority t) true .none).currentState = States.dormant ∧
      (newThread (priority t) true .none).Placed := fun _ => ⟨rfl, rfl, rfl⟩
  have h0 := Kernel.initial_resting hq (fun _ => ⟨noted, 0⟩) executing unroll hd
  suffices h : ∀ (ts : List T) (K : Kernel Q T), K.Idle →
      (∀ u, (K.sched.control u).currentState = States.dormant ∨
        (K.sched.control u).currentState = States.ready) → (ts.foldl Kernel.start K).Idle by
    refine h ts _ ⟨h0, fun t => ⟨?_, States.steady_dormant⟩⟩ fun _ => Or.inl rfl
    change States.isWaitingOnThreadQueue States.dormant = false
    decide
  intro ts
  induction ts with
  | nil => exact fun _ h _ => h
  | cons t ts ih =>
    intro K h hs
    obtain ⟨h', hs'⟩ := h.start hs t
    exact ih _ h' hs'

theorem Kept.interruptTick [DecidableEq Q] {I : Kernel Q T → (Q → Fin 4 → List T) → (T → List T) → Prop}
    (hI : ∀ {K lead fol} timers, I K lead fol → I (K.setTimers timers) lead fol)
    (hE : ∀ {K K' rd oc lead fol q t lead' fol'}, I K lead fol → Kept K ∅ ∅ rd oc lead fol →
      Expired K K' q t lead lead' fol fol' → I K' lead' fol') {rd oc l fuel o}
    (hK : Kept K ∅ ∅ rd oc lead fol) (hR : Runs K.timers [.body l]) (h : I K lead fol)
    (he : K.interrupt (.tick fuel) = some (K', o)) :
    ∃ rd' oc' lead' fol', Kept K' ∅ ∅ rd' oc' lead' fol' ∧ Runs K'.timers [.body l] ∧ I K' lead' fol' := by
  obtain ⟨r, h1, he⟩ := Option.map_eq_some_iff.mp he
  cases he
  obtain ⟨K1, ht, rfl⟩ := Option.map_eq_some_iff.mp h1
  -- the tick runs one level higher
  have hK1 : Kept (K.setNest (K.timers.isrNestLevel + 1)) ∅ ∅ rd oc lead fol :=
    hK.setTimers fun _ => Or.inl rfl
  obtain ⟨rd', oc', lead', fol', hK', hR', h'⟩ := hK1.tick hI hE (Kernel.runs_raise hR)
    (by simp [Watchdog.Frame.ticks]) (hI _ h) ht
  exact ⟨rd', oc', lead', fol', hK'.setTimers fun _ => Or.inl rfl, Kernel.runs_return hR hR', hI _ h'⟩

theorem Rests.tick [DecidableEq Q] {I : Kernel Q T → (Q → Fin 4 → List T) → (T → List T) → Prop}
    (hI : ∀ {K lead fol} timers, I K lead fol → I (K.setTimers timers) lead fol)
    (hE : ∀ {K K' lead fol lead' fol' t}, I K lead fol →
      Departs K.discipline lead lead' fol fol' (K.wait t).queue t →
      Took (K.setReturnCode t (K.queue (K.wait t).queue).timeoutStatus) K' t → I K' lead' fol')
    {fuel o} (h : Rests K lead fol) (hK : I K lead fol) (he : K.interrupt (.tick fuel) = some (K', o)) :
    ∃ lead' fol', Rests K' lead' fol' ∧ I K' lead' fol' := by
  obtain ⟨rd, oc, hk⟩ := h.kept
  obtain ⟨l, hR⟩ := h.timed
  obtain ⟨rd', oc', lead', fol', hk', hR', hs, hK'⟩ := hk.interruptTick
    (I := fun K lead fol => (∀ u, States.Steady (K.sched.control u).currentState) ∧ I K lead fol)
    (fun timers h => ⟨h.1, hI timers h.2⟩)
    (fun {K K' rd oc lead fol q t lead' fol'} h hk hE' => by
      obtain ⟨rfl, hD, hT⟩ := hE'
      exact ⟨took_steady hT h.1, hE h.2 hD hT⟩)
    hR ⟨h.steady, hK⟩ he
  exact ⟨lead', fol', ⟨⟨rd', oc', hk'⟩, ⟨l, hR'⟩, hs⟩, hK'⟩

/-- The timer of the thread is active, and the next tick is its last. -/
def Kernel.Expires (K : Kernel Q T) (t : T) : Prop :=
  K.timers.state t = .active ∧
    ∃ l, Holds K.timers.links () l ∧ t ∈ l ∧ DeltaList.due K.timers.delta l t = 1

theorem Rests.waits_on [DecidableEq Q] {fuel o} (h : Rests K lead fol) (ht : ¬ K.Expires t)
    (hw : K.isWaiting t = true) (he : K.interrupt (.tick fuel) = some (K', o)) :
    K'.isWaiting t = true := by
  obtain ⟨r, h1, he⟩ := Option.map_eq_some_iff.mp he
  cases he
  obtain ⟨K1, hK1, rfl⟩ := Option.map_eq_some_iff.mp h1
  obtain ⟨rd, oc, hk⟩ := h.kept
  obtain ⟨l, hR⟩ := h.timed
  obtain ⟨clock, expiry, ch, hS⟩ := Kernel.runs_raise hR
  have hK1 : Watchdog.tickle Kernel.host (fun t K => K.timeout t) () fuel
      (K.setNest (K.timers.isrNestLevel + 1)) = some K1 := hK1
  change K1.isWaiting t = true
  refine Watchdog.tickle_spares (P := fun K => K.isWaiting t = true) (u := t) (fun _ _ => rfl)
    Kernel.timers_timeout (fun _ hw => hw) (fun hne hi hw => ?_) hS.good hS.due_lt
    (hS.fresh () (by simp [Watchdog.Frame.ticks])) (fun ht' hd => ht ⟨?_, ch (), ?_, ht', hd⟩) hw hK1
  · rwa [Kernel.isWaiting, Kernel.control_timeout_ne hi hne.symm]
  · -- a resting thread has an active timer or none
    refine ((hk.armed (Set.notMem_empty t)).resolve_left fun hi => ?_).1
    exact hS.good.notMem (Or.inl hi) () ht'
  · exact hS.good.on.holds rfl

end ThreadQueue

end Rtems
