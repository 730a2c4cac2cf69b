import Rtems.Mpci.Model
import Rtems.ThreadQueue.Directives

/-! # A request that is interrupted -/

namespace Rtems

namespace States

variable {s m : States}

theorem set_ready : States.set ready s = s := by
  exact BitVec.or_zero

theorem set_ne_ready (h : s ≠ ready) : States.set m s ≠ ready := by
  intro hz
  exact h (BitVec.or_eq_zero_iff.mp hz).1

theorem clear_set_eq_ready {b} (hs : States.clear b s = ready) (hm : States.clear b m = ready) :
    States.clear b (States.set m s) = ready := by
  unfold States.clear States.set ready at *
  rw [BitVec.and_comm, BitVec.and_or_distrib_left, BitVec.and_comm _ s, BitVec.and_comm _ m, hs, hm]
  rfl

end States

namespace Mpci

open Intrusive Thread ThreadQueue Transition
open Watchdog (Runs)

variable {Q T : Type*} [DecidableEq Q] [DecidableEq T] {c : Call Q T} {e : Enqueue Q T} {l fuel : Nat}
  {K K' : Kernel Q T} {S S' : Sending Q T} {m : SendMove} {o : Option T}

def Consistent (e : Enqueue Q T) (K : Kernel Q T) : Prop :=
  (K.sched.control e.thread).currentState = States.ready ∧
      (∃ l, Holds K.sched.links (.ready (K.sched.control e.thread).currentPriority) l ∧ e.thread ∈ l) ∨
    (K.sched.control e.thread).currentState ≠ States.ready ∧
      (∀ p l, Holds K.sched.links (.ready p) l → e.thread ∉ l) ∧ ∃ l, K.Serves e.queue l ∧ e.thread ∈ l

/-! ## The kernel at rest while the call stands still -/

structure AtRest (e : Enqueue Q T) (l : Nat) (K : Kernel Q T) : Prop where
  kept : ∃ rd oc lead fol, Kept K ∅ ∅ rd oc lead fol
  timed : Runs K.timers [.body l]
  executing : K.sched.executing = e.thread

omit [DecidableEq Q] in
theorem AtRest.consistent (h : AtRest e l K) (hq : (K.wait e.thread).queue = e.queue)
    (hs : (K.sched.control e.thread).currentState = States.ready ∨ K.isWaiting e.thread = true) :
    Consistent e K := by
  obtain ⟨rd, oc, lead, fol, hK⟩ := h.kept
  have hC := hK.standing.chained
  have hrd (p : Priority) : Holds K.sched.links (.ready p) (rd p) :=
    hC.on.holds (show chains rd oc (.ready p) = _ from rfl)
  by_cases hr : (K.sched.control e.thread).currentState = States.ready
  · exact Or.inl ⟨hr, _, hrd _, hC.mem_iff.mpr ⟨hr, rfl⟩⟩
  · refine Or.inr ⟨hr, fun p l hl ht => ?_, _, hK.standing.serves e.queue, ?_⟩
    · rw [hl.unique (hrd p)] at ht
      exact hr (hC.mem_iff.mp ht).1
    · rw [← hq]
      exact (hK.standing.waiting (hs.resolve_left hr)).resolve_left (Set.notMem_empty _)

structure Ticked (e : Enqueue Q T) (K K' : Kernel Q T) : Prop where
  executing : K'.sched.executing = K.sched.executing
  queue : K'.queue = K.queue
  waitQueue : (K'.wait e.thread).queue = (K.wait e.thread).queue
  state : (K'.sched.control e.thread).currentState = (K.sched.control e.thread).currentState ∨
    K.isWaiting e.thread = true ∧ (K'.sched.control e.thread).currentState =
      States.clear States.blocked (K.sched.control e.thread).currentState

omit [DecidableEq Q] in
theorem Ticked.expired {K1 rd oc lead lead'} {fol fol' q t} (h : Ticked e K K1)
    (hK : Kept K1 ∅ ∅ rd oc lead fol) (hE : Expired K1 K' q t lead lead' fol fol') : Ticked e K K' := by
  have hT := hE.took
  have hw : (K'.wait e.thread).queue = (K1.wait e.thread).queue := by
    rw [hT.wait]
    by_cases ht : e.thread = t <;> simp [Kernel.setReturnCode, ht]
  refine ⟨hT.executing.trans h.executing, hT.queue.trans h.queue, hw.trans h.waitQueue, ?_⟩
  by_cases ht : e.thread = t
  · subst ht
    have hwt := hK.standing.isWaiting hE.departs.waits
    have hs : (K'.sched.control e.thread).currentState =
        States.clear States.blocked (K1.sched.control e.thread).currentState := hT.currentState
    rcases h.state with hk | ⟨-, hk⟩
    · rw [Kernel.isWaiting, hk] at hwt
      rw [hs, hk]
      exact Or.inr ⟨hwt, rfl⟩
    · rw [Kernel.isWaiting, hk, States.isWaiting_clear_blocked] at hwt
      cases hwt
  · rw [hT.control_ne ht]
    exact h.state

theorem AtRest.tick (h : AtRest e l K) (he : K.interrupt (.tick fuel) = some (K', o)) :
    AtRest e l K' ∧ Ticked e K K' := by
  obtain ⟨rd, oc, lead, fol, hK⟩ := h.kept
  obtain ⟨rd', oc', lead', fol', hK', hR', hI⟩ := hK.interruptTick (I := fun K' _ _ => Ticked e K K')
    (fun _ h => ⟨h.executing, h.queue, h.waitQueue, h.state⟩) (fun h hK hE => h.expired hK hE) h.timed
    ⟨rfl, rfl, rfl, Or.inl rfl⟩ he
  exact ⟨⟨⟨rd', oc', lead', fol', hK'⟩, hR', hI.executing.trans h.executing⟩, hI⟩

theorem AtRest.tick_ready (h : AtRest e l K) (he : K.interrupt (.tick fuel) = some (K', o))
    (hr : Ready e K) : Ready e K' := by
  rcases (h.tick he).2.state with hs | ⟨hw, -⟩
  · exact hs.trans hr
  · rw [Kernel.isWaiting, hr] at hw
    exact absurd hw (by decide)

/-! ## The steps of the call -/

def Sending.At (c : Call Q T) (l : Nat) (K : Kernel Q T) : SendPoint Q T → Prop
  | .entry => AtRest c.enqueue l K ∧ Ready c.enqueue K
  | .noted => AtRest c.enqueue l K ∧ Ready c.enqueue K ∧ (K.wait c.enqueue.thread).queue = c.enqueue.queue
  | .enqueuing p => ∃ code n rd oc lead fol, Blocks c.enqueue code K p n rd oc lead fol ∧
      Timed c.enqueue K.timers l p
  | .loaded state => AtRest c.enqueue l K ∧ (K.wait c.enqueue.thread).queue = c.enqueue.queue ∧
      (K.sched.control c.enqueue.thread).currentState = state ∧
      (state = States.ready ∧ c.extraState = States.ready ∨ state = (K.queue c.enqueue.queue).state)
  | .merged => AtRest c.enqueue l K ∧ (K.wait c.enqueue.thread).queue = c.enqueue.queue ∧
      (Ready c.enqueue K ∨ (K.sched.control c.enqueue.thread).currentState =
        States.set c.extraState (K.queue c.enqueue.queue).state)

def SendPoint.Safe (c : Call Q T) : SendPoint Q T → Prop
  | .loaded _ => False
  | .merged => States.clear States.blocked c.extraState = States.ready
  | _ => True

/-- `extra_state` is merged only while the thread waits, and cleared at its end. -/
def Sending.Calm (c : Call Q T) (S : Sending Q T) : SendMove → Prop
  | .go => S.point = .enqueuing .done →
      c.extraState = States.ready ∨ (S.kernel.sched.control c.enqueue.thread).currentState ≠ States.ready
  | .tick fuel => S.point.Safe c ∨ ∀ r ∈ S.kernel.interrupt (.tick fuel),
      (r.1.sched.control c.enqueue.thread).currentState =
        (S.kernel.sched.control c.enqueue.thread).currentState

omit [DecidableEq Q] in
theorem AtRest.note (h : AtRest e l K) (hr : Ready e K) :
    AtRest e l (K.setWaitQueue e.thread e.queue) := by
  obtain ⟨rd, oc, lead, fol, hK⟩ := h.kept
  have hw : K.isWaiting e.thread = false := by
    rw [Kernel.isWaiting, hr]
    decide
  have hS := ((hK.standing.enter hw).setWaitQueue (Set.mem_insert _ _) e.queue).leave (t := e.thread) hw
  rw [insert_empty_eq, Set.sdiff_self] at hS
  exact ⟨⟨rd, oc, lead, fol, hS, hK.armed, hK.synced⟩, h.timed, h.executing⟩

theorem AtRest.enterCriticalSection (h : AtRest e l K) (hr : Ready e K)
    (hq : (K.wait e.thread).queue = e.queue) :
    ∃ code rd oc lead fol, Blocks e code (K.enterCriticalSection e.queue) .entry 0 rd oc lead fol := by
  obtain ⟨rd, oc, lead, fol, hK⟩ := h.kept
  have hx := h.executing
  have hself : K.setWaitQueue e.thread e.queue = K := by
    unfold Kernel.setWaitQueue
    rw [← hq, Function.update_eq_self]
  have hB := hK.prepare (hx ▸ hr) e.queue e.timeout
  unfold Kernel.prepare at hB
  rw [hx, hself] at hB
  exact ⟨_, rd, oc, lead, fol, hB⟩

omit [DecidableEq Q] in
theorem merge_kept {rd oc lead fol} {t} (hK : Kept K ∅ ∅ rd oc lead fol)
    (hw : K.isWaiting t = true) (extraState : States) :
    Kept (merge K t extraState (K.sched.control t).currentState) ∅ ∅ rd oc lead fol := by
  have hn : (K.sched.control t).currentState ≠ States.ready := by
    intro hr
    rw [Kernel.isWaiting, hr] at hw
    exact absurd hw (by decide)
  have hC := hK.standing.chained.setCurrentState hn (States.set_ne_ready (m := extraState) hn)
  have hst (u : T) : u = t ∨ (K.sched.setCurrentState t
      (States.set extraState (K.sched.control t).currentState)).control u = K.sched.control u :=
    (eq_or_ne u t).imp id Scheduler.control_setCurrentState_ne
  have hw' (u : T) : (merge K t extraState (K.sched.control t).currentState).isWaiting u = true ↔
      K.isWaiting u = true := by
    rcases hst u with rfl | hu
    · refine iff_of_true ?_ hw
      rw [Kernel.isWaiting, merge, Scheduler.control_setCurrentState_self]
      have hq := (hK.standing.waiting hw).resolve_left (Set.notMem_empty _)
      exact (hK.standing.queued hq).2.2.set_of extraState |>.of_subset (K.queue _).waits
    · rw [Kernel.isWaiting, merge, hu]
      rfl
  refine ⟨hK.standing.withSched hC (fun {q u} hu => ?_) fun _ => (hw' _).mp,
    fun {u} hu => (hK.armed hu).imp id fun h => ⟨h.1, (hw' u).mpr h.2⟩, hK.synced⟩
  rcases hst u with rfl | hne
  · rw [Scheduler.control_setCurrentState_self]
    exact (hK.standing.queued hu).2.2.set_of extraState
  · rw [hne]
    exact (hK.standing.queued hu).2.2

omit [DecidableEq Q] [DecidableEq T] in
theorem isWaiting_of_state (h : (K.sched.control e.thread).currentState = (K.queue e.queue).state) :
    K.isWaiting e.thread = true := by
  rw [Kernel.isWaiting, h]
  exact (K.queue e.queue).waits

section

variable (h : Sending.At c l S.kernel S.point)

include h

theorem Sending.At.go (hu : c.enqueue.timeout < 2 ^ 32)
    (hc : S.Calm c .go) : Sending.At c l (Sending.go c S.kernel S.point).kernel
      (Sending.go c S.kernel S.point).point := by
  obtain ⟨K, p⟩ := S
  cases p with
  | entry =>
    refine ⟨h.1.note h.2, h.2, ?_⟩
    simp [Sending.go, Kernel.setWaitQueue]
  | noted =>
    obtain ⟨code, rd, oc, lead, fol, hB⟩ := h.1.enterCriticalSection h.2.1 h.2.2
    exact ⟨code, 0, rd, oc, lead, fol, hB, h.1.timed⟩
  | enqueuing p =>
    obtain ⟨code, n, rd, oc, lead, fol, hB, hT⟩ := h
    by_cases hp : p = .done
    · subst hp
      refine ⟨⟨⟨rd, oc, lead, fol, hB.kept⟩, hT, hB.executing⟩, hB.queue, rfl, ?_⟩
      rcases hB.point with ⟨hw, -⟩ | ⟨hr, -⟩
      · exact Or.inr hw
      · exact Or.inl ⟨hr, (hc rfl).resolve_right (not_not_intro hr)⟩
    · simp only [Sending.go, hp, if_false]
      obtain ⟨rd', oc', lead', fol', hB', hT', -⟩ := hB.go hT hu hp
      exact ⟨code, n, rd', oc', lead', fol', hB', hT'⟩
  | loaded state =>
    simp only [Sending.At] at h
    obtain ⟨hR, hq, rfl, ⟨hr, hx⟩ | hw⟩ := h
    · -- nothing is merged into the state of a thread that is ready
      have hself : Mpci.merge K c.enqueue.thread c.extraState
          (K.sched.control c.enqueue.thread).currentState = K := by
        rw [Mpci.merge, hx, States.set_ready, Scheduler.setCurrentState_self]
      simp only [Sending.go, hself]
      exact ⟨hR, hq, Or.inl hr⟩
    · obtain ⟨rd, oc, lead, fol, hK⟩ := hR.kept
      refine ⟨⟨⟨rd, oc, lead, fol, merge_kept hK (isWaiting_of_state hw) _⟩, hR.timed, hR.executing⟩, hq,
        Or.inr ?_⟩
      simp only [Sending.go, Mpci.merge, Scheduler.control_setCurrentState_self]
      rw [hw]
  | merged => exact h

theorem Sending.At.tick (hc : S.Calm c (.tick fuel))
    (he : S.kernel.interrupt (.tick fuel) = some (K', o)) : Sending.At c l K' S.point := by
  obtain ⟨K, p⟩ := S
  cases p with
  | entry => exact ⟨(h.1.tick he).1, h.1.tick_ready he h.2⟩
  | noted => exact ⟨(h.1.tick he).1, h.1.tick_ready he h.2.1, (h.1.tick he).2.waitQueue.trans h.2.2⟩
  | enqueuing p =>
    obtain ⟨code, n, rd, oc, lead, fol, hB, hT⟩ := h
    obtain ⟨rd', oc', lead', fol', hB', hT'⟩ := Kernel.interrupt_blocks hB hT he
    exact ⟨code, _, rd', oc', lead', fol', hB', hT'⟩
  | loaded state =>
    obtain ⟨hR, hq, hs, hv⟩ := h
    obtain ⟨hR', hT⟩ := hR.tick he
    have hk := hc.resolve_left id (K', o) he
    refine ⟨hR', hT.waitQueue.trans hq, hk.trans hs, ?_⟩
    rw [hT.queue]
    exact hv
  | merged =>
    obtain ⟨hR, hq, hs⟩ := h
    obtain ⟨hR', hT⟩ := hR.tick he
    refine ⟨hR', hT.waitQueue.trans hq, ?_⟩
    rcases hs with hr | hw
    · exact Or.inl (hR.tick_ready he hr)
    rw [hT.queue]
    rcases hT.state with hk | ⟨-, hk⟩
    · exact Or.inr (hk.trans hw)
    rcases hc with hx | hx
    · left
      unfold Ready
      rw [hk, hw]
      exact States.clear_set_eq_ready (K.queue _).blocks hx
    · exact Or.inr ((hx (K', o) he).trans hw)

theorem Sending.At.perform (hu : c.enqueue.timeout < 2 ^ 32)
    (hc : S.Calm c m) (he : S.perform c m = some S') : Sending.At c l S'.kernel S'.point := by
  cases m with
  | go =>
    cases he
    exact h.go hu hc
  | tick fuel =>
    obtain ⟨⟨K', o⟩, hi, rfl⟩ := Option.map_eq_some_iff.mp he
    exact h.tick hc hi

/-! ## The end of the call -/

def Sending.Ends (c : Call Q T) (S : Sending Q T) : Prop :=
  ∃ k S', run (Sending.perform c) (List.replicate k .go) S = some S' ∧ S'.point = .merged

omit h in
theorem Sending.Ends.of_go (h : Sending.Ends c (Sending.go c S.kernel S.point)) : Sending.Ends c S := by
  obtain ⟨k, S', hr, hp⟩ := h
  exact ⟨k + 1, S', hr, hp⟩

omit h in
theorem Sending.ends_done : Sending.Ends c ⟨K, .enqueuing .done⟩ :=
  ⟨2, _, rfl, rfl⟩

omit h in
theorem Sending.ends_enqueuing {p}
    (h : Kernel.enqueueFrom c.enqueue fuel K p = some K') : Sending.Ends c ⟨K, .enqueuing p⟩ := by
  induction fuel generalizing K p with
  | zero => cases h
  | succ fuel ih =>
    by_cases hp : p = .done
    · subst hp
      exact Sending.ends_done
    refine .of_go ?_
    simp only [Sending.go, hp, if_false]
    by_cases hd : (K.enqueueStep c.enqueue p).2 = .done
    · rw [hd]
      exact Sending.ends_done
    · rw [Kernel.enqueueFrom_step rfl hd] at h
      exact ih h

theorem Sending.At.ends (hu : c.enqueue.timeout < 2 ^ 32) :
    Sending.Ends c S := by
  have henq {K : Kernel Q T} {p : EnqueuePoint Q T} (h : Sending.At c l K (.enqueuing p)) :
      Sending.Ends c ⟨K, .enqueuing p⟩ := by
    obtain ⟨code, n, rd, oc, lead, fol, hB, hT⟩ := h
    rcases hB.ends hT hu with hd | ⟨fuel, K', hf⟩
    · rw [show p = .done from hd]
      exact Sending.ends_done
    · exact Sending.ends_enqueuing hf
  have hnoted {K : Kernel Q T} (h : Sending.At c l K .noted) : Sending.Ends c ⟨K, .noted⟩ :=
    .of_go (henq (Sending.At.go (S := ⟨K, .noted⟩) h hu (by simp [Sending.Calm])))
  obtain ⟨K, p⟩ := S
  cases p with
  | entry => exact .of_go (hnoted (Sending.At.go (S := ⟨K, .entry⟩) h hu (by simp [Sending.Calm])))
  | noted => exact hnoted h
  | enqueuing p => exact henq h
  | loaded state => exact ⟨1, _, rfl, rfl⟩
  | merged => exact ⟨0, _, rfl, rfl⟩

end

/-- In calm runs the call ends, and the state agrees with the chain. -/
theorem sent_request_consistent {N : Node Q T} {p : Packet} {extraState : States} (hK : K.Resting)
    (hr : (K.sched.control K.sched.executing).currentState = States.ready) (hu : p.interval N < 2 ^ 32)
    (h : Steps (Sending.perform ⟨⟨K.sched.executing, N.remote, p.interval N⟩, extraState⟩)
      (Sending.Calm ⟨⟨K.sched.executing, N.remote, p.interval N⟩, extraState⟩) (Sending.start K) S) :
    Sending.Ends ⟨⟨K.sched.executing, N.remote, p.interval N⟩, extraState⟩ S ∧
      (S.point = .merged → Consistent ⟨K.sched.executing, N.remote, p.interval N⟩ S.kernel) := by
  obtain ⟨rd, oc, lead, fol, l, hK, hR⟩ := hK
  have hA : Sending.At ⟨⟨K.sched.executing, N.remote, p.interval N⟩, extraState⟩ l S.kernel S.point := by
    refine h.invariant (I := fun S => Sending.At _ l S.kernel S.point) (fun hA hc he => hA.perform hu hc he) ?_
    exact ⟨⟨⟨rd, oc, lead, fol, hK⟩, hR, rfl⟩, hr⟩
  refine ⟨hA.ends hu, fun hm => ?_⟩
  rw [hm] at hA
  obtain ⟨hR, hq, hs⟩ := hA
  refine hR.consistent hq (hs.imp id fun hs => ?_)
  rw [Kernel.isWaiting, hs]
  exact ((States.Includes.refl _).set_of extraState).of_subset (S.kernel.queue N.remote).waits

instance (c : Call Q T) (p : SendPoint Q T) : Decidable (p.Safe c) := by
  cases p <;> unfold SendPoint.Safe <;> infer_instance

instance (c : Call Q T) (S : Sending Q T) (m : SendMove) : Decidable (S.Calm c m) := by
  cases m <;> unfold Sending.Calm <;> infer_instance

def oneNode : Node Unit Unit := ⟨(), 5, fun _ => 1, fun id => if id = 1 then some () else none, fun _ => rfl⟩

def oneCaller : Kernel Unit Unit :=
  Kernel.boot (fun _ => remoteBlockedThreads) (fun _ => .of 5) () () true [()]

theorem oneCaller_resting : oneCaller.Resting :=
  (Kernel.boot_idle (fun _ => rfl) (fun _ => .of 5) () () true [()]).1

def onePacket : Packet := ⟨2, 0, .of 0, 0, 32, 1⟩

theorem sent_request_consistent_oneCaller :
    ∃ S, run (checked (Sending.perform ⟨⟨(), (), 1⟩, States.waitingForSemaphore⟩)
        (Sending.Calm ⟨⟨(), (), 1⟩, States.waitingForSemaphore⟩)) (List.replicate 13 .go ++ [.tick 9])
        (Sending.start oneCaller) = some S ∧ S.point = .merged ∧
      (S.kernel.sched.control ()).currentState = States.ready ∧ Consistent ⟨(), (), 1⟩ S.kernel := by
  refine exists_of_map (fun S => (S.point, (S.kernel.sched.control ()).currentState)) (.merged, States.ready)
    (by decide +kernel) fun S hS he => ?_
  obtain ⟨hm, hs⟩ := Prod.mk.inj he
  exact ⟨hm, hs, (sent_request_consistent (N := oneNode) (p := onePacket) oneCaller_resting
    (by decide) (by decide) (.run_checked .refl hS)).2 hm⟩

def Sending.outcome (S : Sending Unit Unit) : Option (States × Bool × Bool) :=
  if S.point = .merged then
    some ((S.kernel.sched.control ()).currentState,
      Chain.first S.kernel.sched.links (.ready (.of 5)) = .obj (), S.kernel.first () = some ())
  else none

/-- The wait ends before, during and after the merging. -/
theorem sent_request_inconsistent :
    (run (Sending.perform ⟨⟨(), (), 1⟩, States.waitingForSemaphore⟩)
      (List.replicate 11 .go ++ .tick 9 :: List.replicate 2 .go) (Sending.start oneCaller)).bind
        Sending.outcome = some (States.waitingForSemaphore, true, false) ∧
    (run (Sending.perform ⟨⟨(), (), 1⟩, States.ready⟩)
      (List.replicate 12 .go ++ [.tick 9, .go]) (Sending.start oneCaller)).bind
        Sending.outcome = some (States.waitingForRpcReply, true, false) ∧
    (run (Sending.perform ⟨⟨(), (), 1⟩, States.suspended⟩)
      (List.replicate 13 .go ++ [.tick 9]) (Sending.start oneCaller)).bind
        Sending.outcome = some (States.suspended, false, false) := by
  decide +kernel

end Mpci

end Rtems
