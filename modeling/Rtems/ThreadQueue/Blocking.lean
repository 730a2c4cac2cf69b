import Rtems.Library.Transition
import Rtems.ThreadQueue.Handlers
import Rtems.ThreadQueue.Resting

/-!
# A thread blocks

A handler runs one nest level higher and is not itself interrupted.
-/

namespace Rtems.ThreadQueue


open Intrusive Thread
open Watchdog (Runs)

variable {Q T : Type*}

inductive Handler (Q : Type*)
  | dequeue (q : Q)
  /-- `_Watchdog_Tickle_ticks`; the fuel is for its loop. -/
  | tick (fuel : Nat)
  deriving DecidableEq, Repr

inductive Move (Q : Type*)
  | go
  | interrupt (handler : Handler Q)
  deriving DecidableEq, Repr

structure Blocking (Q T : Type*) where
  kernel : Kernel Q T
  point : EnqueuePoint Q T
  returned : Nat

namespace Kernel

def setNest (K : Kernel Q T) (level : Nat) : Kernel Q T :=
  K.setTimers { K.timers with isrNestLevel := level }

variable [DecidableEq Q] [DecidableEq T]

/-- A handler, with the thread that `_Thread_queue_Dequeue` returns. -/
def handle (K : Kernel Q T) : Handler Q → Option (Kernel Q T × Option T)
  | .dequeue q => some (K.dequeue q)
  | .tick fuel => (K.tick fuel).map fun K => (K, none)

def interrupt (K : Kernel Q T) (h : Handler Q) : Option (Kernel Q T × Option T) :=
  let level := K.timers.isrNestLevel
  ((K.setNest (level + 1)).handle h).map fun r => (r.1.setNest level, r.2)

end Kernel

namespace Blocking

variable [DecidableEq Q] [DecidableEq T]

/-- The thread enters the critical section and is enqueued. -/
def start (K : Kernel Q T) (q : Q) : Blocking Q T :=
  ⟨K.prepare q, .entry, 0⟩

def perform (e : Enqueue Q T) (B : Blocking Q T) : Move Q → Option (Blocking Q T)
  | .go =>
    let (K, p) := B.kernel.enqueueStep e B.point
    some ⟨K, p, B.returned⟩
  | .interrupt h =>
    (B.kernel.interrupt h).map fun r =>
      ⟨r.1, B.point, if r.2 = some e.thread then B.returned + 1 else B.returned⟩

end Blocking

/-! ## The invariant along a run -/

variable [DecidableEq Q] [DecidableEq T]

variable {e : Enqueue Q T} {code n l : Nat} {K K' : Kernel Q T} {p : EnqueuePoint Q T}
  {rd : Priority → List T} {oc : Members Q T} {lead : Q → Fin 4 → List T}
  {fol : T → List T} {B B' : Blocking Q T} {q : Q} {t : Option T}

def Blocking.Good (e : Enqueue Q T) (code l : Nat) (B : Blocking Q T) : Prop :=
  ∃ rd oc lead fol, Blocks e code B.kernel B.point B.returned rd oc lead fol ∧
    Timed e B.kernel.timers l B.point

omit [DecidableEq Q] in
theorem Timed.frames {timers} (hT : Timed e timers l p) :
    ∃ f fs, Runs timers (f :: fs) ∧ (∀ g ∈ f :: fs, g.ticks ≠ some ()) ∧
      ∀ {timers'}, Runs timers' (f :: fs) → Timed e timers' l p := by
  cases p with
  | inserting ip =>
    obtain ⟨c, hc, hct, hcp, hcr, hR⟩ := hT
    exact ⟨.insert c, [.body l], hR, by simp [Watchdog.Frame.ticks],
      fun hR' => ⟨c, hc, hct, hcp, hcr, hR'⟩⟩
  | entry | stateFlash | blocked | initialized | linking | restart | search | releasing | done =>
    exact ⟨.body l, [], hT, by simp [Watchdog.Frame.ticks], id⟩

theorem Kernel.handle_blocks {h fs}
    (hB : Blocks e code K p n rd oc lead fol) (hR : Runs K.timers (.body l :: fs))
    (hf : ∀ f ∈ fs, f.ticks ≠ some ()) (he : K.handle h = some (K', t)) :
    ∃ rd' oc' lead' fol', Blocks e code K' p (if t = some e.thread then n + 1 else n) rd' oc' lead' fol' ∧
      Runs K'.timers (.body l :: fs) := by
  cases h with
  | dequeue q =>
    obtain ⟨rd', oc', lead', fol', hB', hR'⟩ := hB.dequeue hR q
    rw [Kernel.handle, Option.some.injEq] at he
    rw [he] at hB' hR'
    refine ⟨rd', oc', lead', fol', ?_, hR'⟩
    split <;> rename_i ht <;> simpa [ht] using hB'
  | tick fuel =>
    obtain ⟨K1, h1, he⟩ := Option.map_eq_some_iff.mp he
    cases he
    obtain ⟨rd', oc', lead', fol', hB', hR'⟩ := hB.tick hR hf h1
    exact ⟨rd', oc', lead', fol', by simpa using hB', hR'⟩

section

variable {f : Watchdog.Frame Unit T} {fs : List (Watchdog.Frame Unit T)} (hR : Runs K.timers (f :: fs))

include hR

omit [DecidableEq Q] in
theorem Kernel.runs_raise :
    Runs (K.setNest (K.timers.isrNestLevel + 1)).timers (.body (f.level + 1) :: f :: fs) := by
  have h := hR.interrupt
  rw [← hR.nest] at h ⊢
  exact h

omit [DecidableEq Q] in
theorem Kernel.runs_return (hR' : Runs K'.timers (.body l :: f :: fs)) :
    Runs (K'.setNest K.timers.isrNestLevel).timers (f :: fs) := by
  have h := hR'.ret
  rw [← hR.nest] at h
  exact h

end

theorem Kernel.interrupt_blocks {h} (hB : Blocks e code K p n rd oc lead fol)
    (hT : Timed e K.timers l p) (he : K.interrupt h = some (K', t)) :
    ∃ rd' oc' lead' fol', Blocks e code K' p (if t = some e.thread then n + 1 else n) rd' oc' lead' fol' ∧
      Timed e K'.timers l p := by
  obtain ⟨f, fs, hR, hf, hT'⟩ := hT.frames
  obtain ⟨r, h1, he⟩ := Option.map_eq_some_iff.mp he
  cases he
  have hB1 : Blocks e code (K.setNest (K.timers.isrNestLevel + 1)) p n rd oc lead fol := hB.setTimers rfl
  obtain ⟨rd', oc', lead', fol', hB', hR'⟩ := handle_blocks hB1 (runs_raise hR) hf h1
  exact ⟨rd', oc', lead', fol', hB'.setTimers rfl, hT' (runs_return hR hR')⟩

theorem Blocking.Good.perform {m} (hG : B.Good e code l) (hu : e.timeout < 2 ^ 32)
    (he : B.perform e m = some B') : B'.Good e code l := by
  obtain ⟨rd, oc, lead, fol, hB, hT⟩ := hG
  cases m with
  | go =>
    cases he
    by_cases hp : B.point = .done
    · refine ⟨rd, oc, lead, fol, ?_⟩
      rw [hp] at hB hT ⊢
      exact ⟨hB, hT⟩
    · obtain ⟨rd', oc', lead', fol', hB', hT', -⟩ := hB.go hT hu hp
      exact ⟨rd', oc', lead', fol', hB', hT'⟩
  | interrupt h =>
    obtain ⟨r, hi, rfl⟩ := Option.map_eq_some_iff.mp he
    exact Kernel.interrupt_blocks hB hT hi

/-! ## How the call ends -/

inductive Outcome
  | queued
  | satisfied
  | timedOut
  deriving DecidableEq, Repr

def Outcome.Holds (e : Enqueue Q T) (code : Nat) (B : Blocking Q T) : Outcome → Prop
  | .queued =>
    (∃ l, B.kernel.Serves e.queue l ∧ e.thread ∈ l) ∧
    (B.kernel.sched.control e.thread).currentState = (B.kernel.queue e.queue).state ∧
    (B.kernel.timers.state e.thread = .active ↔ e.timeout ≠ 0)
  | .satisfied =>
    (B.kernel.sched.control e.thread).currentState = States.ready ∧
    (∀ q l, B.kernel.Serves q l → e.thread ∉ l) ∧
    (B.kernel.wait e.thread).returnCode = code ∧ B.returned = 1 ∧
    B.kernel.timers.state e.thread = .inactive
  | .timedOut =>
    (B.kernel.sched.control e.thread).currentState = States.ready ∧
    (∀ q l, B.kernel.Serves q l → e.thread ∉ l) ∧
    (B.kernel.wait e.thread).returnCode = (B.kernel.queue e.queue).timeoutStatus ∧ B.returned = 0 ∧
    B.kernel.timers.state e.thread = .inactive

omit [DecidableEq Q] [DecidableEq T] in
theorem Blocks.outcome (hB : Blocks e code B.kernel .done B.returned rd oc lead fol) :
    ∃! o : Outcome, o.Holds e code B := by
  have hS := hB.kept.standing
  have hne : (B.kernel.queue e.queue).state ≠ States.ready := (B.kernel.queue e.queue).state_ne
  rcases hB.point with ⟨hw, ht, h0, hc⟩ | ⟨hr, ht, hs⟩
  · refine ⟨.queued, ⟨⟨_, hS.serves e.queue, ?_⟩, hw, ?_⟩, ?_⟩
    · have := (hS.waiting hw.isWaiting).resolve_left (Set.notMem_empty _)
      rwa [hB.queue] at this
    · rw [ht]
      split <;> rename_i h <;> simp [h]
    · rintro (_ | _ | _) ho
      · rfl
      all_goals exact absurd (hw.symm.trans ho.1) hne
  · have hoff : ∀ q l, B.kernel.Serves q l → e.thread ∉ l := by
      intro q l hl
      rw [hS.serves_iff.mp hl]
      exact hS.ready_absent hr q
    rcases hs with ⟨hn, hc⟩ | ⟨hn, hc⟩
    · refine ⟨.satisfied, ⟨hr, hoff, hc, hn, ht⟩, ?_⟩
      rintro (_ | _ | _) ho
      · exact absurd (ho.2.1.symm.trans hr) hne
      · rfl
      · exact absurd (hn.symm.trans ho.2.2.2.1) (by simp)
    · refine ⟨.timedOut, ⟨hr, hoff, hc, hn, ht⟩, ?_⟩
      rintro (_ | _ | _) ho
      · exact absurd (ho.2.1.symm.trans hr) hne
      · exact absurd (hn.symm.trans ho.2.2.2.1) (by simp)
      · rfl

theorem enqueue_outcome (hK : K.Resting)
    (hr : (K.sched.control K.sched.executing).currentState = States.ready) (timeout : Nat)
    (hu : timeout < 2 ^ 32)
    (h : Transition.Steps (Blocking.perform ⟨K.sched.executing, q, timeout⟩) (fun _ _ => True)
      (Blocking.start K q) B) :
    (B.point = .done ∨ ∃ fuel K', Kernel.enqueueFrom ⟨K.sched.executing, q, timeout⟩ fuel B.kernel
      B.point = some K') ∧
    (B.point = .done → (∃! o : Outcome, o.Holds ⟨K.sched.executing, q, timeout⟩
        (K.wait K.sched.executing).returnCode B) ∧
      (B.kernel.queue q).syncState = .synchronized) := by
  obtain ⟨rd, oc, lead, fol, l, hK, hR⟩ := hK
  have hG : B.Good ⟨K.sched.executing, q, timeout⟩ (K.wait K.sched.executing).returnCode l :=
    h.invariant (fun hG _ he => hG.perform hu he) ⟨rd, oc, lead, fol, hK.prepare hr q timeout, hR⟩
  obtain ⟨rd', oc', lead', fol', hB, hT⟩ := hG
  refine ⟨hB.ends hT hu, fun hd => ?_⟩
  rw [hd] at hB
  exact ⟨hB.outcome, hB.kept.synced (Set.notMem_empty q)⟩

/-- A queue of `_CORE_semaphore_Initialize`. -/
def semaphoreQueue (discipline : Discipline) : Control where
  discipline := discipline
  state := States.waitingForSemaphore
  timeoutStatus := 3
  syncState := .synchronized
  waits := by decide
  blocks := by decide

def oneThread : Kernel Unit Unit :=
  (Kernel.initial (fun _ => semaphoreQueue .priority) (fun _ => newThread (.of 5) true .none)
    (fun _ => ⟨(), 0⟩) () true).start ()

theorem oneThread_resting : oneThread.Resting := by
  have hc : ∀ _ : Unit, (newThread (.of 5) true .none).currentState = States.dormant ∧
      (newThread (.of 5) true .none).Placed := fun _ => ⟨rfl, rfl, rfl⟩
  obtain ⟨rd, oc, lead, fol, l, hK, hR⟩ := Kernel.initial_resting
    (fun _ => rfl : ∀ _ : Unit, (semaphoreQueue .priority).syncState = _) (fun _ => ⟨(), 0⟩) () true hc
  obtain ⟨rd', hK'⟩ := hK.start rfl
  exact ⟨rd', oc, lead, fol, l, hK', hR⟩

theorem enqueue_outcome_oneThread :
    ∃ B, Transition.run (Blocking.perform ⟨(), (), 7⟩)
        (List.replicate 9 .go ++ .interrupt (.dequeue ()) :: List.replicate 5 .go)
        (Blocking.start oneThread ()) = some B ∧ B.point = .done ∧ B.returned = 1 ∧
      (∃! o : Outcome, o.Holds ⟨(), (), 7⟩ 0 B) ∧ (B.kernel.queue ()).syncState = .synchronized := by
  refine Transition.exists_of_map (fun B => (B.point, B.returned)) (.done, 1) (by decide +kernel) fun B hB he => ?_
  obtain ⟨hd, hn⟩ := Prod.mk.inj he
  obtain ⟨-, ho⟩ := enqueue_outcome oneThread_resting (by decide) 7 (by decide)
    (.of_run (fun _ _ => trivial) hB)
  exact ⟨hd, hn, ho hd⟩

end Rtems.ThreadQueue
