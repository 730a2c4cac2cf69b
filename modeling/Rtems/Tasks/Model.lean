import Rtems.CoreMutex.Model
import Rtems.ThreadQueue.Initialize
import Rtems.ThreadTimer.Model

/-!
# Tasks, mutexes and the other objects that tasks wait for

Directives and ticks are not interrupted.
-/

namespace Rtems

/-! ## Restarting and deleting -/

namespace ThreadQueue.Kernel

open Thread

variable {Q T : Type*} [DecidableEq Q] [DecidableEq T]

variable (K : Kernel Q T)

def detach (t : T) : Kernel Q T :=
  match K.extractWithProxy t with
  | (K, true) => K
  | (K, false) => if Watchdog.isActive K.timers t then K.removeTimer t else K

def resetPriority (t : T) : Kernel Q T :=
  let c := K.sched.control t
  if c.currentPriority ≠ c.start.initialPriority then
    let K := K.modify t fun c => { c with realPriority := c.start.initialPriority }
    { K with sched := K.sched.setPriority t c.start.initialPriority }
  else K

def restart (t : T) : Kernel Q T × Bool :=
  if ¬ States.isDormant (K.sched.control t).currentState then
    let K := { K with sched := K.sched.setTransient t }
    let K := K.modify t fun c =>
      { c with
        resourceCount := 0
        isPreemptible := c.start.isPreemptible
        budgetAlgorithm := c.start.budgetAlgorithm }
    let K := (K.detach t).resetPriority t
    ({ K with sched := (K.sched.loadEnvironment t).ready t }, true)
  else (K, false)

def close (t : T) : Kernel Q T :=
  { K with sched := K.sched.setState t States.transient }.detach t

def renew (t : T) (priority : Priority) (isPreemptible : Bool)
    (budgetAlgorithm : BudgetAlgorithm) : Kernel Q T :=
  (K.close t).modify t fun _ => newThread priority isPreemptible budgetAlgorithm

end ThreadQueue.Kernel

namespace Tasks

open ThreadQueue Thread
open ThreadTimer (Routine)

/-! ## Sleeping -/

inductive Sleep
  /-- `rtems_task_wake_after`, or `nanosleep`. -/
  | delay (interruptible : Bool)
  /-- `rtems_task_wake_when`; its chain is not told apart. -/
  | time
  /-- `rtems_event_receive`. -/
  | event
  | period
  deriving DecidableEq, Repr

namespace Sleep

def state : Sleep → States
  | .delay interruptible =>
    if interruptible then States.delaying ||| States.interruptibleBySignal else States.delaying
  | .time => States.waitingForTime
  | .event => States.waitingForEvent
  | .period => States.waitingForPeriod

def routine : Sleep → Routine
  | .delay _ | .time | .period => .delayEnded
  | .event => .eventTimeout

def allows (ticks : Nat) : Sleep → Bool
  | .delay _ | .time => ticks ≠ 0
  | .event => true
  | .period => ticks = 0

end Sleep

/-! ## The system -/

/-- `RTEMS_TIMEOUT`. -/
def timeoutCode : Nat := 6

structure System (M O T : Type*) where
  kernel : Kernel (M ⊕ O) T
  mutex : M → CoreMutex.Control T
  routine : T → Routine

inductive Move (M O T : Type*)
  /-- `_CORE_mutex_Initialize`. -/
  | create (m : M) (attributes : CoreMutex.Attributes) (initialLock : Bool)
  /-- `_CORE_mutex_Seize`. -/
  | seize (m : M) (wait : Bool) (timeout : BitVec 32) (fuel : Nat)
  /-- `_CORE_mutex_Surrender`. -/
  | surrender (m : M)
  | wait (o : O) (timeout : BitVec 32) (fuel : Nat)
  /-- `_Thread_queue_Dequeue`. -/
  | dequeue (o : O)
  | sleep (w : Sleep) (ticks : BitVec 32) (fuel : Nat)
  /-- Woken early: `_Event_Surrender`, the end of a period, or a signal. -/
  | rouse (t : T)
  /-- A signal: `_Thread_queue_Extract_with_proxy`. -/
  | extract (t : T)
  | setPriority (t : T) (newPriority : Priority) (prependIt : Bool)
  | setschedparam (t : T) (newPriority : Priority)
  | suspend (t : T)
  | resume (t : T)
  | start (t : T)
  | restart (t : T)
  | renew (t : T) (priority : Priority) (isPreemptible : Bool) (budgetAlgorithm : BudgetAlgorithm)
  | switch (t : T)
  | tick (fuel : Nat)
  deriving DecidableEq, Repr

namespace System

variable {M O T : Type*} [DecidableEq M] [DecidableEq O] [DecidableEq T]

section

variable (s : System M O T)

def setKernel (K : Kernel (M ⊕ O) T) : System M O T := { s with kernel := K }

def setMutex (m : M) (c : CoreMutex.Control T) : System M O T :=
  { s with mutex := Function.update s.mutex m c }

def setRoutine (t : T) (r : Routine) : System M O T :=
  { s with routine := Function.update s.routine t r }

def isReady (t : T) : Bool := States.isReady (s.kernel.sched.control t).currentState

/-- The routine of a timer that `_Thread_queue_Enqueue` has inserted. -/
def enqueued (t : T) : System M O T :=
  if Watchdog.isActive s.kernel.timers t then s.setRoutine t .queueTimeout else s

def create (id : T → Nat) (m : M) (attributes : CoreMutex.Attributes) (initialLock : Bool) :
    Option (System M O T) :=
  if ¬ (s.mutex m).isLocked ∧ s.kernel.first (.inl m) = none then
    let (K, c) := CoreMutex.mutexInitialize id s.kernel attributes initialLock
    some ((s.setKernel (K.initializeQueue (.inl m) (CoreMutex.waitQueue attributes.discipline))).setMutex m c)
  else none

def seize (id : T → Nat) (m : M) (wait : Bool) (timeout fuel : Nat) : Option (System M O T) :=
  (CoreMutex.seize id s.kernel (.inl m) (s.mutex m) wait timeout fuel).map fun r =>
    ((s.setKernel r.1).setMutex m r.2).enqueued s.kernel.sched.executing

def surrender (id : T → Nat) (m : M) : System M O T :=
  let (K, c, _) := CoreMutex.surrender id s.kernel (.inl m) (s.mutex m)
  (s.setKernel K).setMutex m c

def wait (o : O) (timeout fuel : Nat) : Option (System M O T) :=
  (s.kernel.block (.inr o) timeout fuel).map fun K => (s.setKernel K).enqueued s.kernel.sched.executing

def sleep (w : Sleep) (ticks fuel : Nat) : Option (System M O T) :=
  let executing := s.kernel.sched.executing
  let K := { s.kernel with sched := s.kernel.sched.setState executing w.state }
  if ticks = 0 then some (s.setKernel K)
  else
    (Watchdog.insert (Watchdog.initializeTimer K.timers executing) () executing ticks fuel).map fun timers =>
      (s.setKernel (K.setTimers timers)).setRoutine executing w.routine

def rouse (t : T) : System M O T :=
  if s.kernel.isWaiting t then s else s.setKernel (s.kernel.letGo t)

def fire (t : T) : System M O T :=
  match s.routine t with
  | .delayEnded => s.setKernel (s.kernel.unblock t)
  | .queueTimeout => s.setKernel (s.kernel.timeout t)
  | .eventTimeout => s.setKernel ((s.kernel.setReturnCode t timeoutCode).unblock t)

def host : Watchdog.Host (System M O T) Unit T :=
  ⟨fun s => s.kernel.timers, fun s timers => s.setKernel (s.kernel.setTimers timers)⟩

def tick (fuel : Nat) : Option (System M O T) :=
  let level := s.kernel.timers.isrNestLevel
  (Watchdog.tickle host (fun t s => s.fire t) () fuel (s.setKernel (s.kernel.setNest (level + 1)))).map
    fun s => s.setKernel (s.kernel.setNest level)

end

def call (s : System M O T) (r : Option (System M O T)) : Option (System M O T) :=
  if s.isReady s.kernel.sched.executing then r else none

def perform (id : T → Nat) (s : System M O T) : Move M O T → Option (System M O T)
  | .create m attributes initialLock => s.call (s.create id m attributes initialLock)
  | .seize m wait timeout fuel => s.call (s.seize id m wait timeout.toNat fuel)
  | .surrender m => s.call (some (s.surrender id m))
  | .wait o timeout fuel => s.call (s.wait o timeout.toNat fuel)
  | .dequeue o => some (s.setKernel (s.kernel.dequeue (.inr o)).1)
  | .sleep w ticks fuel => if w.allows ticks.toNat then s.call (s.sleep w ticks.toNat fuel) else none
  | .rouse t => some (s.rouse t)
  | .extract t => some (s.setKernel (s.kernel.extractWithProxy t).1)
  | .setPriority t p prependIt => some (s.setKernel (s.kernel.setPriority t p prependIt))
  | .setschedparam t p => some (s.setKernel (s.kernel.setschedparam t p))
  | .suspend t =>
    some (s.setKernel { s.kernel with sched := s.kernel.sched.setState t States.suspended })
  | .resume t => some (s.setKernel { s.kernel with sched := s.kernel.sched.resume t })
  | .start t => some (s.setKernel (s.kernel.start t))
  | .restart t => some (s.setKernel (s.kernel.restart t).1)
  | .renew t priority isPreemptible budgetAlgorithm =>
    some (s.setKernel (s.kernel.renew t priority isPreemptible budgetAlgorithm))
  | .switch t =>
    if s.isReady t then
      some (s.setKernel { s.kernel with sched := { s.kernel.sched with executing := t } })
    else none
  | .tick fuel => s.tick fuel

end System

end Tasks

end Rtems
