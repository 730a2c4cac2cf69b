import Rtems.ThreadQueue.Model

/-!
# The timers of the threads

What the routines that insert the timer of a thread, those that let a thread go and the signals do to
timers and states; which thread of a queue is the first one, and which events are sent, is left open.
-/

namespace Rtems

/-- `Event_Sync_states`. -/
inductive Event.SyncState
  | synchronized
  | nothingHappened
  | timeout
  | satisfied
  deriving DecidableEq, Repr

namespace ThreadTimer

inductive Routine
  /-- `_Thread_Delay_ended`. -/
  | delayEnded
  /-- `_Thread_queue_Timeout`. -/
  | queueTimeout
  /-- `_Event_Timeout`. -/
  | eventTimeout
  deriving DecidableEq, Repr

structure Queue where
  state : States
  syncState : ThreadQueue.SyncState
  waits : States.isWaitingOnThreadQueue state = true
  blocks : States.clear States.blocked state = States.ready
  apart : States.areSet state (States.delaying ||| States.waitingForEvent) = false

structure Task (Q : Type*) where
  currentState : States
  queue : Q
  queued : Bool
  option : BitVec 32
  routine : Routine
  signalsBlocked : BitVec 32
  deriving DecidableEq, Repr

inductive Wait (Q : Type*)
  /-- `nanosleep`, or `rtems_task_wake_after`. -/
  | delay (interruptible : Bool)
  /-- `_Thread_queue_Enqueue`. -/
  | enqueue (q : Q)
  /-- `_Event_Seize`. -/
  | seize
  deriving DecidableEq, Repr

inductive ReleasePoint
  /-- In the flash of `_Event_Surrender`. -/
  | flash
  | remove
  | unblock
  deriving DecidableEq, Repr

inductive Point (T : Type*)
  /-- Before `_Thread_Set_state`. -/
  | setState
  /-- Before `_Watchdog_Initialize`. -/
  | initializing
  /-- Before `_Watchdog_Insert_ticks`. -/
  | insert
  | inserting (p : Watchdog.InsertPoint Unit T)
  | settle
  | releasing (p : ReleasePoint)
  deriving DecidableEq, Repr

inductive Call (Q T : Type*)
  | wait (w : Wait Q) (ticks : Nat) (p : Point T)
  | release (t : T) (p : ReleasePoint)
  deriving DecidableEq, Repr

structure Kernel (Q T : Type*) where
  task : T → Task Q
  queue : Q → Queue
  /-- `_Event_Sync_state`. -/
  eventSync : Event.SyncState
  timers : Watchdog.Timers Unit T
  executing : T
  call : Option (Call Q T)

variable {Q T : Type*}

def Kernel.initial (task : T → Task Q) (queue : Q → Queue) (eventSync : Event.SyncState) (executing : T) :
    Kernel Q T where
  task := task
  queue := queue
  eventSync := eventSync
  timers := .idle
  executing := executing
  call := none

/-! ## What the routines have in common -/

namespace Wait

def state (queue : Q → Queue) : Wait Q → States
  | .delay interruptible =>
    if interruptible then States.delaying ||| States.interruptibleBySignal else States.delaying
  | .enqueue q => (queue q).state
  | .seize => States.waitingForEvent

def routine : Wait Q → Routine
  | .delay _ => .delayEnded
  | .enqueue _ => .queueTimeout
  | .seize => .eventTimeout

def afterState (ticks : Nat) : Wait Q → Point T
  | .delay _ => .initializing
  | .enqueue _ => if ticks ≠ 0 then .initializing else .settle
  | .seize => .settle

def afterInsert : Wait Q → Option (Point T)
  | .delay _ => none
  | .enqueue _ => some .settle
  | .seize => some .setState

end Wait

namespace Kernel

variable [DecidableEq T] (K : Kernel Q T) (t : T)

def modify (f : Task Q → Task Q) : Kernel Q T := { K with task := Function.update K.task t (f (K.task t)) }

def setState (s : States) : Kernel Q T := K.modify t fun c => { c with currentState := s }

def setQueued (b : Bool) : Kernel Q T := K.modify t fun c => { c with queued := b }

def setRoutine (r : Routine) : Kernel Q T := K.modify t fun c => { c with routine := r }

def setTimers (timers : Watchdog.Timers Unit T) : Kernel Q T := { K with timers := timers }

def setEventSync (s : Event.SyncState) : Kernel Q T := { K with eventSync := s }

def setCall (c : Option (Call Q T)) : Kernel Q T := { K with call := c }

def setSyncState [DecidableEq Q] (q : Q) (s : ThreadQueue.SyncState) : Kernel Q T :=
  { K with queue := Function.update K.queue q { K.queue q with syncState := s } }

def isWaiting : Bool := States.isWaitingOnThreadQueue (K.task t).currentState

def isReady : Bool := (K.task t).currentState = States.ready

/-- `_Thread_Unblock`. -/
def unblock : Kernel Q T := K.setState t (States.clear States.blocked (K.task t).currentState)

def removeTimer : Kernel Q T := K.setTimers (Watchdog.remove K.timers t).1

def deactivateTimer : Kernel Q T × ReleasePoint :=
  if Watchdog.isActive K.timers t then (K.setTimers (Watchdog.deactivate K.timers t), .remove)
  else (K, .unblock)

def letGo : Kernel Q T :=
  match K.deactivateTimer t with
  | (K, .remove) => (K.removeTimer t).unblock t
  | (K, _) => K.unblock t

/-! ## Handlers -/

/-- `_Thread_queue_Extract`. -/
def extract : Kernel Q T := if K.isWaiting t then (K.setQueued t false).letGo t else K

/-- `_Thread_queue_Timeout`. -/
def timeout [DecidableEq Q] : Kernel Q T :=
  let q := (K.task t).queue
  if (K.queue q).syncState ≠ .synchronized ∧ t = K.executing then
    if (K.queue q).syncState ≠ .satisfied then K.setSyncState q .timeout else K
  else K.extract t

/-- `_Event_Timeout`. -/
def eventTimeout : Kernel Q T :=
  if K.eventSync ≠ .synchronized ∧ t = K.executing then
    if K.eventSync ≠ .satisfied then K.setEventSync .timeout else K
  else K.unblock t

def fire [DecidableEq Q] : Kernel Q T :=
  match (K.task t).routine with
  | .delayEnded => K.unblock t
  | .queueTimeout => K.timeout t
  | .eventTimeout => K.eventTimeout t

def host : Watchdog.Host (Kernel Q T) Unit T := ⟨Kernel.timers, Kernel.setTimers⟩

/-- `_Watchdog_Tickle_ticks`. -/
def tick [DecidableEq Q] (fuel : Nat) : Option (Kernel Q T) :=
  Watchdog.tickle host (fun t K => K.fire t) () fuel K

def surrender : Kernel Q T :=
  if States.areSet (K.task t).currentState States.waitingForEvent then K.letGo t
  else if (K.eventSync = .nothingHappened ∨ K.eventSync = .timeout) ∧ t = K.executing then
    K.setEventSync .satisfied
  else K

/-- `_Thread_queue_Dequeue`, for a queue that is empty. -/
def satisfy [DecidableEq Q] (q : Q) : Kernel Q T :=
  match (K.queue q).syncState with
  | .synchronized | .satisfied => K
  | .nothingHappened | .timeout => K.setSyncState q .satisfied

def signoToMask (signo : Nat) : BitVec 32 := 1#32 <<< (signo - 1)

def unblockThread (signo : Nat) : Kernel Q T :=
  let mask := signoToMask signo
  let state := (K.task t).currentState
  if state &&& (States.waitingForSignal ||| States.interruptibleBySignal) =
      States.waitingForSignal ||| States.interruptibleBySignal then
    if (K.task t).option &&& mask ≠ 0 ∨ ~~~(K.task t).signalsBlocked &&& mask ≠ 0 then K.extract t
    else K
  else if ~~~(K.task t).signalsBlocked &&& mask ≠ 0 then
    if States.areSet state States.interruptibleBySignal then
      if K.isWaiting t then K.extract t
      else if States.areSet state States.delaying then
        (if Watchdog.isActive K.timers t then K.removeTimer t else K).unblock t
      else K
    else K
  else K

end Kernel

inductive Handler (Q T : Type*)
  | tick (fuel : Nat)
  /-- `pthread_kill`, for a signal that is not ignored. -/
  | kill (t : T) (signo : Nat)
  | dequeue (t : T)
  | satisfy (q : Q)
  | surrender (t : T)
  deriving DecidableEq, Repr

inductive Move (Q T : Type*)
  | wait (w : Wait Q) (ticks : Nat)
  | dequeue (t : T)
  | surrender (t : T)
  | go
  | interrupt (h : Handler Q T)
  | switch (t : T)
  deriving DecidableEq, Repr

namespace Kernel

variable [DecidableEq Q] [DecidableEq T] (K : Kernel Q T)

def handle : Handler Q T → Option (Kernel Q T)
  | .tick fuel => K.tick fuel
  | .kill t signo => some (K.unblockThread t signo)
  | .dequeue t => if (K.task t).queued then some ((K.setQueued t false).letGo t) else none
  | .satisfy q => some (K.satisfy q)
  | .surrender t => some (K.surrender t)

def setNest (level : Nat) : Kernel Q T := K.setTimers { K.timers with isrNestLevel := level }

def interrupt (h : Handler Q T) : Option (Kernel Q T) :=
  let level := K.timers.isrNestLevel
  ((K.setNest (level + 1)).handle h).map fun K => K.setNest level

/-! ## The calls -/

def beginWait (w : Wait Q) (ticks : Nat) : Option (Kernel Q T) :=
  match w with
  | .delay _ => if ticks ≠ 0 then some (K.setCall (some (.wait w ticks .setState))) else none
  | .enqueue q =>
    some (((K.modify K.executing fun c => { c with queue := q }).setSyncState q .nothingHappened).setCall
      (some (.wait w ticks .setState)))
  | .seize =>
    some ((K.setEventSync .nothingHappened).setCall
      (some (.wait w ticks (if ticks ≠ 0 then .initializing else .setState))))

/-- The last critical section of `_Thread_queue_Enqueue`. -/
def settleQueue (q : Q) (ticks : Nat) : Kernel Q T :=
  let x := K.executing
  let syncState := (K.queue q).syncState
  let K := K.setSyncState q .synchronized
  match syncState with
  | .nothingHappened => (K.setQueued x true).setCall none
  | .synchronized | .timeout => K.setCall (some (.wait (.enqueue q) ticks (.releasing .unblock)))
  | .satisfied =>
    let r := K.deactivateTimer x
    r.1.setCall (some (.wait (.enqueue q) ticks (.releasing r.2)))

/-- The last critical section of `_Event_Seize`. -/
def settleEvent (ticks : Nat) : Kernel Q T :=
  let syncState := K.eventSync
  let K := K.setEventSync .synchronized
  match syncState with
  | .nothingHappened | .synchronized => K.setCall none
  | .timeout => K.setCall (some (.wait .seize ticks (.releasing .unblock)))
  | .satisfied =>
    let r := K.deactivateTimer K.executing
    r.1.setCall (some (.wait .seize ticks (.releasing r.2)))

def releaseStep (t : T) (rest : ReleasePoint → Call Q T) : ReleasePoint → Kernel Q T
  | .flash =>
    let r := K.deactivateTimer t
    r.1.setCall (some (rest r.2))
  | .remove => (K.removeTimer t).setCall (some (rest .unblock))
  | .unblock => (K.unblock t).setCall none

def waitStep (w : Wait Q) (ticks : Nat) : Point T → Kernel Q T
  | .setState =>
    (K.setState K.executing (States.set (w.state K.queue) (K.task K.executing).currentState)).setCall
      (some (.wait w ticks (w.afterState ticks)))
  | .initializing =>
    ((K.setTimers (Watchdog.initializeTimer K.timers K.executing)).setRoutine K.executing w.routine).setCall
      (some (.wait w ticks .insert))
  | .insert =>
    (K.setTimers (K.timers.setInitial K.executing ticks)).setCall (some (.wait w ticks (.inserting .entry)))
  | .inserting p =>
    let r := Watchdog.insertStep K.timers () K.executing p
    (K.setTimers r.1).setCall
      (if r.2 = .done then w.afterInsert.map (.wait w ticks) else some (.wait w ticks (.inserting r.2)))
  | .settle =>
    match w with
    | .delay _ => K.setCall none
    | .enqueue q => K.settleQueue q ticks
    | .seize => K.settleEvent ticks
  | .releasing p => K.releaseStep K.executing (fun p => .wait w ticks (.releasing p)) p

def go : Option (Kernel Q T) :=
  K.call.map fun c =>
    match c with
    | .wait w ticks p => K.waitStep w ticks p
    | .release t p => K.releaseStep t (.release t) p

def atUser : Bool := K.call.isNone && K.isReady K.executing

def step : Move Q T → Option (Kernel Q T)
  | .wait w ticks => if K.atUser then K.beginWait w ticks else none
  | .dequeue t =>
    if K.atUser ∧ (K.task t).queued then
      let r := (K.setQueued t false).deactivateTimer t
      some (r.1.setCall (some (.release t r.2)))
    else none
  | .surrender t =>
    if K.atUser ∧ States.areSet (K.task t).currentState States.waitingForEvent then
      some (K.setCall (some (.release t .flash)))
    else none
  | .go => K.go
  | .interrupt h => K.interrupt h
  | .switch t => if K.call.isNone ∧ K.isReady t then some { K with executing := t } else none

end Kernel

end ThreadTimer

end Rtems
