import Rtems.Thread.Model
import Rtems.Watchdog.Model

/-!
# The Thread Queue Handler

The threads of one priority form a group on a priority queue: the first stands on one of the four chains
and the others on a chain of its own, `Wait.Block2n`. A routine is cut where it has interrupts enabled.
-/

namespace Rtems.ThreadQueue

open Function Intrusive Thread

/-! ## Queues and the kernel -/

/-- `Thread_queue_Disciplines`. -/
inductive Discipline
  | fifo
  | priority
  deriving DecidableEq, Repr

/-- `Thread_queue_States`. -/
inductive SyncState
  | synchronized
  | nothingHappened
  | timeout
  | satisfied
  deriving DecidableEq, Repr

/-- `Thread_queue_Control`, without its chains. -/
structure Control where
  discipline : Discipline
  state : States
  timeoutStatus : Nat
  syncState : SyncState
  waits : States.isWaitingOnThreadQueue state = true
  blocks : States.clear States.blocked state = States.ready

inductive QueueChain (Q T : Type*)
  | queue (q : Q) (index : Fin 4)
  | block2n (t : T)
  deriving DecidableEq, Repr

abbrev QueueName (Q T : Type*) := ChainName (QueueChain Q T)

/-- What is on the chains of the queues that are in use. -/
abbrev Members (Q T : Type*) := QueueChain Q T → Option (List T)

/-- `Thread_Wait_information`, without the group. -/
structure Wait (Q : Type*) where
  queue : Q
  returnCode : Nat
  deriving DecidableEq, Repr

structure Kernel (Q T : Type*) where
  sched : Scheduler (QueueChain Q T) T
  queue : Q → Control
  wait : T → Wait Q
  timers : Watchdog.Timers Unit T
  unrollEnqueuePriority : Bool

/-! ## tqdata.inl -/

def headerNumber (p : Priority) : Fin 4 := ⟨p / 64, by omega⟩

def isReverseSearch (p : Priority) : Bool := p.val &&& 0x20 ≠ 0

section

variable {Q T : Type*}

abbrev header (q : Q) (index : Fin 4) : QueueName Q T := .other (.queue q index)

abbrev fifoHeader (q : Q) : QueueName Q T := header q 0

abbrev block2n (t : T) : QueueName Q T := .other (.block2n t)

end

inductive ReleasePoint
  | remove
  | unblock
  /-- In the flash of `_Thread_Clear_state`. -/
  | flash
  | done
  deriving DecidableEq, Repr

variable {Q T : Type*} [DecidableEq Q] [DecidableEq T]

namespace Kernel

variable (K : Kernel Q T)

def setLinks (L : Links (QueueName Q T) T) : Kernel Q T :=
  { K with sched := { K.sched with links := L } }

def setTimers (timers : Watchdog.Timers Unit T) : Kernel Q T := { K with timers := timers }

def setSyncState (q : Q) (s : SyncState) : Kernel Q T :=
  { K with queue := update K.queue q { K.queue q with syncState := s } }

def setReturnCode (t : T) (code : Nat) : Kernel Q T :=
  { K with wait := update K.wait t { K.wait t with returnCode := code } }

def setWaitQueue (t : T) (q : Q) : Kernel Q T :=
  { K with wait := update K.wait t { K.wait t with queue := q } }

def enterCriticalSection (q : Q) : Kernel Q T := K.setSyncState q .nothingHappened

/-! ## Letting a thread go -/

def deactivateTimer (t : T) : Kernel Q T × ReleasePoint :=
  if Watchdog.isActive K.timers t then (K.setTimers (Watchdog.deactivate K.timers t), .remove)
  else (K, .unblock)

def removeTimer (t : T) : Kernel Q T := K.setTimers (Watchdog.remove K.timers t).1

def unblock (K : Kernel Q T) (t : T) : Kernel Q T := { K with sched := K.sched.unblock t }

def releaseStep (t : T) : ReleasePoint → Kernel Q T × ReleasePoint
  | .remove => (K.removeTimer t, .unblock)
  | .unblock =>
    match K.sched.clearStateEnter t States.blocked with
    | (S, true) => ({ K with sched := S }, .flash)
    | (S, false) => ({ K with sched := S }, .done)
  | .flash => ({ K with sched := K.sched.clearStateFinish t }, .done)
  | .done => (K, .done)

def release (t : T) : ReleasePoint → Kernel Q T
  | .remove => (K.removeTimer t).unblock t
  | .unblock => K.unblock t
  | .flash => { K with sched := K.sched.clearStateFinish t }
  | .done => K

end Kernel

/-! ## Links of a priority queue -/

section Links

variable (L : Links (QueueName Q T) T)

def linkBefore (t : T) (searchNode : Node (QueueName Q T) T) :
    Links (QueueName Q T) T :=
  let previousNode := L.previous searchNode
  let L := L.setNext (.obj t) searchNode
  let L := L.setPrevious (.obj t) previousNode
  let L := L.setNext previousNode (.obj t)
  L.setPrevious searchNode (.obj t)

def linkAfter (t : T) (searchNode : Node (QueueName Q T) T) :
    Links (QueueName Q T) T :=
  let nextNode := L.next searchNode
  let L := L.setNext (.obj t) nextNode
  let L := L.setPrevious (.obj t) searchNode
  let L := L.setNext searchNode (.obj t)
  L.setPrevious nextNode (.obj t)

def promote (t newFirst : T) : Links (QueueName Q T) T :=
  let nextNode := L.next (.obj t)
  let previousNode := L.previous (.obj t)
  let lastNode := Chain.last L (block2n t)
  let newSecondNode := L.next (.obj newFirst)
  let L := L.setNext previousNode (.obj newFirst)
  let L := L.setPrevious nextNode (.obj newFirst)
  let L := L.setNext (.obj newFirst) nextNode
  let L := L.setPrevious (.obj newFirst) previousNode
  if ¬ Chain.hasOnlyOneNode L (block2n t) then
    let L := L.setPrevious newSecondNode (.head (block2n newFirst))
    let L := L.setNext (.head (block2n newFirst)) newSecondNode
    let L := L.setPrevious (.tail (block2n newFirst)) lastNode
    L.setNext lastNode (.tail (block2n newFirst))
  else L

def unlinkPriority (t : T) : Links (QueueName Q T) T :=
  if ¬ Chain.isEmpty L (block2n t) then
    match Chain.first L (block2n t) with
    | .obj newFirst => promote L t newFirst
    | _ => L
  else
    let nextNode := L.next (.obj t)
    let previousNode := L.previous (.obj t)
    let L := L.setNext previousNode nextNode
    L.setPrevious nextNode previousNode

def firstPriority (q : Q) : Option T :=
  (List.finRange 4).findSome? fun index =>
    if ¬ Chain.isEmpty L (header q index) then
      match Chain.first L (header q index) with
      | .obj t => some t
      | _ => none
    else none

end Links

namespace Kernel

/-! ## `_Thread_queue_Dequeue` -/

variable (K : Kernel Q T)

def takeFirst (q : Q) : Option (Kernel Q T × T) :=
  match (K.queue q).discipline with
  | .fifo =>
    if ¬ Chain.isEmpty K.sched.links (header q 0) then
      match Chain.getFirst K.sched.links (header q 0) with
      | (L, .obj t) => some (K.setLinks L, t)
      | _ => none
    else none
  | .priority =>
    match firstPriority K.sched.links q with
    | some t => some (K.setLinks (unlinkPriority K.sched.links t), t)
    | none => none

def dequeueEnter (q : Q) : Kernel Q T × Option (T × ReleasePoint) :=
  match K.takeFirst q with
  | some (K, t) =>
    let (K, p) := K.deactivateTimer t
    (K, some (t, p))
  | none =>
    match (K.queue q).syncState with
    | .synchronized | .satisfied => (K, none)
    | .nothingHappened | .timeout =>
      (K.setSyncState q .satisfied, some (K.sched.executing, .done))

def dequeue (q : Q) : Kernel Q T × Option T :=
  match K.dequeueEnter q with
  | (K, some (t, p)) => (K.release t p, some t)
  | (K, none) => (K, none)

def first (K : Kernel Q T) (q : Q) : Option T :=
  match (K.queue q).discipline with
  | .fifo =>
    if ¬ Chain.isEmpty K.sched.links (header q 0) then
      match Chain.first K.sched.links (header q 0) with
      | .obj t => some t
      | _ => none
    else none
  | .priority => firstPriority K.sched.links q

/-! ## `_Thread_queue_Extract` and `_Thread_queue_Timeout` -/

def isWaiting (t : T) : Bool := States.isWaitingOnThreadQueue (K.sched.control t).currentState

def extractEnter (q : Q) (t : T) : Kernel Q T × ReleasePoint :=
  if K.isWaiting t then
    match (K.queue q).discipline with
    | .fifo => (K.setLinks (Chain.extract K.sched.links (.obj t))).deactivateTimer t
    | .priority => (K.setLinks (unlinkPriority K.sched.links t)).deactivateTimer t
  else (K, .done)

def extract (q : Q) (t : T) : Kernel Q T :=
  let (K, p) := K.extractEnter q t
  K.release t p

def extractWithProxy (t : T) : Kernel Q T × Bool :=
  if K.isWaiting t then (K.extract (K.wait t).queue t, true) else (K, false)

def timeoutEnter (t : T) : Kernel Q T × Bool :=
  let q := (K.wait t).queue
  if (K.queue q).syncState ≠ .synchronized ∧ t = K.sched.executing then
    (if (K.queue q).syncState ≠ .satisfied then K.setSyncState q .timeout else K, false)
  else (K.setReturnCode t (K.queue q).timeoutStatus, true)

def timeout (t : T) : Kernel Q T :=
  match K.timeoutEnter t with
  | (K, true) => K.extract (K.wait t).queue t
  | (K, false) => K

def host : Watchdog.Host (Kernel Q T) Unit T := ⟨Kernel.timers, Kernel.setTimers⟩

/-- `_Watchdog_Tickle_ticks`, for timers of `_Thread_queue_Timeout`. -/
def tick (fuel : Nat) : Option (Kernel Q T) :=
  Watchdog.tickle host (fun t K => K.timeout t) () fuel K

end Kernel

/-! ## `_Thread_queue_Enqueue` -/

structure Enqueue (Q T : Type*) where
  thread : T
  queue : Q
  timeout : Nat
  deriving DecidableEq, Repr

/-- Where `_Thread_queue_Enqueue` has interrupts enabled. -/
inductive EnqueuePoint (Q T : Type*)
  | entry
  /-- In the flash of `_Thread_Set_state`. -/
  | stateFlash
  | blocked
  | initialized
  | inserting (p : Watchdog.InsertPoint Unit T)
  | linking
  | restart (priority : Priority)
  | search (priority : Priority) (searchPriority : Nat) (node : Node (QueueName Q T) T)
  | releasing (p : ReleasePoint)
  | done
  deriving DecidableEq, Repr

namespace Kernel

variable (K : Kernel Q T)

def synchronize (e : Enqueue Q T) : Kernel Q T × EnqueuePoint Q T :=
  let syncState := (K.queue e.queue).syncState
  let K := K.setSyncState e.queue .synchronized
  match syncState with
  | .synchronized | .nothingHappened => (K, .releasing .unblock)
  | .timeout =>
    (K.setReturnCode e.thread (K.queue (K.wait e.thread).queue).timeoutStatus, .releasing .unblock)
  | .satisfied =>
    let (K, p) := K.deactivateTimer e.thread
    (K, .releasing p)

/-- The critical section of `_Thread_queue_Enqueue_fifo`. -/
def enqueueFifo (e : Enqueue Q T) : Kernel Q T × EnqueuePoint Q T :=
  if (K.queue e.queue).syncState = .nothingHappened then
    let K := K.setSyncState e.queue .synchronized
    (K.setLinks (Chain.append K.sched.links (header e.queue 0) (.obj e.thread)), .done)
  else K.synchronize e

/-- The search has ended at a node; `insert` links the thread next to it. -/
def place (e : Enqueue Q T) (priority : Priority) (searchPriority : Nat)
    (node : Node (QueueName Q T) T)
    (insert : Links (QueueName Q T) T → T → Node (QueueName Q T) T →
      Links (QueueName Q T) T) : Kernel Q T × EnqueuePoint Q T :=
  if (K.queue e.queue).syncState ≠ .nothingHappened then K.synchronize e
  else
    let K := K.setSyncState e.queue .synchronized
    if priority.val = searchPriority then
      match node with
      | .obj u => (K.setLinks (linkBefore K.sched.links e.thread (.tail (block2n u))), .done)
      | _ => (K, .done)
    else (K.setLinks (insert K.sched.links e.thread node), .done)

def searchForward (e : Enqueue Q T) (priority : Priority) (searchPriority : Nat)
    (node : Node (QueueName Q T) T) : Kernel Q T × EnqueuePoint Q T :=
  let header := header e.queue (headerNumber priority)
  if Chain.isTail header node then K.place e priority searchPriority node linkBefore
  else
    match node with
    | .obj u =>
      let searchPriority := (K.sched.control u).currentPriority
      if priority ≤ searchPriority then K.place e priority searchPriority (.obj u) linkBefore
      else if K.unrollEnqueuePriority then
        let node := K.sched.links.next (.obj u)
        if Chain.isTail header node then K.place e priority searchPriority node linkBefore
        else
          match node with
          | .obj v =>
            let searchPriority := (K.sched.control v).currentPriority
            if priority ≤ searchPriority then K.place e priority searchPriority (.obj v) linkBefore
            else (K, .search priority searchPriority (.obj v))
          | _ => (K, .done)
      else (K, .search priority searchPriority (.obj u))
    | _ => (K, .done)

def searchReverse (e : Enqueue Q T) (priority : Priority) (searchPriority : Nat)
    (node : Node (QueueName Q T) T) : Kernel Q T × EnqueuePoint Q T :=
  let header := header e.queue (headerNumber priority)
  if Chain.isHead header node then K.place e priority searchPriority node linkAfter
  else
    match node with
    | .obj u =>
      let searchPriority := (K.sched.control u).currentPriority
      if priority ≥ searchPriority then K.place e priority searchPriority (.obj u) linkAfter
      else if K.unrollEnqueuePriority then
        let node := K.sched.links.previous (.obj u)
        if Chain.isHead header node then K.place e priority searchPriority node linkAfter
        else
          match node with
          | .obj v =>
            let searchPriority := (K.sched.control v).currentPriority
            if priority ≥ searchPriority then K.place e priority searchPriority (.obj v) linkAfter
            else (K, .search priority searchPriority (.obj v))
          | _ => (K, .done)
      else (K, .search priority searchPriority (.obj u))
    | _ => (K, .done)

/-- `search_priority` is `PRIORITY_MINIMUM - 1` or `PRIORITY_MAXIMUM + 1`. -/
def searchRestart (e : Enqueue Q T) (priority : Priority) :
    Kernel Q T × EnqueuePoint Q T :=
  let header := header e.queue (headerNumber priority)
  if isReverseSearch priority then
    K.searchReverse e priority 256 (Chain.last K.sched.links header)
  else K.searchForward e priority (subWord 0 1) (Chain.first K.sched.links header)

def searchResume (e : Enqueue Q T) (priority : Priority) (searchPriority : Nat)
    (node : Node (QueueName Q T) T) : Kernel Q T × EnqueuePoint Q T :=
  match node with
  | .obj u =>
    if ¬ States.areSet (K.sched.control u).currentState (K.queue e.queue).state then
      (K, .restart priority)
    else if isReverseSearch priority then
      K.searchReverse e priority searchPriority (K.sched.links.previous node)
    else K.searchForward e priority searchPriority (K.sched.links.next node)
  | _ => (K, .done)

def enqueueStep (e : Enqueue Q T) : EnqueuePoint Q T → Kernel Q T × EnqueuePoint Q T
  | .entry =>
    match K.sched.setStateEnter e.thread (K.queue e.queue).state with
    | (S, true) => ({ K with sched := S }, .stateFlash)
    | (S, false) => ({ K with sched := S }, .blocked)
  | .stateFlash => ({ K with sched := K.sched.setStateFinish e.thread }, .blocked)
  | .blocked =>
    if e.timeout ≠ 0 then (K.setTimers (Watchdog.initializeTimer K.timers e.thread), .initialized)
    else (K, .linking)
  | .initialized => (K.setTimers (K.timers.setInitial e.thread e.timeout), .inserting .entry)
  | .inserting p =>
    match Watchdog.insertStep K.timers () e.thread p with
    | (timers, .done) => (K.setTimers timers, .linking)
    | (timers, p) => (K.setTimers timers, .inserting p)
  | .linking =>
    match (K.queue e.queue).discipline with
    | .fifo => K.enqueueFifo e
    | .priority =>
      (K.setLinks (Chain.initializeEmpty K.sched.links (block2n e.thread)),
        .restart (K.sched.control e.thread).currentPriority)
  | .restart priority => K.searchRestart e priority
  | .search priority searchPriority node => K.searchResume e priority searchPriority node
  | .releasing p =>
    match K.releaseStep e.thread p with
    | (K, .done) => (K, .done)
    | (K, p) => (K, .releasing p)
  | .done => (K, .done)

/-- The rest of the call without an interrupt; `none` without fuel. -/
def enqueueFrom (e : Enqueue Q T) : Nat → Kernel Q T → EnqueuePoint Q T → Option (Kernel Q T)
  | 0, _, _ => none
  | fuel + 1, K, p =>
    match K.enqueueStep e p with
    | (K, .done) => some K
    | (K, p) => enqueueFrom e fuel K p

def enqueue (q : Q) (timeout fuel : Nat) : Option (Kernel Q T) :=
  enqueueFrom ⟨K.sched.executing, q, timeout⟩ fuel K .entry

def prepare (q : Q) : Kernel Q T :=
  (K.setWaitQueue K.sched.executing q).enterCriticalSection q

def block (q : Q) (timeout fuel : Nat) : Option (Kernel Q T) :=
  (K.prepare q).enqueue q timeout fuel

end Kernel

end Rtems.ThreadQueue
