import Rtems.ThreadQueue.Blocking

/-!
# The MPCI Handler

A thread that asks something of another node sends a request packet and waits on the queue
`_MPCI_Remote_blocked_threads`. The response has the identifier of the thread, and nothing that tells
which of its requests it answers.
-/

namespace Rtems.Mpci

open Thread ThreadQueue

/-- The time-out status is that of `rtems_initialize_executive_early`. -/
def remoteBlockedThreads : ThreadQueue.Control where
  discipline := .fifo
  state := States.waitingForRpcReply
  timeoutStatus := 6
  syncState := .synchronized
  waits := by decide
  blocks := by decide

/-- `MP_packet_Prefix`. -/
structure Packet where
  id : Nat
  sourceTid : Nat
  sourcePriority : Priority
  returnCode : Nat
  toConvert : Nat
  timeout : Nat
  deriving DecidableEq, Repr

/-- `_Thread_Get` finds no thread for the identifiers of other nodes. -/
structure Node (Q T : Type*) where
  remote : Q
  defaultTimeout : Nat
  id : T → Nat
  threadGet : Nat → Option T
  threadGet_id : ∀ t, threadGet (id t) = some t

def mpciDefaultTimeout : Nat := 0xffffffff

variable {Q T : Type*}

namespace Packet

variable (N : Node Q T) (p : Packet)

/-- What `_MPCI_Send_request_packet` writes; a prefix has 32 bytes. -/
def request (S : Scheduler (QueueChain Q T) T) : Packet :=
  { p with
    sourceTid := N.id S.executing
    sourcePriority := (S.control S.executing).currentPriority
    toConvert := subWord p.toConvert 32 / 4 }

def interval : Nat := if p.timeout = mpciDefaultTimeout then N.defaultTimeout else p.timeout

def response (returnCode : Nat) : Packet := { p with id := p.sourceTid, returnCode := returnCode }

end Packet

section

variable [DecidableEq Q] [DecidableEq T]

/-- `_States_Set( extra_state, … )`, for a state that was read. -/
def merge (K : Kernel Q T) (t : T) (extraState state : States) : Kernel Q T :=
  { K with sched := K.sched.setCurrentState t (States.set extraState state) }

def processResponse (N : Node Q T) (K : Kernel Q T) (p : Packet) : Kernel Q T × Option T :=
  match N.threadGet p.id with
  | some t => ((K.extract N.remote t).setReturnCode t p.returnCode, some t)
  | none => (K, none)

end

/-! ## `_MPCI_Send_request_packet`, interrupted -/

/-- A call: what is to be enqueued, and `extra_state`. -/
structure Call (Q T : Type*) where
  enqueue : Enqueue Q T
  extraState : States
  deriving DecidableEq, Repr

inductive SendPoint (Q T : Type*)
  | entry
  | noted
  | enqueuing (p : EnqueuePoint Q T)
  /-- `current_state` has been read. -/
  | loaded (state : States)
  | merged
  deriving DecidableEq, Repr

structure Sending (Q T : Type*) where
  kernel : Kernel Q T
  point : SendPoint Q T

inductive SendMove
  | go
  | tick (fuel : Nat)
  deriving DecidableEq, Repr

namespace Sending

variable [DecidableEq Q] [DecidableEq T]

def start (K : Kernel Q T) : Sending Q T := ⟨K, .entry⟩

def go (c : Call Q T) (K : Kernel Q T) : SendPoint Q T → Sending Q T
  | .entry => ⟨K.setWaitQueue c.enqueue.thread c.enqueue.queue, .noted⟩
  | .noted => ⟨K.enterCriticalSection c.enqueue.queue, .enqueuing .entry⟩
  | .enqueuing p =>
    if p = .done then ⟨K, .loaded (K.sched.control c.enqueue.thread).currentState⟩
    else ⟨(K.enqueueStep c.enqueue p).1, .enqueuing (K.enqueueStep c.enqueue p).2⟩
  | .loaded state => ⟨merge K c.enqueue.thread c.extraState state, .merged⟩
  | .merged => ⟨K, .merged⟩

def perform (c : Call Q T) (S : Sending Q T) : SendMove → Option (Sending Q T)
  | .go => some (go c S.kernel S.point)
  | .tick fuel => (S.kernel.interrupt (.tick fuel)).map fun r => ⟨r.1, S.point⟩

end Sending

/-! ## Requests and responses -/

/-- A request that is not answered; the packet does not have its number. -/
structure Request (T : Type*) where
  thread : T
  number : Nat
  packet : Packet
  timedOut : Bool
  deriving DecidableEq, Repr

structure System (Q T : Type*) where
  kernel : Kernel Q T
  requests : List (Request T)
  sent : Nat
  latest : T → Nat

inductive Move (Q T : Type*)
  | send (p : Packet) (extraState : States) (fuel : Nat)
  | response (number returnCode : Nat)
  | tick (fuel : Nat)
  | block (q : Q) (timeout fuel : Nat)
  | dequeue (q : Q)
  | switch (t : T)
  deriving DecidableEq, Repr

namespace System

variable [DecidableEq Q] [DecidableEq T] (N : Node Q T) (s : System Q T)

def start (K : Kernel Q T) : System Q T := ⟨K, [], 0, fun _ => 0⟩

/-- `_MPCI_Send_request_packet`, not interrupted. -/
def sendRequestPacket (p : Packet) (extraState : States) (fuel : Nat) : Option (System Q T) :=
  let executing := s.kernel.sched.executing
  let p := p.request N s.kernel.sched
  (s.kernel.block N.remote (p.interval N) fuel).map fun K =>
    { kernel := merge K executing extraState (K.sched.control executing).currentState
      requests := ⟨executing, s.sent, p, false⟩ :: s.requests
      sent := s.sent + 1
      latest := Function.update s.latest executing s.sent }

def answer (r : Request T) (returnCode : Nat) : System Q T :=
  { s with
    kernel := (processResponse N s.kernel (r.packet.response returnCode)).1
    requests := s.requests.filter fun r' => r'.number ≠ r.number }

def expire (K : Kernel Q T) : System Q T :=
  { s with
    kernel := K
    requests := s.requests.map fun r =>
      { r with timedOut := r.timedOut || s.kernel.isWaiting r.thread && !K.isWaiting r.thread } }

def isReady (t : T) : Bool := (s.kernel.sched.control t).currentState = States.ready

def step : Move Q T → Option (System Q T)
  | .send p extraState fuel =>
    if s.isReady s.kernel.sched.executing then s.sendRequestPacket N p extraState fuel else none
  | .response number returnCode =>
    (s.requests.find? fun r => r.number = number).map fun r => s.answer N r returnCode
  | .tick fuel => (s.kernel.interrupt (.tick fuel)).map fun r => s.expire r.1
  | .block q timeout fuel =>
    if s.isReady s.kernel.sched.executing ∧ q ≠ N.remote then
      (s.kernel.block q timeout fuel).map fun K => { s with kernel := K }
    else none
  | .dequeue q => if q ≠ N.remote then some { s with kernel := (s.kernel.dequeue q).1 } else none
  | .switch t =>
    if s.isReady t then
      some { s with kernel := { s.kernel with sched := { s.kernel.sched with executing := t } } }
    else none

end System

end Rtems.Mpci
