import Rtems.Partition.Lemmas
import Rtems.ThreadQueue.Model

/-!
# The Message Queue Handler

A message buffer is known by its address, and the chains of buffers are lists of them. The threads that
wait stand in the order in which `_Thread_queue_Dequeue` takes them. `B` are the bytes.
-/

namespace Rtems.CoreMsg

open ThreadQueue (Discipline)

inductive Status
  | successful
  | invalidSize
  | tooMany
  | unsatisfied
  | unsatisfiedNowait
  | wasDeleted
  | timeout
  deriving DecidableEq, Repr

structure Buffer (B : Type*) where
  size : Nat
  buffer : Nat → B

structure Control (T B : Type*) where
  discipline : Discipline
  maximumPendingMessages : Nat
  numberOfPendingMessages : Nat
  maximumMessageSize : Nat
  messageBuffers : Nat
  pendingMessages : List Nat
  inactiveMessages : List Nat
  contents : Nat → Buffer B
  waitQueue : List T

structure Delivery (T B : Type*) where
  thread : T
  size : Nat
  bytes : List B
  deriving DecidableEq, Repr

variable {T B : Type*}

def copied (source : Nat → B) (size : Nat) : List B := (List.range size).map source

def copyBuffer (source destination : Nat → B) (size : Nat) : Nat → B := fun i =>
  if i < size then source i else destination i

/-! ## `_CORE_message_queue_Initialize` -/

def allocatedMessageSize (maximumMessageSize : Nat) : Nat :=
  if maximumMessageSize % 4 ≠ 0 then addWord maximumMessageSize 4 / 4 * 4 else maximumMessageSize

/-- A buffer control has 16 bytes, of which a message takes the last four. -/
def nodeSize (maximumMessageSize : Nat) : Nat := addWord (allocatedMessageSize maximumMessageSize) 16

def messageBufferingRequired (maximumPendingMessages maximumMessageSize : Nat) : Nat :=
  maximumPendingMessages * nodeSize maximumMessageSize % 2 ^ 32

structure Workspace where
  allocate : Nat → Option Nat
  below : ∀ n a, allocate n = some a → a + n < 2 ^ 32

def coreInitialize (W : Workspace) (memory : Nat → Buffer B) (discipline : Discipline)
    (maximumPendingMessages maximumMessageSize : Nat) : Option (Control T B) :=
  (W.allocate (messageBufferingRequired maximumPendingMessages maximumMessageSize)).map fun a =>
    { discipline, maximumPendingMessages, maximumMessageSize
      numberOfPendingMessages := 0
      messageBuffers := a
      pendingMessages := []
      inactiveMessages := Partition.addresses (nodeSize maximumMessageSize) maximumPendingMessages a
      contents := memory
      waitQueue := [] }

/-- What `rtems_message_queue_create` finds. -/
structure Configuration where
  isMultiprocessing : Bool
  maximumPacketSize : Nat
  hasInactiveObject : Bool
  hasGlobalObject : Bool
  deriving DecidableEq, Repr

/-- The arguments of `rtems_message_queue_create`. -/
structure Request where
  isNameValid : Bool
  count : Nat
  maxMessageSize : Nat
  isGlobal : Bool
  discipline : Discipline
  deriving DecidableEq, Repr

/-- The status codes of `rtems_message_queue_create`. -/
inductive CreateError
  | invalidName
  | mpNotConfigured
  | invalidNumber
  | invalidSize
  | tooMany
  deriving DecidableEq, Repr

def create (W : Workspace) (memory : Nat → Buffer B) (cfg : Configuration) (r : Request) :
    Except CreateError (Control T B) :=
  if !r.isNameValid then .error .invalidName
  else if r.isGlobal && !cfg.isMultiprocessing then .error .mpNotConfigured
  else if r.count = 0 then .error .invalidNumber
  else if r.maxMessageSize = 0 then .error .invalidSize
  else if r.isGlobal && decide (cfg.maximumPacketSize < r.maxMessageSize) then .error .invalidSize
  else if !cfg.hasInactiveObject then .error .tooMany
  else if r.isGlobal && !cfg.hasGlobalObject then .error .tooMany
  else
    match coreInitialize W memory r.discipline r.count r.maxMessageSize with
    | some q => .ok q
    | none => .error .tooMany

/-! ## Messages -/

namespace Control

variable (q : Control T B)

def submit (source : Nat → B) (size : Nat) (urgent : Bool) : Control T B × Status × Option (Delivery T B) :=
  if size > q.maximumMessageSize then (q, .invalidSize, none)
  else
    match q.waitQueue with
    | t :: ts => ({ q with waitQueue := ts }, .successful, some ⟨t, size, copied source size⟩)
    | [] =>
      if q.numberOfPendingMessages = q.maximumPendingMessages then (q, .tooMany, none)
      else
        match q.inactiveMessages with
        | [] => (q, .unsatisfied, none)
        | b :: bs =>
          ({ q with
              inactiveMessages := bs
              contents := Function.update q.contents b
                ⟨size, copyBuffer source (q.contents b).buffer size⟩
              numberOfPendingMessages := addWord q.numberOfPendingMessages 1
              pendingMessages := if urgent then b :: q.pendingMessages else q.pendingMessages ++ [b] },
            .successful, none)

/-- `_CORE_message_queue_Broadcast`, with the number of threads. -/
def broadcast (source : Nat → B) (size : Nat) : Control T B × List (Delivery T B) × Nat :=
  let constrainedSize := if size > q.maximumMessageSize then q.maximumMessageSize else size
  ({ q with waitQueue := [] }, q.waitQueue.map fun t => ⟨t, size, copied source constrainedSize⟩,
    q.waitQueue.length)

/-- `_Thread_queue_Enqueue`, by the current priorities. -/
def enqueue (priority : T → Nat) (t : T) : Control T B :=
  { q with waitQueue :=
      match q.discipline with
      | .fifo => q.waitQueue ++ [t]
      | .priority =>
        q.waitQueue.takeWhile (priority · ≤ priority t) ++ t ::
          q.waitQueue.dropWhile (priority · ≤ priority t) }

/-- `_CORE_message_queue_Seize`; a thread that waits has its return code later. -/
def seize (priority : T → Nat) (t : T) (wait : Bool) : Control T B × Status × Option (Delivery T B) :=
  match q.numberOfPendingMessages, q.pendingMessages with
  | n + 1, b :: bs =>
    ({ q with
        numberOfPendingMessages := n
        pendingMessages := bs
        inactiveMessages := q.inactiveMessages ++ [b] },
      .successful, some ⟨t, (q.contents b).size, copied (q.contents b).buffer (q.contents b).size⟩)
  | _, _ => if wait then (q.enqueue priority t, .successful, none) else (q, .unsatisfiedNowait, none)

def flushSupport : Control T B × Nat :=
  ({ q with
      inactiveMessages := q.pendingMessages ++ q.inactiveMessages
      pendingMessages := []
      numberOfPendingMessages := 0 }, q.numberOfPendingMessages)

def flush : Control T B × Nat := if q.numberOfPendingMessages ≠ 0 then q.flushSupport else (q, 0)

def close : Control T B :=
  if q.numberOfPendingMessages ≠ 0 then q.flushSupport.1 else { q with waitQueue := [] }

end Control

/-! ## Runs -/

structure Message (B : Type*) where
  bytes : List B
  urgent : Bool
  deriving DecidableEq, Repr

/-- Messages are numbered by their position; a broadcast has no number. -/
structure System (T B : Type*) where
  queue : Control T B
  tag : Nat → Nat
  accepted : List (Message B)
  received : List (Option Nat × Delivery T B)
  discarded : List Nat
  isOpen : Bool

inductive Move (T B : Type*)
  | submit (source : Nat → B) (size : Nat) (urgent : Bool)
  | broadcast (source : Nat → B) (size : Nat)
  | receive (priority : T → Nat) (t : T) (wait : Bool)
  | timeout (t : T)
  | flush
  | close

namespace System

variable (s : System T B)

def start (q : Control T B) : System T B := ⟨q, fun _ => 0, [], [], [], true⟩

def submit (source : Nat → B) (size : Nat) (urgent : Bool) : System T B :=
  match s.queue.submit source size urgent with
  | (q, .successful, some d) =>
    { s with
      queue := q
      accepted := s.accepted ++ [⟨copied source size, urgent⟩]
      received := s.received ++ [(some s.accepted.length, d)] }
  | (q, .successful, none) =>
    { s with
      queue := q
      tag := Function.update s.tag (s.queue.inactiveMessages.headD 0) s.accepted.length
      accepted := s.accepted ++ [⟨copied source size, urgent⟩] }
  | (q, _, _) => { s with queue := q }

def receive (priority : T → Nat) (t : T) (wait : Bool) : System T B :=
  match s.queue.seize priority t wait with
  | (q, _, some d) =>
    { s with queue := q, received := s.received ++ [(s.queue.pendingMessages.head?.map s.tag, d)] }
  | (q, _, none) => { s with queue := q }

def discard (q : Control T B) : System T B :=
  { s with queue := q, discarded := s.discarded ++ s.queue.pendingMessages.map s.tag }

def step [DecidableEq T] (s : System T B) (m : Move T B) : Option (System T B) :=
  if s.isOpen then
    match m with
    | .submit source size urgent => some (s.submit source size urgent)
    | .broadcast source size =>
      let r := s.queue.broadcast source size
      some { s with queue := r.1, received := s.received ++ r.2.1.map fun d => (none, d) }
    | .receive priority t wait => if t ∈ s.queue.waitQueue then none else some (s.receive priority t wait)
    | .timeout t =>
      if t ∈ s.queue.waitQueue then
        some { s with queue := { s.queue with waitQueue := s.queue.waitQueue.erase t } }
      else none
    | .flush => some (s.discard s.queue.flush.1)
    | .close => some { s.discard s.queue.close with isOpen := false }
  else none

end System

end Rtems.CoreMsg
