import Rtems.ThreadQueue.Model

/-!
# The Mutex Handler

A mutex has a thread queue of its own; the operations get the index of that queue along with the rest
of the control block. Nothing interrupts them.
-/

namespace Rtems

namespace CoreMutex

open ThreadQueue Thread

/-- `CORE_mutex_Disciplines`. -/
inductive Discipline
  | fifo
  | priority
  | priorityInherit
  | priorityCeiling
  deriving DecidableEq, Repr

structure Attributes where
  allowNesting : Bool
  discipline : Discipline
  priorityCeiling : Priority
  deriving DecidableEq, Repr

inductive Status
  | successful
  | unsatisfiedNowait
  | nestingNotAllowed
  | notOwnerOfResource
  | wasDeleted
  | timeout
  | ceilingViolated
  deriving DecidableEq, Repr

def Status.code : Status → Nat
  | .successful => 0
  | .unsatisfiedNowait => 1
  | .nestingNotAllowed => 2
  | .notOwnerOfResource => 3
  | .wasDeleted => 4
  | .timeout => 5
  | .ceilingViolated => 6

/-- `CORE_mutex_Control`, without its thread queue. -/
structure Control (T : Type*) where
  attributes : Attributes
  /-- Whether `lock` is `CORE_MUTEX_LOCKED`. -/
  isLocked : Bool
  nestCount : Nat
  holder : Option T
  holderId : Nat
  deriving DecidableEq, Repr

/-- As `_CORE_mutex_Initialize` sets it up. -/
def waitQueue (discipline : Discipline) : ThreadQueue.Control where
  discipline := if discipline = .fifo then .fifo else .priority
  state := States.waitingForMutex
  timeoutStatus := Status.timeout.code
  syncState := .synchronized
  waits := by decide
  blocks := by decide

end CoreMutex

namespace ThreadQueue.Kernel

open Thread

variable {Q T : Type*} [DecidableEq Q] [DecidableEq T]

def modify (K : Kernel Q T) (t : T) (f : Thread.Control → Thread.Control) : Kernel Q T :=
  { K with sched := K.sched.modify t f }

def changePriority (K : Kernel Q T) (t : T) (newPriority : Priority) (prependIt : Bool) : Kernel Q T :=
  { K with sched := K.sched.changePriority t newPriority prependIt }

def raise (K : Kernel Q T) (t : T) (newPriority : Priority) : Kernel Q T :=
  if newPriority < (K.sched.control t).currentPriority then K.changePriority t newPriority false else K

/-- `resource_count++`. -/
def addResource (K : Kernel Q T) (t : T) : Kernel Q T :=
  K.modify t fun c => { c with resourceCount := addWord c.resourceCount 1 }

/-- `resource_count--`. -/
def subResource (K : Kernel Q T) (t : T) : Kernel Q T :=
  K.modify t fun c => { c with resourceCount := subWord c.resourceCount 1 }

end ThreadQueue.Kernel

namespace CoreMutex

open ThreadQueue Thread

variable {Q T : Type*} [DecidableEq Q] [DecidableEq T]

/-- `_CORE_mutex_Initialize`, without the thread queue. -/
def mutexInitialize (id : T → Nat) (K : Kernel Q T) (attributes : Attributes) (initialLock : Bool) :
    Kernel Q T × Control T :=
  if initialLock then
    (K.addResource K.sched.executing,
      ⟨attributes, true, 1, some K.sched.executing, id K.sched.executing⟩)
  else (K, ⟨attributes, false, 0, none, 0⟩)

/-! ## `_CORE_mutex_Seize` -/

def acquire (id : T → Nat) (K : Kernel Q T) (m : Control T) : Kernel Q T × Control T :=
  let executing := K.sched.executing
  let m := { m with isLocked := true, holder := some executing, holderId := id executing, nestCount := 1 }
  let K := K.addResource executing
  match m.attributes.discipline with
  | .fifo | .priority | .priorityInherit => (K, m)
  | .priorityCeiling => (K.raise executing m.attributes.priorityCeiling, m)

variable (K : Kernel Q T)

def nest (m : Control T) : Kernel Q T × Control T :=
  if m.attributes.allowNesting then (K, { m with nestCount := addWord m.nestCount 1 })
  else (K.setReturnCode K.sched.executing Status.nestingNotAllowed.code, m)

def inherit (m : Control T) : Kernel Q T :=
  match m.attributes.discipline with
  | .fifo | .priority | .priorityCeiling => K
  | .priorityInherit =>
    match m.holder with
    | some holder => K.raise holder (K.sched.control K.sched.executing).currentPriority
    | none => K

/-- After `_Thread_queue_Enqueue`, before the thread is switched. -/
def enqueued (m : Control T) : Kernel Q T :=
  if (K.wait K.sched.executing).returnCode = Status.successful.code then
    match m.attributes.discipline with
    | .fifo | .priority | .priorityInherit => K
    | .priorityCeiling => K.raise K.sched.executing m.attributes.priorityCeiling
  else K

def await (q : Q) (m : Control T) (timeout fuel : Nat) : Option (Kernel Q T) :=
  ((inherit (K.prepare q) m).enqueue q timeout fuel).map fun K => enqueued K m

def isCeilingViolated (m : Control T) : Bool :=
  m.attributes.discipline = .priorityCeiling ∧
    (K.sched.control K.sched.executing).currentPriority < m.attributes.priorityCeiling

/-- `_CORE_mutex_Seize`; `none` when the fuel runs out. -/
def seize (id : T → Nat) (K : Kernel Q T) (q : Q) (m : Control T) (wait : Bool) (timeout fuel : Nat) :
    Option (Kernel Q T × Control T) :=
  let executing := K.sched.executing
  if isCeilingViolated K m then some (K.setReturnCode executing Status.ceilingViolated.code, m)
  else
    let K := K.setReturnCode executing Status.successful.code
    if ¬ m.isLocked then some (acquire id K m)
    else if id executing = m.holderId then some (nest K m)
    else if ¬ wait then some (K.setReturnCode executing Status.unsatisfiedNowait.code, m)
    else (await K q m timeout fuel).map fun K => (K, m)

/-! ## `_CORE_mutex_Surrender` -/

def isOwned (attributes : Attributes) : Bool :=
  match attributes.discipline with
  | .fifo | .priority => false
  | .priorityInherit | .priorityCeiling => true

def restore (attributes : Attributes) : Kernel Q T :=
  let c := K.sched.control K.sched.executing
  if isOwned attributes ∧ c.resourceCount = 0 ∧ c.realPriority ≠ c.currentPriority then
    K.changePriority K.sched.executing c.realPriority true
  else K

def handOver (id : T → Nat) (K : Kernel Q T) (q : Q) (m : Control T) : Kernel Q T × Control T :=
  match K.dequeue q with
  | (K, some t) => (K.addResource t, { m with holder := some t, holderId := id t, nestCount := 1 })
  | (K, none) => (K, { m with isLocked := false })

/-- `nest_count--`. -/
def unnest (m : Control T) : Control T := { m with nestCount := subWord m.nestCount 1 }

def vacate (m : Control T) : Control T := { m with holder := none, holderId := 0 }

def surrender (id : T → Nat) (K : Kernel Q T) (q : Q) (m : Control T) : Kernel Q T × Control T × Status :=
  if id K.sched.executing ≠ m.holderId ∧ isOwned m.attributes then (K, m, .notOwnerOfResource)
  else
    let m := unnest m
    if m.nestCount ≠ 0 then (K, m, .successful)
    else
      let K := K.subResource K.sched.executing
      let m := vacate m
      let (K, m) := handOver id (restore K m.attributes) q m
      (K, m, .successful)

end CoreMutex

/-! ## Priorities that are set -/

namespace ThreadQueue.Kernel

open Thread

variable {Q T : Type*} [DecidableEq Q] [DecidableEq T]

/-- `rtems_task_set_priority` calls `_Thread_Change_priority` with `FALSE`, the routines of sporadic
servers with `TRUE`. -/
def setPriority (K : Kernel Q T) (t : T) (newPriority : Priority) (prependIt : Bool) : Kernel Q T :=
  let K := K.modify t fun c => { c with realPriority := newPriority }
  let c := K.sched.control t
  if c.resourceCount = 0 ∨ c.currentPriority > newPriority then K.changePriority t newPriority prependIt
  else K

/-- `pthread_setschedparam`, but for `SCHED_SPORADIC`. -/
def setschedparam (K : Kernel Q T) (t : T) (newPriority : Priority) : Kernel Q T :=
  (K.modify t fun c => { c with realPriority := newPriority }).changePriority t newPriority true

end ThreadQueue.Kernel

end Rtems
