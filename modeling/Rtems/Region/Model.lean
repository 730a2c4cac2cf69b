import Rtems.Heap.Run
import Rtems.Status
import Rtems.ThreadQueue.Blocking

/-!
# The Region Manager

A region is a heap with a queue of the tasks that wait for a segment of it. A task that waits has the
size that it asked for in `Wait.count`; the tasks are served when a segment is returned.
-/

namespace Rtems.Region

open ThreadQueue (Kernel)

/-- The state is `STATES_WAITING_FOR_SEGMENT`, the time-out `RTEMS_TIMEOUT`. -/
def waitQueue (discipline : ThreadQueue.Discipline) : ThreadQueue.Control where
  discipline := discipline
  state := States.waitingForSegment
  timeoutStatus := 6
  syncState := .synchronized
  waits := by decide
  blocks := by decide

/-- The live allocations of the heap are the segments obtained. -/
structure System (T : Type*) where
  kernel : Kernel Unit T
  count : T → Nat
  segment : T → Nat
  heap : Heap.State
  length : Nat
  maximumSegmentSize : Nat
  numberOfUsedBlocks : Nat

namespace System

variable {T : Type*} [DecidableEq T] (memory : Nat) (s : System T)

/-- `rtems_region_create`, with the heap's control block at `memory`. -/
def create (K : Kernel Unit T) (m : Memory) (startingAddress length pageSize : Nat) :
    Except Status (System T) :=
  if startingAddress % Heap.cpuHeapAlignment ≠ 0 then .error .invalidAddress
  else
    let r := Heap.initializeHeap m memory startingAddress length pageSize
    if r.2 = 0 then .error .invalidSize
    else .ok ⟨K, fun _ => 0, fun _ => 0, ⟨r.1, []⟩, length, r.2, 0⟩

def handOut (m : Memory) (theSegment size : Nat) : System T :=
  { s with
    heap := ⟨m, (theSegment, size) :: s.heap.live⟩
    numberOfUsedBlocks := addWord s.numberOfUsedBlocks 1 }

def setSegment (t : T) (theSegment : Nat) : System T :=
  { s with segment := Function.update s.segment t theSegment }

def wait (size timeout fuel : Nat) : Option (System T) :=
  (s.kernel.block () timeout fuel).map fun K =>
    { s with kernel := K, count := Function.update s.count s.kernel.sched.executing size }

def getSegment (size : Nat) (noWait : Bool) (timeout fuel : Nat) : Option (System T × Option Status) :=
  let executing := s.kernel.sched.executing
  let s := s.setSegment executing 0
  if size = 0 then some (s, some .invalidSize)
  else if size > s.maximumSegmentSize then some (s, some .invalidSize)
  else
    (Heap.allocate s.heap.mem memory size).bind fun r =>
      if r.2 ≠ 0 then some ((s.handOut r.1 r.2 size).setSegment executing r.2, some .successful)
      else if noWait then some (s, some .unsatisfied)
      else (s.wait size timeout fuel).map fun s => (s, none)

def getSegmentSize (theSegment : Nat) : Except Status Nat :=
  match Heap.sizeOfUserArea s.heap.mem memory theSegment with
  | some size => .ok size
  | none => .error .invalidAddress

def grant (t : T) (m : Memory) (theSegment : Nat) : System T :=
  let s := (s.setSegment t theSegment).handOut m theSegment (s.count t)
  { s with kernel := (s.kernel.extract () t).setReturnCode t 0 }

def serve : Nat → System T → Option (System T)
  | 0, _ => none
  | fuel + 1, s =>
    (s.kernel.first ()).elim (some s) fun t =>
      (Heap.allocate s.heap.mem memory (s.count t)).bind fun r =>
        if r.2 = 0 then some s else serve fuel (s.grant t r.1 r.2)

def giveUp (m : Memory) (theSegment : Nat) : System T :=
  { s with
    heap := ⟨m, s.heap.live.eraseP fun e => e.1 = theSegment⟩
    numberOfUsedBlocks := subWord s.numberOfUsedBlocks 1 }

def returnSegment (theSegment fuel : Nat) : Option (System T × Status) :=
  let r := Heap.free s.heap.mem memory theSegment
  if r.2 then (serve memory fuel (s.giveUp r.1 theSegment)).map fun s => (s, .successful)
  else some ({ s with heap := ⟨r.1, s.heap.live⟩ }, .invalidAddress)

def extend (startingAddress length : Nat) : System T × Status :=
  let r := Heap.extend s.heap.mem memory startingAddress length
  let s := { s with heap := ⟨r.1, s.heap.live⟩ }
  match r.2.1 with
  | .successful =>
    let amountExtended := r.2.2.getD 0
    ({ s with
        length := addWord s.length amountExtended
        maximumSegmentSize := addWord s.maximumSegmentSize amountExtended }, .successful)
  | .error => (s, .invalidAddress)
  | .notImplemented => (s, .notImplemented)

def delete : Status := if s.numberOfUsedBlocks = 0 then .successful else .resourceInUse

end System

/-! ## Runs -/

inductive Move (T : Type*)
  | getSegment (size : Nat) (noWait : Bool) (timeout fuel : Nat)
  | returnSegment (theSegment fuel : Nat)
  | extend (startingAddress length : Nat)
  | tick (fuel : Nat)
  | write (a v : Nat)
  | switch (t : T)
  deriving DecidableEq, Repr

variable {T : Type*} [DecidableEq T]

def System.isReady (s : System T) (t : T) : Bool := (s.kernel.sched.control t).currentState = States.ready

def System.step (memory : Nat) (s : System T) : Move T → Option (System T)
  | .getSegment size noWait timeout fuel =>
    if s.isReady s.kernel.sched.executing then
      (s.getSegment memory size noWait timeout fuel).map Prod.fst
    else none
  | .returnSegment theSegment fuel => (s.returnSegment memory theSegment fuel).map Prod.fst
  | .extend startingAddress length => some (s.extend memory startingAddress length).1
  | .tick fuel => (s.kernel.interrupt (.tick fuel)).map fun r => { s with kernel := r.1 }
  | .write a v => some { s with heap := ⟨s.heap.mem.store a v, s.heap.live⟩ }
  | .switch t =>
    if s.isReady t then
      some { s with kernel := { s.kernel with sched := { s.kernel.sched with executing := t } } }
    else none

end Rtems.Region
