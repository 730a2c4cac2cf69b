import Rtems.Library.Segment
import Rtems.Library.Transition
import Mathlib.Algebra.Group.Nat.Defs
import Mathlib.Logic.Function.Basic

/-!
# The shared memory driver

An envelope is on the queue of the free ones or on the receive queue of a node, or a node has it. The
words are in the neutral format, so that a node loads `convert n w` where `w` stands. The threads of all
nodes run at the same time, and a call is cut after each of its statements.
-/

namespace Rtems.Shm

open Function

abbrev Word := BitVec 32

/-- The system, with the threads `A`. A packet is a `P`. -/
structure Configuration (A P : Type*) where
  maximumNodes : Nat
  maximumEnvelopes : Nat
  convert : Nat → Word → Word
  /-- `Shm_Configuration->format`. -/
  format : Nat → Word
  convertPacket : P → P
  node : A → Nat
  involutive : ∀ n, Involutive (convert n)
  end_fixed : ∀ n, convert n 0xffffffff#32 = 0xffffffff#32
  envelopes_pos : 0 < maximumEnvelopes
  envelopes_lt : maximumEnvelopes < 2 ^ 32
  node_pos : ∀ a, 1 ≤ node a
  node_le : ∀ a, node a ≤ maximumNodes

/-- `Shm_Locked_queue_Control`, without its lock. -/
structure LockedQueue where
  front : Word
  rear : Word
  owner : Word
  deriving DecidableEq, Repr

/-- `Shm_Envelope_control`. -/
structure Envelope (P : Type*) where
  next : Word
  queue : Word
  index : Word
  endian : Word
  packet : P
  deriving DecidableEq, Repr

/-- `Shm_Locked_queues` and `Shm_Envelopes`. -/
structure Memory (P : Type*) where
  lockedQueues : Nat → LockedQueue
  envelopes : Nat → Envelope P

def freeEnvPool : Nat := 0

/-! ## Statements -/

section

variable {A P : Type*} (c : Configuration A P) (n : Nat)

namespace Configuration

def endOfList : Word := c.convert n 0xffffffff#32

def notOnList : Word := c.convert n 0xfffffffe#32

end Configuration

namespace Memory

variable (m : Memory P)

def modifyQueue (q : Nat) (f : LockedQueue → LockedQueue) : Memory P :=
  { m with lockedQueues := update m.lockedQueues q (f (m.lockedQueues q)) }

def modifyEnvelope (e : Nat) (f : Envelope P → Envelope P) : Memory P :=
  { m with envelopes := update m.envelopes e (f (m.envelopes e)) }

/-! What a node loads. -/

def front (q : Nat) : Word := c.convert n (m.lockedQueues q).front

def rear (q : Nat) : Word := c.convert n (m.lockedQueues q).rear

def owner (q : Nat) : Word := c.convert n (m.lockedQueues q).owner

def next (ecb : Nat) : Word := c.convert n (m.envelopes ecb).next

def index (ecb : Nat) : Word := c.convert n (m.envelopes ecb).index

def endian (ecb : Nat) : Word := c.convert n (m.envelopes ecb).endian

/-! What a node stores. -/

def setFront (q : Nat) (w : Word) : Memory P := m.modifyQueue q fun v => { v with front := c.convert n w }

def setRear (q : Nat) (w : Word) : Memory P := m.modifyQueue q fun v => { v with rear := c.convert n w }

def setOwner (q : Nat) (w : Word) : Memory P := m.modifyQueue q fun v => { v with owner := c.convert n w }

def setNext (ecb : Nat) (w : Word) : Memory P :=
  m.modifyEnvelope ecb fun v => { v with next := c.convert n w }

def setQueue (ecb : Nat) (w : Word) : Memory P :=
  m.modifyEnvelope ecb fun v => { v with queue := c.convert n w }

def setIndex (ecb : Nat) (w : Word) : Memory P :=
  m.modifyEnvelope ecb fun v => { v with index := c.convert n w }

def setEndian (ecb : Nat) (w : Word) : Memory P :=
  m.modifyEnvelope ecb fun v => { v with endian := c.convert n w }

def setPacket (ecb : Nat) (p : P) : Memory P := m.modifyEnvelope ecb fun v => { v with packet := p }

/-- `Shm_Convert(lq_cb->front) == Shm_Locked_queue_End_of_list`. -/
def isEmpty (q : Nat) : Bool := c.convert n (m.front c n q) = c.endOfList n

/-- `Shm_Envelopes[ Shm_Convert(lq_cb->rear) ].next = index`. -/
def linkRear (q : Nat) (index : Word) : Memory P :=
  m.setNext c n (c.convert n (m.rear c n q)).toNat index

/-- `Shm_Locked_queue_Initialize`. -/
def lockedQueueInit (q owner : Nat) : Memory P :=
  ((m.setFront c n q (c.endOfList n)).setRear c n q (c.endOfList n)).setOwner c n q
    (c.convert n (BitVec.ofNat 32 owner))

/-- `Shm_Locked_queue_Add`, while no other call is made. -/
def lockedQueueAdd (q ecb : Nat) : Memory P :=
  let m := m.setNext c n ecb (c.endOfList n)
  let m := m.setQueue c n ecb (m.owner c n q)
  let index := m.index c n ecb
  let m := if ¬ m.isEmpty c n q then m.linkRear c n q index else m.setFront c n q index
  m.setRear c n q index

def buildPreamble (ecb : Nat) : Memory P := m.setEndian c n ecb (c.format n)

/-! ## `Shm_Initialization` -/

def initQueues : Memory P :=
  (List.range' 1 c.maximumNodes).foldl (fun m i => m.lockedQueueInit c n i i)
    (m.lockedQueueInit c n freeEnvPool freeEnvPool)

def initEnvelopes (k : Nat) : Memory P :=
  (List.range k).foldl (fun m i =>
    (m.setIndex c n i (c.convert n (BitVec.ofNat 32 i))).lockedQueueAdd c n freeEnvPool i) m

end Memory

/-- What `SHM_MASTER` does to the shared memory, zero at first. -/
def initialization (zero : P) : Memory P :=
  ((⟨fun _ => ⟨0, 0, 0⟩, fun _ => ⟨0, 0, 0, 0, zero⟩⟩ : Memory P).initQueues c 1).initEnvelopes c 1
    c.maximumEnvelopes

end

/-! ## Calls -/

inductive AddPoint
  | next
  | queue
  | index
  | lock (index : Word)
  | test (index : Word)
  | link (index : Word)
  | front (index : Word)
  | rear (index : Word)
  | unlock
  deriving DecidableEq, Repr

inductive GetPoint
  | lock
  | test
  | front (ecb : Nat)
  | last (ecb : Nat)
  | rear (ecb : Nat)
  | next (ecb : Nat)
  | unlock (ecb : Option Nat)
  deriving DecidableEq, Repr

/-- A call of `Shm_Send_packet` has a number. -/
inductive AddFor
  | returnPacket
  | sendPacket (call : Nat)
  | broadcast (call ecb nnum : Nat)
  | finish (call : Nat)
  deriving DecidableEq, Repr

inductive GetFor
  | getPacket
  | receivePacket
  | broadcast (call ecb nnum : Nat)
  deriving DecidableEq, Repr

inductive Point
  | idle
  | adding (q ecb : Nat) (r : AddFor) (p : AddPoint)
  | getting (q : Nat) (r : GetFor) (p : GetPoint)
  | received (ecb : Nat)
  | returning (ecb : Nat)
  | preamble (call node ecb : Nat)
  | loop (call ecb nnum : Nat)
  | copyPreamble (call ecb nnum tmpEcb : Nat)
  | copy (call ecb nnum tmpEcb : Nat)
  /-- `rtems_fatal_error_occurred( SHM_NO_FREE_PKTS )`. -/
  | fatal (r : GetFor)
  deriving DecidableEq, Repr

def AddFor.andThen : AddFor → Point
  | .returnPacket | .sendPacket _ | .finish _ => .idle
  | .broadcast call ecb nnum => .loop call ecb (nnum + 1)

def GetFor.andThen : GetFor → Option Nat → Point
  | .getPacket, some ecb => .returning ecb
  | .receivePacket, some ecb => .received ecb
  | .broadcast call ecb nnum, some tmpEcb => .copyPreamble call ecb nnum tmpEcb
  | .receivePacket, none => .idle
  | r, none => .fatal r

structure Call (A P : Type*) where
  caller : A
  node : Nat
  packet : P

/-- `carries` is the call of `Shm_Send_packet` that an envelope was last sent by. -/
structure System (A P : Type*) where
  memory : Memory P
  lock : Nat → Option A
  point : A → Point
  held : Nat → List Nat
  calls : List (Call A P)
  carries : Nat → Nat
  added : Nat → List (Nat × P)
  received : Nat → List (Nat × P)

namespace System

variable {A P : Type*} [DecidableEq A] (c : Configuration A P)

def initial (zero : P) : System A P where
  memory := initialization c zero
  lock := fun _ => none
  point := fun _ => .idle
  held := fun _ => []
  calls := []
  carries := fun _ => 0
  added := fun _ => []
  received := fun _ => []

variable (s : System A P) (a : A)

def goto (p : Point) : System A P := { s with point := update s.point a p }

def setMemory (m : Memory P) : System A P := { s with memory := m }

def setLock (q : Nat) (o : Option A) : System A P := { s with lock := update s.lock q o }

def message (ecb : Nat) : Nat × P := (s.carries ecb, (s.memory.envelopes ecb).packet)

def noteAdded (call q ecb : Nat) : System A P :=
  { s with
    carries := update s.carries ecb call
    added := update s.added q (s.added q ++ [(call, (s.memory.envelopes ecb).packet)]) }

def noteReceived (q ecb : Nat) : System A P :=
  { s with received := update s.received q (s.received q ++ [s.message ecb]) }

/-! ### `Shm_Locked_queue_Add` -/

def noteAdd (q ecb : Nat) : AddFor → System A P
  | .returnPacket | .finish _ => s
  | .sendPacket call | .broadcast call _ _ => s.noteAdded call q ecb

def addStep (q ecb : Nat) (r : AddFor) : AddPoint → Option (System A P)
  | .next =>
    some ((s.setMemory (s.memory.setNext c (c.node a) ecb (c.endOfList (c.node a)))).goto a
      (.adding q ecb r .queue))
  | .queue =>
    some ((s.setMemory (s.memory.setQueue c (c.node a) ecb (s.memory.owner c (c.node a) q))).goto a
      (.adding q ecb r .index))
  | .index => some (s.goto a (.adding q ecb r (.lock (s.memory.index c (c.node a) ecb))))
  | .lock index =>
    if s.lock q = none then some ((s.setLock q (some a)).goto a (.adding q ecb r (.test index))) else none
  | .test index =>
    if ¬ s.memory.isEmpty c (c.node a) q then some (s.goto a (.adding q ecb r (.link index)))
    else some (s.goto a (.adding q ecb r (.front index)))
  | .link index =>
    some ((s.setMemory (s.memory.linkRear c (c.node a) q index)).goto a (.adding q ecb r (.rear index)))
  | .front index =>
    some ((s.setMemory (s.memory.setFront c (c.node a) q index)).goto a (.adding q ecb r (.rear index)))
  | .rear index =>
    some ((s.setMemory (s.memory.setRear c (c.node a) q index)).goto a (.adding q ecb r .unlock))
  | .unlock => some (((s.noteAdd q ecb r).setLock q none).goto a (r.andThen))

/-! ### `Shm_Locked_queue_Get` -/

def noteGet (q : Nat) : GetFor → Option Nat → System A P
  | .receivePacket, some ecb => s.noteReceived q ecb
  | _, _ => s

def getStep (q : Nat) (r : GetFor) : GetPoint → Option (System A P)
  | .lock =>
    if s.lock q = none then some ((s.setLock q (some a)).goto a (.getting q r .test)) else none
  | .test =>
    let tmpfront := c.convert (c.node a) (s.memory.front c (c.node a) q)
    if tmpfront ≠ c.endOfList (c.node a) then some (s.goto a (.getting q r (.front tmpfront.toNat)))
    else some (s.goto a (.getting q r (.unlock none)))
  | .front ecb =>
    some ((s.setMemory (s.memory.setFront c (c.node a) q (s.memory.next c (c.node a) ecb))).goto a
      (.getting q r (.last ecb)))
  | .last ecb =>
    if s.memory.next c (c.node a) ecb = c.endOfList (c.node a) then
      some (s.goto a (.getting q r (.rear ecb)))
    else some (s.goto a (.getting q r (.next ecb)))
  | .rear ecb =>
    some ((s.setMemory (s.memory.setRear c (c.node a) q (c.endOfList (c.node a)))).goto a
      (.getting q r (.next ecb)))
  | .next ecb =>
    some ((s.setMemory (s.memory.setNext c (c.node a) ecb (c.notOnList (c.node a)))).goto a
      (.getting q r (.unlock (some ecb))))
  | .unlock ecb => some (((s.noteGet q r ecb).setLock q none).goto a (r.andThen ecb))

/-! ### The calls of a thread -/

def takeHeld (n ecb : Nat) : System A P :=
  { s with held := update s.held n ((s.held n).erase ecb) }

def giveHeld (n ecb : Nat) : System A P := { s with held := update s.held n (ecb :: s.held n) }

def advance : Option (System A P) :=
  match s.point a with
  | .idle | .fatal _ => none
  | .adding q ecb r p => s.addStep c a q ecb r p
  | .getting q r p => s.getStep c a q r p
  | .received ecb =>
    let s :=
      if s.memory.endian c (c.node a) ecb ≠ c.format (c.node a) then
        s.setMemory (s.memory.setPacket ecb (c.convertPacket (s.memory.envelopes ecb).packet))
      else s
    some (s.goto a (.returning ecb))
  | .returning ecb => some ((s.giveHeld (c.node a) ecb).goto a .idle)
  | .preamble call node ecb =>
    some ((s.setMemory (s.memory.buildPreamble c (c.node a) ecb)).goto a
      (.adding node ecb (.sendPacket call) .next))
  | .loop call ecb nnum =>
    if nnum ≤ c.maximumNodes then
      if c.node a ≠ nnum then some (s.goto a (.getting freeEnvPool (.broadcast call ecb nnum) .lock))
      else some (s.goto a (.loop call ecb (nnum + 1)))
    else some (s.goto a (.adding freeEnvPool ecb (.finish call) .next))
  | .copyPreamble call ecb nnum tmpEcb =>
    some ((s.setMemory (s.memory.buildPreamble c (c.node a) tmpEcb)).goto a (.copy call ecb nnum tmpEcb))
  | .copy call ecb nnum tmpEcb =>
    some ((s.setMemory (s.memory.setPacket tmpEcb (s.memory.envelopes ecb).packet)).goto a
      (.adding nnum tmpEcb (.broadcast call ecb nnum) .next))

end System

/-! ## Runs -/

inductive Move (A P : Type*)
  | getPacket (a : A)
  | receivePacket (a : A)
  | returnPacket (a : A) (ecb : Nat)
  | sendPacket (a : A) (node ecb : Nat)
  | write (a : A) (ecb : Nat) (packet : P)
  | advance (a : A)
  deriving DecidableEq, Repr

variable {A P : Type*} [DecidableEq A]

def System.step (c : Configuration A P) (s : System A P) : Move A P → Option (System A P)
  | .getPacket a =>
    if s.point a = .idle then some (s.goto a (.getting freeEnvPool .getPacket .lock)) else none
  | .receivePacket a =>
    if s.point a = .idle then some (s.goto a (.getting (c.node a) .receivePacket .lock)) else none
  | .returnPacket a ecb =>
    if s.point a = .idle ∧ ecb ∈ s.held (c.node a) then
      some ((s.takeHeld (c.node a) ecb).goto a (.adding freeEnvPool ecb .returnPacket .next))
    else none
  | .sendPacket a node ecb =>
    if s.point a = .idle ∧ ecb ∈ s.held (c.node a) ∧ node ≤ c.maximumNodes then
      let call := s.calls.length
      let s := { s.takeHeld (c.node a) ecb with
        calls := s.calls ++ [Call.mk a node (s.memory.envelopes ecb).packet] }
      some (s.goto a (if node ≠ 0 then .preamble call node ecb else .loop call ecb 1))
    else none
  | .write a ecb packet =>
    if ecb ∈ s.held (c.node a) then some (s.setMemory (s.memory.setPacket ecb packet)) else none
  | .advance a => s.advance c a

end Rtems.Shm
