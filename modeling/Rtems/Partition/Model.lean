import Rtems.Chain.Model
import Rtems.Status
import Rtems.Words

/-!
# The Partition Manager

The free buffers are chained through their own first words, which are read as the nodes that they point
to. Buffers that are closer than two words share links.
-/

namespace Rtems.Partition

open Intrusive

/-! ## Constants -/

/-- `CPU_ALIGNMENT` is 4 or 8 on the ports. -/
def cpuAlignment : Nat := 4

def cpuPartitionAlignment : Nat := 4

def sizeofNode : Nat := 8

/-! ## The partition and its memory -/

abbrev Pointer := Node Unit Nat

structure Control where
  startingAddress : Nat
  length : Nat
  bufferSize : Nat
  numberOfUsedBlocks : Nat
  first : Pointer
  permanentNull : Pointer
  last : Pointer
  deriving DecidableEq, Repr

structure Store where
  control : Control
  words : Nat → Pointer

namespace Store

variable (s : Store)

def setNumberOfUsedBlocks (n : Nat) : Store := { s with control.numberOfUsedBlocks := n }

def next : Pointer → Pointer
  | .head _ => s.control.first
  | .tail _ => s.control.permanentNull
  | .obj a => s.words a
  | .null => s.words 0

def previous : Pointer → Pointer
  | .head _ => s.control.permanentNull
  | .tail _ => s.control.last
  | .obj a => s.words (addWord a 4)
  | .null => s.words 4

def setWord (a : Nat) (v : Pointer) : Store := { s with words := Function.update s.words a v }

def setNext (n v : Pointer) : Store :=
  match n with
  | .head _ => { s with control.first := v }
  | .tail _ => { s with control.permanentNull := v }
  | .obj a => s.setWord a v
  | .null => s.setWord 0 v

def setPrevious (n v : Pointer) : Store :=
  match n with
  | .head _ => { s with control.permanentNull := v }
  | .tail _ => { s with control.last := v }
  | .obj a => s.setWord (addWord a 4) v
  | .null => s.setWord 4 v

/-! ## The Chain Handler on the memory -/

/-- The loop of `_Chain_Initialize`. -/
def initializeNodes (nodeSize : Nat) : Nat → Store → Pointer → Nat → Store × Pointer
  | 0, s, current, _ => (s, current)
  | count + 1, s, current, a =>
    let s := s.setNext current (.obj a)
    let s := s.setPrevious (.obj a) current
    initializeNodes nodeSize count s (.obj a) (addWord a nodeSize)

/-- `_Chain_Initialize`. -/
def initializeChain (startingAddress numberNodes nodeSize : Nat) : Store :=
  let s := { s with control.permanentNull := .null }
  let (s, current) := initializeNodes nodeSize numberNodes s (.head ()) startingAddress
  let s := s.setNext current (.tail ())
  s.setPrevious (.tail ()) current

def chainGet : Store × Option Pointer :=
  if s.control.first = .tail () then (s, none)
  else
    let returnNode := s.control.first
    let newFirst := s.next returnNode
    let s := s.setNext (.head ()) newFirst
    let s := s.setPrevious newFirst (.head ())
    (s, some returnNode)

def chainAppend (n : Pointer) : Store :=
  let s := s.setNext n (.tail ())
  let oldLastNode := s.control.last
  let s := s.setPrevious (.tail ()) n
  let s := s.setNext oldLastNode n
  s.setPrevious n oldLastNode

end Store

/-! ## part.inl and address.inl -/

def isInRange (address base limit : Nat) : Bool := base ≤ address ∧ address ≤ limit

def isBufferOnBoundary (a : Nat) (c : Control) : Bool :=
  subWord a c.startingAddress % c.bufferSize = 0

def isBufferValid (a : Nat) (c : Control) : Bool :=
  let ending := addWord c.startingAddress c.length
  isInRange a c.startingAddress ending && isBufferOnBoundary a c

def isBufferSizeAligned (bufferSize : Nat) : Bool := bufferSize % cpuPartitionAlignment = 0

def isAligned (a : Nat) : Bool := a % cpuAlignment = 0

/-! ## The directives -/

/-- `rtems_partition_create`, with a valid name and a free control block. -/
def create (words : Nat → Pointer) (startingAddress length bufferSize : Nat) : Except Status Store :=
  if length = 0 ∨ bufferSize = 0 ∨ length < bufferSize ∨ ¬ isBufferSizeAligned bufferSize then
    .error .invalidSize
  else if ¬ isAligned startingAddress then .error .invalidAddress
  else
    let control := ⟨startingAddress, length, bufferSize, 0, .null, .null, .null⟩
    .ok (Store.initializeChain ⟨control, words⟩ startingAddress (length / bufferSize) bufferSize)

def getBuffer (s : Store) : Store × Except Status Pointer :=
  match s.chainGet with
  | (s, some theBuffer) =>
    -- a buffer at the address 0 is taken for none
    if theBuffer = .null ∨ theBuffer = .obj 0 then (s, .error .unsatisfied)
    else (s.setNumberOfUsedBlocks (addWord s.control.numberOfUsedBlocks 1), .ok theBuffer)
  | (s, none) => (s, .error .unsatisfied)

def returnBuffer (s : Store) (buffer : Nat) : Store × Status :=
  if isBufferValid buffer s.control then
    let s := s.chainAppend (.obj buffer)
    (s.setNumberOfUsedBlocks (subWord s.control.numberOfUsedBlocks 1), .successful)
  else (s, .invalidAddress)

/-! ## Runs -/

inductive Move
  | get
  | giveBack (buffer : Nat)
  | write (a : Nat) (v : Pointer)
  deriving DecidableEq, Repr

structure System where
  store : Store
  handedOut : List Nat

def address : Pointer → List Nat
  | .obj a => [a]
  | _ => []

def System.step (s : System) : Move → Option System
  | .get =>
    let r := getBuffer s.store
    some ⟨r.1, r.2.toOption.elim s.handedOut fun b => address b ++ s.handedOut⟩
  | .giveBack a =>
    let r := returnBuffer s.store a
    some ⟨r.1, if r.2 = .successful then s.handedOut.erase a else s.handedOut⟩
  | .write a v => some ⟨s.store.setWord a v, s.handedOut⟩

end Rtems.Partition
