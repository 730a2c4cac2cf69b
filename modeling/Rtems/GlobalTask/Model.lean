import Mathlib.Logic.Function.Basic
import Rtems.Status

/-!
# Global tasks

The ids of the global tasks stand in a table, and the other nodes are told when one is created or
deleted. `T` are the control blocks of the node, each with its id.
-/

namespace Rtems.GlobalTask

open Function

/-! ## Attributes -/

def floatingPoint : Nat := 0x1

/-- `RTEMS_GLOBAL`. -/
def globalBit : Nat := 0x2

def systemTask : Nat := 0x80

def isGlobal (attributeSet : Nat) : Bool := attributeSet &&& globalBit ≠ 0

def isSystemTask (attributeSet : Nat) : Bool := attributeSet &&& systemTask ≠ 0

/-- `CPU_ALL_TASKS_ARE_FP`, and whether there is floating point. -/
structure Port where
  allTasksAreFp : Bool
  hasFp : Bool
  deriving DecidableEq, Repr

def Port.attributesRequired (port : Port) : Nat := if port.allTasksAreFp then floatingPoint else 0

def Port.attributesNotSupported (port : Port) : Nat := if port.hasFp then 0 else floatingPoint

def Port.theAttributeSet (port : Port) (attributeSet : Nat) : Nat :=
  (attributeSet ||| port.attributesRequired) &&& (0xFFFFFFFF ^^^ port.attributesNotSupported)

def priorityIsValid (thePriority : Nat) : Bool := 1 ≤ thePriority ∧ thePriority ≤ 255

/-! ## The node -/

/-- `Objects_MP_Control`. -/
structure GlobalObject where
  id : Nat
  name : Nat
  deriving DecidableEq, Repr

inductive Packet
  | announceCreate (id name : Nat)
  | announceDelete (id : Nat)
  deriving DecidableEq, Repr

/-- `isGlobal` is the flag in each block; `given` notes which tasks were created with `RTEMS_GLOBAL`. -/
structure Node (T : Type*) where
  inactive : List T
  isGlobal : T → Bool
  globalTable : List GlobalObject
  inactiveGlobalObjects : Nat
  packets : List Packet
  given : T → Option Bool

structure Request where
  name : Nat
  initialPriority : Nat
  attributeSet : Nat
  initialized : Bool
  deriving DecidableEq, Repr

variable {T : Type*}

def Node.initial (blocks : List T) (maximumGlobalObjects : Nat) : Node T where
  inactive := blocks
  isGlobal := fun _ => false
  globalTable := []
  inactiveGlobalObjects := maximumGlobalObjects
  packets := []
  given := fun _ => none

/-- `none` is `INTERNAL_ERROR_INVALID_GLOBAL_ID`, which halts the node. -/
def objectsMpClose (theId : Nat) : List GlobalObject → Option (List GlobalObject)
  | [] => none
  | theObject :: l =>
    if theObject.id = theId then some l else (objectsMpClose theId l).map (theObject :: ·)

namespace Node

def tasksFree (s : Node T) (t : T) : Node T := { s with inactive := s.inactive ++ [t] }

def objectsMpOpen (s : Node T) (theName theId : Nat) : Node T :=
  { s with globalTable := ⟨theId, theName⟩ :: s.globalTable }

def sendProcessPacket (s : Node T) (p : Packet) : Node T := { s with packets := s.packets ++ [p] }

variable [DecidableEq T] (id : T → Nat)

def taskInitialize (s : Node T) (q : Request) (t : T) (global : Bool) : Node T × Status :=
  if ¬ q.initialized then
    let s := if global then { s with inactiveGlobalObjects := s.inactiveGlobalObjects + 1 } else s
    (s.tasksFree t, .unsatisfied)
  else
    let s := { s with given := update s.given t (some (GlobalTask.isGlobal q.attributeSet)) }
    let s :=
      if global then
        let s := { s with isGlobal := update s.isGlobal t true }
        (s.objectsMpOpen q.name (id t)).sendProcessPacket (.announceCreate (id t) q.name)
      else s
    (s, .successful)

def taskCreate (port : Port) (s : Node T) (q : Request) : Node T × Status :=
  let theAttributeSet := port.theAttributeSet q.attributeSet
  if q.name = 0 then (s, .invalidName)
  else if ¬ isSystemTask theAttributeSet ∧ ¬ priorityIsValid q.initialPriority then (s, .invalidPriority)
  else
    let global := GlobalTask.isGlobal theAttributeSet
    match s.inactive with
    | [] => (s, .tooMany)
    | t :: l =>
      let s := { s with inactive := l }
      if global then
        if s.inactiveGlobalObjects = 0 then (s.tasksFree t, .tooMany)
        else
          { s with inactiveGlobalObjects := s.inactiveGlobalObjects - 1 }.taskInitialize id q t global
      else s.taskInitialize id q t global

/-- `rtems_task_delete`, of a local task; `none` when the node halts. -/
def taskDelete (s : Node T) (t : T) : Option (Node T) :=
  let s := { s with given := update s.given t none }
  let s := s.tasksFree t
  if s.isGlobal t then
    (objectsMpClose (id t) s.globalTable).map fun globalTable =>
      { s with globalTable, inactiveGlobalObjects := s.inactiveGlobalObjects + 1 }.sendProcessPacket
        (.announceDelete (id t))
  else some s

end Node

inductive Move (T : Type*)
  | create (q : Request)
  | delete (t : T)
  | others (inactiveGlobalObjects : Nat)
  deriving DecidableEq, Repr

def Node.step [DecidableEq T] (port : Port) (id : T → Nat) (s : Node T) : Move T → Option (Node T)
  | .create q => some (s.taskCreate id port q).1
  | .delete t => if (s.given t).isSome then s.taskDelete id t else none
  | .others n => some { s with inactiveGlobalObjects := n }

end Rtems.GlobalTask
