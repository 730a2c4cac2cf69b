import Rtems.Library.Intrusive

/-!
# The Chain Handler

The first two words of a `Chain_Control` are the head node and its last two the tail node;
`permanent_null` is the backward link of the head and the forward link of the tail.
-/

namespace Rtems.Chain

open Intrusive

variable {C α : Type*}

/-- `the_chain->first`. -/
def first (L : Links C α) (c : C) : Node C α := L.next (.head c)

/-- `the_chain->last`. -/
def last (L : Links C α) (c : C) : Node C α := L.previous (.tail c)

variable [DecidableEq C] [DecidableEq α] (L : Links C α)

def isEmpty (c : C) : Bool := first L c = .tail c

def hasOnlyOneNode (c : C) : Bool := first L c = last L c

def isHead (c : C) (n : Node C α) : Bool := n = .head c
def isTail (c : C) (n : Node C α) : Bool := n = .tail c

def initializeEmpty (c : C) : Links C α :=
  let L := L.setNext (.head c) (.tail c)
  let L := (L.setPrevious (.head c) .null).setNext (.tail c) .null
  L.setPrevious (.tail c) (.head c)

/-- The loop of `_Chain_Initialize`: each node is linked behind the current one. -/
def initializeNodes (L : Links C α) (current : Node C α) : List α → Links C α × Node C α
  | [] => (L, current)
  | a :: l =>
    let L := L.setNext current (.obj a)
    let L := L.setPrevious (.obj a) current
    initializeNodes L (.obj a) l

/-- `_Chain_Initialize`, for an area with the nodes `l`. -/
def initializeChain (c : C) (l : List α) : Links C α :=
  let L := (L.setPrevious (.head c) .null).setNext (.tail c) .null
  let r := initializeNodes L (.head c) l
  let L := r.1.setNext r.2 (.tail c)
  L.setPrevious (.tail c) r.2

/-- `_Chain_Extract_unprotected`. -/
def extract (n : Node C α) : Links C α :=
  let next := L.next n
  let previous := L.previous n
  let L := L.setPrevious next previous
  L.setNext previous next

/-- `_Chain_Get_first_unprotected`. -/
def getFirst (c : C) : Links C α × Node C α :=
  let returnNode := first L c
  let newFirst := L.next returnNode
  let L := L.setNext (.head c) newFirst
  let L := L.setPrevious newFirst (.head c)
  (L, returnNode)

/-- `_Chain_Insert_unprotected`. -/
def insert (afterNode n : Node C α) : Links C α :=
  let L := L.setPrevious n afterNode
  let beforeNode := L.next afterNode
  let L := L.setNext afterNode n
  let L := L.setNext n beforeNode
  L.setPrevious beforeNode n

/-- `_Chain_Append_unprotected`. -/
def append (c : C) (n : Node C α) : Links C α :=
  let L := L.setNext n (.tail c)
  let oldLastNode := last L c
  let L := L.setPrevious (.tail c) n
  let L := L.setNext oldLastNode n
  L.setPrevious n oldLastNode

/-- `_Chain_Prepend_unprotected`. -/
def prepend (c : C) (n : Node C α) : Links C α := insert L (.head c) n

end Rtems.Chain
