import Rtems.Chain.Model
import Rtems.Words

/-!
# The Object Handler

Each class of objects has one array of control blocks, a chain of those that are inactive, and a
table of pointers to those that are open, indexed from 1. On a single node no class has a
`global_table`, and `_Objects_MP_Is_remote` finds nothing.
-/

namespace Rtems.Objects

open Function Intrusive

/-! ## Ids -/

def indexValidBits : Nat := 0xffff

def nodeValidBits : Nat := 0x3ff

/-- The bits 4 and 5 of a class are not in `OBJECTS_CLASS_VALID_BITS`. -/
def classValidBits : Nat := 0xcf

def buildId (theClass node index : Nat) : Nat :=
  (theClass <<< 26 ||| node <<< 16 ||| index) % 2 ^ 32

def getClass (id : Nat) : Nat := (id >>> 26) &&& classValidBits
def getNode (id : Nat) : Nat := (id >>> 16) &&& nodeValidBits
def getIndex (id : Nat) : Nat := id &&& indexValidBits

/-- `Objects_Locations`. -/
inductive Location
  | objectsLocal
  | objectsRemote
  | objectsError
  deriving DecidableEq, Repr

/-! ## Classes -/

structure Block (C : Type*) where
  owner : C
  number : Nat
  deriving DecidableEq, Repr

/-- `localTable` also has the words behind the end of the table. -/
structure Information (B : Type*) where
  theClass : Nat
  minimumId : Nat
  maximumId : Nat
  maximum : Nat
  localTable : Nat → Option B
  isThread : Bool

structure Table (C : Type*) where
  information : C → Information (Block C)
  id : Block C → Nat
  inactive : Links C (Block C)

structure Configured where
  theClass : Nat
  maximum : Nat
  isThread : Bool
  deriving DecidableEq, Repr

variable {C : Type*}

def blocks (c : C) (maximum : Nat) : List (Block C) := (List.range maximum).map fun k => ⟨c, k + 1⟩

variable [DecidableEq C]

namespace Table

variable (t : Table C)

def setEntry (c : C) (index : Nat) (theObject : Option (Block C)) : Table C :=
  { t with
    information := update t.information c
      { t.information c with
        localTable := update (t.information c).localTable index theObject } }

def initializeInformation (localNode : Nat) (c : C) (theClass maximum : Nat)
    (isThread : Bool) : Table C :=
  let minimumIndex := if maximum = 0 then 0 else 1
  let information : Information (Block C) :=
    { theClass, maximum, isThread
      minimumId := buildId theClass localNode minimumIndex
      maximumId := buildId theClass localNode maximum
      localTable := fun index => if index ≤ maximum then none else (t.information c).localTable index }
  { information := update t.information c information
    id := fun b =>
      if b.owner = c ∧ 1 ≤ b.number ∧ b.number ≤ maximum then buildId theClass localNode b.number
      else t.id b
    inactive :=
      if maximum = 0 then Chain.initializeEmpty t.inactive c
      else Chain.initializeChain t.inactive c (blocks c maximum) }

def initializeClasses (localNode : Nat) (config : C → Configured) (cs : List C) :
    Table C :=
  cs.foldl (fun t c => t.initializeInformation localNode c (config c).theClass (config c).maximum
    (config c).isThread) t

/-- `_Objects_Allocate`: `NULL` when the chain is empty. -/
def allocate (c : C) : Table C × Option (Block C) :=
  if Chain.isEmpty t.inactive c then (t, none)
  else
    let r := Chain.getFirst t.inactive c
    ({ t with inactive := r.1 },
      match r.2 with
      | .obj b => some b
      | _ => none)

def free (c : C) (b : Block C) : Table C :=
  { t with inactive := Chain.append t.inactive c (.obj b) }

/-- `_Objects_Open`. -/
def openObject (c : C) (b : Block C) : Table C := t.setEntry c (getIndex (t.id b)) (some b)

/-- `_Objects_Close`. -/
def closeObject (c : C) (b : Block C) : Table C := t.setEntry c (getIndex (t.id b)) none

end Table

def Information.entry {B : Type*} (i : Information B) (id : Nat) : Option Nat :=
  let index := subWord id i.minimumId
  if i.maximum ≥ index then some (addWord index 1) else none

def Information.get {B : Type*} (i : Information B) (id : Nat) : Location × Option B :=
  match i.entry id with
  | none => (.objectsError, none)
  | some index =>
    match i.localTable index with
    | none => (.objectsError, none)
    | some theObject => (.objectsLocal, some theObject)

/-! ## Opening and closing -/

inductive Move (C : Type*)
  | create (c : C)
  | delete (b : Block C)
  deriving DecidableEq, Repr

structure State (C : Type*) where
  table : Table C
  opened : List (Block C)

def State.step (s : State C) : Move C → Option (State C)
  | .create c =>
    let r := s.table.allocate c
    some (r.2.elim { s with table := r.1 } fun b => ⟨r.1.openObject c b, b :: s.opened⟩)
  | .delete b =>
    if b ∈ s.opened then
      some ⟨(s.table.closeObject b.owner b).free b.owner b, s.opened.erase b⟩
    else none

end Rtems.Objects
