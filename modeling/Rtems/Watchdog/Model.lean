import Rtems.Chain.Model
import Rtems.Words

/-!
# The Watchdog Handler

Timers of type `α` stand on the delta chains named by `H`. `_Watchdog_Insert` is a machine whose
points are the places where it has interrupts enabled; between two of them it runs undisturbed.
-/

namespace Rtems.Watchdog

open Intrusive

/-- `Watchdog_States`. -/
inductive TimerState
  | inactive
  | beingInserted
  | active
  | removeIt
  deriving DecidableEq, Repr

/-- `Watchdog_Control`, without the node and the routine. -/
structure Control where
  state : TimerState
  initial : Nat
  deltaInterval : Nat
  startTime : Nat
  stopTime : Nat
  deriving DecidableEq, Repr

structure Timers (H α : Type*) where
  links : Links H α
  control : α → Control
  syncLevel : Nat
  syncCount : Nat
  ticksSinceBoot : Nat
  isrNestLevel : Nat

/-- After `_Watchdog_Handler_initialization`, with inactive timers. -/
def Timers.idle {H α : Type*} : Timers H α := ⟨.empty, fun _ => ⟨.inactive, 0, 0, 0, 0⟩, 0, 0, 0, 0⟩

variable {H α σ : Type*} [DecidableEq H] [DecidableEq α]

namespace Timers

variable (T : Timers H α)

def modify (w : α) (f : Control → Control) : Timers H α :=
  { T with control := Function.update T.control w (f (T.control w)) }

def setState (w : α) (s : TimerState) : Timers H α :=
  T.modify w fun c => { c with state := s }

def setInitial (w : α) (units : Nat) : Timers H α :=
  T.modify w fun c => { c with initial := units }

def setDelta (w : α) (interval : Nat) : Timers H α :=
  T.modify w fun c => { c with deltaInterval := interval }

def setStartTime (w : α) (t : Nat) : Timers H α :=
  T.modify w fun c => { c with startTime := t }

def setStopTime (w : α) (t : Nat) : Timers H α :=
  T.modify w fun c => { c with stopTime := t }

end Timers

/-! ## watchdog.inl -/

variable (T : Timers H α)

def initializeTimer (w : α) : Timers H α := T.setState w .inactive
def isActive (w : α) : Bool := (T.control w).state = .active
def activate (w : α) : Timers H α := T.setState w .active
def deactivate (w : α) : Timers H α := T.setState w .removeIt

/-! ## `_Watchdog_Remove` -/

/-- `next_watchdog->delta_interval += …`, but for the tail. -/
def passDelta (w : α) : Timers H α :=
  match T.links.next (.obj w) with
  | .obj v =>
    if T.links.next (.obj v) ≠ .null then
      T.setDelta v (addWord (T.control v).deltaInterval (T.control w).deltaInterval)
    else T
  | _ => T

def noteRemoval : Timers H α :=
  if T.syncCount ≠ 0 then { T with syncLevel := T.isrNestLevel } else T

def remove (w : α) : Timers H α × TimerState :=
  let previousState := (T.control w).state
  let T :=
    match previousState with
    | .inactive => T
    | .beingInserted => T.setState w .inactive
    | .active | .removeIt =>
      let T := T.setState w .inactive
      let T := passDelta T w
      let T := noteRemoval T
      { T with links := Chain.extract T.links (.obj w) }
  (T.setStopTime w T.ticksSinceBoot, previousState)

/-! ## `_Watchdog_Insert` -/

/-- Where `_Watchdog_Insert` has interrupts enabled. -/
inductive InsertPoint (H α : Type*)
  | entry
  /-- The timer is `BEING_INSERTED`, the count is not yet raised. -/
  | marked (level : Nat)
  | restart (level : Nat)
  | loaded (level deltaInterval : Nat)
  /-- In the `_ISR_Flash` of the loop. -/
  | flash (level deltaInterval : Nat) (after : Node H α)
  | done
  deriving DecidableEq, Repr

/-- From the label `exit_insert` on. -/
def exitInsert (level : Nat) : Timers H α × InsertPoint H α :=
  ({ T with syncLevel := level, syncCount := T.syncCount - 1 }, .done)

def linkIn (w : α) (level deltaInterval : Nat) (after : Node H α) :
    Timers H α × InsertPoint H α :=
  let T := activate T w
  let T := T.setDelta w deltaInterval
  let T := { T with links := Chain.insert T.links (T.links.previous after) (.obj w) }
  let T := T.setStartTime w T.ticksSinceBoot
  exitInsert T level

def search (w : α) (level deltaInterval : Nat) (after : Node H α) :
    Timers H α × InsertPoint H α :=
  if deltaInterval = 0 ∨ T.links.next after = .null then linkIn T w level deltaInterval after
  else
    match after with
    | .obj a =>
      if deltaInterval < (T.control a).deltaInterval then
        linkIn (T.setDelta a (subWord (T.control a).deltaInterval deltaInterval)) w level
          deltaInterval after
      else (T, .flash level (subWord deltaInterval (T.control a).deltaInterval) after)
    | _ => (T, .done)

def insertStep (header : H) (w : α) :
    InsertPoint H α → Timers H α × InsertPoint H α
  | .entry => (T.setState w .beingInserted, .marked T.isrNestLevel)
  | .marked level => ({ T with syncCount := T.syncCount + 1 }, .restart level)
  | .restart level => (T, .loaded level (T.control w).initial)
  | .loaded level d => search T w level d (Chain.first T.links header)
  | .flash level d after =>
    if (T.control w).state ≠ .beingInserted then exitInsert T level
    else if T.syncLevel > level then ({ T with syncLevel := level }, .restart level)
    else search T w level d (T.links.next after)
  | .done => (T, .done)

/-- The rest of the call without an interrupt; `none` without fuel. -/
def insertFrom (header : H) (w : α) : Nat → Timers H α → InsertPoint H α → Option (Timers H α)
  | 0, _, _ => none
  | fuel + 1, T, p =>
    match insertStep T header w p with
    | (T, .done) => some T
    | (T, p) => insertFrom header w fuel T p

/-- `_Watchdog_Insert_ticks` and its kin. -/
def insert (header : H) (w : α) (units fuel : Nat) : Option (Timers H α) :=
  insertFrom header w fuel (T.setInitial w units) .entry

/-! ## `_Watchdog_Tickle` -/

def tickleStart (header : H) : Timers H α × Option α :=
  if Chain.isEmpty T.links header then (T, none)
  else
    match Chain.first T.links header with
    | .obj w =>
      let T := T.setDelta w (subWord (T.control w).deltaInterval 1)
      (T, if (T.control w).deltaInterval ≠ 0 then none else some w)
    | _ => (T, none)

def tickleNext (header : H) : Option α :=
  match Chain.first T.links header with
  | .obj w =>
    if ¬ Chain.isEmpty T.links header ∧ (T.control w).deltaInterval = 0 then some w else none
  | _ => none

structure Host (σ H α : Type*) where
  timers : σ → Timers H α
  setTimers : σ → Timers H α → σ

variable (host : Host σ H α) (routine : α → σ → σ)

/-- The first timer is removed, and its routine run if it was active. -/
def tickleLoop (header : H) : Nat → σ → α → Option σ
  | 0, _, _ => none
  | fuel + 1, s, w =>
    let (T, previousState) := remove (host.timers s) w
    let s := host.setTimers s T
    let s := if previousState = .active then routine w s else s
    match tickleNext (host.timers s) header with
    | some v => tickleLoop header fuel s v
    | none => some s

def tickle (header : H) (fuel : Nat) (s : σ) : Option σ :=
  let (T, w) := tickleStart (host.timers s) header
  let s := host.setTimers s T
  match w with
  | some w => tickleLoop host routine header fuel s w
  | none => some s

/-! ## `_Watchdog_Adjust` -/

/-- `Watchdog_Adjust_directions`. -/
inductive Direction
  | forward
  | backward
  deriving DecidableEq, Repr

def adjustForward (header : H) : Nat → σ → Nat → Option σ
  | 0, _, _ => none
  | fuel + 1, s, units =>
    if units = 0 then some s
    else
      let T := host.timers s
      match Chain.first T.links header with
      | .obj w =>
        if units < (T.control w).deltaInterval then
          some (host.setTimers s (T.setDelta w (subWord (T.control w).deltaInterval units)))
        else
          let units := subWord units (T.control w).deltaInterval
          match tickle host routine header fuel (host.setTimers s (T.setDelta w 1)) with
          | none => none
          | some s =>
            if Chain.isEmpty (host.timers s).links header then some s
            else adjustForward header fuel s units
      | _ => some s

def adjust (header : H) (direction : Direction) (units fuel : Nat) (s : σ) : Option σ :=
  let T := host.timers s
  if Chain.isEmpty T.links header then some s
  else
    match direction with
    | .backward =>
      match Chain.first T.links header with
      | .obj w =>
        some (host.setTimers s (T.setDelta w (addWord (T.control w).deltaInterval units)))
      | _ => some s
    | .forward => adjustForward host routine header fuel s units

end Rtems.Watchdog
