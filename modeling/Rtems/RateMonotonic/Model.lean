import Mathlib.Data.Fintype.Basic
import Rtems.Library.Transition
import Rtems.Status
import Rtems.Thread.Model

/-!
# The Rate Monotonic Manager

A call of `rtems_rate_monotonic_period` is cut where it enables interrupts, and there the clock may
tick. No other thread runs during a call, since dispatching is disabled.
-/

namespace Rtems.RateMonotonic

/-- `rtems_rate_monotonic_period_states`. -/
inductive PeriodState
  | inactive
  | ownerIsBlocking
  | active
  | expiredWhileBlocking
  | expired
  deriving DecidableEq, Repr

/-- With the ticks that are left while the timer is active. -/
structure Period where
  state : PeriodState
  initial : Nat
  remaining : Option Nat
  deriving DecidableEq, Repr

structure Thread (P : Type*) where
  currentState : States
  waitId : Option P
  deriving DecidableEq, Repr

/-- Where a call of `rtems_rate_monotonic_period` is. -/
inductive Point
  | test (length : Nat)
  | activate (length : Nat) (status : Status)
  | insert (length : Nat) (status : Status)
  | setWaitId
  | setState
  | readState
  | clearState (localState : PeriodState)
  deriving DecidableEq, Repr

structure System (P T : Type*) where
  period : P → Period
  owner : P → T
  thread : T → Thread P
  executing : T
  call : Option (P × Point)
  status : Status

namespace System

variable {P T : Type*} [DecidableEq P] [DecidableEq T] (s : System P T) (p : P)

def modifyPeriod (f : Period → Period) : System P T :=
  { s with period := Function.update s.period p (f (s.period p)) }

def modifyThread (t : T) (f : Thread P → Thread P) : System P T :=
  { s with thread := Function.update s.thread t (f (s.thread t)) }

def setPeriodState (state : PeriodState) : System P T := s.modifyPeriod p fun c => { c with state := state }

def goto (point : Point) : System P T := { s with call := some (p, point) }

def finish (status : Status) : System P T := { s with call := none, status := status }

/-- Whether a thread is in `STATES_WAITING_FOR_PERIOD`. -/
def isWaitingForPeriod (t : T) : Bool := States.areSet (s.thread t).currentState States.waitingForPeriod

def waits : Bool := s.isWaitingForPeriod (s.owner p) ∧ (s.thread (s.owner p)).waitId = some p

/-! ## `rtems_rate_monotonic_period` -/

/-- What is returned for `RTEMS_PERIOD_STATUS`. -/
def periodStatus : PeriodState → Status
  | .inactive => .notDefined
  | .active => .successful
  | .expired => .timeout
  | .ownerIsBlocking | .expiredWhileBlocking => .internalError

def ratePeriod (length : Nat) : System P T :=
  if s.owner p ≠ s.executing then s.finish .notOwnerOfResource
  else if length = 0 then s.finish (periodStatus (s.period p).state)
  else s.goto p (.test length)

def advance : Point → System P T
  | .test length =>
    match (s.period p).state with
    | .inactive => s.goto p (.activate length .successful)
    | .active => (s.setPeriodState p .ownerIsBlocking).goto p .setWaitId
    | .expired => s.goto p (.activate length .timeout)
    | .ownerIsBlocking | .expiredWhileBlocking => s.finish .internalError
  | .activate length status => (s.setPeriodState p .active).goto p (.insert length status)
  | .insert length status =>
    (s.modifyPeriod p fun c => { c with initial := length, remaining := some length }).finish status
  | .setWaitId => (s.modifyThread s.executing fun c => { c with waitId := some p }).goto p .setState
  | .setState =>
    (s.modifyThread s.executing fun c =>
      { c with currentState := States.set States.waitingForPeriod c.currentState }).goto p .readState
  | .readState => (s.setPeriodState p .active).goto p (.clearState (s.period p).state)
  | .clearState localState =>
    let s :=
      if localState = .expiredWhileBlocking then
        s.modifyThread s.executing fun c =>
          { c with currentState := States.clear States.waitingForPeriod c.currentState }
      else s
    s.finish .successful

def cancel : System P T :=
  if s.owner p ≠ s.executing then s.finish .notOwnerOfResource
  else (s.modifyPeriod p fun c => { c with state := .inactive, remaining := none }).finish .successful

/-! ## Ticks -/

def timeout : System P T :=
  if s.waits p then
    (s.modifyThread (s.owner p) fun c =>
      { c with currentState := States.clear States.blocked c.currentState }).modifyPeriod p fun c =>
        { c with remaining := some c.initial }
  else if (s.period p).state = .ownerIsBlocking then
    s.modifyPeriod p fun c => { c with state := .expiredWhileBlocking, remaining := some c.initial }
  else s.modifyPeriod p fun c => { c with state := .expired, remaining := none }

def count : System P T :=
  { s with period := fun p => { s.period p with remaining := (s.period p).remaining.map (· - 1) } }

def tick (expired : List P) : System P T := expired.foldl timeout s.count

end System

/-! ## Runs -/

inductive Move (P T : Type*)
  | switch (t : T)
  | ratePeriod (p : P) (length : Nat)
  | cancel (p : P)
  | advance
  | tick (expired : List P)
  | block (state : States) (waitId : Option P)
  | unblock (t : T)
  | suspend (t : T)
  | resume (t : T)
  deriving DecidableEq, Repr

variable {P T : Type*} [DecidableEq P] [DecidableEq T] [Fintype P]

def System.step (s : System P T) : Move P T → Option (System P T)
  | .switch t =>
    if s.call = none ∧ States.isReady (s.thread t).currentState then some { s with executing := t } else none
  | .ratePeriod p length =>
    if s.call = none ∧ States.isReady (s.thread s.executing).currentState then some (s.ratePeriod p length)
    else none
  | .cancel p =>
    if s.call = none ∧ States.isReady (s.thread s.executing).currentState then some (s.cancel p) else none
  | .advance => s.call.map fun c => s.advance c.1 c.2
  | .tick expired =>
    if expired.Nodup ∧ ∀ p, p ∈ expired ↔ (s.period p).remaining = some 1 then some (s.tick expired) else none
  | .block state waitId =>
    if s.call = none ∧ States.isReady (s.thread s.executing).currentState ∧
        ¬ States.areSet state States.waitingForPeriod then
      some (s.modifyThread s.executing fun _ => ⟨state, waitId⟩)
    else none
  | .unblock t =>
    if s.isWaitingForPeriod t then none
    else some (s.modifyThread t fun c =>
      { c with currentState := States.clear States.blocked c.currentState })
  | .suspend t =>
    some (s.modifyThread t fun c => { c with currentState := States.set States.suspended c.currentState })
  | .resume t =>
    some (s.modifyThread t fun c => { c with currentState := States.clear States.suspended c.currentState })

def System.initial (owner : P → T) (executing : T) : System P T where
  period := fun _ => ⟨.inactive, 0, none⟩
  owner := owner
  thread := fun _ => ⟨States.ready, none⟩
  executing := executing
  call := none
  status := .successful

end Rtems.RateMonotonic
