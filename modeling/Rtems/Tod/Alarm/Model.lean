import Mathlib.Logic.Relation
import Rtems.Tod.Model
import Rtems.Watchdog.Lemmas

/-!
# Alarms

The state keeps, beside the clock, what each timer was last armed for and whether its routine has been
called, so that service routines act on a clock in a larger state.
-/

namespace Rtems.Tod

open Function

variable {σ α : Type*}

/-! ## A clock in a larger state -/

structure Bearer (σ α : Type*) where
  clock : σ → Clock α
  setClock : σ → Clock α → σ

namespace Bearer

variable (B : Bearer σ α)

def host : Watchdog.Host σ ChainName α :=
  ⟨fun s => (B.clock s).timers, fun s T => B.setClock s ((B.clock s).setTimers T)⟩

variable [DecidableEq α] (others : α → σ → σ) (secondsWatchdog : α) (fuel : Nat)

def activate (ticks : UInt32) (s : σ) : Option σ :=
  (Clock.activate secondsWatchdog fuel ticks (B.clock s)).map (B.setClock s)

def setCalendar (d : Calendar) (s : σ) : σ := B.setClock s ((B.clock s).setCalendar d)

/-- `_TOD_Tickle`. -/
def tickle (s : σ) : Option σ :=
  (Watchdog.tickle B.host others .seconds fuel (B.setCalendar (B.clock s).calendar.tickle s)).bind fun s =>
    B.activate secondsWatchdog fuel (B.clock s).calendar.ticksPerSecond s

/-- `_TOD_Set`. -/
def set (tod : Control) (seconds : UInt32) (s : σ) : Option σ :=
  let s := B.setClock s (Clock.deactivate secondsWatchdog (B.clock s))
  let now := (B.clock s).calendar.secondsSinceEpoch
  let adjusted :=
    if seconds < now then
      Watchdog.adjust B.host others .seconds .backward (now - seconds).toNat fuel s
    else Watchdog.adjust B.host others .seconds .forward (seconds - now).toNat fuel s
  adjusted.bind fun s =>
    let calendar := (B.clock s).calendar
    let ticksPerSecond := calendar.ticksPerSecond
    let ticksUntilNextSecond :=
      if ticksPerSecond > calendar.current.ticks then ticksPerSecond - calendar.current.ticks
      else ticksPerSecond
    B.activate secondsWatchdog fuel ticksUntilNextSecond (B.setCalendar (calendar.set tod seconds) s)

/-- `rtems_clock_set`. -/
def clockSet (tod : Control) (s : σ) : Option (σ × Status) :=
  if (B.clock s).calendar.validate tod then
    (B.set others secondsWatchdog fuel tod (toSeconds tod) s).map fun s => (s, .successful)
  else some (s, .invalidClock)

variable {others : α → Clock α → Clock α} {c : Clock α}

end Bearer

/-! ## The directives -/

namespace Clock

variable [DecidableEq α] (fuel : Nat) (w : α)

/-- What the two directives have in common. -/
def alarmAt (prepare : Watchdog.Timers ChainName α → Watchdog.Timers ChainName α) (tod : Control)
    (c : Clock α) : Option (Clock α × Status) :=
  if c.calendar.isSet = false then some (c, .notDefined)
  else if c.calendar.validate tod = false then some (c, .invalidClock)
  else
    let seconds := toSeconds tod
    if seconds ≤ c.calendar.secondsSinceEpoch then some (c, .invalidClock)
    else
      (Watchdog.insert (Watchdog.initializeTimer (prepare c.timers) w) .seconds w
        (seconds - c.calendar.secondsSinceEpoch).toNat fuel).map fun T => (c.setTimers T, .successful)

def fireWhen (wallTime : Control) : Clock α → Option (Clock α × Status) :=
  alarmAt fuel w (fun T => (Watchdog.remove T w).1) wallTime

def wakeWhen (timeBuffer : Control) : Clock α → Option (Clock α × Status) :=
  alarmAt fuel w id { timeBuffer with ticks := 0 }

def cancel (c : Clock α) : Clock α := c.setTimers (Watchdog.remove c.timers w).1

end Clock

/-! ## The alarms -/

/-- When it is due, how often it was called, and whether a step has ended since. -/
structure Alarm where
  time : UInt32
  calls : Nat
  passed : Bool
  deriving DecidableEq, Repr

structure Alarms (α : Type*) where
  clock : Clock α
  alarm : α → Option Alarm

inductive Action (α : Type*)
  | fireWhen (w : α) (wallTime : Control)
  | wakeWhen (w : α) (timeBuffer : Control)
  | cancel (w : α)
  deriving DecidableEq, Repr

namespace Alarms

def setClock (s : Alarms α) (c : Clock α) : Alarms α := { s with clock := c }

def bearer : Bearer (Alarms α) α := ⟨clock, setClock⟩

def seconds (s : Alarms α) : UInt32 := s.clock.calendar.secondsSinceEpoch

def settle (s : Alarms α) : Alarms α :=
  { s with
    alarm := fun w => (s.alarm w).map fun a => { a with passed := a.passed || decide (a.time ≤ s.seconds) } }

variable [DecidableEq α]

def armed (s : Alarms α) (w : α) (tod : Control) (r : Clock α × Status) : Alarms α where
  clock := r.1
  alarm := if r.2 = .successful then update s.alarm w (some ⟨toSeconds tod, 0, false⟩) else s.alarm

def cancelled (s : Alarms α) (w : α) : Alarms α := ⟨s.clock.cancel w, update s.alarm w none⟩

def ring (s : Alarms α) (w : α) : Alarms α :=
  { s with
    alarm := update s.alarm w ((s.alarm w).map fun a => { a with calls := a.calls + 1 }) }

variable (routine : α → Alarms α → Alarms α) (w₀ : α) (fuel : Nat)

def fire (w : α) (s : Alarms α) : Alarms α := routine w (s.ring w)

/-- The timer `w₀` of the seconds is taken off its chain. -/
def second (s : Alarms α) : Option (Alarms α) :=
  (bearer.tickle (fire routine) w₀ fuel (s.setClock (s.clock.deactivate w₀))).map settle

def clockSet (tod : Control) (s : Alarms α) : Option (Alarms α × Status) :=
  (bearer.clockSet (fire routine) w₀ fuel tod s).map (Prod.map settle id)

/-! ## Runs -/

/-- Alarms do not use the timer of the seconds, nor those of executing threads. -/
inductive Performs : Alarms α → Action α → Alarms α → Prop
  | fireWhen {s : Alarms α} {w : α} {wallTime : Control} {fuel : Nat} {r : Clock α × Status} (hw : w ≠ w₀)
      (he : s.clock.fireWhen fuel w wallTime = some r) :
      Performs s (.fireWhen w wallTime) (s.armed w wallTime r)
  | wakeWhen {s : Alarms α} {w : α} {timeBuffer : Control} {fuel : Nat} {r : Clock α × Status}
      (hw : w ≠ w₀) (hs : s.clock.timers.state w = .inactive)
      (he : s.clock.wakeWhen fuel w timeBuffer = some r) :
      Performs s (.wakeWhen w timeBuffer) (s.armed w timeBuffer r)
  | cancel {s : Alarms α} {w : α} (hw : w ≠ w₀) : Performs s (.cancel w) (s.cancelled w)

def Acts (P : Action α → Prop) : Alarms α → Alarms α → Prop :=
  Relation.ReflTransGen fun s s' => ∃ a, P a ∧ Performs w₀ s a s'

/-- Routines that a clock change runs only do actions for which `P` holds. -/
inductive Reachable (P : Action α → Prop) (microsecondsPerTick : UInt32)
    (T : Watchdog.Timers ChainName α) : Alarms α → Prop
  | start {c : Clock α} {fuel : Nat}
      (he : Clock.handlerInitialization w₀ fuel microsecondsPerTick T = some c) :
      Reachable P microsecondsPerTick T ⟨c, fun _ => none⟩
  | act {s s' : Alarms α} {a : Action α} (h : Reachable P microsecondsPerTick T s)
      (hp : Performs w₀ s a s') : Reachable P microsecondsPerTick T s'
  | second {s s' : Alarms α} {routine : α → Alarms α → Alarms α} {fuel : Nat}
      (h : Reachable P microsecondsPerTick T s)
      (hr : ∀ w s, Acts w₀ (fun _ => True) s (routine w s)) (he : s.second routine w₀ fuel = some s') :
      Reachable P microsecondsPerTick T s'
  | clockSet {s s' : Alarms α} {routine : α → Alarms α → Alarms α} {fuel : Nat} {tod : Control}
      {status : Status} (h : Reachable P microsecondsPerTick T s) (hr : ∀ w s, Acts w₀ P s (routine w s))
      (he : s.clockSet routine w₀ fuel tod = some (s', status)) : Reachable P microsecondsPerTick T s'

end Alarms

end Rtems.Tod
