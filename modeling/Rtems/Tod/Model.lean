import Mathlib.Data.UInt
import Rtems.Status
import Rtems.Watchdog.Model

/-!
# The Time of Day Handler

The calendar is the part of the handler's variables that no timer stands in; a clock is a calendar
with the timers, among them the one that calls `_TOD_Tickle` once a second.
-/

namespace Rtems.Tod

structure Control where
  year : UInt32
  month : UInt32
  day : UInt32
  hour : UInt32
  minute : UInt32
  second : UInt32
  ticks : UInt32
  deriving DecidableEq, Repr

/-! ## The tables -/

def daysPerMonth : Bool → UInt32 → UInt32
  | false, month => [0, 31, 28, 31, 30, 31, 30, 31, 31, 30, 31, 30, 31].getD month.toNat 0
  | true, month => [0, 31, 29, 31, 30, 31, 30, 31, 31, 30, 31, 30, 31].getD month.toNat 0

def daysToDate : Bool → UInt32 → UInt32
  | false, month => [0, 0, 31, 59, 90, 120, 151, 181, 212, 243, 273, 304, 334].getD month.toNat 0
  | true, month => [0, 0, 31, 60, 91, 121, 152, 182, 213, 244, 274, 305, 335].getD month.toNat 0

def daysSinceLastLeapYear (yearMod4 : UInt32) : UInt32 :=
  [0, 366, 731, 1096].getD yearMod4.toNat 0

/-! ## The calendar -/

structure Calendar where
  current : Control
  secondsSinceEpoch : UInt32
  microsecondsPerTick : UInt32
  ticksPerSecond : UInt32
  isSet : Bool
  deriving DecidableEq, Repr

def toSeconds (tod : Control) : UInt32 :=
  let time := tod.day - 1
  let yearMod4 := tod.year &&& 3
  let time := time + daysToDate (yearMod4 = 0) tod.month
  let time := time + (tod.year - 1988) / 4 * (365 * 4 + 1)
  let time := time + daysSinceLastLeapYear yearMod4
  let time := time * 86400
  let time := time + (tod.hour * 60 + tod.minute) * 60
  time + tod.second

namespace Calendar

def handlerInitialization (microsecondsPerTick : UInt32) : Calendar where
  current := ⟨1988, 1, 1, 0, 0, 0, 0⟩
  secondsSinceEpoch := 0
  microsecondsPerTick := microsecondsPerTick
  ticksPerSecond := if microsecondsPerTick = 0 then 0 else 1000000 / microsecondsPerTick
  isSet := false

def validate (c : Calendar) (tod : Control) : Bool :=
  if tod.ticks ≥ c.ticksPerSecond ∨ tod.second ≥ 60 ∨ tod.minute ≥ 60 ∨ tod.hour ≥ 24 ∨
      tod.month = 0 ∨ tod.month > 12 ∨ tod.year < 1988 ∨ tod.day = 0 then false
  else if tod.day > daysPerMonth (tod.year % 4 = 0) tod.month then false
  else true

def carry (tod : Control) : Control :=
  let tod := { tod with second := tod.second + 1 }
  if tod.second ≥ 60 then
    let tod := { tod with second := 0, minute := tod.minute + 1 }
    if tod.minute ≥ 60 then
      let tod := { tod with minute := 0, hour := tod.hour + 1 }
      if tod.hour ≥ 24 then
        let tod := { tod with hour := 0, day := tod.day + 1 }
        if tod.day > daysPerMonth (tod.year &&& 3 = 0) tod.month then
          let tod := { tod with day := 1, month := tod.month + 1 }
          if tod.month > 12 then { tod with month := 1, year := tod.year + 1 } else tod
        else tod
      else tod
    else tod
  else tod

/-- What `_TOD_Tickle` does to the calendar. -/
def tickle (c : Calendar) : Calendar :=
  { c with
    current := carry { c.current with ticks := 0 }
    secondsSinceEpoch := c.secondsSinceEpoch + 1 }

/-- What `_TOD_Set` does to the calendar. -/
def set (c : Calendar) (tod : Control) (secondsSinceEpoch : UInt32) : Calendar :=
  { c with current := tod, secondsSinceEpoch := secondsSinceEpoch, isSet := true }

end Calendar

/-! ## The clock -/

inductive ChainName
  | ticks
  | seconds
  deriving DecidableEq, Repr

structure Clock (α : Type*) where
  calendar : Calendar
  timers : Watchdog.Timers ChainName α

namespace Clock

variable {α : Type*}

def setTimers (c : Clock α) (T : Watchdog.Timers ChainName α) : Clock α := { c with timers := T }

def setCalendar (c : Clock α) (d : Calendar) : Clock α := { c with calendar := d }

def host : Watchdog.Host (Clock α) ChainName α := ⟨timers, setTimers⟩

variable [DecidableEq α] (others : α → Clock α → Clock α) (secondsWatchdog : α) (fuel : Nat)

def activate (ticks : UInt32) (c : Clock α) : Option (Clock α) :=
  (Watchdog.insert c.timers .ticks secondsWatchdog ticks.toNat fuel).map c.setTimers

def deactivate (c : Clock α) : Clock α :=
  c.setTimers (Watchdog.remove c.timers secondsWatchdog).1

/-- `_TOD_Handler_initialization`, on timers that are set up. -/
def handlerInitialization (microsecondsPerTick : UInt32) (T : Watchdog.Timers ChainName α) :
    Option (Clock α) :=
  let d := Calendar.handlerInitialization microsecondsPerTick
  activate secondsWatchdog fuel d.ticksPerSecond ⟨d, Watchdog.initializeTimer T secondsWatchdog⟩

/-- `_TOD_Tickle`; `others` are the routines of other timers. -/
def tickle (c : Clock α) : Option (Clock α) :=
  (Watchdog.tickle host others .seconds fuel (c.setCalendar c.calendar.tickle)).bind fun c =>
    activate secondsWatchdog fuel c.calendar.ticksPerSecond c

def routine (w : α) (c : Clock α) : Clock α :=
  if w = secondsWatchdog then (tickle others secondsWatchdog fuel c).getD c else others w c

/-- `_TOD_Set`, with the ticks of the old time of day. -/
def set (tod : Control) (seconds : UInt32) (c : Clock α) : Option (Clock α) :=
  let c := deactivate secondsWatchdog c
  let now := c.calendar.secondsSinceEpoch
  let adjusted :=
    if seconds < now then
      Watchdog.adjust host others .seconds .backward (now - seconds).toNat fuel c
    else Watchdog.adjust host others .seconds .forward (seconds - now).toNat fuel c
  adjusted.bind fun c =>
    let ticksPerSecond := c.calendar.ticksPerSecond
    let ticksUntilNextSecond :=
      if ticksPerSecond > c.calendar.current.ticks then ticksPerSecond - c.calendar.current.ticks
      else ticksPerSecond
    activate secondsWatchdog fuel ticksUntilNextSecond (c.setCalendar (c.calendar.set tod seconds))

def clockSet (tod : Control) (c : Clock α) : Option (Clock α × Status) :=
  if c.calendar.validate tod then
    (set others secondsWatchdog fuel tod (toSeconds tod) c).map fun c => (c, .successful)
  else some (c, .invalidClock)

def tickleTicks (c : Clock α) : Clock α :=
  let current := c.calendar.current
  { calendar := { c.calendar with current := { current with ticks := current.ticks + 1 } }
    timers := { c.timers with ticksSinceBoot := addWord c.timers.ticksSinceBoot 1 } }

def clockTick (c : Clock α) : Option (Clock α) :=
  Watchdog.tickle host (routine others secondsWatchdog fuel) .ticks fuel (tickleTicks c)

end Clock

end Rtems.Tod
