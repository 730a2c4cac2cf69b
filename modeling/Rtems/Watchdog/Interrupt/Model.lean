import Rtems.Watchdog.Model

/-!
# The Watchdog Handler with nested interrupts

A machine runs a stack of calls, the newest first. Between two moves a handler may come on top, one nest
level higher. All code removes timers, inserts them and announces ticks as it pleases.
-/

namespace Rtems.Watchdog

open Function Intrusive

/-- With the ticks of the chain at the call and at the search, and whether it was removed. -/
structure Call (H α : Type*) where
  header : H
  timer : α
  point : InsertPoint H α
  level : Nat
  called : Nat
  began : Nat
  removed : Bool
  deriving DecidableEq, Repr

inductive Frame (H α : Type*)
  | body (level : Nat)
  | insert (c : Call H α)
  /-- `_Watchdog_Tickle` about to remove a timer, or after a round. -/
  | tick (header : H) (next : Option α) (level : Nat)
  deriving DecidableEq, Repr

/-- The ticks of each chain, and where and when each timer is to expire. -/
structure Machine (H α : Type*) where
  timers : Timers H α
  frames : List (Frame H α)
  clock : H → Nat
  expiry : α → Option (H × Nat)

inductive Move (H α : Type*)
  | interrupt
  | ret
  | remove (w : α)
  | insert (header : H) (w : α) (units : Nat)
  | tick (header : H)
  | go
  deriving DecidableEq, Repr

variable {H α : Type*} [DecidableEq H] [DecidableEq α]

namespace Frame

def level : Frame H α → Nat
  | .body level => level
  | .insert c => c.level
  | .tick _ _ level => level

def timer : Frame H α → Option α
  | .insert c => some c.timer
  | _ => none

def ticks : Frame H α → Option H
  | .tick header _ _ => some header
  | _ => none

/-- The insertion has raised `_Watchdog_Sync_count`. -/
def counted : Frame H α → Bool
  | .insert c =>
    match c.point with
    | .restart _ | .loaded _ _ | .flash _ _ _ => true
    | _ => false
  | _ => false

def note (w : α) : Frame H α → Frame H α
  | .insert c => .insert { c with removed := c.removed || (c.timer == w && c.point != .entry) }
  | f => f

end Frame

namespace Machine

def setNest (M : Machine H α) (level : Nat) : Machine H α :=
  { M with timers := { M.timers with isrNestLevel := level } }

def remove (M : Machine H α) (w : α) : Machine H α :=
  { M with
    timers := (Watchdog.remove M.timers w).1
    frames := M.frames.map (Frame.note w)
    expiry := update M.expiry w none }

/-- `_Watchdog_Tickle`, up to its loop. -/
def tick (M : Machine H α) (header : H) (level : Nat) : Machine H α :=
  let (T, w) := tickleStart M.timers header
  { M with
    timers := T
    clock := update M.clock header (M.clock header + 1)
    frames := (w.map fun w => .tick header (some w) level).toList ++ M.frames }

def began (M : Machine H α) (c : Call H α) : Nat :=
  match c.point with
  | .loaded _ _ => M.clock c.header
  | _ => c.began

def advance (M : Machine H α) (c : Call H α) (rest : List (Frame H α)) : Machine H α :=
  let (T, p) := insertStep M.timers c.header c.timer c.point
  match p with
  | .done =>
    { M with
      timers := T
      frames := rest
      expiry :=
        if isActive T c.timer then
          update M.expiry c.timer
            (some (c.header, (T.control c.timer).initial + M.began c))
        else M.expiry }
  | p => { M with timers := T, frames := .insert { c with point := p, began := M.began c } :: rest }

/-- The loop of `_Watchdog_Tickle` goes on. -/
def tickleGo (M : Machine H α) (header : H) (next : Option α) (level : Nat)
    (rest : List (Frame H α)) : Machine H α :=
  match next with
  | some w =>
    let wait := .tick header none level :: rest.map (Frame.note w)
    { M.remove w with
      frames := if (Watchdog.remove M.timers w).2 = .active then .body level :: wait else wait }
  | none =>
    match tickleNext M.timers header with
    | some w => { M with frames := .tick header (some w) level :: rest }
    | none => { M with frames := rest }

/-- Handlers insert inactive timers; a tick does not come during one of its chain. Nothing comes between
the reads of `_Watchdog_Tickle`: before its loop, and in the test of the loop. -/
def perform (M : Machine H α) : Move H α → Option (Machine H α)
  | .interrupt =>
    match M.frames with
    | f :: _ => some { M.setNest (f.level + 1) with frames := .body (f.level + 1) :: M.frames }
    | [] => none
  | .ret =>
    match M.frames with
    | .body _ :: f :: rest => some { M.setNest f.level with frames := f :: rest }
    | _ => none
  | .remove w =>
    match M.frames with
    | .body _ :: _ => some (M.remove w)
    | _ => none
  | .insert header w units =>
    match M.frames with
    | .body level :: _ =>
      if (M.timers.control w).state = .inactive ∧ (∀ f ∈ M.frames, f.timer ≠ some w) ∧
          0 < units ∧ units < 2 ^ 32 then
        some { M with
          timers := M.timers.setInitial w units
          frames := .insert ⟨header, w, .entry, level, M.clock header, M.clock header, false⟩ ::
            M.frames }
      else none
    | _ => none
  | .tick header =>
    match M.frames with
    | .body level :: _ =>
      if ∀ f ∈ M.frames, f.ticks ≠ some header then some (M.tick header level) else none
    | _ => none
  | .go =>
    match M.frames with
    | .insert c :: rest => some (M.advance c rest)
    | .tick header next level :: rest => some (M.tickleGo header next level rest)
    | _ => none

end Machine

/-- After `_Watchdog_Handler_initialization`, at some level. -/
structure Machine.Initial (M : Machine H α) : Prop where
  empty : Represents M.timers.links fun _ => some []
  inactive : ∀ w, (M.timers.control w).state = .inactive
  delta_lt : ∀ w, (M.timers.control w).deltaInterval < 2 ^ 32
  count : M.timers.syncCount = 0
  frames : M.frames = [.body M.timers.isrNestLevel]
  expiry : ∀ w, M.expiry w = none

inductive Machine.Reachable (Q : Machine H α → Prop) : Machine H α → Prop
  | initial {M : Machine H α} (h : M.Initial) : Reachable Q M
  | move {M M' : Machine H α} {m : Move H α} (hM : Reachable Q M) (hQ : m = .go → Q M)
      (he : M.perform m = some M') : Reachable Q M'

end Rtems.Watchdog
