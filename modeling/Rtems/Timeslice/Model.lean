import Rtems.Thread.Model

/-!
# Time slices

The budget is set when a thread with `RESET_TIMESLICE` is switched to, when a slice has been used up,
and by `pthread_setschedparam`. The creation of a thread leaves the budget that it finds in the control
block.
-/

namespace Rtems.Timeslice

open Intrusive Thread

/-! ## Scheduling parameters -/

inductive SchedPolicy
  | other
  | fifo
  | rr
  | sporadic
  deriving DecidableEq, Repr

def SchedPolicy.budgetAlgorithm : SchedPolicy → BudgetAlgorithm
  | .other => .resetTimeslice
  | .fifo => .none
  | .rr => .exhaustTimeslice
  | .sporadic => .callout

/-- `struct sched_param`, with its times in ticks. -/
structure SchedParam where
  schedPriority : Int
  ssLowPriority : Int
  ssReplenishPeriod : Nat
  ssInitialBudget : Nat
  deriving DecidableEq, Repr

/-- `_POSIX_Priority_Is_valid`. -/
def isValidPriority (p : Int) : Bool := 1 ≤ p ∧ p ≤ 255

/-- `_POSIX_Priority_To_core`, modulo the number of priorities. -/
def priorityToCore (p : Int) : Priority := .of ((256 - p) % 256).toNat

/-- If a check fails the two directives return `EINVAL`. -/
def SchedParam.isValid (policy : SchedPolicy) (p : SchedParam) : Bool :=
  isValidPriority p.schedPriority &&
    (policy ≠ .sporadic || p.ssInitialBudget ≤ p.ssReplenishPeriod && isValidPriority p.ssLowPriority)

/-- `sporadicTimer` says that the timer is inserted. -/
structure Api where
  schedpolicy : SchedPolicy
  schedparam : SchedParam
  ssHighPriority : Int
  sporadicTimer : Bool
  deriving DecidableEq, Repr

inductive ThreadClass
  | internalThreads
  | rtemsTasks
  | posixThreads
  deriving DecidableEq, Repr

/-- `ahead`, which is not in the code, counts the ticks that the executing thread has run in a row ahead of
another ready thread of its priority. -/
structure System (C T : Type*) where
  scheduler : Scheduler C T
  api : T → Api
  objectClass : T → Option ThreadClass
  isUp : Bool
  ahead : Nat

inductive Move (T : Type*)
  | taskCreate (t : T) (initialPriority : Priority) (initialModes : BitVec 32)
  | taskStart (t : T)
  | pthreadCreate (t : T) (explicit : Option (SchedPolicy × SchedParam))
  | setschedparam (t : T) (policy : SchedPolicy) (param : SchedParam)
  | taskMode (modeSet mask : BitVec 32)
  | startMultitasking
  | dispatch
  | tick (expired : List T)
  | setState (t : T) (state : States)
  | clearState (t : T) (state : States)
  | changePriority (t : T) (newPriority : Priority) (prependIt : Bool)
  | yieldProcessor
  deriving DecidableEq, Repr

/-- `RESET_TIMESLICE` or `EXHAUST_TIMESLICE`. -/
def timesliced : BudgetAlgorithm → Bool
  | .resetTimeslice | .exhaustTimeslice => true
  | .none | .callout => false

variable {C T : Type*} [DecidableEq C] [DecidableEq T]

/-! ## Creation -/

def initializeThread (S : Scheduler C T) (t : T) (priority : Priority) (isPreemptible : Bool)
    (budgetAlgorithm : BudgetAlgorithm) : Scheduler C T :=
  let S := S.modify t fun c =>
    { c with
      start := ⟨priority, isPreemptible, budgetAlgorithm⟩
      currentState := States.dormant
      resourceCount := 0
      realPriority := priority
      ticksExecuted := 0 }
  S.setPriority t priority

def leads (S : Scheduler C T) : Bool :=
  S.links.next (.obj S.executing) ≠ .tail (.ready (S.control S.executing).ready)

def isCounted (S : Scheduler C T) : Bool :=
  let c := S.control S.executing
  c.isPreemptible && States.isReady c.currentState && timesliced c.budgetAlgorithm

namespace System

def executing (s : System C T) : T := s.scheduler.executing

def control (s : System C T) (t : T) : Control := s.scheduler.control t

variable (s : System C T)

def modifyApi (t : T) (f : Api → Api) : System C T :=
  { s with api := Function.update s.api t (f (s.api t)) }

def switched (S : Scheduler C T) : System C T :=
  { s with scheduler := S, ahead := if S.executing = s.executing then s.ahead else 0 }

def create (t : T) (cls : ThreadClass) (priority : Priority) (isPreemptible : Bool)
    (budgetAlgorithm : BudgetAlgorithm) : System C T :=
  { s with
      scheduler := initializeThread s.scheduler t priority isPreemptible budgetAlgorithm
      objectClass := Function.update s.objectClass t (some cls) }.modifyApi t fun a =>
    { a with
      schedpolicy := .fifo
      schedparam := ⟨256 - priority.val, 0, 1, 1⟩
      sporadicTimer := false }

def taskCreate (t : T) (initialPriority : Priority) (initialModes : BitVec 32) :
    System C T :=
  let s := s.create t .rtemsTasks initialPriority (initialModes &&& Scheduler.preemptMask = 0)
    (if initialModes &&& Scheduler.timesliceMask = Scheduler.timesliceMask then .resetTimeslice else .none)
  let isEnabled := !decide (initialModes &&& Scheduler.asrMask = Scheduler.asrMask)
  { s with scheduler := s.scheduler.modify t fun c => { c with asr := { c.asr with isEnabled } } }

def start (s : System C T) (t : T) : System C T := { s with scheduler := (s.scheduler.start t).1 }

def inherited (explicit : Option (SchedPolicy × SchedParam)) : SchedPolicy × SchedParam :=
  explicit.getD ((s.api s.executing).schedpolicy, (s.api s.executing).schedparam)

def pthreadCreate (t : T) (explicit : Option (SchedPolicy × SchedParam)) : System C T :=
  let (policy, param) := s.inherited explicit
  if ¬ param.isValid policy then s
  else
    let s := s.create t .posixThreads (priorityToCore param.schedPriority) true policy.budgetAlgorithm
    let s := s.modifyApi t fun a => { a with schedpolicy := policy, schedparam := param }
    let s :=
      { s with
        scheduler := s.scheduler.modify t fun c =>
          { c with doPostTaskSwitchExtension := true, lowPriority := priorityToCore param.ssLowPriority } }
    let s := s.start t
    if policy = .sporadic then s.modifyApi t fun a => { a with sporadicTimer := true } else s

/-! ## Policies -/

def sporadicBudgetTsr (t : T) : System C T :=
  let ticks := (s.api t).schedparam.ssInitialBudget
  let ticks := if ticks = 0 then 1 else ticks
  let newPriority := priorityToCore (s.api t).ssHighPriority
  let S := s.scheduler.modify t fun c => { c with cpuTimeBudget := ticks, realPriority := newPriority }
  let S :=
    if (S.control t).resourceCount = 0 ∨ (S.control t).currentPriority > newPriority then
      S.changePriority t newPriority true
    else S
  { s with scheduler := S }.modifyApi t fun a => { a with sporadicTimer := true }

/-- The first half of `pthread_setschedparam`. -/
def setPolicy (t : T) (policy : SchedPolicy) (param : SchedParam) : System C T :=
  let s := s.modifyApi t fun a =>
    { a with
      sporadicTimer := if a.schedpolicy = .sporadic then false else a.sporadicTimer
      schedpolicy := policy
      schedparam := param }
  { s with
    scheduler := s.scheduler.modify t fun c =>
      { c with
        budgetAlgorithm := policy.budgetAlgorithm
        lowPriority := priorityToCore param.ssLowPriority } }

/-- The second half of `pthread_setschedparam`, but for `SCHED_SPORADIC`. -/
def setSlice (t : T) (newPriority : Priority) : System C T :=
  let S := s.scheduler.modify t fun c =>
    { c with cpuTimeBudget := s.scheduler.ticksPerTimeslice, realPriority := newPriority }
  { s with scheduler := S.changePriority t newPriority true }

def setschedparam (t : T) (policy : SchedPolicy) (param : SchedParam) : System C T :=
  if ¬ param.isValid policy then s
  else
    let s := s.setPolicy t policy param
    match policy with
    | .other | .fifo | .rr => s.setSlice t (priorityToCore param.schedPriority)
    | .sporadic => (s.modifyApi t fun a => { a with ssHighPriority := param.schedPriority }).sporadicBudgetTsr t

/-! ## Ticks and switches -/

def expire (s : System C T) : List T → System C T
  | [] => s
  | t :: ts =>
    (if (s.api t).sporadicTimer then
      (s.modifyApi t fun a => { a with sporadicTimer := false }).sporadicBudgetTsr t
    else s).expire ts

/-- `_Thread_Tickle_timeslice`, with the count of `ahead`. -/
def tickle : System C T :=
  let S := s.scheduler.tickleTimeslice
  { s with scheduler := S, ahead := if isCounted s.scheduler ∧ leads S then s.ahead + 1 else 0 }

def startMultitasking : System C T :=
  { s.switched { s.scheduler with contextSwitchNecessary := false, executing := s.scheduler.heir } with
    isUp := true }

def isFree (t : T) : Bool := s.objectClass t = none ∧ t ≠ s.executing

def step : Move T → Option (System C T)
  | .taskCreate t p modes => if s.isFree t then some (s.taskCreate t p modes) else none
  | .taskStart t =>
    if s.objectClass t ≠ none ∧ States.isDormant (s.control t).currentState ∧ t ≠ s.executing then
      some (s.start t)
    else none
  | .pthreadCreate t explicit => if s.isFree t then some (s.pthreadCreate t explicit) else none
  | .setschedparam t policy param =>
    if s.objectClass t = some .posixThreads then some (s.setschedparam t policy param) else none
  | .taskMode modeSet mask => some (s.switched (s.scheduler.taskMode modeSet mask))
  | .startMultitasking => if s.isUp then none else some s.startMultitasking
  | .dispatch => some (s.switched s.scheduler.dispatch)
  | .tick expired => some (s.expire expired).tickle
  | .setState t state =>
    if state &&& States.dormant = 0 ∧ state ≠ States.ready then
      some { s with scheduler := s.scheduler.setState t state }
    else none
  | .clearState t state =>
    if state &&& States.dormant = 0 then some { s with scheduler := s.scheduler.clearState t state } else none
  | .changePriority t p prependIt => some { s with scheduler := s.scheduler.changePriority t p prependIt }
  | .yieldProcessor =>
    if States.isReady (s.control s.executing).currentState then
      some { s with scheduler := s.scheduler.yieldProcessor }
    else none

def reset (idle : T) (ticksPerTimeslice : Nat) (memory : T → Nat) : System C T where
  scheduler :=
    { links := .empty
      control := fun t =>
        { currentState := States.dormant
          currentPriority := .of 0
          realPriority := .of 0
          resourceCount := 0
          doPostTaskSwitchExtension := false
          isPreemptible := false
          cpuTimeBudget := memory t
          budgetAlgorithm := .none
          ticksExecuted := 0
          ready := .of 0
          priorityMap := Priority.initializeInformation (.of 0)
          start := ⟨.of 0, false, .none⟩
          asr := ⟨false, 0, 0⟩
          lowPriority := .of 0 }
      bitMap := .empty
      executing := idle
      heir := idle
      contextSwitchNecessary := false
      ticksPerTimeslice := ticksPerTimeslice }
  api := fun _ => ⟨.other, ⟨0, 0, 0, 0⟩, 0, false⟩
  objectClass := fun _ => none
  isUp := false
  ahead := 0

/-- `_Thread_Create_idle`. -/
def boot (idle : T) (ticksPerTimeslice : Nat) (memory : T → Nat) : System C T :=
  ((reset idle ticksPerTimeslice memory).create idle .internalThreads (.of 255) true .none).start idle

end System

end Rtems.Timeslice
