import Rtems.Chain.Model
import Rtems.Priority.Model
import Rtems.Words

/-!
# The Thread Handler

All chains of threads share the node of a thread, so the links also hold the chains named by `C`, of the
rest of the kernel. A routine that flashes interrupts is cut in two there; the rest is run if the flash
is reached.
-/

namespace Rtems

open Intrusive

/-! ## States -/

/-- `States_Control`. -/
abbrev States := BitVec 32

namespace States

def ready : States := 0x00000#32
def dormant : States := 0x00001#32
def suspended : States := 0x00002#32
def transient : States := 0x00004#32
def delaying : States := 0x00008#32
def waitingForTime : States := 0x00010#32
def waitingForBuffer : States := 0x00020#32
def waitingForSegment : States := 0x00040#32
def waitingForMessage : States := 0x00080#32
def waitingForEvent : States := 0x00100#32
def waitingForSemaphore : States := 0x00200#32
def waitingForMutex : States := 0x00400#32
def waitingForConditionVariable : States := 0x00800#32
def waitingForJoinAtExit : States := 0x01000#32
def waitingForRpcReply : States := 0x02000#32
def waitingForPeriod : States := 0x04000#32
def waitingForSignal : States := 0x08000#32
def interruptibleBySignal : States := 0x10000#32

def locallyBlocked : States :=
  waitingForBuffer ||| waitingForSegment ||| waitingForMessage ||| waitingForSemaphore |||
    waitingForMutex ||| waitingForConditionVariable ||| waitingForJoinAtExit ||| waitingForSignal

def waitingOnThreadQueue : States := locallyBlocked ||| waitingForRpcReply

def blocked : States :=
  delaying ||| waitingForTime ||| waitingForPeriod ||| waitingForEvent ||| waitingOnThreadQueue |||
    interruptibleBySignal

def set (statesToSet current : States) : States := current ||| statesToSet

def clear (statesToClear current : States) : States := current &&& ~~~statesToClear

def isReady (s : States) : Bool := s = ready
def isDormant (s : States) : Bool := s &&& dormant ≠ 0
def isWaitingOnThreadQueue (s : States) : Bool := s &&& waitingOnThreadQueue ≠ 0

def areSet (s mask : States) : Bool := s &&& mask ≠ 0

end States

namespace Thread

/-! ## Control blocks -/

/-- `Thread_CPU_budget_algorithms`. -/
inductive BudgetAlgorithm
  | none
  | resetTimeslice
  | exhaustTimeslice
  | callout
  deriving DecidableEq, Repr

structure Start where
  initialPriority : Priority
  isPreemptible : Bool
  budgetAlgorithm : BudgetAlgorithm
  deriving DecidableEq, Repr

/-- `ASR_Information`, without the handler. -/
structure Asr where
  isEnabled : Bool
  signalsPosted : BitVec 32
  signalsPending : BitVec 32
  deriving DecidableEq, Repr

/-- `ready` names the ready chain, `lowPriority` is from `ss_low_priority`. -/
structure Control where
  currentState : States
  currentPriority : Priority
  realPriority : Priority
  resourceCount : Nat
  doPostTaskSwitchExtension : Bool
  isPreemptible : Bool
  cpuTimeBudget : Nat
  budgetAlgorithm : BudgetAlgorithm
  ticksExecuted : Nat
  ready : Priority
  priorityMap : Priority.Information
  start : Start
  asr : Asr
  lowPriority : Priority
  deriving DecidableEq, Repr

inductive ChainName (C : Type*)
  | ready (p : Priority)
  | other (c : C)
  deriving DecidableEq, Repr

structure Scheduler (C T : Type*) where
  links : Links (ChainName C) T
  control : T → Control
  bitMap : Priority.BitMap
  executing : T
  heir : T
  contextSwitchNecessary : Bool
  ticksPerTimeslice : Nat

variable {C T : Type*} [DecidableEq C] [DecidableEq T]

namespace Scheduler

variable (S : Scheduler C T)

def modify (t : T) (f : Control → Control) : Scheduler C T :=
  { S with control := Function.update S.control t (f (S.control t)) }

def setCurrentState (t : T) (s : States) : Scheduler C T :=
  S.modify t fun c => { c with currentState := s }

def needSwitch : Scheduler C T := { S with contextSwitchNecessary := true }

/-- On a chain without threads the code would take the tail for one. -/
def setHeir (n : Node (ChainName C) T) : Scheduler C T :=
  match n with
  | .obj t => { S with heir := t }
  | _ => S

def calculateHeir : Scheduler C T :=
  S.setHeir (Chain.first S.links (.ready (Fin.ofNat 256 S.bitMap.getHighest)))

def linkReady (t : T) (prependIt : Bool) : Scheduler C T :=
  let ready := .ready (S.control t).ready
  { S with
    bitMap := S.bitMap.add (S.control t).priorityMap
    links := if prependIt then Chain.prepend S.links ready (.obj t) else Chain.append S.links ready (.obj t) }

def unlinkReady (t : T) : Scheduler C T :=
  let ready := .ready (S.control t).ready
  if Chain.hasOnlyOneNode S.links ready then
    { S with
      links := Chain.initializeEmpty S.links ready
      bitMap := S.bitMap.remove (S.control t).priorityMap }
  else { S with links := Chain.extract S.links (.obj t) }

def reschedule : Scheduler C T :=
  let S := S.calculateHeir
  if S.executing ≠ S.heir ∧ (S.control S.executing).isPreemptible then S.needSwitch else S

/-! ## `_Thread_Ready` -/

def readyEnter (t : T) : Scheduler C T :=
  (S.setCurrentState t States.ready).linkReady t false

def ready (t : T) : Scheduler C T := (S.readyEnter t).reschedule

/-! ## `_Thread_Clear_state` -/

def clearStateEnter (t : T) (state : States) : Scheduler C T × Bool :=
  let currentState := (S.control t).currentState
  if currentState &&& state ≠ 0 then
    let currentState := States.clear state currentState
    let S := S.setCurrentState t currentState
    if States.isReady currentState then (S.linkReady t false, true) else (S, false)
  else (S, false)

def clearStateFinish (t : T) : Scheduler C T :=
  if (S.control t).currentPriority < (S.control S.heir).currentPriority then
    let S := { S with heir := t }
    if (S.control S.executing).isPreemptible ∨ (S.control t).currentPriority = 0 then S.needSwitch
    else S
  else S

def clearState (t : T) (state : States) : Scheduler C T :=
  match S.clearStateEnter t state with
  | (S, true) => S.clearStateFinish t
  | (S, false) => S

def resume (t : T) : Scheduler C T := S.clearState t States.suspended

def unblock (t : T) : Scheduler C T := S.clearState t States.blocked

/-! ## `_Thread_Set_state` -/

def setStateEnter (t : T) (state : States) : Scheduler C T × Bool :=
  let currentState := (S.control t).currentState
  if ¬ States.isReady currentState then
    (S.setCurrentState t (States.set state currentState), false)
  else ((S.setCurrentState t state).unlinkReady t, true)

def setStateFinish (t : T) : Scheduler C T :=
  let S := if t = S.heir then S.calculateHeir else S
  if t = S.executing then S.needSwitch else S

def setState (t : T) (state : States) : Scheduler C T :=
  match S.setStateEnter t state with
  | (S, true) => S.setStateFinish t
  | (S, false) => S

/-! ## `_Thread_Change_priority` -/

def setTransient (t : T) : Scheduler C T :=
  let oldState := (S.control t).currentState
  let S := S.setCurrentState t (States.set States.transient oldState)
  if States.isReady oldState then S.unlinkReady t else S

/-! The three assignments of `_Thread_Set_priority`. -/

def setCurrentPriority (t : T) (p : Priority) : Scheduler C T :=
  S.modify t fun c => { c with currentPriority := p }

def setReady (t : T) (p : Priority) : Scheduler C T :=
  S.modify t fun c => { c with ready := p }

def setPriorityMap (t : T) (p : Priority) : Scheduler C T :=
  S.modify t fun c => { c with priorityMap := Priority.initializeInformation p }

def setPriority (t : T) (p : Priority) : Scheduler C T :=
  ((S.setCurrentPriority t p).setReady t p).setPriorityMap t p

def changePriorityBegin (t : T) (newPriority : Priority) : Scheduler C T :=
  let S := S.setTransient t
  if (S.control t).currentPriority ≠ newPriority then S.setPriority t newPriority else S

def changePriorityEnter (t : T) (prependIt : Bool) : Scheduler C T × Bool :=
  let currentState := States.clear States.transient (S.control t).currentState
  let S := S.setCurrentState t currentState
  if ¬ States.isReady currentState then (S, false) else (S.linkReady t prependIt, true)

def changePriority (t : T) (newPriority : Priority) (prependIt : Bool) :
    Scheduler C T :=
  match (S.changePriorityBegin t newPriority).changePriorityEnter t prependIt with
  | (S, true) => S.reschedule
  | (S, false) => S

/-! ## Time slices -/

def rotate : Scheduler C T :=
  { S with
    links :=
      Chain.append (Chain.extract S.links (.obj S.executing)) (.ready (S.control S.executing).ready)
        (.obj S.executing) }

def rotateFinish : Scheduler C T :=
  let S :=
    if S.executing = S.heir then
      S.setHeir (Chain.first S.links (.ready (S.control S.executing).ready))
    else S
  S.needSwitch

/-- `_Thread_Yield_processor`, up to its flash. -/
def yieldEnter : Scheduler C T × Bool :=
  if ¬ Chain.hasOnlyOneNode S.links (.ready (S.control S.executing).ready) then (S.rotate, true)
  else if S.executing ≠ S.heir then (S.needSwitch, false)
  else (S, false)

def yieldProcessor : Scheduler C T :=
  match S.yieldEnter with
  | (S, true) => S.rotateFinish
  | (S, false) => S

def resetTimeslice : Scheduler C T :=
  if Chain.hasOnlyOneNode S.links (.ready (S.control S.executing).ready) then S
  else S.rotate.rotateFinish

def sporadicBudgetCallout (t : T) : Scheduler C T :=
  let newPriority := (S.control t).lowPriority
  let S := S.modify t fun c => { c with cpuTimeBudget := 0xFFFFFFFF, realPriority := newPriority }
  if (S.control t).resourceCount = 0 ∨ (S.control t).currentPriority > newPriority then
    S.changePriority t newPriority true
  else S

def tickleTimeslice : Scheduler C T :=
  let e := S.executing
  let S := S.modify e fun c => { c with ticksExecuted := addWord c.ticksExecuted 1 }
  if ¬ (S.control e).isPreemptible then S
  else if ¬ States.isReady (S.control e).currentState then S
  else
    let budget := subWord (S.control e).cpuTimeBudget 1
    match (S.control e).budgetAlgorithm with
    | .none => S
    | .resetTimeslice | .exhaustTimeslice =>
      let S := S.modify e fun c => { c with cpuTimeBudget := budget }
      if budget = 0 then
        S.resetTimeslice.modify e fun c => { c with cpuTimeBudget := S.ticksPerTimeslice }
      else S
    | .callout =>
      let S := S.modify e fun c => { c with cpuTimeBudget := budget }
      if budget = 0 then S.sporadicBudgetCallout e else S

/-! ## Switching -/

/-- `_Thread_Dispatch`: one round of the loop, without extensions. -/
def dispatch : Scheduler C T :=
  let S :=
    if S.contextSwitchNecessary then
      let heir := S.heir
      { S with contextSwitchNecessary := false, executing := heir }.modify heir fun c =>
        { c with
          ticksExecuted := addWord c.ticksExecuted 1
          cpuTimeBudget :=
            if c.budgetAlgorithm = BudgetAlgorithm.resetTimeslice then S.ticksPerTimeslice
            else c.cpuTimeBudget }
    else S
  S.modify S.executing fun c => { c with doPostTaskSwitchExtension := false }

def evaluateMode : Scheduler C T × Bool :=
  if ¬ States.isReady (S.control S.executing).currentState ∨
      S.executing ≠ S.heir ∧ (S.control S.executing).isPreemptible then
    (S.needSwitch, true)
  else (S, false)

/-! ## `rtems_task_mode` -/

def preemptMask : BitVec 32 := 0x100#32
def timesliceMask : BitVec 32 := 0x200#32
def asrMask : BitVec 32 := 0x400#32

/-- The result says whether signals wait in the sets, which may be swapped. -/
def applyMode (modeSet mask : BitVec 32) (c : Control) : Control × Bool :=
  let c := if mask &&& preemptMask ≠ 0 then { c with isPreemptible := modeSet &&& preemptMask = 0 } else c
  let c :=
    if mask &&& timesliceMask ≠ 0 then
      { c with budgetAlgorithm :=
          if modeSet &&& timesliceMask = timesliceMask then .resetTimeslice else .none }
    else c
  let isEnabled := !decide (modeSet &&& asrMask = asrMask)
  if mask &&& asrMask ≠ 0 ∧ isEnabled ≠ c.asr.isEnabled then
    let c := { c with asr := ⟨isEnabled, c.asr.signalsPending, c.asr.signalsPosted⟩ }
    if c.asr.signalsPosted ≠ 0 then ({ c with doPostTaskSwitchExtension := true }, true) else (c, false)
  else (c, false)

/-- `rtems_task_mode`, without interrupt level and previous mode. -/
def taskMode (modeSet mask : BitVec 32) : Scheduler C T :=
  let r := applyMode modeSet mask (S.control S.executing)
  let S := S.modify S.executing fun _ => r.1
  let (S, b) := S.evaluateMode
  if b ∨ r.2 then S.dispatch else S

/-! ## Starting -/

def loadEnvironment (t : T) : Scheduler C T :=
  S.modify t fun c =>
    { c with
      doPostTaskSwitchExtension := false
      isPreemptible := c.start.isPreemptible
      budgetAlgorithm := c.start.budgetAlgorithm }

def start (t : T) : Scheduler C T × Bool :=
  if States.isDormant (S.control t).currentState then ((S.loadEnvironment t).ready t, true)
  else (S, false)

end Scheduler

end Thread

def Priority.of (n : Nat) : Priority := Fin.ofNat 256 n

end Rtems
