import Rtems.Status
import Rtems.Thread.Model

/-!
# The Signal Manager

The calls that an RTEMS task is in stand on a stack, the innermost one first. The code of the task and
of its handler may call `rtems_task_mode` and, through any directive, `_Thread_Dispatch`. Signals may be
sent wherever interrupts are enabled.
-/

namespace Rtems.Signal

open Thread (Asr BudgetAlgorithm)
open Thread.Scheduler (preemptMask timesliceMask asrMask)

structure Task where
  asr : Asr
  hasHandler : Bool
  modeSet : BitVec 32
  nestLevel : Nat
  isPreemptible : Bool
  budgetAlgorithm : BudgetAlgorithm
  interruptLevel : BitVec 8
  doPostTaskSwitchExtension : Bool
  deriving DecidableEq, Repr

def signalSend (signalSet : BitVec 32) (t : Task) : Task × Status :=
  if t.hasHandler then
    if t.asr.isEnabled then
      ({ t with
          asr := { t.asr with signalsPosted := t.asr.signalsPosted ||| signalSet }
          doPostTaskSwitchExtension := true }, .successful)
    else
      ({ t with asr := { t.asr with signalsPending := t.asr.signalsPending ||| signalSet } }, .successful)
  else (t, .notDefined)

def swapSignals (a : Asr) : Asr :=
  { a with signalsPending := a.signalsPosted, signalsPosted := a.signalsPending }

def isAsrEnabled (modeSet : BitVec 32) : Bool := !decide (modeSet &&& asrMask = asrMask)

def allModeMasks : BitVec 32 := 0xffff#32

/-- The value that `rtems_task_mode` gives back. -/
def oldMode (t : Task) : BitVec 32 :=
  let mode := if t.isPreemptible then 0 else preemptMask
  let mode := mode ||| if t.budgetAlgorithm = .none then 0 else timesliceMask
  let mode := mode ||| if t.asr.isEnabled then 0 else asrMask
  mode ||| t.interruptLevel.setWidth 32

def setModes (interruptMask : BitVec 8) (modeSet mask : BitVec 32) (t : Task) : Task :=
  let t := if mask &&& preemptMask ≠ 0 then { t with isPreemptible := modeSet &&& preemptMask = 0 } else t
  let t :=
    if mask &&& timesliceMask ≠ 0 then
      { t with budgetAlgorithm :=
          if modeSet &&& timesliceMask = timesliceMask then .resetTimeslice else .none }
    else t
  if mask &&& interruptMask.setWidth 32 ≠ 0 then
    { t with interruptLevel := modeSet.setWidth 8 &&& interruptMask }
  else t

/-- Where `rtems_task_mode` has interrupts enabled. -/
inductive ModePoint
  | entry
  | modes
  | compare
  /-- `is_enabled` is about to be stored. -/
  | store
  /-- `is_enabled` is stored, interrupts are about to be disabled. -/
  | swap
  /-- Before `_ASR_Are_signals_pending`. -/
  | pending
  /-- Before `_Thread_Evaluate_mode`. -/
  | evaluate (needsAsrDispatching : Bool)
  | leave
  deriving DecidableEq, Repr

inductive DispatchPoint
  /-- Before `do_post_task_switch_extension` is read. -/
  | check
  | clear
  | leave
  deriving DecidableEq, Repr

inductive ExtensionPoint
  | entry
  | taken (signalSet : BitVec 32)
  | called (signalSet : BitVec 32)
  /-- `rtems_task_mode` has given back the old mode. -/
  | entered (signalSet prevMode : BitVec 32)
  | handling (prevMode : BitVec 32)
  | restoring (prevMode : BitVec 32)
  deriving DecidableEq, Repr

inductive Frame
  | taskMode (modeSet mask : BitVec 32) (p : ModePoint)
  | dispatch (p : DispatchPoint)
  | switchExtension (p : ExtensionPoint)
  | handler
  deriving DecidableEq, Repr

structure Machine where
  task : Task
  frames : List Frame
  handled : List (BitVec 32)
  deriving DecidableEq, Repr

/-- `go` stands for `_Thread_Evaluate_mode` or another API. -/
inductive Move
  | send (signalSet : BitVec 32)
  | dispatch
  | taskMode (modeSet mask : BitVec 32)
  | handlerReturns
  | go (choice : Bool)
  deriving DecidableEq, Repr

def storePrevious (old : BitVec 32) : List Frame → List Frame
  | .switchExtension (.called s) :: fs => .switchExtension (.entered s old) :: fs
  | fs => fs

def inUserCode : List Frame → Bool
  | [] => true
  | .handler :: _ => true
  | _ => false

namespace Machine

variable (m : Machine)

def setFrames (fs : List Frame) : Machine := { m with frames := fs }

def setTask (t : Task) : Machine := { m with task := t }

def setAsr (a : Asr) : Machine := m.setTask { m.task with asr := a }

def setPost (b : Bool) : Machine :=
  m.setTask { m.task with doPostTaskSwitchExtension := b }

def modeStep (interruptMask : BitVec 8) (m : Machine) (modeSet mask : BitVec 32) (choice : Bool)
    (fs : List Frame) : ModePoint → Machine
  | .entry => m.setFrames (.taskMode modeSet mask .modes :: storePrevious (oldMode m.task) fs)
  | .modes =>
    (m.setTask (setModes interruptMask modeSet mask m.task)).setFrames
      (.taskMode modeSet mask .compare :: fs)
  | .compare =>
    if mask &&& asrMask ≠ 0 ∧ isAsrEnabled modeSet ≠ m.task.asr.isEnabled then
      m.setFrames (.taskMode modeSet mask .store :: fs)
    else m.setFrames (.taskMode modeSet mask (.evaluate false) :: fs)
  | .store =>
    (m.setAsr { m.task.asr with isEnabled := isAsrEnabled modeSet }).setFrames
      (.taskMode modeSet mask .swap :: fs)
  | .swap => (m.setAsr (swapSignals m.task.asr)).setFrames (.taskMode modeSet mask .pending :: fs)
  | .pending =>
    if m.task.asr.signalsPosted ≠ 0 then
      (m.setPost true).setFrames (.taskMode modeSet mask (.evaluate true) :: fs)
    else m.setFrames (.taskMode modeSet mask (.evaluate false) :: fs)
  | .evaluate needsAsrDispatching =>
    if choice ∨ needsAsrDispatching then
      m.setFrames (.dispatch .check :: .taskMode modeSet mask .leave :: fs)
    else m.setFrames (.taskMode modeSet mask .leave :: fs)
  | .leave => m.setFrames fs

/-- `_Thread_Dispatch` goes on. -/
def dispatchStep (choice : Bool) (fs : List Frame) : DispatchPoint → Machine
  | .check =>
    if choice ∨ m.task.doPostTaskSwitchExtension then m.setFrames (.dispatch .clear :: fs)
    else m.setFrames fs
  | .clear => (m.setPost false).setFrames (.switchExtension .entry :: .dispatch .leave :: fs)
  | .leave => m.setFrames fs

/-- `_RTEMS_tasks_Switch_extension` goes on. -/
def extensionStep (fs : List Frame) : ExtensionPoint → Machine
  | .entry =>
    let signalSet := m.task.asr.signalsPosted
    let m := m.setAsr { m.task.asr with signalsPosted := 0 }
    if signalSet = 0 then m.setFrames fs else m.setFrames (.switchExtension (.taken signalSet) :: fs)
  | .taken signalSet =>
    (m.setTask { m.task with nestLevel := m.task.nestLevel + 1 }).setFrames
      (.taskMode m.task.modeSet allModeMasks .entry :: .switchExtension (.called signalSet) :: fs)
  | .called signalSet => m.setFrames (.switchExtension (.called signalSet) :: fs)
  | .entered signalSet prevMode =>
    { m.setFrames (.handler :: .switchExtension (.handling prevMode) :: fs) with
      handled := signalSet :: m.handled }
  | .handling prevMode =>
    (m.setTask { m.task with nestLevel := m.task.nestLevel - 1 }).setFrames
      (.taskMode prevMode allModeMasks .entry :: .switchExtension (.restoring prevMode) :: fs)
  | .restoring _ => m.setFrames fs

def step (interruptMask : BitVec 8) (m : Machine) : Move → Option Machine
  | .send signalSet => some (m.setTask (signalSend signalSet m.task).1)
  | .dispatch => some (m.setFrames (.dispatch .check :: m.frames))
  | .taskMode modeSet mask =>
    if inUserCode m.frames then some (m.setFrames (.taskMode modeSet mask .entry :: m.frames)) else none
  | .handlerReturns =>
    match m.frames with
    | .handler :: fs => some (m.setFrames fs)
    | _ => none
  | .go choice =>
    match m.frames with
    | .taskMode modeSet mask p :: fs => some (modeStep interruptMask m modeSet mask choice fs p)
    | .dispatch p :: fs => some (dispatchStep m choice fs p)
    | .switchExtension p :: fs => some (extensionStep m fs p)
    | _ => none

end Machine

end Rtems.Signal
