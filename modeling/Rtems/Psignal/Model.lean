import Rtems.Library.Transition
import Rtems.Thread.Model

/-!
# POSIX signals

A signal is handed to a thread that waits for it, or is pending until a thread takes it: after a
dispatch, by a call of the handler, or in `sigtimedwait`. A call is one step up to where it blocks, but
for `sigtimedwait`, which is cut where it has looked for a pending signal. Which thread a dispatch goes
to is left open.
-/

namespace Rtems.Psignal

open Function

/-! ## Sets of signals -/

/-- `sigset_t`. -/
abbrev SigSet := BitVec 32

def signalAllMask : SigSet := 0xffffffff#32

/-- `signo_to_mask`; the shift is not defined for 0. -/
def signoToMask : Nat → SigSet
  | 0 => 0
  | sig + 1 => 1#32 <<< sig

def isValidSigno (sig : Nat) : Bool := 1 ≤ sig ∧ sig ≤ 32

def sigill : Nat := 4

def sigfpe : Nat := 8

def sigkill : Nat := 9

def sigsegv : Nat := 11

/-- `SIGRTMIN` to `SIGRTMAX`, and then `SIGHUP` to `__SIGLASTNOTRT`. -/
def order : List Nat := List.range' 18 15 ++ List.range' 1 17

def getHighest (set : SigSet) : Nat := (order.find? fun signo => set &&& signoToMask signo ≠ 0).getD 0

/-! ## Actions -/

/-- `sa_handler` and `sa_sigaction`. -/
inductive Handler
  | dfl
  | ign
  /-- `_POSIX_signals_Abormal_termination_handler`. -/
  | abnormalTermination
  | user (n : Nat)
  deriving DecidableEq, Repr

structure Sigaction where
  flags : BitVec 32
  mask : SigSet
  handler : Handler
  deriving DecidableEq, Repr

def saSiginfo : BitVec 32 := 2#32

def defaultVectors (sig : Nat) : Sigaction :=
  if 1 ≤ sig ∧ sig ≤ 17 then ⟨0, signalAllMask, .abnormalTermination⟩ else ⟨0, signalAllMask, .ign⟩

/-- `siginfo_t`, without its code, which is `SI_USER`. -/
structure Siginfo where
  signo : Nat
  value : Nat
  deriving DecidableEq, Repr

inductive Errno
  | esrch
  | einval
  | eagain
  | enosys
  | eintr
  deriving DecidableEq, Repr

/-! ## What became of the signals -/

inductive Delivery (T : Type*)
  | returned (t : T)
  | handled (t : T)
  deriving DecidableEq, Repr

/-- Signals generated are numbered; `process` and `thread` are those pending. -/
structure Fate (T : Type*) where
  generated : Nat
  process : Option Nat
  thread : T → Option Nat
  delivered : List (Nat × Delivery T)
  discarded : List Nat
  queued : List Siginfo
  invoked : List (Option Siginfo)

namespace Fate

variable {T : Type*} [DecidableEq T] (f : Fate T)

def initial : Fate T := ⟨0, none, fun _ => none, [], [], [], []⟩

def newProcess : Fate T := { f with generated := f.generated + 1, process := some f.generated }

def newThread (t : T) : Fate T :=
  { f with generated := f.generated + 1, thread := update f.thread t (some f.generated) }

def newReturned (t : T) : Fate T :=
  { f with generated := f.generated + 1, delivered := f.delivered ++ [(f.generated, .returned t)] }

def deliver (n : Option Nat) (d : Delivery T) : Fate T :=
  { f with delivered := f.delivered ++ n.toList.map (·, d) }

def dropProcess : Fate T := { f with process := none }

def dropThread (t : T) : Fate T := { f with thread := update f.thread t none }

def discardProcess : Fate T := { f with process := none, discarded := f.discarded ++ f.process.toList }

def queue (info : Siginfo) : Fate T := { f with queued := f.queued ++ [info] }

def invoke (info : Option Siginfo) : Fate T := { f with invoked := f.invoked ++ [info] }

end Fate

/-! ## Pending signals -/

structure Signals (T : Type*) where
  pending : SigSet
  doPostTaskSwitchExtension : BitVec 32
  vectors : Nat → Sigaction
  siginfo : Nat → List Siginfo
  inactiveSiginfo : Nat
  /-- `signals_pending` of each thread. -/
  signalsPending : T → SigSet
  fate : Nat → Fate T

namespace Signals

variable {T : Type*} [DecidableEq T] (s : Signals T)

/-- `_POSIX_signals_Manager_Initialization`. -/
def initial (maximumQueuedSignals : Nat) : Signals T where
  pending := 0
  doPostTaskSwitchExtension := 0
  vectors := defaultVectors
  siginfo := fun _ => []
  inactiveSiginfo := maximumQueuedSignals
  signalsPending := fun _ => 0
  fate := fun _ => .initial

def note (sig : Nat) (g : Fate T → Fate T) : Signals T :=
  { s with fate := update s.fate sig (g (s.fate sig)) }

def setProcessSignals (mask : SigSet) : Signals T :=
  let s :=
    if s.pending = 0 then { s with doPostTaskSwitchExtension := s.doPostTaskSwitchExtension + 1 } else s
  { s with pending := s.pending ||| mask }

def clearProcessSignals (mask : SigSet) : Signals T :=
  let s := { s with pending := s.pending &&& ~~~mask }
  if s.pending = 0 then { s with doPostTaskSwitchExtension := s.doPostTaskSwitchExtension - 1 } else s

def isPending (sig : Nat) : Bool := s.pending &&& signoToMask sig ≠ 0

def isPendingFor (t : T) (sig : Nat) : Bool := s.signalsPending t &&& signoToMask sig ≠ 0

def setThreadSignals (t : T) (mask : SigSet) : Signals T :=
  { s with signalsPending := update s.signalsPending t (s.signalsPending t ||| mask) }

def clearThreadSignals (t : T) (mask : SigSet) : Signals T :=
  { s with signalsPending := update s.signalsPending t (s.signalsPending t &&& ~~~mask) }

def postThread (t : T) (sig : Nat) : Signals T :=
  let s := if s.isPendingFor t sig then s else s.note sig fun f => f.newThread t
  s.setThreadSignals t (signoToMask sig)

def handPosted (t : T) (sig : Nat) : Signals T :=
  s.note sig fun f => f.deliver (f.thread t) (.returned t)

def hand (t : T) (sig : Nat) : Signals T := s.note sig fun f => f.newReturned t

def postProcess (sig : Nat) : Signals T :=
  let s := if s.isPending sig then s else s.note sig Fate.newProcess
  s.setProcessSignals (signoToMask sig)

def appendSiginfo (sig : Nat) (info : Siginfo) : Signals T :=
  let s := s.note sig fun f => f.queue info
  { s with
    inactiveSiginfo := s.inactiveSiginfo - 1
    siginfo := update s.siginfo sig (s.siginfo sig ++ [info]) }

/-- `_POSIX_signals_Clear_signals`, for `SA_SIGINFO` and the process. -/
def getSiginfo (signo : Nat) : Signals T × Option Siginfo :=
  match s.siginfo signo with
  | [] => (s.clearProcessSignals (signoToMask signo), none)
  | info :: rest =>
    let s := { s with siginfo := update s.siginfo signo rest }
    let s := if rest = [] then s.clearProcessSignals (signoToMask signo) else s
    ({ s with inactiveSiginfo := s.inactiveSiginfo + 1 }, some info)

/-- `_POSIX_signals_Clear_signals`: whether to deliver, and the `siginfo_t`. -/
def clearSignals (t : T) (unblocked : SigSet) (signo : Nat) (isGlobal : Bool) :
    Signals T × Bool × Option Siginfo :=
  let mask := signoToMask signo
  if isGlobal then
    if mask &&& (s.pending &&& unblocked) ≠ 0 then
      if (s.vectors signo).flags = saSiginfo then
        let (s, info) := s.getSiginfo signo
        (s, true, info)
      else (s.clearProcessSignals mask, true, none)
    else (s, false, none)
  else if mask &&& (s.signalsPending t &&& unblocked) ≠ 0 then (s.clearThreadSignals t mask, true, none)
  else (s, false, none)

def noteHandled (t : T) (signo : Nat) (isGlobal : Bool) (info : Option Siginfo) : Signals T :=
  s.note signo fun f =>
    let f :=
      if isGlobal then (f.deliver f.process (.handled t)).dropProcess
      else (f.deliver (f.thread t) (.handled t)).dropThread t
    if (s.vectors signo).flags = saSiginfo then f.invoke info else f

def noteDropped (t : T) (signo : Nat) (isGlobal : Bool) : Signals T :=
  s.note signo fun f => if isGlobal then f.dropProcess else f.dropThread t

def take (t : T) (signo : Nat) (seen : Option Nat) : Signals T :=
  let (s, found, _) := s.clearSignals t signalAllMask signo false
  s.note signo fun f =>
    if found then (f.deliver (f.thread t) (.returned t)).dropThread t else f.deliver seen (.returned t)

def takeProcess (t : T) (signo : Nat) : Signals T :=
  let (s, found, _) := s.clearSignals t signalAllMask signo true
  if found then s.noteDropped t signo true else s

/-- If the action is not the default one, the signal is not pending any more. -/
def install (sig : Nat) (act : Sigaction) : Signals T :=
  if act.handler = .dfl then { s with vectors := update s.vectors sig (defaultVectors sig) }
  else
    let s := (s.clearProcessSignals (signoToMask sig)).note sig Fate.discardProcess
    { s with vectors := update s.vectors sig act }

end Signals

/-! ## Threads -/

inductive Timeout
  | forever
  | invalid
  | ticks (interval : Nat)
  deriving DecidableEq, Repr

inductive Frame
  /-- `_POSIX_signals_Post_switch_extension`, with the checks left. -/
  | scan (rest : List (Nat × Bool))
  | handler (h : Handler) (savedSignalsBlocked : SigSet)
  | taking (signo : Nat) (seen : Option Nat)
  | takingProcess (signo : Nat) (set : SigSet) (timeout : Timeout)
  | blocking (set : SigSet) (timeout : Timeout)
  /-- `sigtimedwait` in the queue or about to return; `none` is -1. -/
  | waiting (signo : Option Nat)
  | stopped
  deriving DecidableEq, Repr

structure Thread where
  currentPriority : Nat
  currentState : States
  signalsBlocked : SigSet
  doPostTaskSwitchExtension : Bool
  option : SigSet
  returnCode : Errno
  isTimed : Bool
  frames : List Frame
  deriving DecidableEq, Repr

namespace Thread

variable (c : Thread)

def isInterruptibleSignal : Bool :=
  c.currentState &&& (States.waitingForSignal ||| States.interruptibleBySignal) =
    States.waitingForSignal ||| States.interruptibleBySignal

def isInterruptible : Bool := c.currentState &&& States.interruptibleBySignal ≠ 0

def isInterested (mask : SigSet) : Bool := ~~~c.signalsBlocked &&& mask ≠ 0

def accepts (mask : SigSet) : Bool := c.option &&& mask ≠ 0 ∨ ~~~c.signalsBlocked &&& mask ≠ 0

def unblock : Thread :=
  { c with currentState := States.clear States.blocked c.currentState, isTimed := false }

def setSigno (signo : Nat) : Thread :=
  match c.frames with
  | .waiting _ :: frames => { c with frames := .waiting (some signo) :: frames }
  | _ => c

def isUserCode : Bool :=
  match c.frames with
  | [] | .handler _ _ :: _ => true
  | _ => false

end Thread

/-- Groups of one priority: the thread on the chain and those behind it. -/
abbrev WaitQueue (T : Type*) := List (T × List T)

namespace WaitQueue

variable {T : Type*} [DecidableEq T]

def enqueue (priority : T → Nat) (t : T) : WaitQueue T → WaitQueue T
  | [] => [(t, [])]
  | (u, l) :: q =>
    if priority u < priority t then (u, l) :: enqueue priority t q
    else if priority u = priority t then (u, l ++ [t]) :: q
    else (t, []) :: (u, l) :: q

def extract (t : T) : WaitQueue T → WaitQueue T
  | [] => []
  | (u, l) :: q =>
    if u = t then
      match l with
      | [] => q
      | v :: l => (v, l) :: q
    else if t ∈ l then (u, l.erase t) :: q
    else (u, l) :: extract t q

end WaitQueue

structure System (T : Type*) where
  signals : Signals T
  thread : T → Thread
  table : List T
  executing : T
  waitQueue : WaitQueue T
  dispatchDisableLevel : Nat

namespace System

variable {T : Type*} [DecidableEq T] (s : System T)

def initial (table : List T) (executing : T) (maximumQueuedSignals : Nat) (priority : T → Nat)
    (blocked : T → SigSet) : System T where
  signals := .initial maximumQueuedSignals
  thread := fun t => ⟨priority t, States.ready, blocked t, false, 0, .eintr, false, []⟩
  table := table
  executing := executing
  waitQueue := []
  dispatchDisableLevel := 0

def modify (t : T) (f : Thread → Thread) : System T :=
  { s with thread := update s.thread t (f (s.thread t)) }

def setSignals (g : Signals T) : System T := { s with signals := g }

def disableDispatch : System T := { s with dispatchDisableLevel := s.dispatchDisableLevel + 1 }

/-- `_Thread_Enable_dispatch`. A dispatch is a step of its own. -/
def enableDispatch : System T := { s with dispatchDisableLevel := s.dispatchDisableLevel - 1 }

/-- `_Thread_queue_Extract_with_proxy`, and the end of a delay. -/
def extract (t : T) : System T :=
  { s.modify t Thread.unblock with waitQueue := s.waitQueue.extract t }

/-- While dispatching is disabled a blocked thread goes on. -/
def isRunning : Bool := s.dispatchDisableLevel ≠ 0 ∨ States.isReady (s.thread s.executing).currentState

def push (t : T) (frame : Frame) : System T := s.modify t fun c => { c with frames := frame :: c.frames }

def pop (t : T) : System T := s.modify t fun c => { c with frames := c.frames.tail }

/-! ## Sending -/

def unblockThread (t : T) (signo : Nat) : System T × Bool :=
  let c := s.thread t
  let mask := signoToMask signo
  if c.isInterruptibleSignal then
    if c.accepts mask then
      ((s.modify t fun c => { c with returnCode := .eintr }.setSigno signo).extract t, true)
    else (s, false)
  else if ~~~c.signalsBlocked &&& mask ≠ 0 then
    let s := s.modify t fun c => { c with doPostTaskSwitchExtension := true }
    if c.isInterruptible then
      let s := s.modify t fun c => { c with returnCode := .eintr }
      if States.isWaitingOnThreadQueue c.currentState ∨ States.areSet c.currentState States.delaying then
        (s.extract t, false)
      else (s, false)
    else (s, false)
  else (s, false)

/-- The part of `pthread_kill` for a thread that exists. -/
def sendThread (t : T) (sig : Nat) : System T :=
  let (s, handed) := (s.setSignals (s.signals.postThread t sig)).unblockThread t sig
  let s := if handed then s.setSignals (s.signals.handPosted t sig) else s
  s.modify t fun c => { c with doPostTaskSwitchExtension := true }

/-- `pthread_kill`. There need not be a thread with the id. -/
def pthreadKill (thread : Option T) (sig : Nat) : System T × Except Errno Unit :=
  if sig ≠ 0 ∧ ¬ isValidSigno sig then (s, .error .einval)
  else if (s.signals.vectors sig).flags = saSiginfo then (s, .error .enosys)
  else
    match thread with
    | none => (s, .error .esrch)
    | some t =>
      let s := s.disableDispatch
      if sig = 0 ∨ (s.signals.vectors sig).handler = .ign then (s.enableDispatch, .ok ())
      else ((s.sendThread t sig).enableDispatch, .ok ())

def moreInterested (mask : SigSet) (interested : Option T) (t : T) : Option T :=
  let c := s.thread t
  -- `PRIORITY_MAXIMUM + 1`
  let priority := (interested.map fun u => (s.thread u).currentPriority).getD 256
  if c.currentPriority > priority then interested
  else if ¬ c.isInterested mask then interested
  else if c.currentPriority < priority then some t
  else
    match interested with
    | none => none
    | some u =>
      let d := s.thread u
      if States.isReady d.currentState then interested
      else if States.isReady c.currentState then some t
      else if d.isInterruptible then interested
      else if c.isInterruptible then some t
      else interested

def receiver (mask : SigSet) : Option T :=
  if (s.thread s.executing).isInterested mask then some s.executing
  else
    match (s.waitQueue.map Prod.fst).find? fun t => (s.thread t).accepts mask with
    | some t => some t
    | none => s.table.foldl (s.moreInterested mask) none

/-- `post_process_signal`; without a node, dispatching stays disabled. -/
def postProcessSignal (sig : Nat) (info : Siginfo) : System T × Except Errno Unit :=
  let s := s.setSignals (s.signals.postProcess sig)
  if (s.signals.vectors sig).flags = saSiginfo then
    if s.signals.inactiveSiginfo = 0 then (s, .error .eagain)
    else ((s.setSignals (s.signals.appendSiginfo sig info)).enableDispatch, .ok ())
  else (s.enableDispatch, .ok ())

def sendProcess (sig : Nat) (info : Siginfo) : System T × Except Errno Unit :=
  let s := s.disableDispatch
  match s.receiver (signoToMask sig) with
  | none => s.postProcessSignal sig info
  | some t =>
    let (s, handed) := (s.modify t fun c => { c with doPostTaskSwitchExtension := true }).unblockThread t sig
    if handed then ((s.setSignals (s.signals.hand t sig)).enableDispatch, .ok ())
    else s.postProcessSignal sig info

/-- `killinfo`, where `isSelf` is for `pid == getpid()`. -/
def killinfo (isSelf : Bool) (sig : Nat) (value : Option Nat) : System T × Except Errno Unit :=
  if ¬ isSelf then (s, .error .esrch)
  else if sig ≠ 0 ∧ ¬ isValidSigno sig then (s, .error .einval)
  else if sig = 0 ∨ (s.signals.vectors sig).handler = .ign then (s, .ok ())
  else if sig = sigfpe ∨ sig = sigill ∨ sig = sigsegv then s.pthreadKill (some s.executing) sig
  else s.sendProcess sig ⟨sig, value.getD 0⟩

def kill (isSelf : Bool) (sig : Nat) : System T × Except Errno Unit := s.killinfo isSelf sig none

def sigqueue (isSelf : Bool) (sig value : Nat) : System T × Except Errno Unit :=
  s.killinfo isSelf sig (some value)

/-! ## Actions and masks -/

def sigaction (sig : Nat) (act : Option Sigaction) : System T × Except Errno Unit :=
  if sig = 0 then (s, .ok ())
  else if ¬ isValidSigno sig then (s, .error .einval)
  else if sig = sigkill then (s, .error .einval)
  else
    match act with
    | none => (s, .ok ())
    | some act => (s.setSignals (s.signals.install sig act), .ok ())

/-- The `how` of `pthread_sigmask`. -/
inductive How
  | block
  | unblock
  | setMask
  deriving DecidableEq, Repr

def How.apply (set blocked : SigSet) : How → SigSet
  | .block => blocked ||| set
  | .unblock => blocked &&& ~~~set
  | .setMask => set

def unblockedSignals (t : T) : SigSet :=
  ~~~(s.thread t).signalsBlocked &&& (s.signals.signalsPending t ||| s.signals.pending)

/-- `pthread_sigmask`; `_Thread_Dispatch` is called only if a pending signal is not blocked. -/
def pthreadSigmask (how : How) (set : SigSet) : System T :=
  let t := s.executing
  let s := s.modify t fun c => { c with signalsBlocked := how.apply set c.signalsBlocked }
  if s.unblockedSignals t ≠ 0 then
    { s.modify t fun c => { c with doPostTaskSwitchExtension := true } with dispatchDisableLevel := 0 }
  else s

/-! ## Delivery -/

def restart (t : T) : System T :=
  if s.unblockedSignals t = 0 then s
  else s.push t (.scan (order.flatMap fun signo => [(signo, false), (signo, true)]))

def dispatch (t : T) : System T :=
  let s := { s with executing := t }
  if s.signals.doPostTaskSwitchExtension ≠ 0 ∨ (s.thread t).doPostTaskSwitchExtension then
    (s.modify t fun c => { c with doPostTaskSwitchExtension := false }).restart t
  else s

def checkSignal (t : T) (signo : Nat) (isGlobal : Bool) (rest : List (Nat × Bool)) : System T :=
  let c := s.thread t
  let (g, doCallout, info) := s.signals.clearSignals t (~~~c.signalsBlocked) signo isGlobal
  let act := g.vectors signo
  let s := s.pop t
  if ¬ doCallout then (s.setSignals g).push t (.scan rest)
  else if act.handler = .ign then (s.setSignals (g.noteDropped t signo isGlobal)).push t (.scan rest)
  else if act.flags = saSiginfo ∧ ¬ isGlobal then (s.setSignals (g.noteDropped t signo isGlobal)).push t .stopped
  else
    ((s.setSignals (g.noteHandled t signo isGlobal info)).modify t fun c =>
      { c with signalsBlocked := c.signalsBlocked ||| act.mask }).push t (.handler act.handler c.signalsBlocked)

/-! ## `sigtimedwait` -/

/-- `sigtimedwait` looks for pending signals. -/
def sigtimedwait (set : SigSet) (timeout : Timeout) : System T :=
  let t := s.executing
  if set &&& s.signals.signalsPending t ≠ 0 then
    let signo := getHighest (s.signals.signalsPending t)
    s.push t (.taking signo ((s.signals.fate signo).thread t))
  else if set &&& s.signals.pending ≠ 0 then
    s.push t (.takingProcess (getHighest s.signals.pending) set timeout)
  else s.push t (.blocking set timeout)

def blockForSignal (t : T) (set : SigSet) (timeout : Timeout) : System T :=
  let s := s.pop t
  match timeout with
  | .invalid => s
  | _ =>
    let s := s.modify t fun c =>
      { c with
        option := set
        returnCode := .eintr
        isTimed := timeout ≠ .forever ∧ timeout ≠ .ticks 0
        currentState := States.set (States.waitingForSignal ||| States.interruptibleBySignal) c.currentState
        frames := .waiting none :: c.frames }
    { s with waitQueue := s.waitQueue.enqueue (fun u => (s.thread u).currentPriority) t }

def advance : Option (System T) :=
  let t := s.executing
  match (s.thread t).frames with
  | [] | .stopped :: _ => none
  | .scan [] :: _ => some (s.pop t)
  | .scan ((signo, isGlobal) :: rest) :: _ => some (s.checkSignal t signo isGlobal rest)
  | .handler h saved :: _ =>
    if h = .abnormalTermination then none
    else some (((s.pop t).modify t fun c => { c with signalsBlocked := saved }).restart t)
  | .taking signo seen :: _ => some ((s.setSignals (s.signals.take t signo seen)).pop t)
  -- the call goes on to block although it has cleared a signal
  | .takingProcess signo set timeout :: _ =>
    some (((s.setSignals (s.signals.takeProcess t signo)).pop t).push t (.blocking set timeout))
  | .blocking set timeout :: _ => some (s.blockForSignal t set timeout)
  | .waiting _ :: _ => some (s.pop t)

end System

/-! ## Runs -/

inductive Move (T : Type*)
  | dispatch (t : T)
  | kill (isSelf : Bool) (sig : Nat)
  | sigqueue (isSelf : Bool) (sig value : Nat)
  | pthreadKill (thread : Option T) (sig : Nat)
  | sigaction (sig : Nat) (act : Option Sigaction)
  | pthreadSigmask (how : System.How) (set : SigSet)
  | sigtimedwait (set : SigSet) (timeout : Timeout)
  | advance
  | timeout (t : T)
  | setState (t : T) (state : States)
  deriving DecidableEq, Repr

variable {T : Type*} [DecidableEq T]

def System.call (s : System T) (s' : System T) : Option (System T) :=
  if s.isRunning ∧ (s.thread s.executing).isUserCode then some s' else none

def System.step (s : System T) : Move T → Option (System T)
  | .dispatch t =>
    if s.dispatchDisableLevel = 0 ∧ States.isReady (s.thread t).currentState then some (s.dispatch t) else none
  | .kill isSelf sig => s.call (s.kill isSelf sig).1
  | .sigqueue isSelf sig value => s.call (s.sigqueue isSelf sig value).1
  | .pthreadKill thread sig => s.call (s.pthreadKill thread sig).1
  | .sigaction sig act => s.call (s.sigaction sig act).1
  | .pthreadSigmask how set => s.call (s.pthreadSigmask how set)
  | .sigtimedwait set timeout => s.call (s.sigtimedwait set timeout)
  | .advance => if s.isRunning then s.advance else none
  | .timeout t =>
    if (s.thread t).isInterruptibleSignal ∧ (s.thread t).isTimed then
      some ((s.modify t fun c => { c with returnCode := .eagain }).extract t)
    else none
  | .setState t state =>
    if States.areSet (s.thread t).currentState States.waitingForSignal ∨
        States.areSet state States.waitingForSignal then none
    else some (s.modify t fun c => { c with currentState := state })

def alone (n : Nat) : System Unit := .initial [()] () n (fun _ => 1) fun _ => signalAllMask

end Rtems.Psignal
