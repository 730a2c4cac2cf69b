import Rtems.Heap.Run
import Rtems.Objects.Model
import Rtems.Status

/-!
# Creating and deleting threads

A thread that is created gets its memory from the workspace, is opened as an object, and is then shown
to the extensions; one that is deleted goes the other way. A dispatch is to some open thread.
-/

namespace Rtems.Creation

open Objects (Table Block)

/-! ## Threads -/

/-- The classes of threads among `Objects_Classes`. -/
inductive ThreadClass
  | internalThreads
  | rtemsTasks
  | posixThreads
  deriving DecidableEq, Repr

def ThreadClass.code : ThreadClass → Nat
  | .internalThreads => 1
  | .rtemsTasks => 2
  | .posixThreads => 3

/-- The entry of `_Objects_Information_table` for a class of threads. -/
def ThreadClass.ofCode : Nat → Option ThreadClass
  | 1 => some .internalThreads
  | 2 => some .rtemsTasks
  | 3 => some .posixThreads
  | _ => none

abbrev Tcb := Block ThreadClass

/-- The fields of a `Thread_Control` that hold memory. -/
structure Control where
  coreAllocatedStack : Bool
  initialStackArea : Nat
  fpContext : Nat
  extensions : Nat
  apiRtems : Nat
  apiPosix : Nat
  deriving DecidableEq, Repr

structure Resources where
  workspace : Heap.State
  control : Tcb → Control

/-- `none` is `NULL`, and inside it a call that runs out of fuel. -/
structure Callouts where
  threadCreate : Option (Resources → Tcb → Option (Resources × Bool))
  threadDelete : Option (Resources → Tcb → Resources)

structure Config where
  /-- The address of `_Workspace_Area`. -/
  workspaceArea : Nat
  /-- Whether there are a `stack_allocate_hook` and a `stack_free_hook`. -/
  stackHooks : Bool
  stackMinimumSize : Nat
  stackAlignment : Nat
  contextFpSize : Nat
  /-- `_Context_Fp_start( area, 0 )`. -/
  contextFpStart : Nat → Nat
  hardwareFp : Bool
  attributesRequired : Nat
  attributesNotSupported : Nat
  maximumExtensions : Nat
  /-- `_User_extensions_List`. -/
  userExtensions : List Callouts

structure System where
  table : Table ThreadClass
  resources : Resources
  executing : Tcb

/-! ## The workspace -/

namespace Resources

/-- `_Workspace_Allocate`. -/
def allocate (R : Resources) (area size : Nat) : Option (Resources × Nat) :=
  (Heap.allocate R.workspace.mem area size).map fun r =>
    ({ R with
        workspace := ⟨r.1, if r.2 = 0 then R.workspace.live else (r.2, size) :: R.workspace.live⟩ },
      r.2)

/-- `_Workspace_Free`. -/
def free (R : Resources) (area block : Nat) : Resources :=
  { R with
    workspace := ⟨(Heap.free R.workspace.mem area block).1,
      R.workspace.live.eraseP fun e => e.1 = block⟩ }

def setControl (R : Resources) (t : Tcb) (v : Control) : Resources :=
  { R with control := Function.update R.control t v }

end Resources

/-! ## thread.c -/

section Thread

variable (cfg : Config) (R : Resources) (t : Tcb)

def stackIsEnough (size : Nat) : Bool := cfg.stackMinimumSize ≤ size

def stackAdjustSize (size : Nat) : Nat := addWord size cfg.stackAlignment

/-- `_Thread_Stack_Allocate`; `granted` is what the hook returns, 0 if there is no stack. -/
def stackAllocate (stackSize granted : Nat) : Option (Resources × Nat × Nat) :=
  let stackSize := if stackIsEnough cfg stackSize then stackSize else cfg.stackMinimumSize
  if cfg.stackHooks then some (R, if granted = 0 then 0 else stackSize, granted)
  else
    let stackSize := stackAdjustSize cfg stackSize
    (R.allocate cfg.workspaceArea stackSize).map fun r =>
      (r.1, if r.2 = 0 then 0 else stackSize, r.2)

/-- `_Thread_Stack_Free`; the hook does not concern the workspace. -/
def stackFree : Resources :=
  if ¬ (R.control t).coreAllocatedStack then R
  else if cfg.stackHooks then R
  else R.free cfg.workspaceArea (R.control t).initialStackArea

def initializeStack (stackArea stackSize granted : Nat) : Option (Resources × Bool) :=
  if stackArea = 0 then
    let actualStackSize := if stackIsEnough cfg stackSize then stackSize else cfg.stackMinimumSize
    (stackAllocate cfg R actualStackSize granted).map fun r =>
      if r.2.1 = 0 then (r.1, false)
      else
        (r.1.setControl t { r.1.control t with coreAllocatedStack := true, initialStackArea := r.2.2 },
          true)
  else
    some (R.setControl t { R.control t with coreAllocatedStack := false, initialStackArea := stackArea },
      true)

def initializeFp (isFp : Bool) : Option (Resources × Bool) :=
  if isFp then
    (R.allocate cfg.workspaceArea cfg.contextFpSize).map fun r =>
      if r.2 = 0 then (stackFree cfg r.1 t, false)
      else (r.1.setControl t { r.1.control t with fpContext := cfg.contextFpStart r.2 }, true)
  else some (R.setControl t { R.control t with fpContext := 0 }, true)

def fpFree : Resources :=
  if (R.control t).fpContext = 0 then R else R.free cfg.workspaceArea (R.control t).fpContext

def extensionsSize : Nat := addWord cfg.maximumExtensions 1 * 4 % 2 ^ 32

def initializeExtensions : Option (Resources × Bool) :=
  if cfg.maximumExtensions = 0 then some (R.setControl t { R.control t with extensions := 0 }, true)
  else
    (R.allocate cfg.workspaceArea (extensionsSize cfg)).map fun r =>
      if r.2 = 0 then (stackFree cfg (fpFree cfg r.1 t) t, false)
      else (r.1.setControl t { r.1.control t with extensions := r.2 }, true)

def extensionsFree : Resources :=
  if (R.control t).extensions = 0 then R else R.free cfg.workspaceArea (R.control t).extensions

def andThen (r : Option (Resources × Bool)) (k : Resources → Option (Resources × Bool)) :
    Option (Resources × Bool) :=
  r.bind fun r => if r.2 then k r.1 else some r

def initializeAreas (stackArea stackSize granted : Nat) (isFp : Bool) : Option (Resources × Bool) :=
  andThen (initializeStack cfg R t stackArea stackSize granted) fun R =>
    andThen (initializeFp cfg R t isFp) fun R => initializeExtensions cfg R t

def userExtensionsThreadCreate : List Callouts → Resources → Option (Resources × Bool)
  | [], R => some (R, true)
  | e :: es, R =>
    e.threadCreate.elim (userExtensionsThreadCreate es R) fun create =>
      andThen (create R t) fun R => userExtensionsThreadCreate es R

def userExtensionsThreadDelete (es : List Callouts) (R : Resources) : Resources :=
  es.foldr (fun e R => e.threadDelete.elim R fun delete => delete R t) R

end Thread

structure Request where
  stackArea : Nat
  stackSize : Nat
  isFp : Bool
  granted : Nat
  deriving DecidableEq, Repr

variable (cfg : Config)

def threadInitialize (s : System) (c : ThreadClass) (t : Tcb) (q : Request) :
    Option (System × Bool) :=
  (initializeAreas cfg s.resources t q.stackArea q.stackSize q.granted q.isFp).bind fun r =>
    if r.2 then
      let table := s.table.openObject c t
      (userExtensionsThreadCreate t cfg.userExtensions r.1).map fun r =>
        if r.2 then ({ s with table, resources := r.1 }, true)
        else
          let R := stackFree cfg (fpFree cfg (extensionsFree cfg r.1 t) t) t
          ({ s with table, resources := R }, false)
    else some ({ s with resources := r.1 }, false)

def threadClose (s : System) (c : ThreadClass) (t : Tcb) : System :=
  let R := userExtensionsThreadDelete t cfg.userExtensions s.resources
  let R := stackFree cfg (fpFree cfg R t) t
  let R := extensionsFree cfg R t
  { s with
    table := s.table.closeObject c t
    resources := R.setControl t { R.control t with extensions := 0 } }

/-- `_Thread_Get`, with `OBJECTS_ID_OF_SELF`. -/
def threadGet (s : System) (id : Nat) : Objects.Location × Option Tcb :=
  if id = 0 then (.objectsLocal, some s.executing)
  else
    (ThreadClass.ofCode (Objects.getClass id)).elim (.objectsError, none) fun c =>
      if (s.table.information c).isThread then (s.table.information c).get id
      else (.objectsError, none)

/-! ## tasks.c -/

structure TaskRequest where
  name : Nat
  initialPriority : Nat
  stackSize : Nat
  attributeSet : Nat
  granted : Nat
  deriving DecidableEq, Repr

def isFloatingPoint (attributeSet : Nat) : Bool := attributeSet.testBit 0
def isGlobal (attributeSet : Nat) : Bool := attributeSet.testBit 1
def isSystemTask (attributeSet : Nat) : Bool := attributeSet.testBit 7

def priorityIsValid (thePriority : Nat) : Bool := 1 ≤ thePriority ∧ thePriority ≤ 255

def theAttributeSet (attributeSet : Nat) : Nat :=
  (attributeSet ||| cfg.attributesRequired) &&& (2 ^ 32 - 1 - cfg.attributesNotSupported)

def TaskRequest.request (q : TaskRequest) (cfg : Config) : Request :=
  ⟨0, q.stackSize, isFloatingPoint (theAttributeSet cfg q.attributeSet), q.granted⟩

/-- `_RTEMS_tasks_Free`: the class is that of the id. -/
def tasksFree (s : System) (t : Tcb) : System :=
  (ThreadClass.ofCode (Objects.getClass (s.table.id t))).elim s fun c =>
    { s with table := s.table.free c t }

/-- `rtems_task_create` on a single node. -/
def taskCreate (s : System) (q : TaskRequest) : Option (System × Status) :=
  let attributeSet := theAttributeSet cfg q.attributeSet
  if q.name = 0 then some (s, .invalidName)
  else if ¬ isSystemTask attributeSet ∧ ¬ priorityIsValid q.initialPriority then
    some (s, .invalidPriority)
  else if isGlobal attributeSet then some (s, .mpNotConfigured)
  else
    let r := s.table.allocate .rtemsTasks
    let s := { s with table := r.1 }
    r.2.elim (some (s, .tooMany)) fun t =>
      (threadInitialize cfg s .rtemsTasks t (q.request cfg)).map fun r =>
        if r.2 then (r.1, .successful) else (tasksFree r.1 t, .unsatisfied)

def taskDelete (s : System) (id : Nat) : System × Status :=
  (threadGet s id).2.elim (s, .invalidId) fun t =>
    (ThreadClass.ofCode (Objects.getClass (s.table.id t))).elim (s, .invalidId) fun c =>
      (tasksFree (threadClose cfg s c t) t, .successful)

/-! ## pthread.c -/

/-- The error numbers that `pthread_create` returns. -/
inductive Errno
  | success
  | einval
  | enotsup
  | eagain
  deriving DecidableEq, Repr

/-- `rejected` is what the checks of the attributes return. -/
structure ThreadRequest where
  stackaddr : Nat
  stacksize : Nat
  rejected : Option Errno
  granted : Nat
  deriving DecidableEq, Repr

def ThreadRequest.request (q : ThreadRequest) (cfg : Config) : Request :=
  ⟨q.stackaddr, q.stacksize, cfg.hardwareFp, q.granted⟩

/-- `_POSIX_Threads_Free`, always to the class of POSIX threads. -/
def posixThreadsFree (s : System) (t : Tcb) : System :=
  { s with table := s.table.free .posixThreads t }

/-- `pthread_create`; the thread is dormant and can be started. -/
def pthreadCreate (s : System) (q : ThreadRequest) : Option (System × Errno) :=
  if q.stackaddr ≠ 0 ∧ ¬ stackIsEnough cfg q.stacksize then some (s, .einval)
  else
    q.rejected.elim
      (let r := s.table.allocate .posixThreads
        let s := { s with table := r.1 }
        r.2.elim (some (s, .eagain)) fun t =>
          (threadInitialize cfg s .posixThreads t (q.request cfg)).map fun r =>
            if r.2 then (r.1, .success) else (posixThreadsFree r.1 t, .eagain))
      fun e => some (s, e)

def pthreadExit (s : System) : System :=
  (ThreadClass.ofCode (Objects.getClass (s.table.id s.executing))).elim s fun c =>
    posixThreadsFree (threadClose cfg s c s.executing) s.executing

/-! ## The extensions of the two interfaces -/

/-- The extensions of `_RTEMS_tasks`. -/
def tasksExtension (area size : Nat) : Callouts where
  threadCreate := some fun R created =>
    (R.allocate area size).map fun r =>
      if r.2 = 0 then (r.1, false)
      else (r.1.setControl created { r.1.control created with apiRtems := r.2 }, true)
  threadDelete := some fun R deleted =>
    let R := R.free area (R.control deleted).apiRtems
    R.setControl deleted { R.control deleted with apiRtems := 0 }

/-- The extensions of `_POSIX_Threads`, without keys, joins and the timer. -/
def posixThreadsExtension (area size : Nat) : Callouts where
  threadCreate := some fun R created =>
    (R.allocate area size).map fun r =>
      if r.2 = 0 then (r.1, false)
      else (r.1.setControl created { r.1.control created with apiPosix := r.2 }, true)
  threadDelete := some fun R deleted =>
    let api := (R.control deleted).apiPosix
    let R := R.setControl deleted { R.control deleted with apiPosix := 0 }
    R.free area api

/-! ## Runs -/

inductive Directive
  | taskCreate (q : TaskRequest)
  | taskDelete (id : Nat)
  | pthreadCreate (q : ThreadRequest)
  | pthreadExit
  deriving DecidableEq, Repr

def System.perform (s : System) : Directive → Option System
  | .taskCreate q => (taskCreate cfg s q).map Prod.fst
  | .taskDelete id => some (taskDelete cfg s id).1
  | .pthreadCreate q => (pthreadCreate cfg s q).map Prod.fst
  | .pthreadExit => some (pthreadExit cfg s)

def System.isOpen (s : System) (t : Tcb) : Bool :=
  (s.table.information t.owner).localTable t.number = some t ∧
    t.number ≤ (s.table.information t.owner).maximum

def configured (maximumTasks maximumPthreads : Nat) : ThreadClass → Objects.Configured
  | .internalThreads => ⟨1, 1, true⟩
  | .rtemsTasks => ⟨2, maximumTasks, true⟩
  | .posixThreads => ⟨3, maximumPthreads, true⟩

def System.boot (t : Table ThreadClass) (node maximumTasks maximumPthreads : Nat) (R : Resources) :
    System :=
  let t := t.initializeClasses node (configured maximumTasks maximumPthreads)
    [.internalThreads, .rtemsTasks, .posixThreads]
  let idle : Tcb := ⟨.internalThreads, 1⟩
  ⟨(t.allocate .internalThreads).1.openObject .internalThreads idle, R, idle⟩

def System.step (s : System) (m : Directive × Tcb) : Option System :=
  (s.perform cfg m.1).bind fun s => if s.isOpen m.2 then some { s with executing := m.2 } else none

end Rtems.Creation
