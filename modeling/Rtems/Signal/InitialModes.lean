import Rtems.Library.Transition
import Rtems.Signal.Invariant

/-! # The initial modes of a task -/

namespace Rtems.Signal

open Thread (Asr BudgetAlgorithm)
open Thread.Scheduler (preemptMask timesliceMask asrMask)
open Transition (Steps run checked exists_of_map)

structure Start where
  isPreemptible : Bool
  budgetAlgorithm : BudgetAlgorithm
  isrLevel : BitVec 8
  deriving DecidableEq, Repr

def asrInitialize (t : Task) : Task :=
  { t with asr := ⟨true, 0, 0⟩, hasHandler := false, modeSet := 0, nestLevel := 0 }

/-- `_Thread_Load_environment`; the interrupt level is set in `_Thread_Handler`. -/
def loadEnvironment (start : Start) (t : Task) : Task :=
  { t with
    doPostTaskSwitchExtension := false
    isPreemptible := start.isPreemptible
    budgetAlgorithm := start.budgetAlgorithm
    interruptLevel := start.isrLevel }

variable (interruptMask : BitVec 8)

def startOf (initialModes : BitVec 32) : Start where
  isPreemptible := initialModes &&& preemptMask = 0
  budgetAlgorithm := if initialModes &&& timesliceMask = timesliceMask then .resetTimeslice else .none
  isrLevel := initialModes.setWidth 8 &&& interruptMask

/-- `rtems_task_create`, with the create extension. -/
def taskCreate (initialModes : BitVec 32) (t : Task) : Task :=
  let start := startOf interruptMask initialModes
  let t := { t with isPreemptible := start.isPreemptible, budgetAlgorithm := start.budgetAlgorithm }
  let t := asrInitialize t
  { t with asr := { t.asr with isEnabled := isAsrEnabled initialModes } }

/-- `_Thread_Start`, with the start extension. -/
def taskStart (start : Start) (t : Task) : Task := asrInitialize (loadEnvironment start t)

/-- `_Thread_Restart`, with the restart extension. -/
def taskRestart (start : Start) (t : Task) : Task :=
  let t := { t with isPreemptible := start.isPreemptible, budgetAlgorithm := start.budgetAlgorithm }
  asrInitialize (loadEnvironment start t)

def signalCatch (asrHandler : Bool) (modeSet : BitVec 32) (t : Task) : Task :=
  if asrHandler then { t with modeSet, hasHandler := true } else asrInitialize t

inductive Event
  | signal (m : Move)
  | catchSignals (asrHandler : Bool) (modeSet : BitVec 32)
  | restart
  deriving DecidableEq, Repr

def Machine.perform (start : Start) (m : Machine) : Event → Option Machine
  | .signal mv => m.step interruptMask mv
  | .catchSignals asrHandler modeSet =>
    if inUserCode m.frames then some (m.setTask (signalCatch asrHandler modeSet m.task)) else none
  | .restart => some ((m.setTask (taskRestart start m.task)).setFrames [])

def Machine.started (initialModes : BitVec 32) (t : Task) : Machine where
  task := taskStart (startOf interruptMask initialModes) (taskCreate interruptMask initialModes t)
  frames := []
  handled := []

/-- The task does not call `rtems_task_mode` itself. -/
def OwnModes (_ : Machine) : Event → Prop
  | .signal (.taskMode _ _) => False
  | _ => True

instance (m : Machine) (e : Event) : Decidable (OwnModes m e) := by
  unfold OwnModes
  split <;> infer_instance

/-! ## Modes -/

structure Modes where
  isPreemptible : Bool
  isTimesliced : Bool
  isAsrEnabled : Bool
  interruptLevel : BitVec 8
  deriving DecidableEq, Repr

def Task.modes (t : Task) : Modes :=
  ⟨t.isPreemptible, t.budgetAlgorithm ≠ .none, t.asr.isEnabled, t.interruptLevel⟩

def modesOf (modeSet : BitVec 32) : Modes :=
  ⟨modeSet &&& preemptMask = 0, modeSet &&& timesliceMask = timesliceMask, isAsrEnabled modeSet,
    modeSet.setWidth 8 &&& interruptMask⟩

def Frame.isBusy : Frame → Bool
  | .switchExtension (.called _) => true
  | .switchExtension (.entered _ _) => true
  | .switchExtension (.handling _) => true
  | .switchExtension (.restoring _) => true
  | _ => false

def Modes.general (M : Modes) : Bool × Bool × BitVec 8 := (M.isPreemptible, M.isTimesliced, M.interruptLevel)

def Restored (M prev : Modes) : ModePoint → Prop
  | .entry | .modes => True
  | .compare | .store => M.general = prev.general
  | .swap | .pending | .evaluate _ | .leave => M = prev

inductive Moded (interruptMask : BitVec 8) (init : Modes) : Modes → List Frame → Prop
  | nil : Moded interruptMask init init []
  | dispatch {M p fs} (h : Moded interruptMask init M fs) : Moded interruptMask init M (.dispatch p :: fs)
  | entry {M fs} (h : Moded interruptMask init M fs) :
      Moded interruptMask init M (.switchExtension .entry :: fs)
  | taken {M s fs} (h : Moded interruptMask init M fs) :
      Moded interruptMask init M (.switchExtension (.taken s) :: fs)
  | called {M modeSet s fs} (h : Moded interruptMask init M fs) :
      Moded interruptMask init M
        (.taskMode modeSet allModeMasks .entry :: .switchExtension (.called s) :: fs)
  | setting {M modeSet p s prev fs} (h : Moded interruptMask init (modesOf interruptMask prev) fs) :
      Moded interruptMask init M
        (.taskMode modeSet allModeMasks p :: .switchExtension (.entered s prev) :: fs)
  | entered {M s prev fs} (h : Moded interruptMask init (modesOf interruptMask prev) fs) :
      Moded interruptMask init M (.switchExtension (.entered s prev) :: fs)
  | handler {M prev fs} (h : Moded interruptMask init (modesOf interruptMask prev) fs) :
      Moded interruptMask init M (.handler :: .switchExtension (.handling prev) :: fs)
  | own {M modeSet mask p prev fs} (h : Moded interruptMask init (modesOf interruptMask prev) fs) :
      Moded interruptMask init M
        (.taskMode modeSet mask p :: .handler :: .switchExtension (.handling prev) :: fs)
  | handling {M prev fs} (h : Moded interruptMask init (modesOf interruptMask prev) fs) :
      Moded interruptMask init M (.switchExtension (.handling prev) :: fs)
  | resetting {M p prev fs} (hp : Restored M (modesOf interruptMask prev) p)
      (h : Moded interruptMask init (modesOf interruptMask prev) fs) :
      Moded interruptMask init M
        (.taskMode prev allModeMasks p :: .switchExtension (.restoring prev) :: fs)
  | restoring {M prev fs} (hM : M = modesOf interruptMask prev) (h : Moded interruptMask init M fs) :
      Moded interruptMask init M (.switchExtension (.restoring prev) :: fs)

section

variable {interruptMask : BitVec 8} {m m' : Machine} {t : Task} {fs : List Frame} {M M' init : Modes}
  {w : BitVec 32}

theorem setWidth_and_preemptMask (l : BitVec 8) : l.setWidth 32 &&& preemptMask = 0#32 := by
  revert l
  decide

theorem setWidth_and_timesliceMask (l : BitVec 8) : l.setWidth 32 &&& timesliceMask = 0#32 := by
  revert l
  decide

theorem setWidth_setWidth (l : BitVec 8) : (l.setWidth 32).setWidth 8 = l := by
  revert l
  decide

theorem modesOf_oldMode (hl : t.interruptLevel &&& interruptMask = t.interruptLevel) :
    modesOf interruptMask (oldMode t) = t.modes := by
  have hp : oldMode t &&& preemptMask = if t.isPreemptible then 0#32 else preemptMask := by
    simp only [oldMode, BitVec.and_or_distrib_right, setWidth_and_preemptMask]
    cases t.isPreemptible <;> cases t.asr.isEnabled <;> by_cases hb : t.budgetAlgorithm = .none <;>
      simp only [hb] <;> decide
  have ht : oldMode t &&& timesliceMask = if t.budgetAlgorithm = .none then 0#32 else timesliceMask := by
    simp only [oldMode, BitVec.and_or_distrib_right, setWidth_and_timesliceMask]
    cases t.isPreemptible <;> cases t.asr.isEnabled <;> by_cases hb : t.budgetAlgorithm = .none <;>
      simp only [hb] <;> decide
  have hs : (oldMode t).setWidth 8 = t.interruptLevel := by
    simp only [oldMode, BitVec.setWidth_or, setWidth_setWidth]
    cases t.isPreemptible <;> cases t.asr.isEnabled <;> by_cases hb : t.budgetAlgorithm = .none <;>
      simp [hb, preemptMask, timesliceMask, asrMask]
  unfold modesOf Task.modes
  rw [hp, ht, hs, hl, isAsrEnabled_oldMode]
  congr 1
  · cases t.isPreemptible <;> decide
  · by_cases hb : t.budgetAlgorithm = .none <;> simp [hb, timesliceMask]

theorem Modes.eq_of_general (h : M.general = init.general) (ha : M.isAsrEnabled = init.isAsrEnabled) :
    M = init := by
  obtain ⟨p, s, a, l⟩ := M
  simp only [Modes.general, Prod.mk.injEq] at h ha
  obtain ⟨rfl, rfl, rfl⟩ := h
  rw [ha]

theorem allModeMasks_and_setWidth (l : BitVec 8) : allModeMasks &&& l.setWidth 32 = 0#32 ↔ l = 0#8 := by
  revert l
  decide

theorem general_setModes (hl : t.interruptLevel &&& interruptMask = t.interruptLevel) :
    (setModes interruptMask w allModeMasks t).modes.general = (modesOf interruptMask w).general := by
  have hp : allModeMasks &&& preemptMask ≠ 0 := by decide
  have ht : allModeMasks &&& timesliceMask ≠ 0 := by decide
  have hs : decide ((if w &&& timesliceMask = timesliceMask then BudgetAlgorithm.resetTimeslice else .none) ≠
      .none) = decide (w &&& timesliceMask = timesliceMask) := by
    by_cases hc : w &&& timesliceMask = timesliceMask <;> simp [hc]
  unfold setModes
  rw [if_pos hp]
  dsimp only
  rw [if_pos ht]
  by_cases hi : interruptMask = 0#8
  · -- a port without interrupt levels
    subst hi
    have h0 : t.interruptLevel = 0#8 := by
      rw [← hl]
      exact BitVec.and_zero
    rw [if_neg (by decide)]
    simp only [Task.modes, Modes.general, modesOf, h0, hs, BitVec.and_zero]
  · have hm : allModeMasks &&& interruptMask.setWidth 32 ≠ 0 := mt (allModeMasks_and_setWidth _).mp hi
    rw [if_pos hm]
    simp only [Task.modes, Modes.general, modesOf, hs]

def Leveled (interruptMask : BitVec 8) (t : Task) : Prop := t.interruptLevel &&& interruptMask = t.interruptLevel

theorem Leveled.setModes {mask} (hl : Leveled interruptMask t) :
    Leveled interruptMask (setModes interruptMask w mask t) := by
  unfold Leveled at *
  have hw : w.setWidth 8 &&& interruptMask &&& interruptMask = w.setWidth 8 &&& interruptMask := by
    rw [BitVec.and_assoc, BitVec.and_self]
  grind [Signal.setModes]

/-! ## The modes during the calls -/

theorem Moded.eq_init (h : Moded interruptMask init M fs) (hb : ∀ f ∈ fs, f.isBusy = false) : M = init := by
  induction h with
  | nil => rfl
  | dispatch _ ih | entry _ ih | taken _ ih => exact ih fun f hf => hb f (List.mem_cons_of_mem _ hf)
  | called | setting | entered | handler | own | handling | resetting | restoring => simp [Frame.isBusy] at hb

theorem Moded.change (h : Moded interruptMask init M fs) (hu : inUserCode fs = true)
    (hM : fs = [] → M' = M) : Moded interruptMask init M' fs := by
  cases h with
  | nil => exact hM rfl ▸ .nil
  | handler h => exact .handler h
  | dispatch | entry | taken | called | setting | entered | own | handling | resetting | restoring => cases hu

theorem Moded.modeStep {modeSet mask p} (choice : Bool) (hl : Leveled interruptMask m.task)
    (h : Moded interruptMask init m.task.modes (.taskMode modeSet mask p :: fs)) :
    Moded interruptMask init (Machine.modeStep interruptMask m modeSet mask choice fs p).task.modes
      (Machine.modeStep interruptMask m modeSet mask choice fs p).frames := by
  cases h with
  | called h => exact .setting (modesOf_oldMode hl ▸ h)
  | setting h =>
    cases p with
    | entry | modes | store | swap => exact .setting h
    | compare | pending =>
      unfold Machine.modeStep
      dsimp only
      split <;> exact .setting h
    | evaluate n =>
      unfold Machine.modeStep
      dsimp only
      split
      · exact .dispatch (.setting h)
      · exact .setting h
    | leave => exact .entered h
  | own h =>
    cases p with
    | entry | modes | store | swap => exact .own h
    | compare | pending =>
      unfold Machine.modeStep
      dsimp only
      split <;> exact .own h
    | evaluate n =>
      unfold Machine.modeStep
      dsimp only
      split
      · exact .dispatch (.own h)
      · exact .own h
    | leave => exact .handler h
  | resetting hp h =>
    cases p with
    | entry => exact .resetting trivial h
    | modes => exact .resetting (general_setModes hl) h
    | compare =>
      unfold Machine.modeStep
      dsimp only
      split
      · exact .resetting hp h
      · rename_i hc
        refine .resetting (Modes.eq_of_general hp ?_) h
        exact (not_not.mp fun hne => hc ⟨allModeMasks_and, hne⟩).symm
    | store => exact .resetting (Modes.eq_of_general hp rfl) h
    | swap => exact .resetting hp h
    | pending =>
      unfold Machine.modeStep
      dsimp only
      split <;> exact .resetting hp h
    | evaluate n =>
      unfold Machine.modeStep
      dsimp only
      split
      · exact .dispatch (.resetting hp h)
      · exact .resetting hp h
    | leave =>
      have hM : m.task.modes = modesOf interruptMask modeSet := hp
      exact .restoring hM (hM.symm ▸ h)

theorem Moded.dispatchStep {p} (choice : Bool)
    (h : Moded interruptMask init m.task.modes (.dispatch p :: fs)) :
    Moded interruptMask init (Machine.dispatchStep m choice fs p).task.modes
      (Machine.dispatchStep m choice fs p).frames := by
  cases h with
  | dispatch h =>
    cases p with
    | check =>
      unfold Machine.dispatchStep
      dsimp only
      split
      · exact .dispatch h
      · exact h
    | clear => exact .entry (.dispatch h)
    | leave => exact h

theorem Moded.extensionStep {p} (h : Moded interruptMask init m.task.modes (.switchExtension p :: fs)) :
    Moded interruptMask init (Machine.extensionStep m fs p).task.modes
      (Machine.extensionStep m fs p).frames := by
  cases h with
  | entry h =>
    unfold Machine.extensionStep
    dsimp only
    split
    · exact h
    · exact .taken h
  | taken h => exact .called h
  | entered h => exact .handler h
  | handling h => exact .resetting trivial h
  | restoring _ h => exact h

theorem modes_signalSend (s : BitVec 32) (t : Task) : (signalSend s t).1.modes = t.modes := by
  unfold signalSend
  split
  · split <;> rfl
  · rfl

theorem Stepped.task_cases {mv} (hs : Stepped interruptMask m mv m') :
    (m'.task.interruptLevel = m.task.interruptLevel ∧ m'.task.budgetAlgorithm = m.task.budgetAlgorithm) ∨
      ∃ w mask, m'.task = setModes interruptMask w mask m.task := by
  cases hs with
  | send s =>
    refine Or.inl ⟨congrArg Modes.interruptLevel (modes_signalSend s m.task), ?_⟩
    unfold signalSend
    split
    · split <;> rfl
    · rfl
  | dispatch | taskMode | handlerReturns => exact Or.inl ⟨rfl, rfl⟩
  | inTaskMode choice hf =>
    rename_i modeSet mask p fs
    cases p with
    | entry | store | swap | leave => exact Or.inl ⟨rfl, rfl⟩
    | modes => exact Or.inr ⟨modeSet, mask, rfl⟩
    | compare | pending | evaluate =>
      unfold Machine.modeStep
      dsimp only
      split <;> exact Or.inl ⟨rfl, rfl⟩
  | inDispatch choice hf =>
    rename_i p fs
    cases p with
    | clear | leave => exact Or.inl ⟨rfl, rfl⟩
    | check =>
      unfold Machine.dispatchStep
      dsimp only
      split <;> exact Or.inl ⟨rfl, rfl⟩
  | inExtension choice hf =>
    rename_i p fs
    cases p with
    | taken | called | entered | handling | restoring => exact Or.inl ⟨rfl, rfl⟩
    | entry =>
      unfold Machine.extensionStep
      dsimp only
      split <;> exact Or.inl ⟨rfl, rfl⟩

theorem Leveled.stepped {mv} (hl : Leveled interruptMask m.task) (hs : Stepped interruptMask m mv m') :
    Leveled interruptMask m'.task := by
  rcases hs.task_cases with ⟨hlv, -⟩ | ⟨w, mask, ht⟩
  · unfold Leveled
    rw [hlv]
    exact hl
  · rw [ht]
    exact hl.setModes

theorem Moded.stepped {mv} (h : Moded interruptMask init m.task.modes m.frames)
    (hl : Leveled interruptMask m.task) (hm : ∀ w mask, mv = .taskMode w mask → m.frames ≠ [])
    (hs : Stepped interruptMask m mv m') : Moded interruptMask init m'.task.modes m'.frames := by
  cases hs with
  | send s =>
    change Moded interruptMask init (signalSend s m.task).1.modes m.frames
    rwa [modes_signalSend]
  | dispatch => exact .dispatch h
  | taskMode hu =>
    have hf := hm _ _ rfl
    revert hu hf h
    generalize m.frames = fs
    intro h hu hf
    cases h with
    | nil => exact absurd rfl hf
    | handler h => exact .own h
    | dispatch | entry | taken | called | setting | entered | own | handling | resetting | restoring => cases hu
  | handlerReturns hf =>
    rw [hf] at h
    cases h with
    | handler h => exact .handling h
  | inTaskMode choice hf => exact (hf ▸ h).modeStep choice hl
  | inDispatch choice hf => exact (hf ▸ h).dispatchStep choice
  | inExtension choice hf => exact (hf ▸ h).extensionStep

/-! ## Initial modes -/

theorem modes_asrInitialize (hw : isAsrEnabled w = true) :
    (asrInitialize (loadEnvironment (startOf interruptMask w) t)).modes = modesOf interruptMask w := by
  by_cases hs : w &&& timesliceMask = timesliceMask <;>
    simp [Task.modes, modesOf, asrInitialize, loadEnvironment, startOf, hs, hw]

theorem leveled_asrInitialize :
    Leveled interruptMask (asrInitialize (loadEnvironment (startOf interruptMask w) t)) := by
  simp only [Leveled, asrInitialize, loadEnvironment, startOf, BitVec.and_assoc, BitVec.and_self]

structure Machine.Kept (interruptMask : BitVec 8) (init : Modes) (m : Machine) : Prop where
  moded : Moded interruptMask init m.task.modes m.frames
  leveled : Leveled interruptMask m.task

theorem Machine.Kept.perform {e} (hw : isAsrEnabled w = true)
    (h : m.Kept interruptMask (modesOf interruptMask w)) (ho : OwnModes m e)
    (he : m.perform interruptMask (startOf interruptMask w) e = some m') :
    m'.Kept interruptMask (modesOf interruptMask w) := by
  cases e with
  | signal mv =>
    have hs := Signal.stepped he
    refine ⟨h.moded.stepped h.leveled ?_ hs, h.leveled.stepped hs⟩
    rintro w mask rfl
    exact ho.elim
  | catchSignals asrHandler modeSet =>
    simp only [Machine.perform] at he
    split at he <;> cases he
    rename_i hu
    cases asrHandler with
    | true => exact ⟨h.moded, h.leveled⟩
    | false =>
      refine ⟨h.moded.change hu fun hf => ?_, h.leveled⟩
      -- in the task's own code signals are enabled, so initializing the record changes nothing
      have hi : m.task.modes = modesOf interruptMask w := h.moded.eq_init (by simp [hf])
      have ha : m.task.asr.isEnabled = true := (congrArg Modes.isAsrEnabled hi).trans hw
      change Modes.mk _ _ true _ = Modes.mk _ _ m.task.asr.isEnabled _
      rw [ha]
      rfl
  | restart =>
    cases he
    refine ⟨?_, leveled_asrInitialize⟩
    change Moded interruptMask (modesOf interruptMask w) (taskRestart _ m.task).modes []
    rw [taskRestart, modes_asrInitialize hw]
    exact .nil

/-- A task has its initial modes wherever no handler runs. -/
theorem initial_modes_kept (hw : isAsrEnabled w = true)
    (h : Steps (Machine.perform interruptMask (startOf interruptMask w)) OwnModes
      (Machine.started interruptMask w t) m) :
    ((∀ f ∈ m.frames, f.isBusy = false) → m.task.modes = modesOf interruptMask w) ∧
      ∀ m', m.perform interruptMask (startOf interruptMask w) .restart = some m' →
        m'.task.modes = modesOf interruptMask w ∧ m'.frames = [] := by
  have hK : m.Kept interruptMask (modesOf interruptMask w) := by
    refine h.invariant (fun hK ho he => hK.perform hw ho he) ⟨?_, leveled_asrInitialize⟩
    change Moded interruptMask (modesOf interruptMask w) (taskStart _ _).modes []
    rw [taskStart, modes_asrInitialize hw]
    exact .nil
  refine ⟨hK.moded.eq_init, fun m' he => ?_⟩
  cases he
  exact ⟨modes_asrInitialize hw, rfl⟩

end

def blankTask : Task := ⟨⟨false, 0, 0⟩, false, 0, 0, true, .none, 0, false⟩

def handledOnce : List Event :=
  [.catchSignals true timesliceMask, .signal (.send 1), .signal .dispatch] ++
    List.replicate 10 (.signal (.go false)) ++ [.signal .handlerReturns] ++
    List.replicate 8 (.signal (.go false))

theorem initial_modes_kept_handledOnce :
    ∃ m, run (checked (Machine.perform 7 (startOf 7 0x102)) OwnModes) handledOnce
        (Machine.started 7 0x102 blankTask) = some m ∧
      m.handled = [1] ∧ m.task.modes = ⟨false, false, true, 2⟩ := by
  refine exists_of_map (fun m => (m.frames, m.handled)) ([], [1]) (by decide +kernel) fun m hm he => ?_
  simp only [Prod.mk.injEq] at he
  have h := initial_modes_kept (by decide) (Steps.refl.run_checked hm)
  exact ⟨he.2, (h.1 (by simp [he.1])).trans (by decide)⟩

/-- A task created with `RTEMS_NO_ASR` has signals enabled. -/
theorem no_asr_lost :
    (taskCreate 7 asrMask blankTask).modes = modesOf 7 asrMask ∧
      (Machine.started 7 asrMask blankTask).frames = [] ∧
      (Machine.started 7 asrMask blankTask).task.modes ≠ modesOf 7 asrMask ∧
      (Machine.started 7 asrMask blankTask).task.asr.isEnabled = true ∧ isAsrEnabled asrMask = false := by
  decide

end Rtems.Signal
