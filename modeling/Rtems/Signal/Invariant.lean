import Rtems.Signal.Model

/-! # The signal sets of a task in its calls -/

namespace Rtems.Signal

open Thread (Asr)
open Thread.Scheduler (preemptMask timesliceMask asrMask)
open Machine (setAsr setFrames setTask step)

variable {interruptMask : BitVec 8}

theorem setWidth_and_asrMask (l : BitVec 8) : l.setWidth 32 &&& asrMask = 0#32 := by
  revert l
  decide

theorem isAsrEnabled_oldMode (t : Task) : isAsrEnabled (oldMode t) = t.asr.isEnabled := by
  have h : oldMode t &&& asrMask = if t.asr.isEnabled then 0#32 else asrMask := by
    simp only [oldMode, BitVec.and_or_distrib_right, setWidth_and_asrMask]
    cases t.isPreemptible <;> cases t.asr.isEnabled <;> by_cases hb : t.budgetAlgorithm = .none <;>
      simp only [hb] <;> decide
  rw [isAsrEnabled, h]
  cases t.asr.isEnabled <;> decide

theorem allModeMasks_and : allModeMasks &&& asrMask ≠ 0 := by decide

@[simp] theorem asr_setModes (modeSet mask : BitVec 32) (t : Task) :
    (setModes interruptMask modeSet mask t).asr = t.asr := by
  grind [setModes]

@[simp] theorem isEnabled_signalSend (s : BitVec 32) (t : Task) :
    (signalSend s t).1.asr.isEnabled = t.asr.isEnabled := by
  unfold signalSend
  split
  · split <;> rfl
  · rfl

/-! ## Calls leave the ASR mode as they find it -/

def AtPoint (b : Bool) (modeSet mask : BitVec 32) : ModePoint → Prop
  | .entry | .modes | .compare => True
  | .store => mask &&& asrMask ≠ 0 ∧ b = !isAsrEnabled modeSet
  | .swap | .pending => mask &&& asrMask ≠ 0 ∧ b = isAsrEnabled modeSet
  | .evaluate _ | .leave => mask &&& asrMask ≠ 0 → b = isAsrEnabled modeSet

/-- The flag that `rtems_task_mode` returns with. -/
def after (b : Bool) (modeSet mask : BitVec 32) : Bool :=
  if mask &&& asrMask ≠ 0 then isAsrEnabled modeSet else b

inductive Settled : Bool → List Frame → Prop
  | nil (b : Bool) : Settled b []
  | dispatch {b p fs} (h : Settled b fs) : Settled b (.dispatch p :: fs)
  | entry {b fs} (h : Settled b fs) : Settled b (.switchExtension .entry :: fs)
  | taken {b fs s} (h : Settled b fs) : Settled b (.switchExtension (.taken s) :: fs)
  | called {b fs s modeSet} (h : Settled b fs) :
      Settled b (.taskMode modeSet allModeMasks .entry :: .switchExtension (.called s) :: fs)
  | entered {b fs s prevMode} (h : Settled (isAsrEnabled prevMode) fs) :
      Settled b (.switchExtension (.entered s prevMode) :: fs)
  | handling {b fs prevMode} (h : Settled (isAsrEnabled prevMode) fs) :
      Settled b (.switchExtension (.handling prevMode) :: fs)
  | handler {b fs prevMode} (h : Settled (isAsrEnabled prevMode) fs) :
      Settled b (.handler :: .switchExtension (.handling prevMode) :: fs)
  | restoring {b fs prevMode} (hb : b = isAsrEnabled prevMode) (h : Settled b fs) :
      Settled b (.switchExtension (.restoring prevMode) :: fs)
  | taskMode {b modeSet mask p fs} (hp : AtPoint b modeSet mask p)
      (h : Settled (after b modeSet mask) fs) : Settled b (.taskMode modeSet mask p :: fs)

variable {m m' : Machine} {b c : Bool} {fs : List Frame}

theorem Settled.change (h : Settled b fs) (hu : inUserCode fs = true) (c : Bool) : Settled c fs := by
  cases h with
  | nil => exact .nil c
  | handler h => exact .handler h
  | dispatch | entry | taken | called | entered | handling | restoring | taskMode => cases hu

theorem Settled.storePrevious {t modeSet mask}
    (h : Settled t.asr.isEnabled (.taskMode modeSet mask .entry :: fs)) :
    Settled t.asr.isEnabled (.taskMode modeSet mask .modes :: storePrevious (oldMode t) fs) := by
  cases h with
  | called h => exact .taskMode trivial (.entered (by rwa [isAsrEnabled_oldMode]))
  | taskMode _ h =>
    refine .taskMode trivial ?_
    unfold Signal.storePrevious
    split
    · cases h
    · exact h

theorem after_of_eq {modeSet mask} (h : mask &&& asrMask ≠ 0 → b = isAsrEnabled modeSet) :
    after b modeSet mask = b := by
  unfold after
  split
  · rename_i hm; exact (h hm).symm
  · rfl

theorem after_eq {modeSet mask} (hm : mask &&& asrMask ≠ 0) (b c : Bool) :
    after b modeSet mask = after c modeSet mask := by
  rw [after, after, if_pos hm, if_pos hm]

theorem Settled.modeStep {modeSet mask p} (choice : Bool)
    (h : Settled m.task.asr.isEnabled (.taskMode modeSet mask p :: fs)) :
    Settled (Machine.modeStep interruptMask m modeSet mask choice fs p).task.asr.isEnabled
      (Machine.modeStep interruptMask m modeSet mask choice fs p).frames := by
  cases p with
  | entry => exact h.storePrevious
  | modes =>
    cases h with
    | taskMode _ h =>
      change Settled (setModes interruptMask modeSet mask m.task).asr.isEnabled _
      rw [asr_setModes]
      exact .taskMode trivial h
  | compare =>
    cases h with
    | taskMode _ h =>
      unfold Machine.modeStep
      dsimp only
      split
      · rename_i hc
        exact .taskMode ⟨hc.1, Bool.eq_not_of_ne (Ne.symm hc.2)⟩ h
      · rename_i hc
        refine .taskMode (fun hm => ?_) h
        exact (not_not.mp fun hne => hc ⟨hm, hne⟩).symm
  | store =>
    cases h with
    | taskMode hp h => exact .taskMode ⟨hp.1, rfl⟩ (after_eq hp.1 _ _ ▸ h)
  | swap =>
    cases h with
    | taskMode hp h => exact .taskMode hp h
  | pending =>
    cases h with
    | taskMode hp h =>
      unfold Machine.modeStep
      dsimp only
      split <;> exact .taskMode (fun _ => hp.2) h
  | evaluate n =>
    cases h with
    | taskMode hp h =>
      unfold Machine.modeStep
      dsimp only
      split
      · exact .dispatch (.taskMode hp h)
      · exact .taskMode hp h
  | leave =>
    cases h with
    | taskMode hp h =>
      rwa [after_of_eq hp] at h

theorem Settled.dispatchStep {p} (choice : Bool) (h : Settled m.task.asr.isEnabled (.dispatch p :: fs)) :
    Settled (Machine.dispatchStep m choice fs p).task.asr.isEnabled
      (Machine.dispatchStep m choice fs p).frames := by
  cases h with
  | dispatch h =>
    cases p with
    | check =>
      unfold Machine.dispatchStep
      dsimp only
      split
      · exact .dispatch h
      · exact h
    | clear => exact .entry (.dispatch h)
    | leave => exact h

theorem Settled.extensionStep {p} (h : Settled m.task.asr.isEnabled (.switchExtension p :: fs)) :
    Settled (Machine.extensionStep m fs p).task.asr.isEnabled
      (Machine.extensionStep m fs p).frames := by
  cases h with
  | entry h =>
    unfold Machine.extensionStep
    dsimp only
    split
    · exact h
    · exact .taken h
  | taken h => exact .called h
  | entered h => exact .handler h
  | handling h =>
    refine .taskMode trivial (.restoring ?_ ?_) <;> rw [after, if_pos allModeMasks_and]
    exact h
  | restoring _ h => exact h

inductive Stepped (interruptMask : BitVec 8) (m : Machine) : Move → Machine → Prop
  | send (s : BitVec 32) : Stepped interruptMask m (.send s) (m.setTask (signalSend s m.task).1)
  | dispatch : Stepped interruptMask m .dispatch (m.setFrames (.dispatch .check :: m.frames))
  | taskMode {modeSet mask : BitVec 32} (hu : inUserCode m.frames = true) :
      Stepped interruptMask m (.taskMode modeSet mask)
        (m.setFrames (.taskMode modeSet mask .entry :: m.frames))
  | handlerReturns {fs : List Frame} (hf : m.frames = .handler :: fs) :
      Stepped interruptMask m .handlerReturns (m.setFrames fs)
  | inTaskMode {modeSet mask : BitVec 32} {p : ModePoint} {fs : List Frame} (choice : Bool)
      (hf : m.frames = .taskMode modeSet mask p :: fs) :
      Stepped interruptMask m (.go choice) (m.modeStep interruptMask modeSet mask choice fs p)
  | inDispatch {p : DispatchPoint} {fs : List Frame} (choice : Bool) (hf : m.frames = .dispatch p :: fs) :
      Stepped interruptMask m (.go choice) (m.dispatchStep choice fs p)
  | inExtension {p : ExtensionPoint} {fs : List Frame} (choice : Bool)
      (hf : m.frames = .switchExtension p :: fs) :
      Stepped interruptMask m (.go choice) (m.extensionStep fs p)

theorem stepped {mv} (he : m.step interruptMask mv = some m') :
    Stepped interruptMask m mv m' := by
  cases mv with
  | send s =>
    cases he
    exact .send s
  | dispatch =>
    cases he
    exact .dispatch
  | taskMode modeSet mask =>
    simp only [step] at he
    split at he
    · rename_i hu
      cases he
      exact .taskMode hu
    · cases he
  | handlerReturns =>
    simp only [step] at he
    split at he
    · rename_i hf
      cases he
      exact .handlerReturns hf
    · cases he
  | go choice =>
    simp only [step] at he
    split at he
    · rename_i hf
      cases he
      exact .inTaskMode choice hf
    · rename_i hf
      cases he
      exact .inDispatch choice hf
    · rename_i hf
      cases he
      exact .inExtension choice hf
    · cases he

theorem Settled.step {mv} (h : Settled m.task.asr.isEnabled m.frames)
    (hs : Stepped interruptMask m mv m') : Settled m'.task.asr.isEnabled m'.frames := by
  cases hs with
  | send s =>
    change Settled (signalSend s m.task).1.asr.isEnabled m.frames
    rwa [isEnabled_signalSend]
  | dispatch => exact .dispatch h
  | taskMode hu => exact .taskMode trivial (h.change hu _)
  | handlerReturns hf =>
    rw [hf] at h
    cases h with
    | handler h => exact .handling h
  | inTaskMode choice hf => exact (hf ▸ h).modeStep choice
  | inDispatch choice hf => exact (hf ▸ h).dispatchStep choice
  | inExtension choice hf => exact (hf ▸ h).extensionStep

/-! ## Between the store of the flag and the swap -/

def Frame.isWindow : Frame → Bool
  | .taskMode _ _ .swap => true
  | _ => false

def inWindow (fs : List Frame) : Bool := fs.any Frame.isWindow

/-- On whose side the sets are: in the window they are not swapped yet. -/
def Machine.asrEnabled (m : Machine) : Bool := m.task.asr.isEnabled ^^ inWindow m.frames

def Quiet (m : Machine) : Move → Prop
  | .send _ => inWindow m.frames = false
  | .go _ => inWindow m.frames = true → m.frames.head? ≠ some (.dispatch .clear)
  | _ => True

instance (m : Machine) (mv : Move) : Decidable (Quiet m mv) := by
  cases mv <;> unfold Quiet <;> infer_instance

def Calm : List Frame → Prop
  | [] => True
  | .dispatch _ :: fs => Calm fs
  | _ :: fs => inWindow fs = false

theorem calm_of_not_inWindow (h : inWindow fs = false) : Calm fs := by
  induction fs with
  | nil => trivial
  | cons f fs ih =>
    rw [inWindow, List.any_cons, Bool.or_eq_false_iff] at h
    cases f with
    | dispatch => exact ih h.2
    | taskMode | switchExtension | handler => exact h.2

@[simp] theorem inWindow_cons (f : Frame) (fs : List Frame) :
    inWindow (f :: fs) = (f.isWindow || inWindow fs) := rfl

@[simp] theorem inWindow_storePrevious (old : BitVec 32) (fs : List Frame) :
    inWindow (storePrevious old fs) = inWindow fs := by
  unfold storePrevious
  split <;> rfl

theorem Calm.step {mv} (h : Calm m.frames) (hq : Quiet m mv)
    (hs : Stepped interruptMask m mv m') : Calm m'.frames := by
  cases hs with
  | send s => exact h
  | dispatch => exact h
  | taskMode hu =>
    cases hf : m.frames with
    | nil => rfl
    | cons f fs =>
      rw [hf] at h hu
      cases f with
      | handler => exact h
      | taskMode | dispatch | switchExtension => cases hu
  | handlerReturns hf =>
    rw [hf] at h
    exact calm_of_not_inWindow h
  | @inTaskMode modeSet mask p fs choice hf =>
    have hw : inWindow fs = false := by
      rw [hf] at h
      exact h
    cases p with
    | entry => exact (inWindow_storePrevious _ fs).trans hw
    | modes | store | swap => exact hw
    | compare | pending | evaluate => unfold Machine.modeStep; dsimp only; split <;> exact hw
    | leave => exact calm_of_not_inWindow hw
  | @inDispatch p fs choice hf =>
    have hc : Calm fs := by
      rw [hf] at h
      exact h
    cases p with
    | check => unfold Machine.dispatchStep; dsimp only; split <;> exact hc
    | clear =>
      have hw : inWindow m.frames = false := Bool.eq_false_iff.mpr fun ht => hq ht (hf ▸ rfl)
      rw [hf] at hw
      exact hw
    | leave => exact hc
  | @inExtension p fs choice hf =>
    have hw : inWindow fs = false := by
      rw [hf] at h
      exact h
    cases p with
    | entry =>
      unfold Machine.extensionStep
      dsimp only
      split
      · exact calm_of_not_inWindow hw
      · exact hw
    | restoring => exact calm_of_not_inWindow hw
    | taken | called | entered | handling => exact hw

def Sided (enabled : Bool) (a : Asr) : Prop :=
  if enabled then a.signalsPending = 0 else a.signalsPosted = 0

theorem Sided.signalSend {t} (h : Sided t.asr.isEnabled t.asr) (s : BitVec 32) :
    Sided t.asr.isEnabled (Signal.signalSend s t).1.asr := by
  unfold Signal.signalSend
  split
  · split
    · rename_i he
      simpa [Sided, he] using h
    · rename_i he
      simpa [Sided, he] using h
  · exact h

structure Sound (m : Machine) : Prop where
  settled : Settled m.task.asr.isEnabled m.frames
  calm : Calm m.frames
  sided : Sided m.asrEnabled m.task.asr

theorem asrEnabled_eq (h : inWindow m.frames = false) : m.asrEnabled = m.task.asr.isEnabled := by
  rw [Machine.asrEnabled, h, Bool.xor_false]

theorem Sound.sided_modeStep {modeSet mask p choice}
    (hS : Sound m) (hf : m.frames = .taskMode modeSet mask p :: fs) :
    Sided (m.modeStep interruptMask modeSet mask choice fs p).asrEnabled
      (m.modeStep interruptMask modeSet mask choice fs p).task.asr := by
  have hw : inWindow fs = false := by
    have := hS.calm
    rw [hf] at this
    exact this
  have hs := hS.sided
  rw [Machine.asrEnabled, hf, inWindow_cons, hw] at hs
  cases p with
  | entry =>
    simpa [Machine.modeStep, Machine.asrEnabled, setFrames, Frame.isWindow, hw] using hs
  | modes =>
    simpa [Machine.modeStep, Machine.asrEnabled, setFrames, setTask, Frame.isWindow, hw]
      using hs
  | compare | pending | evaluate =>
    unfold Machine.modeStep
    dsimp only
    split <;>
      simpa [Machine.asrEnabled, setFrames, Machine.setPost, setTask, Frame.isWindow,
        hw] using hs
  | store =>
    -- the flag changes sides and the window opens
    have hset := hS.settled
    rw [hf] at hset
    cases hset with
    | taskMode hp _ =>
      have hb : m.task.asr.isEnabled = !isAsrEnabled modeSet := hp.2
      simpa [Machine.modeStep, Machine.asrEnabled, setFrames, setAsr,
        setTask, Frame.isWindow, hw, hb, Sided] using hs
  | swap =>
    -- the sets change sides and the window closes
    cases hb : m.task.asr.isEnabled <;>
      simpa [Machine.modeStep, Machine.asrEnabled, setFrames, setAsr,
        setTask, Frame.isWindow, hw, hb, Sided, swapSignals] using hs
  | leave =>
    simpa [Machine.modeStep, Machine.asrEnabled, setFrames, Frame.isWindow, hw] using hs

theorem Sound.sided_extensionStep {p} (hS : Sound m) (hf : m.frames = .switchExtension p :: fs) :
    Sided (m.extensionStep fs p).asrEnabled (m.extensionStep fs p).task.asr := by
  have hw : inWindow fs = false := by
    have := hS.calm
    rw [hf] at this
    exact this
  have hs := hS.sided
  rw [Machine.asrEnabled, hf, inWindow_cons, hw] at hs
  cases p with
  | entry =>
    unfold Machine.extensionStep
    dsimp only
    cases hb : m.task.asr.isEnabled <;> split <;>
      simp_all [Machine.asrEnabled, setFrames, setAsr, setTask,
        Frame.isWindow, Sided]
  | taken | called | entered | handling | restoring =>
    simpa [Machine.extensionStep, Machine.asrEnabled, setFrames, setTask,
      Frame.isWindow, hw] using hs

theorem Sound.sided_dispatchStep {p choice} (hS : Sound m) (hf : m.frames = .dispatch p :: fs) :
    Sided (m.dispatchStep choice fs p).asrEnabled (m.dispatchStep choice fs p).task.asr := by
  have hs := hS.sided
  rw [Machine.asrEnabled, hf, inWindow_cons] at hs
  cases p with
  | check =>
    unfold Machine.dispatchStep
    dsimp only
    split <;> exact hs
  | clear | leave => exact hs

theorem Sound.step {mv} (hS : Sound m) (hq : Quiet m mv)
    (hs : Stepped interruptMask m mv m') : Sound m' := by
  refine ⟨hS.settled.step hs, hS.calm.step hq hs, ?_⟩
  cases hs with
  | send s =>
    have hw : inWindow m.frames = false := hq
    have h := hS.sided
    rw [asrEnabled_eq hw] at h
    rw [asrEnabled_eq (m := m.setTask (signalSend s m.task).1) hw]
    change Sided (signalSend s m.task).1.asr.isEnabled (signalSend s m.task).1.asr
    rw [isEnabled_signalSend]
    exact h.signalSend s
  | dispatch => exact hS.sided
  | taskMode hu => exact hS.sided
  | handlerReturns hf =>
    have h := hS.sided
    rw [Machine.asrEnabled, hf] at h
    exact h
  | inTaskMode choice hf => exact hS.sided_modeStep hf
  | inDispatch choice hf => exact hS.sided_dispatchStep hf
  | inExtension choice hf => exact hS.sided_extensionStep hf

end Rtems.Signal
