import Rtems.Signal.InitialModes

/-! # Saving and restoring the modes -/

namespace Rtems.Signal

open Thread (BudgetAlgorithm)
open Thread.Scheduler (preemptMask timesliceMask asrMask)
open Transition

/-- What `rtems_task_mode` changes of a thread. -/
structure Attributes where
  isPreemptible : Bool
  budgetAlgorithm : BudgetAlgorithm
  isAsrEnabled : Bool
  interruptLevel : BitVec 8
  deriving DecidableEq, Repr

def Task.attributes (t : Task) : Attributes :=
  ⟨t.isPreemptible, t.budgetAlgorithm, t.asr.isEnabled, t.interruptLevel⟩

def Encoded (t : Task) : Prop := t.budgetAlgorithm = .none ∨ t.budgetAlgorithm = .resetTimeslice

def InHandlers (m : Machine) : Move → Prop
  | .taskMode _ _ => m.frames ≠ []
  | _ => True

instance (m : Machine) : (mv : Move) → Decidable (InHandlers m mv)
  | .taskMode _ _ => decidable_of_iff (m.frames.isEmpty = false) (by simp [InHandlers])
  | .send _ | .dispatch | .handlerReturns | .go _ => .isTrue trivial

def Machine.above (m : Machine) (fs : List Frame) : Machine := m.setFrames (m.frames ++ fs)

variable {interruptMask : BitVec 8} {m m₀ m₁ m₂ m' : Machine} {t t' : Task} {fs gs : List Frame} {w : BitVec 32}
  {mv : Move} {init : Modes}

theorem Encoded.attributes_eq (h : Encoded t) (h' : Encoded t') (he : t.modes = t'.modes) :
    t.attributes = t'.attributes := by
  obtain ⟨hp, hs, ha, hl⟩ := Modes.mk.inj he
  have hb : t.budgetAlgorithm = t'.budgetAlgorithm := by
    rcases h with h | h <;> rcases h' with h' | h' <;> simp_all
  simp only [Task.attributes, hp, ha, hl, hb]

theorem Encoded.setModes {mask} (h : Encoded t) : Encoded (setModes interruptMask w mask t) := by
  unfold Encoded at *
  grind [Signal.setModes]

theorem encoded_setModes : Encoded (setModes interruptMask w allModeMasks t) := by
  have ht : allModeMasks &&& timesliceMask ≠ 0 := by decide
  unfold Encoded
  grind [Signal.setModes]

theorem Encoded.stepped (h : Encoded m.task) (hs : Stepped interruptMask m mv m') : Encoded m'.task := by
  rcases hs.task_cases with ⟨-, hb⟩ | ⟨w, mask, ht⟩
  · unfold Encoded
    rw [hb]
    exact h
  · rw [ht]
    exact h.setModes

/-- The calls before one with all masks has stored the modes; the last may be one of the thread's own. -/
inductive Unset : Bool → List Frame → Prop
  | nil : Unset false []
  | own {w p} (hp : p = .entry ∨ p = .modes) : Unset true [.taskMode w allModeMasks p]
  | dispatch {own p fs} (h : Unset own fs) : Unset own (.dispatch p :: fs)
  | entry {own fs} (h : Unset own fs) : Unset own (.switchExtension .entry :: fs)
  | taken {own s fs} (h : Unset own fs) : Unset own (.switchExtension (.taken s) :: fs)
  | called {own w s fs} (h : Unset own fs) :
      Unset own (.taskMode w allModeMasks .entry :: .switchExtension (.called s) :: fs)
  | setting {own w s prev fs} (h : Unset own fs) :
      Unset own (.taskMode w allModeMasks .modes :: .switchExtension (.entered s prev) :: fs)

theorem Unset.stepped {own} (h : Unset own m.frames) (hm : InHandlers m mv)
    (hs : Stepped interruptMask m mv m') : Encoded m'.task ∨ Unset own m'.frames ∧ m'.handled = m.handled := by
  cases hs with
  | send s => exact Or.inr ⟨h, rfl⟩
  | dispatch => exact Or.inr ⟨.dispatch h, rfl⟩
  | taskMode hu =>
    have hf : m.frames ≠ [] := hm
    revert hu hf h
    generalize m.frames = fs
    intro h hu hf
    cases h with
    | nil => exact absurd rfl hf
    | own | dispatch | entry | taken | called | setting => cases hu
  | handlerReturns hf =>
    rw [hf] at h
    cases h
  | inTaskMode choice hf =>
    rw [hf] at h
    cases h with
    | called h => exact Or.inr ⟨.setting h, rfl⟩
    | setting h => exact Or.inl encoded_setModes
    | own hp =>
      rcases hp with rfl | rfl
      · exact Or.inr ⟨.own (Or.inr rfl), rfl⟩
      · exact Or.inl encoded_setModes
  | inDispatch choice hf =>
    rename_i p fs
    rw [hf] at h
    cases h with
    | dispatch h =>
      cases p with
      | clear => exact Or.inr ⟨.entry (.dispatch h), rfl⟩
      | leave => exact Or.inr ⟨h, rfl⟩
      | check =>
        unfold Machine.dispatchStep
        dsimp only
        split
        · exact Or.inr ⟨.dispatch h, rfl⟩
        · exact Or.inr ⟨h, rfl⟩
  | inExtension choice hf =>
    rw [hf] at h
    cases h with
    | taken h => exact Or.inr ⟨.called h, rfl⟩
    | entry h =>
      unfold Machine.extensionStep
      dsimp only
      split
      · exact Or.inr ⟨h, rfl⟩
      · exact Or.inr ⟨.taken h, rfl⟩

theorem Unset.steps {own} (h : Unset own m₀.frames) (hr : Steps (Machine.step interruptMask) InHandlers m₀ m) :
    Encoded m.task ∨ Unset own m.frames ∧ m.handled = m₀.handled := by
  refine hr.invariant (I := fun m => Encoded m.task ∨ Unset own m.frames ∧ m.handled = m₀.handled)
    (fun h hm he => ?_) (Or.inr ⟨h, rfl⟩)
  have hs := Signal.stepped he
  rcases h with h | ⟨h, hh⟩
  · exact Or.inl (h.stepped hs)
  · exact (h.stepped hm hs).imp_right fun ⟨h, hh'⟩ => ⟨h, hh'.trans hh⟩

/-! ## A call and its callers -/

theorem storePrevious_append (old : BitVec 32) (hg : ∀ s gs', gs ≠ .switchExtension (.called s) :: gs') :
    storePrevious old (fs ++ gs) = storePrevious old fs ++ gs := by
  cases fs with
  | nil =>
    simp only [List.nil_append]
    unfold storePrevious
    split
    · rename_i s gs'
      exact absurd rfl (hg s gs')
    · rfl
  | cons f fs =>
    unfold storePrevious
    split
    · rename_i h
      cases h
      rfl
    · rename_i h
      split
      · rename_i s gs' he
        cases he
        exact absurd rfl (h s _)
      · rfl

theorem modeStep_above {modeSet mask choice p} (hg : ∀ s gs', gs ≠ .switchExtension (.called s) :: gs') :
    (m.above gs).modeStep interruptMask modeSet mask choice (fs ++ gs) p =
      (m.modeStep interruptMask modeSet mask choice fs p).above gs := by
  cases p with
  | entry =>
    simp only [Machine.modeStep, storePrevious_append _ hg]
    rfl
  | modes | store | swap | leave => rfl
  | compare | pending | evaluate =>
    simp only [Machine.modeStep, apply_ite (Machine.above · gs)]
    rfl

theorem Stepped.above (hg : ∀ s gs', gs ≠ .switchExtension (.called s) :: gs') (hm : InHandlers m mv)
    (hs : Stepped interruptMask m mv m') : Stepped interruptMask (m.above gs) mv (m'.above gs) := by
  cases hs with
  | send s => exact .send s
  | dispatch => exact .dispatch
  | taskMode hu =>
    refine .taskMode ?_
    change inUserCode (m.frames ++ gs) = true
    rcases hf : m.frames with _ | ⟨f, fs⟩
    · exact absurd hf hm
    · rw [hf] at hu
      cases f with
      | handler => rfl
      | taskMode | dispatch | switchExtension => cases hu
  | handlerReturns hf => exact .handlerReturns (congrArg (· ++ gs) hf)
  | inTaskMode choice hf =>
    rw [← modeStep_above hg]
    exact .inTaskMode choice (congrArg (· ++ gs) hf)
  | inDispatch choice hf =>
    rename_i p fs
    have h : Stepped interruptMask (m.above gs) (.go choice) ((m.above gs).dispatchStep choice (fs ++ gs) p) :=
      .inDispatch choice (congrArg (· ++ gs) hf)
    cases p with
    | clear | leave => exact h
    | check =>
      simp only [Machine.dispatchStep, apply_ite (Machine.above · gs)] at h ⊢
      exact h
  | inExtension choice hf =>
    rename_i p fs
    have h : Stepped interruptMask (m.above gs) (.go choice) ((m.above gs).extensionStep (fs ++ gs) p) :=
      .inExtension choice (congrArg (· ++ gs) hf)
    cases p with
    | taken | called | entered | handling | restoring => exact h
    | entry =>
      simp only [Machine.extensionStep, apply_ite (Machine.above · gs)] at h ⊢
      exact h

/-! ## The pair of calls -/

structure Machine.Above (interruptMask : BitVec 8) (init : Modes) (gs : List Frame) (m : Machine) : Prop where
  moded : Moded interruptMask init m.task.modes (m.frames ++ gs)
  leveled : Leveled interruptMask m.task

theorem Machine.Above.steps (h : m₀.Above interruptMask init gs)
    (hg : ∀ s gs', gs ≠ .switchExtension (.called s) :: gs')
    (hr : Steps (Machine.step interruptMask) InHandlers m₀ m) :
    m.Above interruptMask init gs := by
  refine hr.invariant (fun h hm he => ?_) h
  have hs := stepped he
  have hs' := hs.above hg hm
  have hl := h.leveled.stepped hs
  have hM : Moded interruptMask init (Machine.above _ gs).task.modes _ := h.moded
  refine ⟨hM.stepped h.leveled ?_ hs', hl⟩
  rintro w mask rfl hn
  exact hm (List.append_eq_nil_iff.mp hn).1

theorem modes_taskMode (hl : Leveled interruptMask m₀.task) (hf : m₀.frames = [])
    (he : m₀.step interruptMask (.taskMode w allModeMasks) = some m₁)
    (hr : Steps (Machine.step interruptMask) InHandlers m₁ m) (hm : m.frames = []) :
    m.task.modes = modesOf interruptMask w ∧ Leveled interruptMask m.task ∧ Encoded m.task := by
  simp only [Machine.step, hf, inUserCode, if_true] at he
  cases he
  -- the call is as one that the extension makes to restore the modes
  have h1 : (m₀.setFrames [.taskMode w allModeMasks .entry]).Above interruptMask (modesOf interruptMask w)
      [.switchExtension (.restoring w)] := by
    refine ⟨?_, hl⟩
    exact Moded.resetting (p := .entry) trivial .nil
  have h := h1.steps (by simp) hr
  refine ⟨?_, h.leveled, (Unset.steps (.own (Or.inl rfl)) hr).resolve_right fun hu => ?_⟩
  case refine_2 =>
    rw [hm] at hu
    cases hu.1
  have hM := h.moded
  rw [hm] at hM
  generalize m.task.modes = M at hM ⊢
  cases hM with
  | restoring hM _ => exact hM

theorem Encoded.of_attributes (h : Encoded t) (he : t.attributes = t'.attributes) : Encoded t' := by
  have hb : t.budgetAlgorithm = t'.budgetAlgorithm := congrArg Attributes.budgetAlgorithm he
  unfold Encoded
  rw [← hb]
  exact h

/-- A budget algorithm is restored just if a mode set can tell it. -/
theorem taskMode_restores (hl : Leveled interruptMask m₀.task) (hf : m₀.frames = []) :
    (∀ w m₁ m₂ m₃ m₄, m₀.step interruptMask (.taskMode w allModeMasks) = some m₁ →
      Steps (Machine.step interruptMask) InHandlers m₁ m₂ → m₂.frames = [] →
      m₂.step interruptMask (.taskMode (oldMode m₀.task) allModeMasks) = some m₃ →
      Steps (Machine.step interruptMask) InHandlers m₃ m₄ → m₄.frames = [] →
      (m₄.task.attributes = m₀.task.attributes ↔ Encoded m₀.task)) ∧
    ∀ m, Steps (Machine.step interruptMask) InHandlers m₀ m → m.frames = [] →
      (Encoded m₀.task → m.task.attributes = m₀.task.attributes) ∧
      (m.task.attributes = m₀.task.attributes → m.handled ≠ m₀.handled → Encoded m₀.task) := by
  refine ⟨fun w m₁ m₂ m₃ m₄ he₁ hr₂ hf₂ he₃ hr₄ hf₄ => ?_, fun m hr hm => ⟨fun hb => ?_, fun ha hh => ?_⟩⟩
  · obtain ⟨-, hl₂, -⟩ := modes_taskMode hl hf he₁ hr₂ hf₂
    obtain ⟨hM, -, hb₄⟩ := modes_taskMode hl₂ hf₂ he₃ hr₄ hf₄
    exact ⟨hb₄.of_attributes, fun hb => hb₄.attributes_eq hb (hM.trans (modesOf_oldMode hl))⟩
  · have h₀ : m₀.Above interruptMask m₀.task.modes [] := by
      refine ⟨?_, hl⟩
      rw [hf]
      exact .nil
    have hM := (h₀.steps (by simp) hr).moded
    have hb' : Encoded m.task := hr.invariant (I := (Encoded ·.task)) (fun h _ he => h.stepped (stepped he)) hb
    exact hb'.attributes_eq hb (hM.eq_init (by simp [hm]))
  · have hu : Unset false m₀.frames := hf ▸ .nil
    exact ((hu.steps hr).resolve_right fun h => hh h.2).of_attributes ha

def slicedTask : Task := ⟨⟨true, 0, 0⟩, true, asrMask, 0, true, .resetTimeslice, 2, false⟩

def modeInHandler : List Move :=
  [.send 1, .dispatch] ++ List.replicate 13 (.go false) ++ [.taskMode preemptMask preemptMask] ++
    List.replicate 5 (.go false) ++ [.handlerReturns] ++ List.replicate 11 (.go false)

theorem taskMode_restores_modeInHandler :
    ∃ m, run (checked (Machine.step 7) InHandlers) modeInHandler ⟨slicedTask, [], []⟩ = some m ∧
      m.handled = [1] ∧ m.task.attributes = ⟨true, .resetTimeslice, true, 2⟩ := by
  refine exists_of_map (fun m => (m.frames, m.handled)) ([], [1]) (by decide +kernel) fun m hm he => ?_
  simp only [Prod.mk.injEq] at he
  have hf : (⟨slicedTask, [], []⟩ : Machine).frames = [] := rfl
  have h := taskMode_restores (show Leveled 7 slicedTask from rfl) hf
  exact ⟨he.2, ((h.2 m (.run_checked .refl hm) he.1).1 (Or.inr rfl)).trans rfl⟩

/-- A sporadic server takes a signal, and gets time slices. -/
theorem callout_lost :
    (run (checked (Machine.step 7) InHandlers) modeInHandler
      ⟨{ slicedTask with budgetAlgorithm := .callout }, [], []⟩).map
        (fun m => (m.frames, m.task.budgetAlgorithm)) = some ([], .resetTimeslice) ∧
    (run (Machine.step 7) ([.taskMode 0 allModeMasks] ++ List.replicate 5 (.go false) ++
        [.taskMode (oldMode { slicedTask with budgetAlgorithm := .callout }) allModeMasks] ++
        List.replicate 5 (.go false)) ⟨{ slicedTask with budgetAlgorithm := .callout }, [], []⟩).map
        (fun m => (m.frames, m.task.budgetAlgorithm)) = some ([], .resetTimeslice) := by
  decide +kernel

end Rtems.Signal
