import Rtems.Library.Transition
import Rtems.Signal.Invariant

/-! # Signals from sending to the handler -/

namespace Rtems.Signal

open Thread (Asr)
open Thread.Scheduler (asrMask)
open Transition

variable {interruptMask : BitVec 8} {m m' m₀ : Machine} {i : Nat} {fs : List Frame}

/-! ## No bit is lost -/

def Frame.transit : Frame → BitVec 32
  | .switchExtension (.taken s) => s
  | .switchExtension (.called s) => s
  | .switchExtension (.entered s _) => s
  | _ => 0

def Sent (m : Machine) (i : Nat) : Prop :=
  m.task.asr.signalsPosted.getLsbD i = true ∨ m.task.asr.signalsPending.getLsbD i = true

def Carried (fs : List Frame) (i : Nat) : Prop := ∃ f ∈ fs, f.transit.getLsbD i = true

def Held (m : Machine) (i : Nat) : Prop := Sent m i ∨ Carried m.frames i

def Delivers (m m' : Machine) : Prop :=
  ∃ new, m'.handled = new ++ m.handled ∧
    ∀ i, Held m i → Held m' i ∨ ∃ s ∈ new, s.getLsbD i = true

theorem Delivers.refl (m : Machine) : Delivers m m := ⟨[], rfl, fun _ h => Or.inl h⟩

theorem Delivers.trans {m''} (h1 : Delivers m m') (h2 : Delivers m' m'') :
    Delivers m m'' := by
  obtain ⟨new1, hn1, hd1⟩ := h1
  obtain ⟨new2, hn2, hd2⟩ := h2
  refine ⟨new2 ++ new1, by rw [hn2, hn1, List.append_assoc], fun i h => ?_⟩
  rcases hd1 i h with h | ⟨s, hs, hb⟩
  · rcases hd2 i h with h | ⟨s, hs, hb⟩
    · exact Or.inl h
    · exact Or.inr ⟨s, List.mem_append_left _ hs, hb⟩
  · exact Or.inr ⟨s, List.mem_append_right _ hs, hb⟩

theorem Delivers.of_kept (hh : m'.handled = m.handled) (hs : ∀ i, Sent m i → Sent m' i)
    (hf : ∀ i, Carried m.frames i → Carried m'.frames i) : Delivers m m' :=
  ⟨[], hh, fun i h => Or.inl (h.imp (hs i) (hf i))⟩

theorem carried_cons {f} (h0 : f.transit = 0) : Carried (f :: fs) i ↔ Carried fs i := by
  simp [Carried, h0]

theorem Carried.append (fs' : List Frame) (h : Carried fs i) : Carried (fs' ++ fs) i := by
  obtain ⟨g, hg, hb⟩ := h
  exact ⟨g, List.mem_append_right _ hg, hb⟩

theorem Carried.storePrevious (old : BitVec 32) (h : Carried fs i) : Carried (storePrevious old fs) i := by
  unfold Signal.storePrevious
  split
  · obtain ⟨g, hg, hb⟩ := h
    rcases List.mem_cons.mp hg with rfl | hg
    · exact ⟨_, List.mem_cons_self, hb⟩
    · exact ⟨g, List.mem_cons_of_mem _ hg, hb⟩
  · exact h

/-- The first frame, which carries nothing, is replaced. -/
theorem Delivers.of_frames {f} (fs' : List Frame) (hf : m.frames = f :: fs) (h0 : f.transit = 0)
    (hf' : m'.frames = fs' ++ fs) (hh : m'.handled = m.handled) (hs : ∀ i, Sent m i → Sent m' i) :
    Delivers m m' := by
  refine .of_kept hh hs fun i h => ?_
  rw [hf, carried_cons h0] at h
  exact hf' ▸ h.append fs'

theorem sent_signalSend {t} (s : BitVec 32)
    (h : t.asr.signalsPosted.getLsbD i = true ∨ t.asr.signalsPending.getLsbD i = true) :
    (signalSend s t).1.asr.signalsPosted.getLsbD i = true ∨
      (signalSend s t).1.asr.signalsPending.getLsbD i = true := by
  unfold signalSend
  split
  · split
    · exact h.imp (fun h => by simp [h]) id
    · exact h.imp id fun h => by simp [h]
  · exact h

theorem delivers_modeStep {modeSet mask p} (choice : Bool)
    (hf : m.frames = .taskMode modeSet mask p :: fs) :
    Delivers m (m.modeStep interruptMask modeSet mask choice fs p) := by
  cases p with
  | entry =>
    refine .of_kept rfl (fun _ h => h) fun i h => ?_
    rw [hf, carried_cons rfl] at h
    exact (h.storePrevious _).append [_]
  | modes =>
    refine .of_frames [_] hf rfl rfl rfl fun i h => ?_
    change (setModes interruptMask modeSet mask m.task).asr.signalsPosted.getLsbD i = true ∨
      (setModes interruptMask modeSet mask m.task).asr.signalsPending.getLsbD i = true
    rwa [asr_setModes]
  | compare | pending =>
    unfold Machine.modeStep
    dsimp only
    split <;> exact .of_frames [_] hf rfl rfl rfl fun _ h => h
  | store => exact .of_frames [_] hf rfl rfl rfl fun _ h => h
  | swap => exact .of_frames [_] hf rfl rfl rfl fun _ h => h.symm
  | evaluate =>
    unfold Machine.modeStep
    dsimp only
    split
    · exact .of_frames [_, _] hf rfl rfl rfl fun _ h => h
    · exact .of_frames [_] hf rfl rfl rfl fun _ h => h
  | leave => exact .of_frames [] hf rfl rfl rfl fun _ h => h

theorem delivers_dispatchStep {p} (choice : Bool) (hf : m.frames = .dispatch p :: fs) :
    Delivers m (m.dispatchStep choice fs p) := by
  cases p with
  | check =>
    unfold Machine.dispatchStep
    dsimp only
    split
    · exact .of_frames [_] hf rfl rfl rfl fun _ h => h
    · exact .of_frames [] hf rfl rfl rfl fun _ h => h
  | clear => exact .of_frames [_, _] hf rfl rfl rfl fun _ h => h
  | leave => exact .of_frames [] hf rfl rfl rfl fun _ h => h

theorem delivers_extensionStep {p} (hf : m.frames = .switchExtension p :: fs) :
    Delivers m (m.extensionStep fs p) := by
  cases p with
  | entry =>
    unfold Machine.extensionStep
    dsimp only
    split
    · rename_i hz
      refine .of_frames [] hf rfl rfl rfl fun i h => ?_
      rcases h with h | h
      · rw [hz] at h
        simp at h
      · exact Or.inr h
    · refine ⟨[], rfl, fun i h => Or.inl ?_⟩
      rcases h with (h | h) | h
      · exact Or.inr ⟨_, List.mem_cons_self, h⟩
      · exact Or.inl (Or.inr h)
      · rw [hf, carried_cons rfl] at h
        exact Or.inr (h.append [_])
  | taken s =>
    refine .of_kept rfl (fun _ h => h) fun i h => ?_
    rw [hf] at h
    obtain ⟨g, hg, hb⟩ := h
    rcases List.mem_cons.mp hg with rfl | hg
    · exact ⟨_, List.mem_cons_of_mem _ List.mem_cons_self, hb⟩
    · exact Carried.append [_, _] ⟨g, hg, hb⟩
  | called s =>
    refine .of_kept rfl (fun _ h => h) fun i h => ?_
    rw [hf] at h
    exact h
  | entered s prevMode =>
    refine ⟨[s], rfl, fun i h => ?_⟩
    rcases h with h | h
    · exact Or.inl (Or.inl h)
    · rw [hf] at h
      obtain ⟨g, hg, hb⟩ := h
      rcases List.mem_cons.mp hg with rfl | hg
      · exact Or.inr ⟨s, List.mem_singleton_self s, hb⟩
      · exact Or.inl (Or.inr (Carried.append [_, _] ⟨g, hg, hb⟩))
  | handling prevMode => exact .of_frames [_, _] hf rfl rfl rfl fun _ h => h
  | restoring prevMode => exact .of_frames [] hf rfl rfl rfl fun _ h => h

theorem delivers_step {mv} (hs : Stepped interruptMask m mv m') : Delivers m m' := by
  cases hs with
  | send s => exact .of_kept rfl (fun _ h => sent_signalSend s h) fun _ h => h
  | dispatch => exact .of_kept rfl (fun _ h => h) fun _ h => h.append [_]
  | taskMode hu => exact .of_kept rfl (fun _ h => h) fun _ h => h.append [_]
  | handlerReturns hf => exact .of_frames [] hf rfl rfl rfl fun _ h => h
  | inTaskMode choice hf => exact delivers_modeStep choice hf
  | inDispatch choice hf => exact delivers_dispatchStep choice hf
  | inExtension choice hf => exact delivers_extensionStep hf

/-! ## Runs -/

structure Initial (m : Machine) : Prop where
  frames : m.frames = []
  posted : m.task.asr.signalsPosted = 0
  pending : m.task.asr.signalsPending = 0

theorem Initial.sound (h : Initial m) : Sound m := by
  refine ⟨by rw [h.frames]; exact .nil _, by rw [h.frames]; trivial, ?_⟩
  unfold Sided
  split
  · exact h.pending
  · exact h.posted

theorem Sound.steps (hS : Sound m) (h : Steps (Machine.step interruptMask) Quiet m m') : Sound m' :=
  h.invariant (fun hS hq he => hS.step hq (stepped he)) hS

theorem delivers_steps {P} (h : Steps (Machine.step interruptMask) P m m') : Delivers m m' :=
  h.invariant (fun h _ he => h.trans (delivers_step (stepped he))) (.refl m)

def Starts (m : Machine) (s : BitVec 32) : Prop :=
  ∃ fs, m.frames = .switchExtension .entry :: fs ∧ m.task.asr.signalsPosted = s ∧ s ≠ 0

theorem Sound.not_inWindow_of_starts {s} (hS : Sound m) (h : Starts m s) :
    inWindow m.frames = false := by
  obtain ⟨fs, hf, -⟩ := h
  have hc := hS.calm
  rw [hf] at hc ⊢
  exact hc

theorem Sound.isEnabled_of_starts {s} (hS : Sound m) (h : Starts m s) :
    m.task.asr.isEnabled = true := by
  have hw := hS.not_inWindow_of_starts h
  obtain ⟨fs, hf, hp, hs⟩ := h
  have h := hS.sided
  rw [asrEnabled_eq hw, Sided] at h
  by_contra he
  rw [if_neg he, hp] at h
  exact hs h

theorem Sound.sided_iff (hS : Sound m) :
    (m.task.asr.isEnabled = true → m.task.asr.signalsPending = 0) ∧
      (m.task.asr.isEnabled = false → m.task.asr.signalsPosted = 0) ↔
    (inWindow m.frames = true → m.task.asr.signalsPosted = 0 ∧ m.task.asr.signalsPending = 0) := by
  have h := hS.sided
  unfold Sided Machine.asrEnabled at h
  cases hw : inWindow m.frames <;> cases he : m.task.asr.isEnabled <;> simp_all

/-- If the window of the flag is quiet, the sets are on the side of the flag but for signals there are in
the window, and a signal stays until the handler gets it. -/
theorem quiet_signals (hi : Initial m₀) (h : Steps (Machine.step interruptMask) Quiet m₀ m) :
    ((m.task.asr.isEnabled = true → m.task.asr.signalsPending = 0) ∧
        (m.task.asr.isEnabled = false → m.task.asr.signalsPosted = 0) ↔
      (inWindow m.frames = true → m.task.asr.signalsPosted = 0 ∧ m.task.asr.signalsPending = 0)) ∧
      (∀ s, Starts m s → m.task.asr.isEnabled = true) ∧
      ∀ m', Steps (Machine.step interruptMask) Quiet m m' →
        ∃ new, m'.handled = new ++ m.handled ∧
          ∀ i, Held m i → Held m' i ∨ ∃ s ∈ new, s.getLsbD i = true := by
  have hS := hi.sound.steps h
  exact ⟨hS.sided_iff, fun s hs => hS.isEnabled_of_starts hs, fun m' => delivers_steps⟩

def listening : Machine where
  task :=
    { asr := ⟨true, 0, 0⟩
      hasHandler := true
      modeSet := 0
      nestLevel := 0
      isPreemptible := true
      budgetAlgorithm := .none
      interruptLevel := 0
      doPostTaskSwitchExtension := false }
  frames := []
  handled := []

theorem listening_initial : Initial listening := ⟨rfl, rfl, rfl⟩

/-- Signals are sent to a task that has turned them off, and handled once it turns them on. -/
def sentWhileOff : List Move :=
  [.taskMode asrMask asrMask] ++ List.replicate 8 (.go false) ++ [.send 5, .taskMode 0 asrMask] ++
    List.replicate 17 (.go false) ++ [.handlerReturns, .go false]

theorem quiet_signals_listening :
    ∃ m, run (checked (Machine.step 1) Quiet) sentWhileOff listening = some m ∧ m.handled = [5] ∧
      (m.task.asr.isEnabled = true → m.task.asr.signalsPending = 0) ∧
      (m.task.asr.isEnabled = false → m.task.asr.signalsPosted = 0) := by
  refine exists_of_map (fun m => (m.handled, inWindow m.frames)) ([5], false) (by decide +kernel) fun m hm he => ?_
  simp only [Prod.mk.injEq] at he
  refine ⟨he.1, (quiet_signals listening_initial (.run_checked .refl hm)).1.mpr fun hw => ?_⟩
  rw [he.2] at hw
  cases hw

def turnedOff : Machine :=
  (run (Machine.step 1) [.taskMode asrMask asrMask, .go false, .go false, .go false, .go false, .send 1, .go false,
    .go false, .go false, .go false, .go false] listening).get (by decide)

/-- The handler is started with signals turned off. -/
theorem handler_starts_disabled :
    Initial listening ∧ Steps (Machine.step 1) (fun _ _ => True) listening turnedOff ∧ Starts turnedOff 1 ∧
      turnedOff.task.asr.isEnabled = false ∧ inWindow turnedOff.frames = false ∧
      turnedOff.task.asr.signalsPosted = 1 :=
  ⟨listening_initial, .of_run (fun _ _ => trivial) (Option.some_get _).symm,
    ⟨_, rfl, rfl, by decide⟩, by decide, by decide, by decide⟩

end Rtems.Signal
