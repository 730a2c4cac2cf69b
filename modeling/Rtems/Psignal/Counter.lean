import Rtems.Psignal.Effects

/-! # The counter of what is to be done after a dispatch -/

namespace Rtems.Psignal

open Transition

variable {T : Type*}

def Signals.Counted (s : Signals T) : Prop :=
  s.doPostTaskSwitchExtension = if s.pending = 0 then 0 else 1

namespace Signals.Counted

variable {s : Signals T} {sig : Nat} {mask : SigSet}

section

variable (h : s.Counted)

include h

theorem congr {s' : Signals T} (hp : s'.pending = s.pending)
    (hc : s'.doPostTaskSwitchExtension = s.doPostTaskSwitchExtension) : s'.Counted := by
  rw [Counted, hp, hc]
  exact h

theorem setProcessSignals (hm : mask ≠ 0) : (s.setProcessSignals mask).Counted := by
  have hn : s.pending ||| mask ≠ 0 := fun h0 => hm (BitVec.or_eq_zero_iff.mp h0).2
  rw [setProcessSignals_eq, Counted, if_neg hn]
  rw [h]
  by_cases hp : s.pending = 0
  · rw [if_pos hp, if_pos hp]
    rfl
  · rw [if_neg hp, if_neg hp]

theorem clearProcessSignals (hp : s.pending ≠ 0) : (s.clearProcessSignals mask).Counted := by
  rw [Counted, if_neg hp] at h
  rw [clearProcessSignals_eq, Counted]
  rw [h]
  by_cases h0 : s.pending &&& ~~~mask = 0
  · rfl
  · rw [if_neg h0, if_neg h0]

theorem postProcess (hv : isValidSigno sig) : (s.postProcess sig).Counted := by
  unfold Signals.postProcess
  split
  · exact h.setProcessSignals (signoToMask_ne_zero hv)
  · exact setProcessSignals (h.congr rfl rfl) (signoToMask_ne_zero hv)

theorem getSiginfo (hp : s.pending ≠ 0) : (s.getSiginfo sig).1.Counted := by
  cases hs : s.siginfo sig with
  | nil =>
    rw [getSiginfo_nil hs]
    exact h.clearProcessSignals hp
  | cons info rest =>
    rw [getSiginfo_cons hs]
    split
    · exact (h.clearProcessSignals hp).congr rfl rfl
    · exact h.congr rfl rfl

theorem install {act : Sigaction} (hp : act.handler ≠ .dfl → s.pending ≠ 0) :
    (s.install sig act).Counted := by
  unfold Signals.install
  split <;> rename_i ha
  · exact h.congr rfl rfl
  · exact congr (h.clearProcessSignals (hp ha)) rfl rfl

end

variable [DecidableEq T] {t : T}

theorem postThread (h : s.Counted) : (s.postThread t sig).Counted := by
  unfold Signals.postThread
  split <;> exact h.congr rfl rfl

theorem clearSignals {unblocked isGlobal} (h : s.Counted) :
    (s.clearSignals t unblocked sig isGlobal).1.Counted := by
  have hn (hp : s.isPending sig) : s.pending ≠ 0 := ne_zero_of_mem (of_decide_eq_true hp)
  rcases s.clearSignals_cases unblocked isGlobal with he | ⟨-, -, he⟩ | ⟨-, hp, -, he⟩ | ⟨-, hp, -, he⟩
  · rw [he]
    exact h
  · rw [he]
    exact h.congr rfl rfl
  · rw [he]
    exact h.clearProcessSignals (hn hp)
  · rw [he]
    exact h.getSiginfo (hn hp)

end Signals.Counted

variable [DecidableEq T]

/-- Other actions than the default are installed while a signal is pending. -/
def InstallsPending (s : System T) : Move T → Prop
  | .sigaction _ (some act) => act.handler ≠ .dfl → s.signals.pending ≠ 0
  | _ => True

instance (s : System T) (m : Move T) : Decidable (InstallsPending s m) := by
  unfold InstallsPending
  split <;> infer_instance

theorem Effect.counted {s m} {g : Signals T} (he : Effect s m g) (hP : InstallsPending s m)
    (h : s.signals.Counted) : g.Counted := by
  cases he with
  | none => exact h
  | hand => exact h.congr rfl rfl
  | postThread =>
    split
    · exact h.postThread.congr rfl rfl
    · exact h.postThread
  | postProcess hv | full _ hv => exact h.postProcess hv
  | queue _ hv => exact (h.postProcess hv).congr rfl rfl
  | install => exact h.install hP
  | drop | handle => exact h.clearSignals.congr rfl rfl
  | take =>
    unfold Signals.take
    dsimp only
    exact h.clearSignals.congr rfl rfl
  | takeProcess =>
    unfold Signals.takeProcess
    dsimp only
    split
    · exact h.clearSignals.congr rfl rfl
    · exact h.clearSignals

/-- Then the counter is 1 just while the signal is pending. -/
theorem pending_counted {table : List T} {executing : T} {n : Nat} {priority : T → Nat} {blocked : T → SigSet}
    {s : System T}
    (h : Steps System.step InstallsPending (System.initial table executing n priority blocked) s) :
    s.signals.doPostTaskSwitchExtension = if s.signals.pending = 0 then 0 else 1 :=
  h.invariant (I := fun s => s.signals.Counted)
    (fun hs hP he => (System.step_effect he).counted hP hs) (by simp [Signals.Counted, System.initial, Signals.initial])

theorem pending_counted_again :
    ∃ s, run (checked System.step InstallsPending) [.kill true 1, .sigaction 1 (some ⟨0, 0, .user 0⟩),
        .kill true 1] (alone 0) = some s ∧
      s.signals.pending = 1#32 ∧ s.signals.doPostTaskSwitchExtension = 1#32 := by
  refine exists_of_map (·.signals.pending) 1#32 (by decide +kernel) fun s hs hp => ⟨hp, ?_⟩
  rw [pending_counted (Steps.refl.run_checked hs), hp]
  rfl

/-- A handler is installed while no signal is pending. -/
theorem sigaction_counts_down :
    ∃ s, run System.step [.sigaction 1 (some ⟨0, 0, .user 0⟩)] (alone 0) = some s ∧
      s.signals.pending = 0 ∧ s.signals.doPostTaskSwitchExtension = 0xffffffff#32 := by
  refine ⟨_, rfl, ?_, ?_⟩ <;> decide +kernel

end Rtems.Psignal
