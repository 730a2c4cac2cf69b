import Rtems.Psignal.Sets

/-! # What a step does to the signals -/

namespace Rtems.Psignal

open Option

variable {T : Type*}

namespace Signals

variable {s : Signals T} {t : T} {sig : Nat}

theorem setProcessSignals_eq {mask} : s.setProcessSignals mask = { s with
      pending := s.pending ||| mask
      doPostTaskSwitchExtension :=
        if s.pending = 0 then s.doPostTaskSwitchExtension + 1 else s.doPostTaskSwitchExtension } := by
  unfold setProcessSignals
  dsimp only
  split <;> rfl

theorem clearProcessSignals_eq {mask} : s.clearProcessSignals mask = { s with
      pending := s.pending &&& ~~~mask
      doPostTaskSwitchExtension :=
        if s.pending &&& ~~~mask = 0 then s.doPostTaskSwitchExtension - 1 else s.doPostTaskSwitchExtension } := by
  unfold clearProcessSignals
  dsimp only
  split <;> rfl

@[simp]
theorem vectors_postProcess : (s.postProcess sig).vectors = s.vectors := by
  unfold postProcess
  rw [setProcessSignals_eq]
  split <;> rfl

@[simp]
theorem inactiveSiginfo_postProcess : (s.postProcess sig).inactiveSiginfo = s.inactiveSiginfo := by
  unfold postProcess
  rw [setProcessSignals_eq]
  split <;> rfl

theorem vectors_clearProcessSignals {mask} : (s.clearProcessSignals mask).vectors = s.vectors := by
  rw [clearProcessSignals_eq]

theorem getSiginfo_cons {info rest} (h : s.siginfo sig = info :: rest) :
    s.getSiginfo sig =
      ({ if rest = [] then s.clearProcessSignals (signoToMask sig) else s with
          siginfo := Function.update s.siginfo sig rest
          inactiveSiginfo := s.inactiveSiginfo + 1 }, some info) := by
  unfold getSiginfo
  rw [h]
  dsimp only
  split
  · rw [clearProcessSignals_eq, clearProcessSignals_eq]
  · rfl

theorem getSiginfo_nil (h : s.siginfo sig = []) :
    s.getSiginfo sig = (s.clearProcessSignals (signoToMask sig), none) := by
  unfold getSiginfo
  rw [h]

theorem vectors_getSiginfo : (s.getSiginfo sig).1.vectors = s.vectors := by
  cases h : s.siginfo sig with
  | nil =>
    rw [getSiginfo_nil h]
    exact vectors_clearProcessSignals
  | cons info rest =>
    rw [getSiginfo_cons h]
    split
    · exact vectors_clearProcessSignals
    · rfl

variable [DecidableEq T]

theorem clearSignals_cases (unblocked : SigSet) (isGlobal : Bool) :
    s.clearSignals t unblocked sig isGlobal = (s, false, none) ∨
    (isGlobal = false ∧ s.isPendingFor t sig ∧
      s.clearSignals t unblocked sig isGlobal = (s.clearThreadSignals t (signoToMask sig), true, none)) ∨
    (isGlobal = true ∧ s.isPending sig ∧ (s.vectors sig).flags ≠ saSiginfo ∧
      s.clearSignals t unblocked sig isGlobal = (s.clearProcessSignals (signoToMask sig), true, none)) ∨
    isGlobal = true ∧ s.isPending sig ∧ (s.vectors sig).flags = saSiginfo ∧
      s.clearSignals t unblocked sig isGlobal = ((s.getSiginfo sig).1, true, (s.getSiginfo sig).2) := by
  unfold clearSignals
  cases isGlobal with
  | true =>
    rw [if_pos rfl]
    split <;> rename_i hm
    · have hp : s.isPending sig = true := decide_eq_true (ne_zero_of_checked hm)
      split <;> rename_i hf
      · exact .inr (.inr (.inr ⟨rfl, hp, hf, rfl⟩))
      · exact .inr (.inr (.inl ⟨rfl, hp, hf, rfl⟩))
    · exact .inl rfl
  | false =>
    rw [if_neg Bool.false_ne_true]
    split <;> rename_i hm
    · exact .inr (.inl ⟨rfl, decide_eq_true (ne_zero_of_checked hm), rfl⟩)
    · exact .inl rfl

@[simp]
theorem vectors_clearSignals {unblocked isGlobal} :
    (s.clearSignals t unblocked sig isGlobal).1.vectors = s.vectors := by
  rcases s.clearSignals_cases unblocked isGlobal with h | ⟨-, -, h⟩ | ⟨-, -, -, h⟩ | ⟨-, -, -, h⟩
  · rw [h]
  · rw [h]
    rfl
  · rw [h]
    exact vectors_clearProcessSignals
  · rw [h]
    exact vectors_getSiginfo

theorem clearSignals_of_not {unblocked isGlobal}
    (hc : (s.clearSignals t unblocked sig isGlobal).2.1 = false) :
    (s.clearSignals t unblocked sig isGlobal).1 = s := by
  rcases s.clearSignals_cases unblocked isGlobal with h | ⟨-, -, h⟩ | ⟨-, -, -, h⟩ | ⟨-, -, -, h⟩
  · rw [h]
  all_goals
    rw [h] at hc
    cases hc

end Signals

variable [DecidableEq T]

def System.hands (s : System T) (t : T) (sig : Nat) : Bool :=
  (s.thread t).isInterruptibleSignal && (s.thread t).accepts (signoToMask sig)

def Move.sendsTo (s : System T) (t : T) (sig : Nat) : Move T → Prop
  | .pthreadKill thread sig' => thread = some t ∧ sig' = sig
  | .kill _ sig' | .sigqueue _ sig' _ =>
    t = s.executing ∧ sig' = sig ∧ (sig = sigfpe ∨ sig = sigill ∨ sig = sigsegv)
  | _ => False

def Move.sends (sig : Nat) : Move T → Prop
  | .kill _ sig' | .sigqueue _ sig' _ => sig' = sig
  | _ => False

inductive Effect (s : System T) : Move T → Signals T → Prop
  | none {m : Move T} : Effect s m s.signals
  | hand {m : Move T} {t : T} {sig : Nat} : Effect s m (s.signals.hand t sig)
  | postThread {m : Move T} {t : T} {sig : Nat} (hm : m.sendsTo s t sig) (hv : isValidSigno sig)
      (hf : (s.signals.vectors sig).flags ≠ saSiginfo) :
      Effect s m (if s.hands t sig then (s.signals.postThread t sig).handPosted t sig
        else s.signals.postThread t sig)
  | postProcess {m : Move T} {sig : Nat} (hv : isValidSigno sig)
      (hf : (s.signals.vectors sig).flags ≠ saSiginfo) : Effect s m (s.signals.postProcess sig)
  | queue {m : Move T} {sig : Nat} {info : Siginfo} (hm : m.sends sig) (hv : isValidSigno sig)
      (hf : (s.signals.vectors sig).flags = saSiginfo) (hn : s.signals.inactiveSiginfo ≠ 0) :
      Effect s m ((s.signals.postProcess sig).appendSiginfo sig info)
  | full {m : Move T} {sig : Nat} (hm : m.sends sig) (hv : isValidSigno sig)
      (hf : (s.signals.vectors sig).flags = saSiginfo) (hn : s.signals.inactiveSiginfo = 0) :
      Effect s m (s.signals.postProcess sig)
  | install {sig : Nat} {act : Sigaction} (hv : isValidSigno sig) :
      Effect s (.sigaction sig (some act)) (s.signals.install sig act)
  | drop {t : T} {unblocked : SigSet} {signo : Nat} {isGlobal : Bool}
      (hc : (s.signals.clearSignals t unblocked signo isGlobal).2.1 = true)
      (ha : (s.signals.vectors signo).handler = .ign ∨
        (s.signals.vectors signo).flags = saSiginfo ∧ isGlobal = false) :
      Effect s .advance ((s.signals.clearSignals t unblocked signo isGlobal).1.noteDropped t signo isGlobal)
  | handle {t : T} {unblocked : SigSet} {signo : Nat} {isGlobal : Bool}
      (hc : (s.signals.clearSignals t unblocked signo isGlobal).2.1 = true)
      (ha : (s.signals.vectors signo).flags = saSiginfo → isGlobal = true) :
      Effect s .advance ((s.signals.clearSignals t unblocked signo isGlobal).1.noteHandled t signo isGlobal
        (s.signals.clearSignals t unblocked signo isGlobal).2.2)
  | take {signo : Nat} {seen : Option Nat} {frames : List Frame}
      (hf : (s.thread s.executing).frames = .taking signo seen :: frames) :
      Effect s .advance (s.signals.take s.executing signo seen)
  | takeProcess {signo : Nat} {set : SigSet} {timeout : Timeout} {frames : List Frame}
      (hf : (s.thread s.executing).frames = .takingProcess signo set timeout :: frames) :
      Effect s .advance (s.signals.takeProcess s.executing signo)

namespace System

variable {s s' : System T} {t : T} {sig : Nat} {m : Move T}

theorem unblockThread_snd : (s.unblockThread t sig).2 = s.hands t sig := by
  unfold unblockThread hands
  dsimp only
  cases hi : (s.thread t).isInterruptibleSignal with
  | true => cases ha : (s.thread t).accepts (signoToMask sig) <;> simp
  | false =>
    simp only [Bool.false_eq_true, if_false, Bool.false_and]
    split
    · split
      · split <;> rfl
      · rfl
    · rfl

@[simp]
theorem signals_unblockThread : (s.unblockThread t sig).1.signals = s.signals := by
  unfold unblockThread
  dsimp only
  split
  · split <;> rfl
  · split
    · split
      · split <;> rfl
      · rfl
    · rfl

theorem signals_sendThread : (s.sendThread t sig).signals =
    if s.hands t sig then (s.signals.postThread t sig).handPosted t sig else s.signals.postThread t sig := by
  have hh : (s.setSignals (s.signals.postThread t sig)).hands t sig = s.hands t sig := rfl
  unfold sendThread
  dsimp only
  rw [unblockThread_snd, hh]
  cases s.hands t sig with
  | true => exact congrArg (·.handPosted t sig) signals_unblockThread
  | false => exact signals_unblockThread

theorem pthreadKill_effect {thread} (hm : ∀ t, thread = some t → m.sendsTo s t sig) :
    Effect s m (s.pthreadKill thread sig).1.signals := by
  unfold pthreadKill
  split <;> rename_i hv
  · exact .none
  split <;> rename_i hf
  · exact .none
  cases thread with
  | none => exact .none
  | some t =>
    dsimp only
    split <;> rename_i hi
    · exact .none
    · have hv : isValidSigno sig = true := by
        by_contra hn
        exact hv ⟨fun h0 => hi (Or.inl h0), hn⟩
      change Effect s m (s.disableDispatch.sendThread t sig).signals
      rw [signals_sendThread]
      exact .postThread (hm t rfl) hv hf

theorem postProcessSignal_effect {s0 info} (hm : m.sends sig) (hv : isValidSigno sig)
    (hs : s.signals = s0.signals) : Effect s0 m (s.postProcessSignal sig info).1.signals := by
  unfold postProcessSignal
  dsimp only [setSignals]
  rw [Signals.vectors_postProcess, Signals.inactiveSiginfo_postProcess, hs]
  split <;> rename_i hf
  · split <;> rename_i hn
    · exact .full hm hv hf hn
    · exact .queue hm hv hf hn
  · exact .postProcess hv hf

theorem sendProcess_effect {info} (hm : m.sends sig) (hv : isValidSigno sig) :
    Effect s m (s.sendProcess sig info).1.signals := by
  unfold sendProcess
  dsimp only
  split
  · exact postProcessSignal_effect hm hv rfl
  · rename_i t ht
    split
    · rw [signals_unblockThread]
      exact .hand
    · exact postProcessSignal_effect hm hv signals_unblockThread

theorem killinfo_effect {isSelf value} (hm : m.sends sig)
    (hs : sig = sigfpe ∨ sig = sigill ∨ sig = sigsegv → m.sendsTo s s.executing sig) :
    Effect s m (s.killinfo isSelf sig value).1.signals := by
  unfold killinfo
  split
  · exact .none
  split <;> rename_i hv
  · exact .none
  split <;> rename_i hi
  · exact .none
  split <;> rename_i hd
  · refine pthreadKill_effect fun t ht => ?_
    cases ht
    exact hs hd
  · refine sendProcess_effect hm ?_
    by_contra hn
    exact hv ⟨fun h0 => hi (Or.inl h0), hn⟩

theorem sigaction_effect {act} :
    Effect s (.sigaction sig act) (s.sigaction sig act).1.signals := by
  unfold sigaction
  split
  · exact .none
  split <;> rename_i hv
  · exact .none
  split
  · exact .none
  cases act with
  | none => exact .none
  | some act => exact .install (by simpa using hv)

theorem signals_restart : (s.restart t).signals = s.signals := by
  unfold restart
  split <;> rfl

theorem signals_dispatch : (s.dispatch t).signals = s.signals := by
  unfold dispatch
  dsimp only
  split
  · exact signals_restart
  · rfl

theorem signals_pthreadSigmask {how set} : (s.pthreadSigmask how set).signals = s.signals := by
  unfold pthreadSigmask
  dsimp only
  split <;> rfl

theorem signals_sigtimedwait {set timeout} :
    (s.sigtimedwait set timeout).signals = s.signals := by
  unfold sigtimedwait
  dsimp only
  split
  · rfl
  · split <;> rfl

theorem signals_blockForSignal {set timeout} :
    (s.blockForSignal t set timeout).signals = s.signals := by
  unfold blockForSignal
  split <;> rfl

theorem checkSignal_effect {isGlobal rest} :
    Effect s .advance (s.checkSignal t sig isGlobal rest).signals := by
  unfold checkSignal
  dsimp only
  split <;> rename_i hc
  · rw [Signals.clearSignals_of_not (by simpa using hc)]
    exact .none
  · have hc := not_not.mp hc
    rw [Signals.vectors_clearSignals]
    split <;> rename_i hi
    · exact .drop hc (Or.inl hi)
    · split <;> rename_i hf
      · exact .drop hc (Or.inr ⟨hf.1, by simpa using hf.2⟩)
      · exact .handle hc fun hs => by simpa [hs] using hf

theorem advance_effect (h : s.advance = some s') : Effect s .advance s'.signals := by
  unfold advance at h
  dsimp only at h
  split at h <;> rename_i hf
  · cases h
  · cases h
  · exact some.inj h ▸ .none
  · exact some.inj h ▸ checkSignal_effect
  · obtain ⟨-, h⟩ := Option.ite_none_left_eq_some.mp h
    cases h
    rw [signals_restart]
    exact .none
  · exact some.inj h ▸ .take hf
  · exact some.inj h ▸ .takeProcess hf
  · cases h
    rw [signals_blockForSignal]
    exact .none
  · exact some.inj h ▸ .none

omit [DecidableEq T] in
theorem call_eq {s''} (h : s.call s'' = some s') : s' = s'' := by
  unfold call at h
  split at h
  · exact (some.inj h).symm
  · cases h

theorem step_effect (h : s.step m = some s') : Effect s m s'.signals := by
  cases m with
  | dispatch t =>
    obtain ⟨-, rfl⟩ := ite_some_none_eq_some.mp h
    rw [signals_dispatch]
    exact .none
  | kill isSelf sig =>
    rw [call_eq h]
    exact killinfo_effect rfl fun hs => ⟨rfl, rfl, hs⟩
  | sigqueue isSelf sig value =>
    rw [call_eq h]
    exact killinfo_effect rfl fun hs => ⟨rfl, rfl, hs⟩
  | pthreadKill thread sig =>
    rw [call_eq h]
    exact pthreadKill_effect fun t ht => ⟨ht, rfl⟩
  | sigaction sig act =>
    rw [call_eq h]
    exact sigaction_effect
  | pthreadSigmask how set =>
    rw [call_eq h, signals_pthreadSigmask]
    exact .none
  | sigtimedwait set timeout =>
    rw [call_eq h, signals_sigtimedwait]
    exact .none
  | advance =>
    obtain ⟨-, h⟩ := Option.ite_none_right_eq_some.mp h
    exact advance_effect h
  | timeout t =>
    obtain ⟨-, rfl⟩ := ite_some_none_eq_some.mp h
    exact .none
  | setState t state =>
    obtain ⟨-, h⟩ := Option.ite_none_left_eq_some.mp h
    exact some.inj h ▸ .none

end System

end Rtems.Psignal
