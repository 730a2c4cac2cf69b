import Rtems.Psignal.Effects

/-! # What is queued with the signals -/

namespace Rtems.Psignal

open Function Transition Option

variable {T : Type*}

/-! ## The chains -/

def Queued (queued chain : List Siginfo) (invoked : List (Option Siginfo)) : Prop :=
  ∃ taken l, queued = taken ++ chain ∧ invoked = l.map some ∧ List.Sublist l taken

namespace Queued

variable {queued chain : List Siginfo} {invoked : List (Option Siginfo)} {info : Siginfo}

theorem append (h : Queued queued chain invoked) : Queued (queued ++ [info]) (chain ++ [info]) invoked := by
  obtain ⟨taken, l, hq, hi, hl⟩ := h
  exact ⟨taken, l, by rw [hq, List.append_assoc], hi, hl⟩

theorem invoke (h : Queued queued (info :: chain) invoked) : Queued queued chain (invoked ++ [some info]) := by
  obtain ⟨taken, l, hq, hi, hl⟩ := h
  exact ⟨taken ++ [info], l ++ [info], by simp [hq], by simp [hi], hl.append (.refl _)⟩

theorem drop (h : Queued queued (info :: chain) invoked) : Queued queued chain invoked := by
  obtain ⟨taken, l, hq, hi, hl⟩ := h
  exact ⟨taken ++ [info], l, by simp [hq], hi, hl.trans (List.sublist_append_left ..)⟩

end Queued

structure Signals.Linked (s : Signals T) : Prop where
  queued : ∀ sig, Queued (s.fate sig).queued (s.siginfo sig) (s.fate sig).invoked
  chain : ∀ {sig}, (s.vectors sig).flags = saSiginfo → s.isPending sig → s.siginfo sig ≠ []

namespace Signals.Linked

variable {s s' : Signals T} {sig : Nat}

theorem congr (h : s.Linked) (hf : ∀ sig, (s'.fate sig).queued = (s.fate sig).queued ∧
      (s'.fate sig).invoked = (s.fate sig).invoked)
    (hq : s'.siginfo = s.siginfo)
    (hp : ∀ {sig}, (s'.vectors sig).flags = saSiginfo → s'.isPending sig →
      (s.vectors sig).flags = saSiginfo ∧ s.isPending sig) : s'.Linked := by
  refine ⟨fun sig => ?_, fun hs hi => ?_⟩
  · rw [(hf sig).1, (hf sig).2, hq]
    exact h.queued sig
  · rw [hq]
    exact h.chain (hp hs hi).1 (hp hs hi).2

theorem note {g} (h : s.Linked)
    (hg : ∀ f, (g f).queued = f.queued ∧ (g f).invoked = f.invoked) : (s.note sig g).Linked := by
  refine h.congr (fun sig' => ?_) rfl fun hs hi => ⟨hs, hi⟩
  by_cases he : sig' = sig
  · subst he
    simpa [Signals.note] using hg (s.fate sig')
  · simp [Signals.note, he]

theorem clearProcessSignals {mask} (h : s.Linked) : (s.clearProcessSignals mask).Linked := by
  rw [clearProcessSignals_eq]
  refine h.congr (fun _ => ⟨rfl, rfl⟩) rfl fun hs hi => ⟨hs, decide_eq_true ?_⟩
  exact ne_zero_of_cleared (of_decide_eq_true hi)

theorem postProcess (h : s.Linked) (hv : isValidSigno sig)
    (hc : (s.vectors sig).flags = saSiginfo → s.siginfo sig ≠ []) : (s.postProcess sig).Linked := by
  suffices hs : ∀ s : Signals T, s.Linked → ((s.vectors sig).flags = saSiginfo → s.siginfo sig ≠ []) →
      (s.setProcessSignals (signoToMask sig)).Linked by
    unfold Signals.postProcess
    split
    · exact hs s h hc
    · exact hs _ (h.note fun _ => ⟨rfl, rfl⟩) hc
  intro s h hc
  rw [setProcessSignals_eq]
  refine ⟨h.queued, fun {sig'} hs hi => ?_⟩
  have hi := of_decide_eq_true hi
  rcases (or_mask hv (isValidSigno_of_mem hi)).mp hi with rfl | hi
  · exact hc hs
  · exact h.chain hs (decide_eq_true hi)

theorem appendSiginfo {info} (h : s.Linked) : (s.appendSiginfo sig info).Linked := by
  refine ⟨fun sig' => ?_, fun {sig'} hs hi => ?_⟩
  · dsimp only [Signals.appendSiginfo, Signals.note]
    by_cases he : sig' = sig
    · subst he
      rw [update_self, update_self]
      exact (h.queued sig').append
    · rw [update_of_ne he, update_of_ne he]
      exact h.queued sig'
  · dsimp only [Signals.appendSiginfo, Signals.note]
    by_cases he : sig' = sig
    · subst he
      rw [update_self]
      exact List.append_ne_nil_of_right_ne_nil _ (List.cons_ne_nil _ _)
    · rw [update_of_ne he]
      exact h.chain hs hi

theorem queue {info} (h : s.Linked) (hv : isValidSigno sig) :
    ((s.postProcess sig).appendSiginfo sig info).Linked := by
  have hc : (s.postProcess sig).appendSiginfo sig info = (s.appendSiginfo sig info).postProcess sig := by
    have hp : (s.appendSiginfo sig info).isPending sig = s.isPending sig := rfl
    unfold Signals.postProcess
    rw [hp]
    rw [setProcessSignals_eq, setProcessSignals_eq]
    split
    · rfl
    · dsimp only [Signals.appendSiginfo, Signals.note]
      rw [update_self, update_self, update_idem, update_idem]
      rfl
  rw [hc]
  refine h.appendSiginfo.postProcess hv fun _ => ?_
  dsimp only [Signals.appendSiginfo, Signals.note]
  rw [update_self]
  exact List.append_ne_nil_of_right_ne_nil _ (List.cons_ne_nil _ _)

theorem getSiginfo {info rest g} (h : s.Linked) (hc : s.siginfo sig = info :: rest)
    (hg : ∀ f, (g f).queued = f.queued ∧
      ((g f).invoked = f.invoked ∨ (g f).invoked = f.invoked ++ [some info])) :
    ((s.getSiginfo sig).1.note sig g).Linked := by
  have hL : (if rest = [] then s.clearProcessSignals (signoToMask sig) else s).Linked := by
    split
    · exact h.clearProcessSignals
    · exact h
  have hfate : (if rest = [] then s.clearProcessSignals (signoToMask sig) else s).fate = s.fate := by
    split
    · rw [clearProcessSignals_eq]
    · rfl
  have hsig : (if rest = [] then s.clearProcessSignals (signoToMask sig) else s).siginfo = s.siginfo := by
    split
    · rw [clearProcessSignals_eq]
    · rfl
  rw [getSiginfo_cons hc]
  refine ⟨fun sig' => ?_, fun {sig'} hs hi => ?_⟩
  · dsimp only [Signals.note]
    by_cases he : sig' = sig
    · subst he
      have hq := h.queued sig'
      rw [hc] at hq
      rw [update_self, update_self, hfate, (hg _).1]
      rcases (hg (s.fate sig')).2 with hi | hi
      · exact hi ▸ hq.drop
      · exact hi ▸ hq.invoke
    · rw [update_of_ne he, update_of_ne he, hfate]
      exact h.queued sig'
  · dsimp only [Signals.note]
    by_cases he : sig' = sig
    · subst he
      rw [update_self]
      rintro rfl
      rw [if_pos rfl, clearProcessSignals_eq] at hi
      exact absurd and_not_and_self (of_decide_eq_true hi)
    · rw [update_of_ne he, ← hsig]
      exact hL.chain hs hi

variable [DecidableEq T] {t : T}

theorem postThread (h : s.Linked) : (s.postThread t sig).Linked := by
  have hs (s : Signals T) (h : s.Linked) : (s.setThreadSignals t (signoToMask sig)).Linked :=
    h.congr (fun _ => ⟨rfl, rfl⟩) rfl fun hs hi => ⟨hs, hi⟩
  unfold Signals.postThread
  split
  · exact hs s h
  · exact hs _ (h.note fun _ => ⟨rfl, rfl⟩)

theorem clearSignals {unblocked isGlobal g} (h : s.Linked)
    (hg : ∀ f, (g f).queued = f.queued ∧ ((g f).invoked = f.invoked ∨
      (s.vectors sig).flags = saSiginfo ∧ isGlobal = true ∧
        (g f).invoked = f.invoked ++ [(s.clearSignals t unblocked sig isGlobal).2.2]))
    (hc : (s.clearSignals t unblocked sig isGlobal).2.1 = true) :
    ((s.clearSignals t unblocked sig isGlobal).1.note sig g).Linked := by
  rcases s.clearSignals_cases unblocked isGlobal with
    he | ⟨hG, -, he⟩ | ⟨-, -, hf, he⟩ | ⟨-, hp, hf, he⟩
  · rw [he] at hc
    cases hc
  · rw [he]
    refine note (h.congr (fun _ => ⟨rfl, rfl⟩) rfl fun hs hi => ⟨hs, hi⟩) fun f => (hg f).imp_right fun hi => ?_
    exact hi.resolve_right fun hi => absurd (hG.symm.trans hi.2.1) Bool.false_ne_true
  · rw [he]
    exact h.clearProcessSignals.note fun f => (hg f).imp_right fun hi => hi.resolve_right fun hi => hf hi.1
  · obtain ⟨info, rest, hs⟩ := List.exists_cons_of_ne_nil (h.chain hf hp)
    have hi : (s.getSiginfo sig).2 = some info := by rw [getSiginfo_cons hs]
    rw [he, hi] at hg
    rw [he]
    exact h.getSiginfo hs fun f => (hg f).imp_right fun hi => hi.imp_right fun hi => hi.2.2

omit [DecidableEq T] in
theorem install {act} (h : s.Linked) : (s.install sig act).Linked := by
  unfold Signals.install
  split
  · refine h.congr (fun _ => ⟨rfl, rfl⟩) rfl fun {sig'} hs hi => ⟨?_, hi⟩
    dsimp only at hs
    by_cases he : sig' = sig
    · subst he
      rw [update_self] at hs
      unfold defaultVectors at hs
      split at hs <;> exact absurd hs (by decide)
    · rwa [update_of_ne he] at hs
  · have hL : ((s.clearProcessSignals (signoToMask sig)).note sig Fate.discardProcess).Linked :=
      h.clearProcessSignals.note fun _ => ⟨rfl, rfl⟩
    refine hL.congr (fun _ => ⟨rfl, rfl⟩) rfl fun {sig'} hs hi => ⟨?_, hi⟩
    dsimp only at hs
    by_cases he : sig' = sig
    · subst he
      rw [clearProcessSignals_eq] at hi
      exact absurd and_not_and_self (of_decide_eq_true hi)
    · rwa [update_of_ne he] at hs

end Signals.Linked

/-! ## Calls -/

variable [DecidableEq T]

/-- With `SA_SIGINFO`, a signal is sent only while there is a node. -/
def HasNode (s : System T) : Move T → Prop
  | .kill _ sig | .sigqueue _ sig _ =>
    (s.signals.vectors sig).flags = saSiginfo → s.signals.inactiveSiginfo ≠ 0
  | _ => True

instance (s : System T) : (m : Move T) → Decidable (HasNode s m)
  | .kill _ sig | .sigqueue _ sig _ =>
    inferInstanceAs (Decidable ((s.signals.vectors sig).flags = saSiginfo → s.signals.inactiveSiginfo ≠ 0))
  | .dispatch _ | .sigaction .. | .pthreadKill .. | .pthreadSigmask .. | .sigtimedwait .. | .advance
  | .timeout _ | .setState .. => isTrue trivial

omit [DecidableEq T] in
theorem HasNode.of_sends {s} {m : Move T} {sig} (h : HasNode s m) (hm : m.sends sig)
    (hf : (s.signals.vectors sig).flags = saSiginfo) : s.signals.inactiveSiginfo ≠ 0 := by
  cases m with
  | kill | sigqueue =>
    obtain rfl := hm
    exact h hf
  | _ => exact hm.elim

theorem Effect.linked {s} {m : Move T} {g} (he : Effect s m g) (hP : HasNode s m)
    (h : s.signals.Linked) : g.Linked := by
  cases he with
  | none => exact h
  | hand => exact h.note fun _ => ⟨rfl, rfl⟩
  | postThread =>
    split
    · exact h.postThread.note fun _ => ⟨rfl, rfl⟩
    · exact h.postThread
  | postProcess hv hf => exact h.postProcess hv fun hs => absurd hs hf
  | full hm _ hf hn => exact absurd hn (hP.of_sends hm hf)
  | queue _ hv => exact h.queue hv
  | install => exact h.install
  | drop hc =>
    refine h.clearSignals (fun f => ?_) hc
    split <;> exact ⟨rfl, Or.inl rfl⟩
  | @handle t unblocked signo isGlobal hc ha =>
    refine h.clearSignals (fun f => ?_) hc
    rw [Signals.vectors_clearSignals]
    by_cases hf : (s.signals.vectors signo).flags = saSiginfo
    · rw [if_pos hf, ha hf]
      exact ⟨rfl, Or.inr ⟨hf, rfl, rfl⟩⟩
    · rw [if_neg hf]
      split <;> exact ⟨rfl, Or.inl rfl⟩
  | @take signo seen =>
    unfold Signals.take
    dsimp only
    cases hc : (s.signals.clearSignals s.executing signalAllMask signo false).2.1 with
    | true =>
      refine h.clearSignals (fun f => ?_) hc
      split <;> exact ⟨rfl, Or.inl rfl⟩
    | false =>
      rw [Signals.clearSignals_of_not hc]
      refine h.note fun f => ?_
      split <;> exact ⟨rfl, rfl⟩
  | @takeProcess signo =>
    unfold Signals.takeProcess
    dsimp only
    split <;> rename_i hc
    · exact h.clearSignals (fun _ => ⟨rfl, Or.inl rfl⟩) hc
    · rw [Signals.clearSignals_of_not (by simpa using hc)]
      exact h

/-! ## Dispatching -/

namespace System

variable {s s' : System T} {t : T} {sig : Nat}

theorem level_unblockThread : (s.unblockThread t sig).1.dispatchDisableLevel = s.dispatchDisableLevel := by
  unfold unblockThread
  dsimp only
  split
  · split <;> rfl
  · split
    · split
      · split <;> rfl
      · rfl
    · rfl

theorem level_pthreadKill {thread} :
    (s.pthreadKill thread sig).1.dispatchDisableLevel = s.dispatchDisableLevel ∧
      (s.pthreadKill thread sig).2 ≠ .error .eagain := by
  unfold pthreadKill
  split
  · exact ⟨rfl, by simp⟩
  split
  · exact ⟨rfl, by simp⟩
  cases thread with
  | none => exact ⟨rfl, by simp⟩
  | some t =>
    dsimp only
    split
    · exact ⟨Nat.add_sub_cancel .., by simp⟩
    · refine ⟨?_, by simp⟩
      have hs : (s.disableDispatch.sendThread t sig).dispatchDisableLevel = s.dispatchDisableLevel + 1 := by
        unfold sendThread
        dsimp only
        split <;> exact level_unblockThread
      exact congrArg (· - 1) hs

def Refused (s : System T) (sig : Nat) (r : System T × Except Errno Unit) : Prop :=
  (s.signals.vectors sig).flags = saSiginfo ∧ s.signals.inactiveSiginfo = 0 ∧
    r.1.dispatchDisableLevel = s.dispatchDisableLevel + 1 ∧ r.1.signals = s.signals.postProcess sig

def Returns (s : System T) (sig : Nat) (r : System T × Except Errno Unit) : Prop :=
  r.2 ≠ .error .eagain ∧ r.1.dispatchDisableLevel = s.dispatchDisableLevel ∨
    r.2 = .error .eagain ∧ s.Refused sig r

omit [DecidableEq T] in
theorem postProcessSignal_returns {s0 : System T} {info} (hs : s.signals = s0.signals)
    (hl : s.dispatchDisableLevel = s0.dispatchDisableLevel + 1) :
    s0.Returns sig (s.postProcessSignal sig info) := by
  have he : s.dispatchDisableLevel - 1 = s0.dispatchDisableLevel := by omega
  unfold postProcessSignal
  dsimp only [setSignals]
  rw [Signals.vectors_postProcess, Signals.inactiveSiginfo_postProcess, hs]
  split <;> rename_i hf
  · split <;> rename_i hn
    · exact Or.inr ⟨rfl, hf, hn, hl, rfl⟩
    · exact Or.inl ⟨by simp, he⟩
  · exact Or.inl ⟨by simp, he⟩

theorem sendProcess_returns {info : Siginfo} : s.Returns sig (s.sendProcess sig info) := by
  unfold sendProcess
  dsimp only
  split
  · exact postProcessSignal_returns rfl rfl
  · split
    · refine Or.inl ⟨by simp, ?_⟩
      exact congrArg (· - 1) level_unblockThread
    · exact postProcessSignal_returns signals_unblockThread level_unblockThread

theorem killinfo_returns {isSelf value} : s.Returns sig (s.killinfo isSelf sig value) := by
  unfold killinfo
  split
  · exact Or.inl ⟨by simp, rfl⟩
  split
  · exact Or.inl ⟨by simp, rfl⟩
  split
  · exact Or.inl ⟨by simp, rfl⟩
  split
  · exact Or.inl ⟨level_pthreadKill.2, level_pthreadKill.1⟩
  · exact sendProcess_returns

theorem level_killinfo {isSelf value}
    (h : (s.signals.vectors sig).flags = saSiginfo → s.signals.inactiveSiginfo ≠ 0) :
    (s.killinfo isSelf sig value).2 ≠ .error .eagain ∧
      (s.killinfo isSelf sig value).1.dispatchDisableLevel = s.dispatchDisableLevel :=
  killinfo_returns.resolve_right fun ⟨_, hf, hn, _⟩ => h hf hn

theorem level_restart : (s.restart t).dispatchDisableLevel = s.dispatchDisableLevel := by
  unfold restart
  split <;> rfl

theorem level_advance (h : s.advance = some s') : s'.dispatchDisableLevel = s.dispatchDisableLevel := by
  unfold advance at h
  dsimp only at h
  split at h
  · cases h
  · cases h
  · exact some.inj h ▸ rfl
  · cases h
    unfold checkSignal
    dsimp only
    split
    · rfl
    · split
      · rfl
      · split <;> rfl
  · obtain ⟨-, h⟩ := Option.ite_none_left_eq_some.mp h
    cases h
    exact level_restart
  · exact some.inj h ▸ rfl
  · exact some.inj h ▸ rfl
  · cases h
    unfold blockForSignal
    split <;> rfl
  · exact some.inj h ▸ rfl

theorem level_step {m} (h : s.step m = some s') (hP : HasNode s m) (hl : s.dispatchDisableLevel = 0) :
    s'.dispatchDisableLevel = 0 := by
  cases m with
  | dispatch t =>
    obtain ⟨-, rfl⟩ := ite_some_none_eq_some.mp h
    unfold dispatch
    dsimp only
    split
    · exact level_restart.trans hl
    · exact hl
  | kill isSelf sig =>
    rw [call_eq h]
    exact (level_killinfo hP).2.trans hl
  | sigqueue isSelf sig value =>
    rw [call_eq h]
    exact (level_killinfo hP).2.trans hl
  | pthreadKill thread sig =>
    rw [call_eq h]
    exact level_pthreadKill.1.trans hl
  | sigaction sig act =>
    rw [call_eq h]
    unfold sigaction
    split
    · exact hl
    split
    · exact hl
    split
    · exact hl
    cases act <;> exact hl
  | pthreadSigmask how set =>
    rw [call_eq h]
    unfold pthreadSigmask
    dsimp only
    split
    · rfl
    · exact hl
  | sigtimedwait set timeout =>
    rw [call_eq h]
    unfold sigtimedwait
    dsimp only
    split
    · exact hl
    · split <;> exact hl
  | advance =>
    obtain ⟨-, h⟩ := Option.ite_none_right_eq_some.mp h
    exact (level_advance h).trans hl
  | timeout t =>
    obtain ⟨-, rfl⟩ := ite_some_none_eq_some.mp h
    exact hl
  | setState t state =>
    obtain ⟨-, h⟩ := Option.ite_none_left_eq_some.mp h
    exact some.inj h ▸ hl

end System

/-- While there are nodes, handlers get what was queued, once and in order. -/
theorem siginfo_in_order {table : List T} {executing : T} {n : Nat} {priority : T → Nat} {blocked : T → SigSet}
    {s : System T} (h : Steps System.step HasNode (System.initial table executing n priority blocked) s) :
    (∀ isSelf sig value, HasNode s (.kill isSelf sig) →
      (s.killinfo isSelf sig value).2 ≠ .error .eagain ∧
        (s.killinfo isSelf sig value).1.dispatchDisableLevel = s.dispatchDisableLevel) ∧
    s.dispatchDisableLevel = 0 ∧
    ∀ sig, ∃ l, (s.signals.fate sig).invoked = l.map some ∧ List.Sublist l (s.signals.fate sig).queued := by
  obtain ⟨hL, hl⟩ := h.invariant (I := fun s => s.signals.Linked ∧ s.dispatchDisableLevel = 0)
    (fun hs hP he => ⟨(System.step_effect he).linked hP hs.1, System.level_step he hP hs.2⟩)
    ⟨⟨fun _ => ⟨[], [], rfl, rfl, .slnil⟩, fun _ hi => by simp [System.initial, Signals.initial, Signals.isPending] at hi⟩,
      rfl⟩
  refine ⟨fun isSelf sig value hP => System.level_killinfo hP, hl, fun sig => ?_⟩
  obtain ⟨taken, l, hq, hi, hs⟩ := hL.queued sig
  exact ⟨l, hi, hq ▸ hs.trans (List.sublist_append_left ..)⟩

theorem siginfo_in_order_twice :
    ∃ s, run (checked System.step HasNode) [.sigaction 18 (some ⟨saSiginfo, 0, .user 0⟩), .sigqueue true 18 7,
        .sigqueue true 18 8, .pthreadSigmask .unblock (signoToMask 18), .dispatch (), .advance, .advance,
        .advance, .advance, .advance] (alone 2) = some s ∧
      (s.signals.fate 18).invoked = [some ⟨18, 7⟩, some ⟨18, 8⟩] ∧ s.dispatchDisableLevel = 0 := by
  refine exists_of_map (fun s => (s.signals.fate 18).invoked) [some ⟨18, 7⟩, some ⟨18, 8⟩]
    (by decide +kernel) fun s hs hi => ?_
  exact ⟨hi, (siginfo_in_order (Steps.refl.run_checked hs)).2.1⟩

/-- Without a node, the handler is called with nothing. -/
theorem refused_signal_pending :
    ∃ s, run System.step [.sigaction 18 (some ⟨saSiginfo, 0, .user 0⟩)] (alone 0) = some s ∧
      (s.kill true 18).2 = .error .eagain ∧
      s.dispatchDisableLevel = 0 ∧ (s.kill true 18).1.dispatchDisableLevel = 1 ∧
      s.signals.isPending 18 = false ∧ (s.kill true 18).1.signals.isPending 18 = true ∧
      (run System.step [.pthreadSigmask .unblock (signoToMask 18), .dispatch (), .advance, .advance]
        (s.kill true 18).1).map (fun s => (s.signals.fate 18).invoked) = some [none] := by
  refine ⟨_, rfl, ?_, ?_, ?_, ?_, ?_, ?_⟩ <;> decide +kernel

end Rtems.Psignal
