import Rtems.Library.Placement
import Rtems.Psignal.Effects

/-! # Signals are delivered once -/

namespace Rtems.Psignal

open Function Transition Option

variable {T : Type*}

/-! ## One signal -/

inductive Place (T : Type*)
  | process
  | thread (t : T)
  | delivered
  | discarded
  deriving DecidableEq, Repr

namespace Fate

variable {f : Fate T} {n : Nat} {d : Delivery T} {t : T}

def atPlace (f : Fate T) : Place T → List Nat
  | .process => f.process.toList
  | .thread t => (f.thread t).toList
  | .delivered => f.delivered.map Prod.fst
  | .discarded => f.discarded

def Placed (f : Fate T) : Prop := Placement f.generated f.atPlace

namespace Placed

theorem newReturned (h : f.Placed) : (f.newReturned t).Placed := by
  refine Placement.add h (r := .delivered) ?_ fun p hp => ?_
  · simp only [Fate.atPlace, Fate.newReturned, List.map_append, List.map_cons, List.map_nil]
    exact List.perm_append_singleton ..
  · cases p with
    | delivered => exact absurd rfl hp
    | _ => rfl

theorem newProcess (h : f.Placed) (hn : f.process = none) : f.newProcess.Placed := by
  refine Placement.add h (r := .process) ?_ fun p hp => ?_
  · simp [Fate.atPlace, Fate.newProcess, hn]
  · cases p with
    | process => exact absurd rfl hp
    | _ => rfl

theorem handleProcess (h : f.Placed) (hn : f.process = some n) : (f.deliver f.process d).dropProcess.Placed := by
  refine Placement.move h (p := .process) (r := .delivered) (e := n) (by simp) ?_ ?_ fun p hp hr => ?_
  · simp [Fate.atPlace, Fate.deliver, Fate.dropProcess, hn]
  · simp only [Fate.atPlace, Fate.deliver, Fate.dropProcess, hn, Option.toList_some, List.map_cons, List.map_nil,
      List.map_append]
    exact List.perm_append_singleton ..
  · cases p with
    | process => exact absurd rfl hp
    | delivered => exact absurd rfl hr
    | _ => rfl

theorem discardProcess (h : f.Placed) : f.discardProcess.Placed := by
  cases hn : f.process with
  | none =>
    have he : f.discardProcess.atPlace = f.atPlace := by
      funext p
      cases p <;> simp [Fate.atPlace, Fate.discardProcess, hn]
    exact (congrArg (Placement f.generated) he).mpr h
  | some n =>
    refine Placement.move h (p := .process) (r := .discarded) (e := n) (by simp) ?_ ?_ fun p hp hr => ?_
    · simp [Fate.atPlace, Fate.discardProcess, hn]
    · simp only [Fate.atPlace, Fate.discardProcess, hn, Option.toList_some]
      exact List.perm_append_singleton ..
    · cases p with
      | process => exact absurd rfl hp
      | discarded => exact absurd rfl hr
      | _ => rfl

variable [DecidableEq T]

theorem newThread (h : f.Placed) (hn : f.thread t = none) : (f.newThread t).Placed := by
  refine Placement.add h (r := .thread t) ?_ fun p hp => ?_
  · simp [Fate.atPlace, Fate.newThread, hn]
  · cases p with
    | thread u =>
      have hu : u ≠ t := by
        rintro rfl
        exact hp rfl
      simp [Fate.atPlace, Fate.newThread, hu]
    | _ => rfl

theorem handleThread (h : f.Placed) (hn : f.thread t = some n) :
    ((f.deliver (f.thread t) d).dropThread t).Placed := by
  refine Placement.move h (p := .thread t) (r := .delivered) (e := n) (by simp) ?_ ?_ fun p hp hr => ?_
  · simp [Fate.atPlace, Fate.deliver, Fate.dropThread, hn]
  · simp only [Fate.atPlace, Fate.deliver, Fate.dropThread, hn, Option.toList_some, List.map_cons, List.map_nil,
      List.map_append]
    exact List.perm_append_singleton ..
  · cases p with
    | thread u =>
      have hu : u ≠ t := by
        rintro rfl
        exact hp rfl
      simp [Fate.atPlace, Fate.deliver, Fate.dropThread, hu]
    | delivered => exact absurd rfl hr
    | _ => rfl

end Placed

end Fate

/-! ## Pending signals -/

namespace Signals

variable {s : Signals T} {sig sig' : Nat}

theorem isPending_setProcessSignals (hv : isValidSigno sig) (hv' : isValidSigno sig') :
    (s.setProcessSignals (signoToMask sig')).isPending sig = (decide (sig = sig') || s.isPending sig) := by
  rw [setProcessSignals_eq]
  unfold isPending
  rw [← Bool.decide_or]
  exact decide_eq_decide.mpr (or_mask hv' hv)

theorem isPending_clearProcessSignals (hv : isValidSigno sig) (hv' : isValidSigno sig') :
    (s.clearProcessSignals (signoToMask sig')).isPending sig = (decide (sig ≠ sig') && s.isPending sig) := by
  rw [clearProcessSignals_eq]
  unfold isPending
  rw [← Bool.decide_and]
  exact decide_eq_decide.mpr (and_not_mask hv' hv)

theorem isPending_postProcess (hv : isValidSigno sig) (hv' : isValidSigno sig') :
    (s.postProcess sig').isPending sig = (decide (sig = sig') || s.isPending sig) := by
  unfold postProcess
  split <;> exact isPending_setProcessSignals hv hv'

theorem fate_postProcess :
    (s.postProcess sig').fate = (if s.isPending sig' then s else s.note sig' Fate.newProcess).fate := by
  unfold postProcess
  rw [setProcessSignals_eq]

theorem signalsPending_postProcess : (s.postProcess sig').signalsPending = s.signalsPending := by
  unfold postProcess
  rw [setProcessSignals_eq]
  split <;> rfl

theorem getSiginfo_other (hv : isValidSigno sig) (hv' : isValidSigno sig') (hne : sig ≠ sig') :
    (s.getSiginfo sig').1.fate = s.fate ∧ (s.getSiginfo sig').1.isPending sig = s.isPending sig ∧
      (s.getSiginfo sig').1.signalsPending = s.signalsPending := by
  have hp : (s.clearProcessSignals (signoToMask sig')).isPending sig = s.isPending sig := by
    rw [isPending_clearProcessSignals hv hv', decide_eq_true hne, Bool.true_and]
  have hc : (s.clearProcessSignals (signoToMask sig')).fate = s.fate ∧
      (s.clearProcessSignals (signoToMask sig')).signalsPending = s.signalsPending := by
    rw [clearProcessSignals_eq]
    exact ⟨rfl, rfl⟩
  cases hs : s.siginfo sig' with
  | nil =>
    rw [getSiginfo_nil hs]
    exact ⟨hc.1, hp, hc.2⟩
  | cons info rest =>
    rw [getSiginfo_cons hs]
    split
    · exact ⟨hc.1, hp, hc.2⟩
    · exact ⟨rfl, rfl, rfl⟩

theorem fate_note_ne {g} (h : sig ≠ sig') : (s.note sig' g).fate sig = s.fate sig :=
  update_of_ne h ..

theorem fate_note_self {g} : (s.note sig g).fate sig = g (s.fate sig) :=
  update_self ..

variable [DecidableEq T] {t u : T}

theorem isPendingFor_setThreadSignals (hv : isValidSigno sig) (hv' : isValidSigno sig') :
    (s.setThreadSignals u (signoToMask sig')).isPendingFor t sig =
      (decide (t = u ∧ sig = sig') || s.isPendingFor t sig) := by
  unfold isPendingFor setThreadSignals
  by_cases ht : t = u
  · subst ht
    rw [← Bool.decide_or]
    refine decide_eq_decide.mpr ?_
    dsimp only
    rw [update_self, or_mask hv' hv, and_iff_right rfl]
  · simp [ht]

theorem isPendingFor_clearThreadSignals (hv : isValidSigno sig) (hv' : isValidSigno sig') :
    (s.clearThreadSignals u (signoToMask sig')).isPendingFor t sig =
      (decide (¬ (t = u ∧ sig = sig')) && s.isPendingFor t sig) := by
  unfold isPendingFor clearThreadSignals
  by_cases ht : t = u
  · subst ht
    rw [← Bool.decide_and]
    refine decide_eq_decide.mpr ?_
    dsimp only
    rw [update_self, and_not_mask hv' hv, and_iff_right rfl]
  · simp [ht]

end Signals

structure Signals.Tracked (s : Signals T) (sig : Nat) : Prop where
  placed : (s.fate sig).Placed
  process : (s.fate sig).process.isSome = s.isPending sig
  thread : ∀ t, ((s.fate sig).thread t).isSome = s.isPendingFor t sig

namespace Signals.Tracked

variable {s s' : Signals T} {sig sig' : Nat}

section

variable (h : s.Tracked sig)

include h

omit h in
theorem of_fate {f} (hf : s.fate sig = f) (hpl : f.Placed) (hp : f.process.isSome = s.isPending sig)
    (ht : ∀ t, (f.thread t).isSome = s.isPendingFor t sig) : s.Tracked sig := by
  subst hf
  exact ⟨hpl, hp, ht⟩

theorem other (hf : s'.fate sig = s.fate sig) (hp : s'.isPending sig = s.isPending sig)
    (ht : ∀ t, s'.isPendingFor t sig = s.isPendingFor t sig) : s'.Tracked sig :=
  of_fate hf h.placed (h.process.trans hp.symm) fun t => (h.thread t).trans (ht t).symm

theorem change {g} (hf : s'.fate = s.fate)
    (he : sig = sig' → (g (s.fate sig)).Placed ∧ (g (s.fate sig)).process.isSome = s'.isPending sig ∧
      ∀ t, ((g (s.fate sig)).thread t).isSome = s'.isPendingFor t sig)
    (hn : sig ≠ sig' → s'.isPending sig = s.isPending sig ∧
      ∀ t, s'.isPendingFor t sig = s.isPendingFor t sig) : (s'.note sig' g).Tracked sig := by
  by_cases hs : sig = sig'
  · subst hs
    obtain ⟨hpl, hp, ht⟩ := he rfl
    exact of_fate (fate_note_self.trans (congrArg g (congrFun hf sig))) hpl hp ht
  · obtain ⟨hp, ht⟩ := hn hs
    exact h.other ((fate_note_ne hs).trans (congrFun hf sig)) hp ht

theorem note {g} (hg : (g (s.fate sig)).Placed ∧ (g (s.fate sig)).process = (s.fate sig).process ∧
      (g (s.fate sig)).thread = (s.fate sig).thread) : (s.note sig' g).Tracked sig := by
  refine h.change rfl (fun _ => ⟨hg.1, ?_, fun t => ?_⟩) fun _ => ⟨rfl, fun _ => rfl⟩
  · rw [hg.2.1]
    exact h.process
  · rw [hg.2.2]
    exact h.thread t

theorem process_none (hp : s.isPending sig = false) : (s.fate sig).process = none := by
  have hs := h.process
  rw [hp] at hs
  exact Option.not_isSome_iff_eq_none.mp (by simp [hs])

theorem process_some (hp : s.isPending sig = true) : ∃ n, (s.fate sig).process = some n :=
  isSome_iff_exists.mp (h.process.trans hp)

theorem thread_none {t} (hp : s.isPendingFor t sig = false) : (s.fate sig).thread t = none := by
  have hs := h.thread t
  rw [hp] at hs
  exact Option.not_isSome_iff_eq_none.mp (by simp [hs])

theorem thread_some {t} (hp : s.isPendingFor t sig = true) :
    ∃ n, (s.fate sig).thread t = some n :=
  isSome_iff_exists.mp ((h.thread t).trans hp)

theorem postProcess (hv : isValidSigno sig) (hv' : isValidSigno sig') :
    (s.postProcess sig').Tracked sig := by
  have ht (t : T) : (s.postProcess sig').isPendingFor t sig = s.isPendingFor t sig := by
    unfold isPendingFor
    rw [signalsPending_postProcess]
  by_cases he : sig = sig'
  · subst he
    have hp' : (s.postProcess sig).isPending sig = true := by simp [isPending_postProcess hv hv]
    cases hp : s.isPending sig with
    | true =>
      refine h.other ?_ (hp'.trans hp.symm) ht
      rw [fate_postProcess, if_pos hp]
    | false =>
      have hf : (s.postProcess sig).fate sig = (s.fate sig).newProcess := by
        rw [fate_postProcess, if_neg (by simp [hp])]
        exact fate_note_self
      exact of_fate hf (h.placed.newProcess (h.process_none hp)) hp'.symm
        fun t => (h.thread t).trans (ht t).symm
  · refine h.other ?_ ?_ ht
    · rw [fate_postProcess]
      split
      · rfl
      · exact fate_note_ne he
    · rw [isPending_postProcess hv hv', decide_eq_false he, Bool.false_or]

theorem clearProcess {g} (hv : isValidSigno sig) (hv' : isValidSigno sig')
    (hg : sig = sig' → (g (s.fate sig)).Placed ∧ (g (s.fate sig)).process = none ∧
      (g (s.fate sig)).thread = (s.fate sig).thread) :
    ((s.clearProcessSignals (signoToMask sig')).note sig' g).Tracked sig := by
  have ht (t : T) : (s.clearProcessSignals (signoToMask sig')).isPendingFor t sig = s.isPendingFor t sig := by
    rw [clearProcessSignals_eq]
    rfl
  refine h.change (by rw [clearProcessSignals_eq]) (fun he => ?_) fun he => ⟨?_, ht⟩
  · obtain ⟨hpl, hn, hth⟩ := hg he
    refine ⟨hpl, ?_, fun t => ?_⟩
    · rw [hn, isPending_clearProcessSignals hv hv', he]
      simp
    · rw [hth, ht]
      exact h.thread t
  · rw [isPending_clearProcessSignals hv hv', decide_eq_true he, Bool.true_and]

end

variable [DecidableEq T] {t : T}

theorem postThread (h : s.Tracked sig) (hv : isValidSigno sig) (hv' : isValidSigno sig') :
    (s.postThread t sig').Tracked sig := by
  have hp (u : T) : (s.postThread t sig').isPendingFor u sig =
      (decide (u = t ∧ sig = sig') || s.isPendingFor u sig) := by
    unfold Signals.postThread
    split <;> exact isPendingFor_setThreadSignals hv hv'
  have hpr : (s.postThread t sig').isPending sig = s.isPending sig := by
    unfold Signals.postThread
    split <;> rfl
  have hf : (s.postThread t sig').fate =
      (if s.isPendingFor t sig' then s else s.note sig' fun f => f.newThread t).fate := rfl
  by_cases he : sig = sig'
  · subst he
    cases hpt : s.isPendingFor t sig with
    | true =>
      refine h.other ?_ hpr fun u => ?_
      · rw [hf, if_pos hpt]
      · rw [hp]
        by_cases hu : u = t
        · simp [hu, hpt]
        · simp [hu]
    | false =>
      have hf : (s.postThread t sig).fate sig = (s.fate sig).newThread t := by
        rw [hf, if_neg (by simp [hpt])]
        exact fate_note_self
      refine of_fate hf (h.placed.newThread (h.thread_none hpt)) (h.process.trans hpr.symm) fun u => ?_
      rw [hp]
      by_cases hu : u = t
      · simp [Fate.newThread, hu]
      · simp [Fate.newThread, hu, h.thread u]
  · refine h.other ?_ hpr fun u => ?_
    · rw [hf]
      split
      · rfl
      · exact fate_note_ne he
    · simp [hp, he]

theorem clearThread {g} (h : s.Tracked sig) (hv : isValidSigno sig) (hv' : isValidSigno sig')
    (hg : sig = sig' → (g (s.fate sig)).Placed ∧ (g (s.fate sig)).process = (s.fate sig).process ∧
      (g (s.fate sig)).thread = update (s.fate sig).thread t none) :
    ((s.clearThreadSignals t (signoToMask sig')).note sig' g).Tracked sig := by
  have hp (u : T) : (s.clearThreadSignals t (signoToMask sig')).isPendingFor u sig =
      (decide (¬ (u = t ∧ sig = sig')) && s.isPendingFor u sig) := isPendingFor_clearThreadSignals hv hv'
  refine h.change rfl (fun he => ?_) fun he => ⟨rfl, fun u => by simp [hp, he]⟩
  obtain ⟨hpl, hpr, hth⟩ := hg he
  refine ⟨hpl, ?_, fun u => ?_⟩
  · rw [hpr]
    exact h.process
  · rw [hth, hp]
    by_cases hu : u = t
    · simp [hu, he]
    · simp [hu, h.thread u]

end Signals.Tracked

/-! ## Calls -/

def Sigaction.Catches (act : Sigaction) : Prop :=
  act.flags ≠ saSiginfo ∧ act.handler ≠ .dfl ∧ act.handler ≠ .ign

instance (act : Sigaction) : Decidable act.Catches :=
  inferInstanceAs (Decidable (act.flags ≠ saSiginfo ∧ act.handler ≠ .dfl ∧ act.handler ≠ .ign))

/-- Not pending for the process; if seen for the thread, it still is. -/
def TakesCarefully (sig : Nat) (s : System T) : List Frame → Prop
  | .taking signo _ :: _ => signo = sig → s.signals.isPendingFor s.executing sig
  | .takingProcess signo _ _ :: _ => signo = sig → s.signals.isPending sig = false
  | _ => True

instance (sig : Nat) (s : System T) (frames : List Frame) : Decidable (TakesCarefully sig s frames) := by
  unfold TakesCarefully
  split <;> infer_instance

/-- The signal stays caught, and `pthread_kill` spares threads that wait for it. -/
def Careful [DecidableEq T] (sig : Nat) (s : System T) : Move T → Prop
  | .sigaction sig' (some act) => sig' = sig → act.Catches
  | .pthreadKill (some t) sig' => sig' = sig → s.hands t sig = false
  | .kill _ sig' | .sigqueue _ sig' _ =>
    sig' = sig → sig = sigfpe ∨ sig = sigill ∨ sig = sigsegv → s.hands s.executing sig = false
  | .advance => TakesCarefully sig s (s.thread s.executing).frames
  | _ => True

instance [DecidableEq T] (sig : Nat) (s : System T) : (m : Move T) → Decidable (Careful sig s m)
  | .sigaction sig' (some act) => inferInstanceAs (Decidable (sig' = sig → act.Catches))
  | .pthreadKill (some t) sig' => inferInstanceAs (Decidable (sig' = sig → s.hands t sig = false))
  | .kill _ sig' | .sigqueue _ sig' _ =>
    inferInstanceAs (Decidable (sig' = sig → sig = sigfpe ∨ sig = sigill ∨ sig = sigsegv →
      s.hands s.executing sig = false))
  | .advance => inferInstanceAs (Decidable (TakesCarefully sig s (s.thread s.executing).frames))
  | .sigaction _ none | .pthreadKill none _ | .dispatch _ | .pthreadSigmask .. | .sigtimedwait ..
  | .timeout _ | .setState .. => isTrue trivial

section

variable [DecidableEq T]

theorem Signals.Tracked.clearSignals {s : Signals T} {sig signo t unblocked isGlobal} {g} (h : s.Tracked sig) (hv : isValidSigno sig)
    (hc : (s.clearSignals t unblocked signo isGlobal).2.1 = true) (hf : (s.vectors sig).flags ≠ saSiginfo)
    (hG : sig = signo → isGlobal = true → s.isPending sig → (g (s.fate sig)).Placed ∧
      (g (s.fate sig)).process = none ∧ (g (s.fate sig)).thread = (s.fate sig).thread)
    (hT : sig = signo → isGlobal = false → s.isPendingFor t sig → (g (s.fate sig)).Placed ∧
      (g (s.fate sig)).process = (s.fate sig).process ∧
      (g (s.fate sig)).thread = update (s.fate sig).thread t none) :
    ((s.clearSignals t unblocked signo isGlobal).1.note signo g).Tracked sig := by
  rcases s.clearSignals_cases unblocked isGlobal with
    he | ⟨hg, hp, he⟩ | ⟨hg, hp, -, he⟩ | ⟨hg, hp, hs, he⟩
  · rw [he] at hc
    cases hc
  · rw [he]
    refine h.clearThread hv (isValidSigno_of_mem (of_decide_eq_true hp)) fun hs => ?_
    subst hs
    exact hT rfl hg hp
  · rw [he]
    refine h.clearProcess hv (isValidSigno_of_mem (of_decide_eq_true hp)) fun hs => ?_
    subst hs
    exact hG rfl hg hp
  · -- a signal with `SA_SIGINFO` is another one
    have hne : sig ≠ signo := by
      rintro rfl
      exact hf hs
    obtain ⟨hfate, hp', ht⟩ := s.getSiginfo_other hv (isValidSigno_of_mem (of_decide_eq_true hp)) hne
    rw [he]
    refine h.other ?_ hp' fun u => ?_
    · rw [fate_note_ne hne, hfate]
    · exact congrArg (fun f => decide (f u &&& signoToMask sig ≠ 0)) ht

theorem Signals.clearSignals_found {s : Signals T} {t signo} (hp : s.isPendingFor t signo) :
    (s.clearSignals t signalAllMask signo false).2.1 = true := by
  have hm : signoToMask signo &&& (s.signalsPending t &&& signalAllMask) ≠ 0 := by
    have ha : s.signalsPending t &&& signalAllMask = s.signalsPending t := BitVec.and_allOnes
    rw [ha, BitVec.and_comm]
    exact of_decide_eq_true hp
  unfold clearSignals
  rw [if_neg Bool.false_ne_true, if_pos hm]

omit [DecidableEq T] in
theorem Signals.Tracked.install {s : Signals T} {sig sig' act} (h : s.Tracked sig)
    (hv : isValidSigno sig) (hv' : isValidSigno sig') : (s.install sig' act).Tracked sig := by
  unfold Signals.install
  split
  · exact h.other rfl rfl fun _ => rfl
  · have hd : ((s.clearProcessSignals (signoToMask sig')).note sig' Fate.discardProcess).Tracked sig :=
      h.clearProcess hv hv' fun _ => ⟨h.placed.discardProcess, rfl, rfl⟩
    exact hd.other rfl rfl fun _ => rfl

theorem Effect.tracked {s : System T} {m g sig} (he : Effect s m g)
    (hv : isValidSigno sig) (hP : Careful sig s m) (ha : (s.signals.vectors sig).Catches)
    (h : s.signals.Tracked sig) : g.Tracked sig := by
  cases he with
  | none => exact h
  | hand => exact h.note ⟨h.placed.newReturned, rfl, rfl⟩
  | @postThread _ t sig' hm hv' =>
    by_cases hs : sig = sig'
    · subst hs
      have hn : s.hands t sig = false := by
        cases m with
        | pthreadKill =>
          obtain ⟨rfl, rfl⟩ := hm
          exact hP rfl
        | kill | sigqueue =>
          obtain ⟨rfl, rfl, hd⟩ := hm
          exact hP rfl hd
        | _ => exact hm.elim
      rw [if_neg (by simp [hn])]
      exact h.postThread hv hv'
    · split
      · exact (h.postThread hv hv').other (Signals.fate_note_ne hs) rfl fun _ => rfl
      · exact h.postThread hv hv'
  | postProcess hv' => exact h.postProcess hv hv'
  | full _ hv' => exact h.postProcess hv hv'
  | @queue _ sig' _ _ hv' hf =>
    have hne : sig ≠ sig' := by
      rintro rfl
      exact ha.1 hf
    exact (h.postProcess hv hv').other (update_of_ne hne ..) rfl fun _ => rfl
  | install hv' => exact h.install hv hv'
  | @drop t unblocked signo isGlobal hc hd =>
    have hne : sig ≠ signo := by
      rintro rfl
      rcases hd with hd | hd
      · exact ha.2.2 hd
      · exact ha.1 hd.1
    exact h.clearSignals hv hc ha.1 (fun hs => absurd hs hne) fun hs => absurd hs hne
  | @handle t unblocked signo isGlobal hc hd =>
    unfold Signals.noteHandled
    rw [Signals.vectors_clearSignals]
    refine h.clearSignals hv hc ha.1 (fun hs hg hp => ?_) fun hs hg hp => ?_
    · subst hs hg
      obtain ⟨n, hn⟩ := h.process_some hp
      simp only [if_neg ha.1, if_true]
      exact ⟨h.placed.handleProcess hn, rfl, rfl⟩
    · subst hs hg
      obtain ⟨n, hn⟩ := h.thread_some hp
      simp only [if_neg ha.1, Bool.false_eq_true, if_false]
      exact ⟨h.placed.handleThread hn, rfl, rfl⟩
  | @take signo seen frames hf =>
    have hP : signo = sig → s.signals.isPendingFor s.executing sig := by
      rw [Careful, hf] at hP
      exact hP
    unfold Signals.take
    dsimp only
    cases hc : (s.signals.clearSignals s.executing signalAllMask signo false).2.1 with
    | true =>
      refine h.clearSignals hv hc ha.1 (fun _ hg => nomatch hg) fun hs _ hp => ?_
      obtain ⟨n, hn⟩ := h.thread_some hp
      exact ⟨h.placed.handleThread hn, rfl, rfl⟩
    | false =>
      have hne : sig ≠ signo := by
        rintro rfl
        rw [Signals.clearSignals_found (hP rfl)] at hc
        cases hc
      rw [Signals.clearSignals_of_not hc]
      exact h.other (Signals.fate_note_ne hne) rfl fun _ => rfl
  | @takeProcess signo set timeout frames hf =>
    have hP : signo = sig → s.signals.isPending sig = false := by
      rw [Careful, hf] at hP
      exact hP
    unfold Signals.takeProcess
    dsimp only
    split <;> rename_i hc
    · refine h.clearSignals hv hc ha.1 (fun hs _ hp => ?_) fun _ hg => nomatch hg
      rw [hP hs.symm] at hp
      cases hp
    · rw [Signals.clearSignals_of_not (by simpa using hc)]
      exact h

theorem Signals.vectors_postThread {s : Signals T} {t sig} :
    (s.postThread t sig).vectors = s.vectors := by
  unfold postThread
  split <;> rfl

omit [DecidableEq T] in
theorem Signals.vectors_install {s : Signals T} {sig act} :
    (s.install sig act).vectors = update s.vectors sig
      (if act.handler = .dfl then defaultVectors sig else act) := by
  unfold install
  split
  · rfl
  · exact congrArg (update · sig act) vectors_clearProcessSignals

theorem Effect.catches {s : System T} {m g sig} (he : Effect s m g)
    (hP : Careful sig s m) (ha : (s.signals.vectors sig).Catches) : (g.vectors sig).Catches := by
  have hsame (hg : g.vectors = s.signals.vectors) : (g.vectors sig).Catches := hg ▸ ha
  cases he with
  | none | hand => exact ha
  | postThread =>
    refine hsame ?_
    split <;> exact Signals.vectors_postThread
  | postProcess | full | queue => exact hsame Signals.vectors_postProcess
  | drop | handle => exact hsame Signals.vectors_clearSignals
  | take =>
    refine hsame ?_
    unfold Signals.take
    dsimp only
    exact Signals.vectors_clearSignals
  | takeProcess =>
    refine hsame ?_
    unfold Signals.takeProcess
    dsimp only
    split <;> exact Signals.vectors_clearSignals
  | @install sig' act =>
    rw [Signals.vectors_install]
    by_cases hs : sig = sig'
    · subst hs
      rw [update_self, if_neg (hP rfl).2.1]
      exact hP rfl
    · rw [update_of_ne hs]
      exact ha

/-! ## Every run -/

omit [DecidableEq T] in
theorem Signals.Tracked.initial {n sig} : (Signals.initial (T := T) n).Tracked sig where
  placed := .empty fun p => by cases p <;> rfl
  process := by simp [Signals.initial, Signals.isPending, Fate.initial]
  thread := fun t => by simp [Signals.initial, Signals.isPendingFor, Fate.initial]

/-- In careful runs a signal is at one place, and delivered at most once. -/
theorem delivered_once {table : List T} {executing : T} {n sig : Nat} {priority : T → Nat}
    {blocked : T → SigSet} {act : Sigaction} {s : System T} (hv : isValidSigno sig) (hk : sig ≠ sigkill)
    (ha : act.Catches)
    (h : Steps System.step (Careful sig)
      ((System.initial table executing n priority blocked).sigaction sig (some act)).1 s) :
    ((s.signals.fate sig).delivered.map Prod.fst).Nodup ∧
      (∀ k < (s.signals.fate sig).generated, ∃! p, k ∈ (s.signals.fate sig).atPlace p) ∧
      (s.signals.fate sig).process.isSome = s.signals.isPending sig ∧
      ∀ t, ((s.signals.fate sig).thread t).isSome = s.signals.isPendingFor t sig := by
  have h0 : ((System.initial table executing n priority blocked).sigaction sig (some act)).1.signals =
      (Signals.initial n).install sig act := by
    have hs : sig ≠ 0 := by
      rintro rfl
      cases hv
    unfold System.sigaction
    rw [if_neg hs, if_neg (not_not.mpr hv), if_neg hk]
    rfl
  obtain ⟨hT, -⟩ := h.invariant (I := fun s => s.signals.Tracked sig ∧ (s.signals.vectors sig).Catches)
    (fun hs hP he => ⟨(System.step_effect he).tracked hv hP hs.2 hs.1, (System.step_effect he).catches hP hs.2⟩)
    (by
      rw [h0]
      refine ⟨Signals.Tracked.initial.install hv hv, ?_⟩
      rwa [Signals.vectors_install, update_self, if_neg ha.2.1])
  exact ⟨hT.placed.nodup .delivered, fun k hk => hT.placed.existsUnique hk, hT.process, hT.thread⟩

end

def pair : System Bool :=
  ((System.initial [false, true] true 0 (fun _ => 1) fun _ => signalAllMask).sigaction 18
    (some ⟨0, 0, .user 0⟩)).1

theorem delivered_once_pair :
    ∃ s, run (checked System.step (Careful 18)) [.sigtimedwait (signoToMask 18) .forever, .advance,
        .dispatch false, .kill true 18, .pthreadKill (some true) 18, .dispatch true, .advance,
        .pthreadSigmask .unblock (signoToMask 18), .dispatch true, .advance] pair = some s ∧
      (s.signals.fate 18).delivered = [(0, .returned true), (1, .handled true)] ∧
      ((s.signals.fate 18).delivered.map Prod.fst).Nodup := by
  refine exists_of_map (fun s => (s.signals.fate 18).delivered) [(0, .returned true), (1, .handled true)]
    (by decide +kernel) fun s hs hd => ⟨hd, ?_⟩
  exact (delivered_once (by decide) (by decide) (by decide) (Steps.refl.run_checked hs)).1

/-- A waiting thread gets a signal twice, and another one is gone. -/
theorem waiting_thread_signalled :
    ((run System.step [.sigtimedwait (signoToMask 18) .forever, .advance, .dispatch false,
        .pthreadKill (some true) 18, .dispatch true, .advance, .sigtimedwait (signoToMask 18) .forever,
        .advance] pair).map fun s => (s.signals.fate 18).delivered) =
      some [(0, .returned true), (0, .returned true)] ∧
    ((run System.step [.kill true 18, .sigtimedwait (signoToMask 18) .forever, .advance, .advance] pair).map
        fun s => ((s.signals.fate 18).generated, s.signals.isPending 18,
          (s.signals.fate 18).delivered.length + (s.signals.fate 18).discarded.length)) =
      some (1, false, 0) := by
  constructor <;> decide +kernel

end Rtems.Psignal
