import Rtems.Library.Transition
import Rtems.ThreadTimer.Calls

/-! # Timers that run on -/

namespace Rtems.ThreadTimer


open Intrusive Transition Option
open Watchdog (Runs)

variable {Q T : Type*} [DecidableEq Q] [DecidableEq T] {K K' : Kernel Q T} {t : T} {l : Nat}

namespace Kernel

/-! ## Runs -/

structure Kept (K : Kernel Q T) (l : Nat) : Prop where
  sound : K.Sound
  timed : K.Timed l
  short : K.Short

theorem Short.go (h : K.Short) (he : K.go = some K') : K'.Short := by
  obtain ⟨d, hc, rfl⟩ := map_eq_some_iff.mp he
  intro w' ticks' p' he'
  cases d with
  | release t p => cases p <;> simp [releaseStep, setCall] at he'
  | wait w ticks p =>
    suffices ticks = ticks' from this ▸ h w ticks p hc
    cases p with
    | setState | initializing | insert =>
      simp only [waitStep, setCall, some.injEq, Call.wait.injEq] at he'
      exact he'.2.1
    | inserting ip =>
      simp only [waitStep, setCall] at he'
      split at he'
      · obtain ⟨p, -, he'⟩ := map_eq_some_iff.mp he'
        exact (Call.wait.inj he').2.1
      · exact (Call.wait.inj (some.inj he')).2.1
    | settle =>
      cases w with
      | delay b => simp [waitStep, setCall] at he'
      | enqueue q =>
        simp only [waitStep, settleQueue] at he'
        split at he' <;> simp only [setCall, some.injEq, Call.wait.injEq, reduceCtorEq] at he' <;>
          exact he'.2.1
      | seize =>
        simp only [waitStep, settleEvent] at he'
        split at he' <;> simp only [setCall, some.injEq, Call.wait.injEq, reduceCtorEq] at he' <;>
          exact he'.2.1
    | releasing p =>
      cases p <;> simp only [waitStep, releaseStep, setCall, some.injEq, Call.wait.injEq,
        reduceCtorEq] at he' <;> exact he'.2.1

theorem Short.beginWait {w ticks} (hu : ticks < 2 ^ 32)
    (he : K.beginWait w ticks = some K') : K'.Short := by
  intro w' ticks' p' he'
  suffices ticks = ticks' from this ▸ hu
  cases w with
  | delay b =>
    simp only [Kernel.beginWait] at he
    split at he
    · cases he
      exact (Call.wait.inj (some.inj he')).2.1
    · cases he
  | enqueue q | seize =>
    cases he
    exact (Call.wait.inj (some.inj he')).2.1

omit [DecidableEq Q] [DecidableEq T] in
theorem atUser_iff : K.atUser = true ↔ K.call = none ∧ K.isReady K.executing = true := by
  unfold atUser
  rw [Bool.and_eq_true, Option.isNone_iff_eq_none]

theorem Kept.step {m} (h : K.Kept l) (hm : K.Careful m) (he : K.step m = some K') : K'.Kept l := by
  have runs (hn : K.call = none) : Runs K.timers [.body l] := (timed_iff (by simp [hn])).mp h.timed
  cases m with
  | wait w ticks =>
    simp only [Kernel.step] at he
    split at he
    · rename_i hu
      obtain ⟨hn, hr⟩ := atUser_iff.mp hu
      obtain ⟨hS, hT⟩ := h.sound.beginWait (runs hn) hn hr he
      exact ⟨hS, hT, Short.beginWait hm he⟩
    · cases he
  | dequeue t =>
    simp only [Kernel.step] at he
    split at he
    · rename_i hu
      obtain ⟨hn, -⟩ := atUser_iff.mp hu.1
      cases he
      obtain ⟨hS, hR⟩ := h.sound.beginDequeue (t := t) (runs hn) hn rfl
      exact ⟨hS, (timed_iff (by simp [setCall])).mpr hR, by simp [Short, setCall]⟩
    · cases he
  | surrender t =>
    simp only [Kernel.step] at he
    split at he
    · rename_i hu
      obtain ⟨hn, -⟩ := atUser_iff.mp hu.1
      cases he
      exact ⟨h.sound.beginSurrender hn hu.2, (timed_iff (by simp [setCall])).mpr (runs hn),
        by simp [Short, setCall]⟩
    · cases he
  | go =>
    obtain ⟨hS, hT⟩ := h.sound.go h.timed h.short he
    exact ⟨hS, hT, h.short.go he⟩
  | interrupt hd =>
    obtain ⟨hS, hT, hc⟩ := h.sound.interrupt h.timed hm he
    exact ⟨hS, hT, fun w ticks p hp => h.short w ticks p (hc ▸ hp)⟩
  | switch t =>
    simp only [Kernel.step] at he
    split at he
    · rename_i hu
      have hn := Option.isNone_iff_eq_none.mp hu.1
      cases he
      refine ⟨⟨fun u _ => h.sound.fits u (by simp [subject, hn]), h.sound.queued, h.sound.apart,
        fun c hc => ?_⟩, (timed_iff (by simp [hn])).mpr (runs hn), by simp [Short, hn]⟩
      rw [show K.call = some c from hc] at hn
      cases hn
    · cases he

/-! ## The chain -/

def Linked (K : Kernel Q T) (t : T) : Prop := ∃ l, Holds K.timers.links () l ∧ t ∈ l

omit [DecidableEq Q] in
theorem Timed.linked (h : K.Timed l) (ht : K.Linked t) :
    K.timers.state t = .active ∨ K.timers.state t = .removeIt := by
  obtain ⟨f, fs, ⟨_, _, ch, hS⟩, -, -⟩ := h.frames
  obtain ⟨k, hk, hm⟩ := ht
  have := (hS.good.on.holds (c := ()) rfl).unique hk
  exact (hS.good.linked_iff t).mp ⟨(), this ▸ hm⟩

omit [DecidableEq Q] [DecidableEq T] in
theorem Sound.linked_wait {w ticks p} (h : K.Sound)
    (hc : K.call = some (.wait w ticks p)) (hw : w ≠ .seize)
    (ht : K.timers.state K.executing = .active ∨ K.timers.state K.executing = .removeIt) :
    (K.task K.executing).Engaged := by
  obtain ⟨-, hA⟩ := h.own _ hc
  have hni : K.timers.state K.executing ≠ .inactive := by rcases ht with ht | ht <;> simp [ht]
  have hnb : K.timers.state K.executing ≠ .beingInserted := by rcases ht with ht | ht <;> simp [ht]
  cases p with
  | setState =>
    rcases hA.2 with ⟨-, -, hi, -⟩ | ⟨hs, -⟩
    · exact absurd hi hni
    · exact absurd hs hw
  | initializing => exact absurd hA.2.2.2 hni
  | insert => exact absurd hA.2.2.2.1 hni
  | inserting ip => exact absurd hA.2.2.1 (not_or.mpr ⟨hni, hnb⟩)
  | settle => exact (Wait.state_engaged (hA.2.1 hw)).1
  | releasing p =>
    cases p with
    | flash => exact absurd hA id
    | remove => exact (Wait.state_engaged (hA.1 hw)).1
    | unblock => exact absurd hA hni

theorem Sound.linked (h : K.Sound) (ht : K.timers.state t = .active ∨ K.timers.state t = .removeIt) :
    (K.task t).Engaged ∨ K.executing = t ∧ ∃ ticks p, K.call = some (.wait .seize ticks p) := by
  have hni : K.timers.state t ≠ .inactive := by rcases ht with ht | ht <;> simp [ht]
  by_cases hsub : K.subject = some t
  · rcases subject_cases hsub with ⟨w, ticks, p, hc, rfl⟩ | ⟨p, hc⟩
    · by_cases hw : w = .seize
      · subst hw
        exact Or.inr ⟨rfl, ticks, p, hc⟩
      · exact Or.inl (h.linked_wait hc hw ht)
    · obtain ⟨-, hA⟩ := h.own _ hc
      refine Or.inl ?_
      cases p with
      | flash => exact Task.Fits.engaged hA ht
      | remove => exact (Or.resolve_left hA hni).2
      | unblock => exact absurd hA hni
  · exact Or.inl ((h.fits t hsub).engaged ht)

omit [DecidableEq Q] in
theorem initial_kept {task} (ht : ∀ t, (task t).queued = false ∧ ¬ (task t).Engaged)
    (queue : Q → Queue) (eventSync : Event.SyncState) (executing : T) :
    (initial task queue eventSync executing).Kept 0 := by
  refine ⟨⟨fun _ _ => Or.inl rfl, fun t hq => ?_, fun t hw => ?_, by simp [initial]⟩, ?_, by simp [Short, initial]⟩
  · cases (ht t).1.symm.trans hq
  · exact absurd (Task.engaged_of_waiting hw) (ht t).2
  · exact (timed_iff (by simp [initial])).mpr .idle

/-- Without such signals, a timer is on the chain only while its thread waits. -/
theorem timer_linked_only_waiting {task : T → Task Q} {queue : Q → Queue} {eventSync : Event.SyncState}
    {executing : T} (ht : ∀ t, (task t).queued = false ∧ ¬ (task t).Engaged)
    (h : Steps Kernel.step Careful (initial task queue eventSync executing) K) :
    (∀ t, K.Linked t →
      (K.task t).Engaged ∨ K.executing = t ∧ ∃ ticks p, K.call = some (.wait .seize ticks p)) ∧
    ∀ w ticks, K.call = some (.wait w ticks .initializing) → ¬ K.Linked K.executing := by
  have hK : K.Kept 0 := h.invariant (I := fun K => K.Kept 0) (fun hI hm he => hI.step hm he)
    (initial_kept ht queue eventSync executing)
  refine ⟨fun t hl => hK.sound.linked (hK.timed.linked hl), fun w ticks hc hl => ?_⟩
  have hi : K.timers.state K.executing = .inactive := (hK.sound.own _ hc).2.2.2.2
  rcases hK.timed.linked hl with hs | hs <;> rw [hi] at hs <;> cases hs

instance (K : Kernel Q T) : ∀ m, Decidable (K.Careful m)
  | .interrupt (.kill t _) => inferInstanceAs (Decidable (K.subject ≠ some t ∨
      States.areSet (K.task t).currentState States.interruptibleBySignal = false))
  | .interrupt (.surrender t) =>
    decidable_of_iff (K.call ≠ some (.release t .flash) ∧ K.call ≠ some (.release t .remove) ∧
      K.call ≠ some (.release t .unblock)) ⟨fun h p => by cases p; exacts [h.1, h.2.1, h.2.2],
      fun h => ⟨h _, h _, h _⟩⟩
  | .wait _ ticks => inferInstanceAs (Decidable (ticks < 2 ^ 32))
  | .interrupt (.tick _) | .interrupt (.dequeue _) | .interrupt (.satisfy _) | .dequeue _ | .surrender _
  | .go | .switch _ => inferInstanceAs (Decidable True)

def signalledQueue : Queue where
  state := States.waitingForSemaphore ||| States.interruptibleBySignal
  syncState := .synchronized
  waits := by decide
  blocks := by decide
  apart := by decide

def twoThreads : Kernel Unit Bool :=
  initial (fun _ => ⟨States.ready, (), false, 0, .delayEnded, 0⟩) (fun _ => signalledQueue) .synchronized
    false

theorem twoThreads_idle : ∀ t : Bool, (twoThreads.task t).queued = false ∧ ¬ (twoThreads.task t).Engaged :=
  fun t => ⟨rfl, by
    unfold Task.Engaged
    cases t <;> decide⟩

def view (K : Kernel Unit Bool) : Bool × States × Option (Call Unit Bool) :=
  (decide (Holds K.timers.links () [false]), (K.task false).currentState, K.call)

def signalledSleep : List (Move Unit Bool) :=
  .wait (.delay true) 10 :: List.replicate 7 .go ++
    .interrupt (.kill false 2) :: .wait (.enqueue ()) 5 :: List.replicate 8 .go

theorem timer_linked_only_waiting_signalledSleep : ∃ K, Steps Kernel.step Careful twoThreads K ∧
    K.Linked false ∧ K.call = none ∧
      ((K.task false).Engaged ∨ K.executing = false ∧ ∃ ticks p, K.call = some (.wait .seize ticks p)) := by
  have hv : (run (checked Kernel.step Careful) signalledSleep twoThreads).map view =
      some (true, signalledQueue.state, none) := by decide +kernel
  obtain ⟨K, hr, hv⟩ := map_eq_some_iff.mp hv
  have hs : Steps Kernel.step Careful twoThreads K := Steps.refl.run_checked hr
  have hl : K.Linked false := ⟨[false], of_decide_eq_true (congrArg Prod.fst hv), by simp⟩
  have hc : K.call = none := congrArg (fun v => v.2.2) hv
  exact ⟨K, hs, hl, hc, (timer_linked_only_waiting twoThreads_idle hs).1 false hl⟩

def earlySignal : List (Move Unit Bool) :=
  [.wait (.delay true) 10, .go, .interrupt (.kill false 2)] ++ List.replicate 6 .go

/-- A ready thread has its timer on the chain, and initializes it. -/
theorem early_signal_leaves_timer :
    (∃ K, Steps Kernel.step (fun _ _ => True) twoThreads K ∧ K.Linked false ∧
      (K.task false).currentState = States.ready ∧ K.call = none) ∧
    ∃ K, Steps Kernel.step (fun _ _ => True) twoThreads K ∧ K.executing = false ∧ K.Linked false ∧
      K.call = some (.wait (.delay true) 10 .initializing) := by
  have hv : (run Kernel.step earlySignal twoThreads).map view = some (true, States.ready, none) := by
    decide +kernel
  have hv' : (run Kernel.step (earlySignal ++ [.wait (.delay true) 10, .go]) twoThreads).map
      (fun K => (K.executing, K.view)) = some (false, true, States.delaying ||| States.interruptibleBySignal,
        some (.wait (.delay true) 10 .initializing)) := by decide +kernel
  obtain ⟨K, hr, hK⟩ := map_eq_some_iff.mp hv
  obtain ⟨K', hr', hK'⟩ := map_eq_some_iff.mp hv'
  exact ⟨⟨K, .of_run (fun _ _ => trivial) hr, ⟨[false], of_decide_eq_true (congrArg Prod.fst hK), by simp⟩,
      congrArg (fun v => v.2.1) hK, congrArg (fun v => v.2.2) hK⟩,
    K', .of_run (fun _ _ => trivial) hr', congrArg Prod.fst hK',
      ⟨[false], of_decide_eq_true (congrArg (fun v => v.2.1) hK'), by simp⟩, congrArg (fun v => v.2.2.2) hK'⟩

end Kernel

end Rtems.ThreadTimer
