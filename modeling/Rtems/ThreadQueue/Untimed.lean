import Rtems.ThreadQueue.Call

/-!
# Blocking and the timers

A thread blocks alike whatever timers the other threads have.
-/

namespace Rtems.ThreadQueue

open Intrusive Thread
open Kernel (enqueueFrom enqueueFrom_done enqueueFrom_step enqueueStep setTimers)

variable {Q T : Type*} [DecidableEq Q] [DecidableEq T] {K K' : Kernel Q T} {e : Enqueue Q T}
  {p : EnqueuePoint Q T} {r : Kernel Q T × EnqueuePoint Q T} {q : Q} {fuel timeout : Nat}

def EnqueuePoint.Late : EnqueuePoint Q T → Prop
  | .linking | .restart _ | .search .. => True
  | .entry | .stateFlash | .blocked | .initialized | .inserting _ | .releasing _ | .done => False

omit [DecidableEq Q] [DecidableEq T] in
theorem EnqueuePoint.late_linking : (EnqueuePoint.linking : EnqueuePoint Q T).Late := trivial

/-- Timers are left alone; `s` is where other timers lead. -/
structure Aloof (K : Kernel Q T) (q : Q) (timers : Watchdog.Timers Unit T)
    (r s : Kernel Q T × EnqueuePoint Q T) : Prop where
  other : s = (r.1.setTimers timers, r.2)
  own : r.1.timers = K.timers
  goesOn : r.2 = .done ∨ r.2.Late ∧ (r.1.queue q).syncState = .nothingHappened

omit [DecidableEq Q] [DecidableEq T] in
theorem Aloof.ite {c : Prop} [Decidable c] {timers r r' s s'} (h : c → Aloof K q timers r s)
    (h' : ¬ c → Aloof K q timers r' s') :
    Aloof K q timers (if c then r else r') (if c then s else s') := by
  split
  · exact h ‹c›
  · exact h' ‹¬ c›

section

variable (hs : (K.queue e.queue).syncState = .nothingHappened) (timers : Watchdog.Timers Unit T)

include hs

theorem aloof_enqueueFifo : Aloof K e.queue timers (K.enqueueFifo e) ((K.setTimers timers).enqueueFifo e) := by
  unfold Kernel.enqueueFifo
  rw [if_pos hs, if_pos (show ((K.setTimers timers).queue e.queue).syncState = .nothingHappened from hs)]
  exact ⟨rfl, rfl, Or.inl rfl⟩

variable (priority : Priority) (searchPriority : Nat) (node : Node (QueueName Q T) T)

theorem aloof_place (insert : Links (QueueName Q T) T → T →
    Node (QueueName Q T) T → Links (QueueName Q T) T) :
    Aloof K e.queue timers (K.place e priority searchPriority node insert)
      ((K.setTimers timers).place e priority searchPriority node insert) := by
  unfold Kernel.place
  rw [if_neg (not_not.mpr hs), if_neg (not_not.mpr
    (show ((K.setTimers timers).queue e.queue).syncState = .nothingHappened from hs))]
  split
  · cases node <;> exact ⟨rfl, rfl, Or.inl rfl⟩
  · exact ⟨rfl, rfl, Or.inl rfl⟩

theorem aloof_searchForward :
    Aloof K e.queue timers (K.searchForward e priority searchPriority node)
      ((K.setTimers timers).searchForward e priority searchPriority node) := by
  refine .ite (fun _ => aloof_place hs ..) fun _ => ?_
  cases node with
  | head | tail | null => exact ⟨rfl, rfl, Or.inl rfl⟩
  | obj u =>
    refine .ite (fun _ => aloof_place hs ..) fun _ => .ite (fun _ => ?_) fun _ => ?_
    · refine .ite (fun _ => aloof_place hs ..) fun _ => ?_
      dsimp only [setTimers]
      cases K.sched.links.next (.obj u) with
      | head | tail | null => exact ⟨rfl, rfl, Or.inl rfl⟩
      | obj v => exact .ite (fun _ => aloof_place hs ..) fun _ => ⟨rfl, rfl, Or.inr ⟨trivial, hs⟩⟩
    · exact ⟨rfl, rfl, Or.inr ⟨trivial, hs⟩⟩

theorem aloof_searchReverse :
    Aloof K e.queue timers (K.searchReverse e priority searchPriority node)
      ((K.setTimers timers).searchReverse e priority searchPriority node) := by
  refine .ite (fun _ => aloof_place hs ..) fun _ => ?_
  cases node with
  | head | tail | null => exact ⟨rfl, rfl, Or.inl rfl⟩
  | obj u =>
    refine .ite (fun _ => aloof_place hs ..) fun _ => .ite (fun _ => ?_) fun _ => ?_
    · refine .ite (fun _ => aloof_place hs ..) fun _ => ?_
      dsimp only [setTimers]
      cases K.sched.links.previous (.obj u) with
      | head | tail | null => exact ⟨rfl, rfl, Or.inl rfl⟩
      | obj v => exact .ite (fun _ => aloof_place hs ..) fun _ => ⟨rfl, rfl, Or.inr ⟨trivial, hs⟩⟩
    · exact ⟨rfl, rfl, Or.inr ⟨trivial, hs⟩⟩

omit priority searchPriority node

theorem aloof_enqueueStep (hp : p.Late) :
    Aloof K e.queue timers (K.enqueueStep e p) ((K.setTimers timers).enqueueStep e p) := by
  cases p with
  | linking =>
    unfold enqueueStep
    dsimp only [setTimers]
    split
    · exact aloof_enqueueFifo hs timers
    · exact ⟨rfl, rfl, Or.inr ⟨trivial, hs⟩⟩
  | restart priority =>
    exact .ite (fun _ => aloof_searchReverse hs ..) fun _ => aloof_searchForward hs ..
  | search priority searchPriority node =>
    cases node with
    | head | tail | null => exact ⟨rfl, rfl, Or.inl rfl⟩
    | obj u =>
      refine .ite (fun _ => ⟨rfl, rfl, Or.inr ⟨trivial, hs⟩⟩) fun _ => ?_
      exact .ite (fun _ => aloof_searchReverse hs ..) fun _ => aloof_searchForward hs ..
  | entry | stateFlash | blocked | initialized | inserting | releasing | done => exact hp.elim

theorem enqueueFrom_setTimers (hp : p.Late) (he : enqueueFrom e fuel K p = some K') :
    K'.timers = K.timers ∧
      enqueueFrom e fuel (K.setTimers timers) p = some (K'.setTimers timers) := by
  induction fuel generalizing K p with
  | zero => cases he
  | succ fuel ih =>
    obtain ⟨ho, hT, hg⟩ := aloof_enqueueStep hs timers hp
    generalize hr : K.enqueueStep e p = r at ho hT hg
    obtain ⟨K1, p1⟩ := r
    rcases hg with hd | ⟨hl, hs1⟩
    · obtain rfl : p1 = .done := hd
      rw [enqueueFrom_done hr] at he
      cases he
      exact ⟨hT, enqueueFrom_done ho⟩
    · have hne : p1 ≠ .done := by
        rintro rfl
        exact hl
      rw [enqueueFrom_step hr hne] at he
      rw [enqueueFrom_step ho hne]
      obtain ⟨hT', he'⟩ := ih hs1 hl he
      exact ⟨hT'.trans hT, he'⟩

end

theorem enqueueFrom_interval {t} (hs : (K.queue q).syncState = .nothingHappened) (hp : p.Late)
    (he : enqueueFrom ⟨t, q, timeout⟩ fuel K p = some K') (u : Nat) :
    enqueueFrom ⟨t, q, u⟩ fuel K p = some K' := by
  induction fuel generalizing K p with
  | zero => cases he
  | succ fuel ih =>
    obtain ⟨-, -, hg⟩ := aloof_enqueueStep (e := ⟨t, q, timeout⟩) hs K.timers hp
    have hi : K.enqueueStep ⟨t, q, u⟩ p = K.enqueueStep ⟨t, q, timeout⟩ p := by
      cases p with
      | linking | restart | search => rfl
      | entry | stateFlash | blocked | initialized | inserting | releasing | done => cases hp
    generalize hr : K.enqueueStep ⟨t, q, timeout⟩ p = r at hi hg
    obtain ⟨K1, p1⟩ := r
    rcases hg with hd | ⟨hl, hs1⟩
    · obtain rfl : p1 = .done := hd
      rw [enqueueFrom_done hr] at he
      rw [enqueueFrom_done hi, he]
    · have hne : p1 ≠ .done := by
        rintro rfl
        exact hl
      rw [enqueueFrom_step hr hne] at he
      rw [enqueueFrom_step hi hne]
      exact ih hs1 hl he

theorem enqueueFrom_inserting {ip} (he : enqueueFrom e fuel K (.inserting ip) = some K') :
    ∃ timers m, Watchdog.insertFrom () e.thread fuel K.timers ip = some timers ∧
      enqueueFrom e m (K.setTimers timers) .linking = some K' := by
  induction fuel generalizing K ip with
  | zero => cases he
  | succ fuel ih =>
    generalize hi : Watchdog.insertStep K.timers () e.thread ip = r
    obtain ⟨timers, jp⟩ := r
    by_cases hj : jp = .done
    · subst hj
      have hr : K.enqueueStep e (.inserting ip) = (K.setTimers timers, .linking) := by
        simp only [enqueueStep, hi]
      rw [enqueueFrom_step hr (by simp)] at he
      exact ⟨timers, fuel, Watchdog.insertFrom_done hi, he⟩
    · have hr : K.enqueueStep e (.inserting ip) = (K.setTimers timers, .inserting jp) := by
        simp only [enqueueStep, hi]
      rw [enqueueFrom_step hr (by simp)] at he
      obtain ⟨timers', m, h, he'⟩ := ih he
      exact ⟨timers', m, (Watchdog.insertFrom_step hi hj).trans h, he'⟩

def Inserts (K K' : Kernel Q T) (t : T) (timeout : Nat) : Prop :=
  timeout = 0 ∧ K'.timers = K.timers ∨ timeout ≠ 0 ∧ ∃ fuel,
    Watchdog.insert (Watchdog.initializeTimer K.timers t) () t timeout fuel = some K'.timers

theorem enqueueFrom_blocked {t} (hs : (K.queue q).syncState = .nothingHappened)
    (he : enqueueFrom ⟨t, q, timeout⟩ fuel K .blocked = some K') :
    Inserts K K' t timeout ∧ ∀ timers, ∃ m,
      enqueueFrom ⟨t, q, 0⟩ m (K.setTimers timers) .blocked = some (K'.setTimers timers) := by
  have hstep (timers : Watchdog.Timers Unit T) :
      (K.setTimers timers).enqueueStep ⟨t, q, 0⟩ .blocked = (K.setTimers timers, .linking) := rfl
  cases fuel with
  | zero => cases he
  | succ fuel =>
    by_cases h0 : timeout = 0
    · subst h0
      change enqueueFrom _ _ (K.setTimers K.timers) _ = _ at he
      refine ⟨Or.inl ⟨rfl, (enqueueFrom_setTimers hs K.timers EnqueuePoint.late_linking he).1⟩, fun timers => ?_⟩
      refine ⟨fuel + 1, ?_⟩
      exact (enqueueFrom_setTimers hs timers EnqueuePoint.late_linking he).2
    · have hr : K.enqueueStep ⟨t, q, timeout⟩ .blocked =
          (K.setTimers (Watchdog.initializeTimer K.timers t), .initialized) := if_pos h0
      rw [enqueueFrom_step hr (by simp)] at he
      cases fuel with
      | zero => cases he
      | succ fuel =>
        obtain ⟨timers', m, hi, he⟩ := enqueueFrom_inserting he
        have hs' : ((K.setTimers timers').queue q).syncState = .nothingHappened := hs
        have he' := enqueueFrom_interval hs' EnqueuePoint.late_linking he 0
        refine ⟨Or.inr ⟨h0, fuel, ?_⟩, fun timers => ⟨m + 1, ?_⟩⟩
        · rw [(enqueueFrom_setTimers (e := ⟨t, q, timeout⟩) hs' timers' EnqueuePoint.late_linking he).1]
          exact hi
        · exact (enqueueFrom_setTimers (e := ⟨t, q, 0⟩) hs' timers EnqueuePoint.late_linking he').2

theorem enqueueFrom_entry (hr : (K.sched.control e.thread).currentState = States.ready) :
    enqueueFrom e fuel K .entry = some K' ↔ ∃ m, fuel = m + 2 ∧ enqueueFrom e m
      { K with sched := K.sched.setState e.thread (K.queue e.queue).state } .blocked = some K' := by
  have hS := Scheduler.setStateEnter_ready (s := (K.queue e.queue).state) hr
  have h : K.enqueueStep e .entry = ({ K with
      sched := (K.sched.setCurrentState e.thread (K.queue e.queue).state).unlinkReady e.thread },
      .stateFlash) := by
    simp only [enqueueStep, hS]
  simp only [Scheduler.setState, hS]
  rcases fuel with _ | _ | fuel
  · refine ⟨fun he => (Option.some_ne_none _ he.symm).elim, ?_⟩
    omega
  · rw [enqueueFrom_step h (by simp)]
    refine ⟨fun he => (Option.some_ne_none _ he.symm).elim, ?_⟩
    omega
  · rw [enqueueFrom_step h (by simp), enqueueFrom_step rfl (by simp)]
    refine ⟨fun he => ⟨fuel, rfl, he⟩, ?_⟩
    rintro ⟨m, hm, he⟩
    obtain rfl : fuel = m := by omega
    exact he

theorem Kernel.block_setTimers (hr : (K.sched.control K.sched.executing).currentState = States.ready)
    (he : K.block q timeout fuel = some K') :
    Inserts K K' K.sched.executing timeout ∧ ∀ timers, ∃ m,
      (K.setTimers timers).block q 0 m = some (K'.setTimers timers) := by
  have hs : ((K.prepare q).queue q).syncState = .nothingHappened := by
    simp [Kernel.prepare, Kernel.enterCriticalSection]
  have hx : ((K.prepare q).sched.control K.sched.executing).currentState = States.ready := hr
  obtain ⟨m, -, he⟩ := (enqueueFrom_entry (e := ⟨K.sched.executing, q, timeout⟩) hx).mp he
  obtain ⟨hi, h⟩ := enqueueFrom_blocked (K := { K.prepare q with
    sched := (K.prepare q).sched.setState K.sched.executing ((K.prepare q).queue q).state }) hs he
  refine ⟨hi, fun timers => ?_⟩
  obtain ⟨m, h⟩ := h timers
  exact ⟨m + 2, (enqueueFrom_entry (K := (K.prepare q).setTimers timers)
    (e := ⟨K.sched.executing, q, 0⟩) hx).mpr ⟨m, rfl, h⟩⟩

end Rtems.ThreadQueue
