import Rtems.ThreadQueue.Invariant
import Rtems.ThreadTimer.Model
import Rtems.Watchdog.Interrupt.Runs

/-!
# When the timer of a thread runs

While the thread is blocked, unless the executing thread is about to wait or to let it go.
-/

namespace Rtems

open Function

namespace States

variable {s a b : States}

theorem areSet_or : areSet s (a ||| b) = (areSet s a || areSet s b) := by
  unfold areSet
  rw [BitVec.and_or_distrib_left]
  simp only [ne_eq, BitVec.ofNat_eq_ofNat, BitVec.or_eq_zero_iff, not_and_or, Bool.decide_or]

theorem set_ready_right : States.set s ready = s := BitVec.zero_or

end States

namespace ThreadTimer

open Watchdog (TimerState Runs)

variable {Q T : Type*} {K K' : Kernel Q T} {t u : T} {w : Wait Q} {ticks : Nat}

/-! ## The invariant -/

namespace Task

variable (c : Task Q) (ts : TimerState)

def Suits : Prop :=
  match c.routine with
  | .delayEnded => States.areSet c.currentState States.delaying = true
  | .queueTimeout => States.isWaitingOnThreadQueue c.currentState = true
  | .eventTimeout => States.areSet c.currentState States.waitingForEvent = true

def Fits : Prop := ts = .inactive ∨ ts = .active ∧ c.Suits

def Engaged : Prop :=
  States.areSet c.currentState
    (States.delaying ||| States.waitingForEvent ||| States.waitingOnThreadQueue) = true

def Apart : Prop :=
  States.isWaitingOnThreadQueue c.currentState = true →
    States.areSet c.currentState (States.delaying ||| States.waitingForEvent) = false

def freed : Task Q :=
  { c with currentState := States.clear States.blocked c.currentState, queued := false }

end Task

section

variable (c : Task Q) (ts : TimerState) (queue : Q → Queue) (es : Event.SyncState)

def Wait.Open : Wait Q → Prop
  | .delay _ => True
  | .enqueue q =>
    c.queue = q ∧ (queue q).syncState ≠ .synchronized ∧ (queue q).syncState ≠ .timeout
  | .seize => es ≠ .synchronized ∧ es ≠ .timeout

def Wait.Told : Wait Q → Prop
  | .delay _ => False
  | .enqueue q =>
    c.queue = q ∧ (queue q).syncState ≠ .synchronized ∧ ((queue q).syncState = .timeout → ts = .inactive)
  | .seize => es ≠ .synchronized ∧ (es = .timeout → ts = .inactive)

def Wait.Phase : Wait Q → Prop
  | .seize => c.currentState = States.ready
  | w => c.currentState = w.state queue

def Wait.At (w : Wait Q) (ticks : Nat) : Point T → Prop
  | .setState => c.currentState = States.ready ∧
      (w ≠ .seize ∧ w.Open c queue es ∧ ts = .inactive ∧ (∀ b, w = .delay b → ticks ≠ 0) ∨
        w = .seize ∧ w.Told c ts queue es ∧ (ts = .inactive ∨ ts = .active ∧ c.routine = w.routine))
  | .initializing => ticks ≠ 0 ∧ w.Open c queue es ∧ w.Phase c queue ∧ ts = .inactive
  | .insert => ticks ≠ 0 ∧ w.Open c queue es ∧ w.Phase c queue ∧ ts = .inactive ∧ c.routine = w.routine
  | .inserting _ => w.Open c queue es ∧ w.Phase c queue ∧ (ts = .inactive ∨ ts = .beingInserted) ∧
      c.routine = w.routine
  | .settle => w.Told c ts queue es ∧ (w ≠ .seize → c.currentState = w.state queue) ∧
      (ts = .inactive ∨ ts = .active ∧ c.routine = w.routine ∧ c.Suits)
  | .releasing .flash => False
  | .releasing .remove => (w ≠ .seize → c.currentState = w.state queue) ∧
      (ts = .inactive ∨ ts = .removeIt)
  | .releasing .unblock => ts = .inactive

def ReleaseAt : ReleasePoint → Prop
  | .flash => c.Fits ts
  | .remove => ts = .inactive ∨ ts = .removeIt ∧ c.Engaged
  | .unblock => ts = .inactive

end

namespace Kernel

def subject (K : Kernel Q T) : Option T :=
  K.call.map fun c =>
    match c with
    | .wait .. => K.executing
    | .release t _ => t

theorem subject_cases {K : Kernel Q T} {t : T} (h : K.subject = some t) :
    (∃ w ticks p, K.call = some (.wait w ticks p) ∧ K.executing = t) ∨ ∃ p, K.call = some (.release t p) := by
  obtain ⟨d, hc, hd⟩ := Option.map_eq_some_iff.mp h
  cases d with
  | wait w ticks p => exact Or.inl ⟨w, ticks, p, hc, hd⟩
  | release s p => exact Or.inr ⟨p, hd ▸ hc⟩

def Own (K : Kernel Q T) : Call Q T → Prop
  | .wait w ticks p => (K.task K.executing).queued = false ∧
      w.At (K.task K.executing) (K.timers.state K.executing) K.queue K.eventSync ticks p
  | .release t p => (K.task t).queued = false ∧ ReleaseAt (K.task t) (K.timers.state t) p

structure Sound (K : Kernel Q T) : Prop where
  fits : ∀ t, K.subject ≠ some t → (K.task t).Fits (K.timers.state t)
  queued : ∀ t, (K.task t).queued = true → K.isWaiting t = true
  apart : ∀ t, (K.task t).Apart
  own : ∀ c, K.call = some c → K.Own c

theorem Sound.update (h : K.Sound) (x : T) (htask : ∀ u ≠ x, K'.task u = K.task u)
    (hst : ∀ u ≠ x, K'.timers.state u = K.timers.state u)
    (hsub : ∀ u ≠ x, K'.subject ≠ some u → K.subject ≠ some u)
    (hfit : K'.subject ≠ some x → (K'.task x).Fits (K'.timers.state x))
    (hq : (K'.task x).queued = true → K'.isWaiting x = true) (ha : (K'.task x).Apart)
    (hown : ∀ c, K'.call = some c → K'.Own c) : K'.Sound := by
  refine ⟨fun u hu => ?_, fun u hu => ?_, fun u => ?_, hown⟩ <;> by_cases hux : u = x
  · subst hux
    exact hfit hu
  · rw [htask u hux, hst u hux]
    exact h.fits u (hsub u hux hu)
  · subst hux
    exact hq hu
  · rw [htask u hux] at hu
    rw [isWaiting, htask u hux]
    exact h.queued u hu
  · subst hux
    exact ha
  · rw [htask u hux]
    exact h.apart u

theorem Sound.setTimers {timers} (h : K.Sound)
    (hs : timers.state = K.timers.state) : (K.setTimers timers).Sound := by
  refine ⟨fun t ht => ?_, h.queued, h.apart, fun c hc => ?_⟩
  · change (K.task t).Fits (timers.state t)
    rw [hs]
    exact h.fits t ht
  · have := h.own c hc
    cases c <;> simpa [Own, Kernel.setTimers, hs] using this

theorem Sound.queued_eq_false (h : K.Sound) (ht : K.isWaiting t = false) : (K.task t).queued = false := by
  cases hq : (K.task t).queued with
  | false => rfl
  | true =>
    rw [h.queued t hq] at ht
    cases ht

theorem Sound.not_waiting (h : K.Sound)
    (ht : States.areSet (K.task t).currentState (States.delaying ||| States.waitingForEvent) = true) :
    K.isWaiting t = false := by
  cases hw : K.isWaiting t with
  | false => rfl
  | true =>
    rw [h.apart t hw] at ht
    cases ht

end Kernel

/-! ## A thread is let go -/

variable [DecidableEq T]

theorem Task.freed_apart (c : Task Q) : c.freed.Apart := by
  intro h
  rw [Task.freed, States.isWaiting_clear_blocked] at h
  cases h

theorem Task.freed_eq {c : Task Q} (h : c.queued = false) :
    c.freed = { c with currentState := States.clear States.blocked c.currentState } := by
  unfold Task.freed
  rw [← h]

namespace Kernel

section

variable {f : Task Q → Task Q}

theorem task_modify_self : (K.modify t f).task t = f (K.task t) := update_self ..

theorem task_modify_ne (h : u ≠ t) : (K.modify t f).task u = K.task u := update_of_ne h ..

theorem task_unblock_self : (K.unblock t).task t =
    { K.task t with currentState := States.clear States.blocked (K.task t).currentState } := by
  unfold unblock setState
  rw [task_modify_self]

theorem task_unblock_ne (h : u ≠ t) : (K.unblock t).task u = K.task u := by
  unfold unblock setState
  rw [task_modify_ne h]

theorem apart_unblock : ((K.unblock t).task t).Apart := by
  intro h
  rw [task_unblock_self, States.isWaiting_clear_blocked] at h
  cases h

end

structure Freed (K K' : Kernel Q T) (t : T) : Prop where
  task : K'.task = update K.task t (K.task t).freed
  states : K'.timers.state = update K.timers.state t .inactive
  queue : K'.queue = K.queue
  eventSync : K'.eventSync = K.eventSync
  executing : K'.executing = K.executing
  call : K'.call = K.call

namespace Freed

variable (hF : Freed K K' t)

include hF

theorem task_self : K'.task t = (K.task t).freed := by rw [hF.task, update_self]

theorem task_ne (hu : u ≠ t) : K'.task u = K.task u := by rw [hF.task, update_of_ne hu]

theorem state_self : K'.timers.state t = .inactive := by rw [hF.states, update_self]

theorem state_ne (hu : u ≠ t) : K'.timers.state u = K.timers.state u := by
  rw [hF.states, update_of_ne hu]

theorem subject : K'.subject = K.subject := by
  unfold Kernel.subject
  rw [hF.call, hF.executing]

end Freed

theorem Sound.freed_of (h : K.Sound) (hF : Freed K K' t) (hown : ∀ c, K.call = some c → K'.Own c) :
    K'.Sound := by
  refine h.update t (fun u hu => hF.task_ne hu) (fun u hu => hF.state_ne hu) (fun u _ hu => ?_)
    (fun _ => Or.inl hF.state_self) (fun hq => ?_) ?_ fun c hc => hown c (hF.call ▸ hc)
  · rwa [hF.subject] at hu
  · rw [hF.task_self] at hq
    cases hq
  · rw [hF.task_self]
    exact (K.task t).freed_apart

theorem Sound.freed (h : K.Sound) (hF : Freed K K' t) (ht : K.subject ≠ some t) : K'.Sound := by
  refine h.freed_of hF fun c hc => ?_
  have hO := h.own c hc
  have hne {x : T} (hx : K.subject = some x) : x ≠ t := by
    rintro rfl
    exact ht hx
  cases c with
  | wait w ticks p =>
    have hx : K.executing ≠ t := hne (by simp [Kernel.subject, hc])
    simpa only [Own, hF.executing, hF.task_ne hx, hF.state_ne hx, hF.queue, hF.eventSync] using hO
  | release s p =>
    have hx : s ≠ t := hne (by simp [Kernel.subject, hc])
    simpa only [Own, hF.task_ne hx, hF.state_ne hx] using hO

theorem freed_unblock (hi : K.timers.state t = .inactive) (hq : (K.task t).queued = false) :
    Freed K (K.unblock t) t := by
  refine ⟨?_, ?_, rfl, rfl, rfl, rfl⟩
  · rw [Task.freed_eq hq]
    rfl
  · rw [← hi, update_eq_self]
    rfl

theorem letGo_active (h : K.timers.state t = .active) : K.letGo t =
    (K.setTimers (Watchdog.remove (Watchdog.deactivate K.timers t) t).1).unblock t := by
  have ha : Watchdog.isActive K.timers t = true := decide_eq_true h
  simp only [letGo, deactivateTimer, ha, if_true]
  rfl

theorem letGo_idle (h : K.timers.state t ≠ .active) : K.letGo t = K.unblock t := by
  have ha : Watchdog.isActive K.timers t = false := decide_eq_false h
  simp only [letGo, deactivateTimer, ha]
  rfl

variable {l : Nat} {fs : List (Watchdog.Frame Unit T)}

theorem freed_letGo (hR : Runs K.timers (.body l :: fs)) (hq : (K.task t).queued = false)
    (hs : K.timers.state t = .inactive ∨ K.timers.state t = .active) :
    Freed K (K.letGo t) t ∧ Runs (K.letGo t).timers (.body l :: fs) := by
  rcases hs with hs | hs
  · rw [letGo_idle (by simp [hs])]
    exact ⟨freed_unblock hs hq, hR⟩
  · rw [letGo_active hs]
    obtain ⟨hM, hst⟩ := hR.deactivate_remove hs
    refine ⟨⟨?_, hst, rfl, rfl, rfl, rfl⟩, hM⟩
    rw [Task.freed_eq hq]
    rfl

theorem freed_dequeue (hR : Runs K.timers (.body l :: fs))
    (hs : K.timers.state t = .inactive ∨ K.timers.state t = .active) :
    Freed K ((K.setQueued t false).letGo t) t ∧ Runs ((K.setQueued t false).letGo t).timers (.body l :: fs) := by
  have hq : ((K.setQueued t false).task t).queued = false := by simp [setQueued, modify]
  obtain ⟨hF, hR'⟩ := freed_letGo (K := K.setQueued t false) hR hq hs
  refine ⟨⟨?_, hF.states, hF.queue, hF.eventSync, hF.executing, hF.call⟩, hR'⟩
  rw [hF.task]
  simp [setQueued, modify, Task.freed]

end Kernel

end ThreadTimer

end Rtems
