import Rtems.ThreadTimer.Invariant

/-! # Handlers -/

namespace Rtems.ThreadTimer

open Function
open Watchdog (TimerState Runs)

variable {Q T : Type*} [DecidableEq T] {K K' : Kernel Q T} {t u : T} {w : Wait Q} {ticks l : Nat}
  {c : Task Q} {ts : TimerState} {queue queue' : Q → Queue} {es es' : Event.SyncState} {p : Point T}
  {fs : List (Watchdog.Frame Unit T)}

/-! ## The wait is satisfied while the thread blocks -/

structure Satisfied (queue queue' : Q → Queue) (es es' : Event.SyncState) : Prop where
  state : ∀ q, (queue' q).state = (queue q).state
  queue : ∀ q, (queue' q).syncState = (queue q).syncState ∨ (queue' q).syncState = .satisfied
  event : es' = es ∨ es' = .satisfied

section

variable (h : Satisfied queue queue' es es')

include h

omit [DecidableEq T] in
theorem Satisfied.state_eq (w : Wait Q) : w.state queue' = w.state queue := by
  cases w with
  | delay | seize => rfl
  | enqueue q => exact h.state q

theorem Wait.Open.satisfied (hw : w.Open c queue es) : w.Open c queue' es' := by
  cases w with
  | delay => trivial
  | enqueue q =>
    rcases h.queue q with hq | hq
    · exact ⟨hw.1, hq ▸ hw.2.1, hq ▸ hw.2.2⟩
    · exact ⟨hw.1, by simp [hq], by simp [hq]⟩
  | seize =>
    rcases h.event with rfl | rfl
    · exact hw
    · exact ⟨by simp, by simp⟩

theorem Wait.Told.satisfied (hw : w.Told c ts queue es) : w.Told c ts queue' es' := by
  cases w with
  | delay => exact hw
  | enqueue q =>
    rcases h.queue q with hq | hq
    · exact ⟨hw.1, hq ▸ hw.2.1, fun ht => hw.2.2 (hq ▸ ht)⟩
    · exact ⟨hw.1, by simp [hq], by simp [hq]⟩
  | seize =>
    rcases h.event with rfl | rfl
    · exact hw
    · exact ⟨by simp, by simp⟩

theorem Wait.Phase.satisfied (hw : w.Phase c queue) : w.Phase c queue' := by
  cases w with
  | delay | seize => exact hw
  | enqueue q => exact hw.trans (h.state q).symm

omit [DecidableEq T] in
theorem Wait.At.satisfied (hw : w.At c ts queue es ticks p) : w.At c ts queue' es' ticks p := by
  have hs := h.state_eq w
  cases p with
  | setState =>
    obtain ⟨hr, ⟨hn, ho, ht⟩ | ⟨hz, ho, ht⟩⟩ := hw
    · exact ⟨hr, Or.inl ⟨hn, ho.satisfied h, ht⟩⟩
    · exact ⟨hr, Or.inr ⟨hz, ho.satisfied h, ht⟩⟩
  | initializing => exact ⟨hw.1, hw.2.1.satisfied h, hw.2.2.1.satisfied h, hw.2.2.2⟩
  | insert => exact ⟨hw.1, hw.2.1.satisfied h, hw.2.2.1.satisfied h, hw.2.2.2⟩
  | inserting => exact ⟨hw.1.satisfied h, hw.2.1.satisfied h, hw.2.2⟩
  | settle => exact ⟨hw.1.satisfied h, fun hn => (hw.2.1 hn).trans hs.symm, hw.2.2⟩
  | releasing p =>
    cases p with
    | flash => exact hw
    | remove => exact ⟨fun hn => (hw.1 hn).trans hs.symm, hw.2⟩
    | unblock => exact hw

end

namespace Kernel

omit [DecidableEq T] in
theorem Own.satisfied {d} (h : K.Own d) (htask : K'.task = K.task) (hst : K'.timers = K.timers)
    (hx : K'.executing = K.executing) (hS : Satisfied K.queue K'.queue K.eventSync K'.eventSync) :
    K'.Own d := by
  cases d with
  | wait w ticks p =>
    unfold Own at h ⊢
    rw [htask, hst, hx]
    exact ⟨h.1, h.2.satisfied hS⟩
  | release t p =>
    unfold Own at h ⊢
    rw [htask, hst]
    exact h

omit [DecidableEq T] in
theorem Sound.setEventSync_satisfied (h : K.Sound) : (K.setEventSync .satisfied).Sound :=
  ⟨h.fits, h.queued, h.apart, fun d hd => (h.own d hd).satisfied rfl rfl rfl
    ⟨fun _ => rfl, fun _ => Or.inl rfl, Or.inr rfl⟩⟩

variable [DecidableEq Q]

omit [DecidableEq T] in
theorem state_setSyncState (q r : Q) (s : ThreadQueue.SyncState) :
    ((K.setSyncState q s).queue r).state = (K.queue r).state := by
  by_cases hr : r = q
  · subst hr
    simp [setSyncState]
  · simp [setSyncState, hr]

omit [DecidableEq T] in
theorem Sound.satisfy (h : K.Sound) (q : Q) : (K.satisfy q).Sound := by
  have hs : (K.setSyncState q .satisfied).Sound := by
    refine ⟨h.fits, h.queued, h.apart, fun d hd => (h.own d hd).satisfied rfl rfl rfl
      ⟨fun r => state_setSyncState q r _, fun r => ?_, Or.inl rfl⟩⟩
    by_cases hr : r = q
    · subst hr
      exact Or.inr (by simp [setSyncState])
    · exact Or.inl (by simp [setSyncState, hr])
  unfold Kernel.satisfy
  split
  · exact h
  · exact h
  · exact hs
  · exact hs

/-! ## `_POSIX_signals_Unblock_thread` -/

section

omit [DecidableEq Q]

theorem unblockThread_eq (h : States.areSet (K.task t).currentState States.interruptibleBySignal = false)
    (signo : Nat) : K.unblockThread t signo = K := by
  unfold unblockThread
  rw [if_neg]
  · split
    · rw [h]
      rfl
    · rfl
  · intro hi
    have hc : States.Includes (K.task t).currentState
        (States.waitingForSignal ||| States.interruptibleBySignal) := hi
    rw [hc.of_subset (by decide)] at h
    cases h

theorem freed_extract (hR : Runs K.timers (.body l :: fs)) (hw : K.isWaiting t = true)
    (hs : K.timers.state t = .inactive ∨ K.timers.state t = .active) :
    Freed K (K.extract t) t ∧ Runs (K.extract t).timers (.body l :: fs) := by
  unfold extract
  rw [if_pos hw]
  exact freed_dequeue hR hs

theorem unblockThread_cases (h : K.Sound) (hR : Runs K.timers (.body l :: fs)) (ht : K.subject ≠ some t)
    (signo : Nat) : K.unblockThread t signo = K ∨
      Freed K (K.unblockThread t signo) t ∧ Runs (K.unblockThread t signo).timers (.body l :: fs) := by
  have hs : K.timers.state t = .inactive ∨ K.timers.state t = .active := (h.fits t ht).imp id And.left
  have hext : K.extract t = K ∨ Freed K (K.extract t) t ∧ Runs (K.extract t).timers (.body l :: fs) := by
    cases hw : K.isWaiting t with
    | false => exact Or.inl (by simp [extract, hw])
    | true => exact Or.inr (freed_extract hR hw hs)
  unfold unblockThread
  dsimp only
  split
  · split
    · exact hext
    · exact Or.inl rfl
  split
  swap
  · exact Or.inl rfl
  split
  swap
  · exact Or.inl rfl
  split
  · exact hext
  · rename_i hw
    have hw : K.isWaiting t = false := by simpa using hw
    split
    · right
      rcases hs with hs | hs
      · have ha : Watchdog.isActive K.timers t = false := decide_eq_false fun ha => by
          rw [show (K.timers.control t).state = _ from hs] at ha
          cases ha
        rw [ha]
        exact ⟨freed_unblock hs (h.queued_eq_false hw), hR⟩
      · have ha : Watchdog.isActive K.timers t = true := decide_eq_true hs
        rw [ha, if_pos rfl]
        refine ⟨⟨?_, ?_, rfl, rfl, rfl, rfl⟩, hR.remove fun c hc => hR.not_inserting (Or.inl hs) c
          (List.mem_cons_of_mem _ hc)⟩
        · rw [Task.freed_eq (h.queued_eq_false hw)]
          rfl
        · exact hR.state_remove
    · exact Or.inl rfl

end

/-! ## Ticks -/

structure Ran (K K1 : Kernel Q T) (t : T) : Prop where
  active : K.timers.state t = .active
  task : K1.task = K.task
  states : K1.timers.state = update K.timers.state t .inactive
  queue : K1.queue = K.queue
  eventSync : K1.eventSync = K.eventSync
  executing : K1.executing = K.executing
  call : K1.call = K.call

omit [DecidableEq Q] in
theorem Ran.inactive {K1} (hr : Ran K K1 t) : K1.timers.state t = .inactive := by
  rw [hr.states, update_self]

omit [DecidableEq Q] in
theorem Ran.freed {K1} (hr : Ran K K1 t) (hF : Freed K1 K' t) : Freed K K' t := by
  refine ⟨?_, ?_, hF.queue.trans hr.queue, hF.eventSync.trans hr.eventSync,
    hF.executing.trans hr.executing, hF.call.trans hr.call⟩
  · rw [hF.task, hr.task]
  · rw [hF.states, hr.states, update_idem]

structure Noted (K K' : Kernel Q T) (t : T) : Prop where
  self : t = K.executing
  task : K'.task = K.task
  states : K'.timers.state = update K.timers.state t .inactive
  executing : K'.executing = K.executing
  call : K'.call = K.call

section

variable {K1 : Kernel Q T} (hr : Ran K K1 t)

include hr

theorem fire_queueTimeout (ht : t = K.executing) (hc : (K.task t).routine = .queueTimeout)
    (hq : (K.queue (K.task t).queue).syncState ≠ .synchronized) : K1.fire t =
      if (K.queue (K.task t).queue).syncState ≠ .satisfied then
        K1.setSyncState (K.task t).queue .timeout
      else K1 := by
  simp only [fire, hr.task, hc, timeout, hr.queue, hr.executing]
  rw [if_pos ⟨hq, ht⟩]

theorem fire_eventTimeout (ht : t = K.executing) (hc : (K.task t).routine = .eventTimeout)
    (hq : K.eventSync ≠ .synchronized) : K1.fire t =
      if K.eventSync ≠ .satisfied then K1.setEventSync .timeout else K1 := by
  simp only [fire, hr.task, hc, eventTimeout, hr.eventSync, hr.executing]
  rw [if_pos ⟨hq, ht⟩]

omit [DecidableEq Q] in
theorem Ran.noted (ht : t = K.executing) : Noted K K1 t :=
  ⟨ht, hr.task, hr.states, hr.executing, hr.call⟩

theorem fire_cases (h : K.Sound) (hs : (K.task t).Suits) :
    Freed K (K1.fire t) t ∨ Noted K (K1.fire t) t := by
  have hunblock (ha : States.areSet (K.task t).currentState
      (States.delaying ||| States.waitingForEvent) = true) : Freed K (K1.unblock t) t := by
    refine hr.freed (freed_unblock hr.inactive ?_)
    rw [hr.task]
    exact h.queued_eq_false (h.not_waiting ha)
  unfold Task.Suits at hs
  cases hc : (K.task t).routine with
  | delayEnded =>
    rw [hc] at hs
    simp only [fire, hr.task, hc]
    exact Or.inl (hunblock (by rw [States.areSet_or, hs, Bool.true_or]))
  | queueTimeout =>
    rw [hc] at hs
    by_cases hq : (K.queue (K.task t).queue).syncState ≠ .synchronized ∧ t = K.executing
    · rw [fire_queueTimeout hr hq.2 hc hq.1]
      right
      split
      · exact ⟨hq.2, hr.task, hr.states, hr.executing, hr.call⟩
      · exact hr.noted hq.2
    · have hw : K1.isWaiting t = true := by
        rw [isWaiting, hr.task]
        exact hs
      simp only [fire, hr.task, hc, timeout, hr.queue, hr.executing]
      rw [if_neg hq, extract, if_pos hw, letGo_idle (by
        change K1.timers.state t ≠ _
        rw [hr.inactive]
        simp)]
      left
      refine hr.freed ⟨?_, ?_, rfl, rfl, rfl, rfl⟩
      · simp [unblock, setState, setQueued, modify, Task.freed]
      · rw [← hr.inactive, update_eq_self]
        rfl
  | eventTimeout =>
    rw [hc] at hs
    by_cases hq : K.eventSync ≠ .synchronized ∧ t = K.executing
    · rw [fire_eventTimeout hr hq.2 hc hq.1]
      right
      split
      · exact ⟨hq.2, hr.task, hr.states, hr.executing, hr.call⟩
      · exact hr.noted hq.2
    · simp only [fire, hr.task, hc, eventTimeout, hr.eventSync, hr.executing]
      rw [if_neg hq]
      exact Or.inl (hunblock (by rw [States.areSet_or, hs, Bool.or_true]))

end

omit [DecidableEq Q] in
theorem Sound.noted (h : K.Sound) (hN : Noted K K' t) (hown : ∀ d, K.call = some d → K'.Own d) :
    K'.Sound := by
  refine h.update t (fun u _ => by rw [hN.task]) (fun u hu => by rw [hN.states, update_of_ne hu])
    (fun u _ hu => ?_) (fun _ => ?_) (fun hq => ?_) ?_ fun d hd => hown d (hN.call ▸ hd)
  · simpa [subject, hN.call, hN.executing] using hu
  · rw [hN.states, update_self]
    exact Or.inl rfl
  · rw [isWaiting, hN.task] at *
    exact h.queued t hq
  · rw [hN.task]
    exact h.apart t

omit [DecidableEq Q] in
theorem Own.lapse {s rp} (h : K.Own (.release s rp))
    (hs : K'.timers.state = update K.timers.state t .inactive)
    (ht : K'.task s = K.task s ∨ s = t ∧ K'.task s = (K.task s).freed) : K'.Own (.release s rp) := by
  have hq : (K'.task s).queued = false := by
    rcases ht with ht | ⟨-, ht⟩
    · rw [ht]
      exact h.1
    · rw [ht]
      rfl
  refine ⟨hq, ?_⟩
  by_cases hst : s = t
  · rw [hs, hst, update_self]
    cases rp with
    | flash => exact Or.inl rfl
    | remove => exact Or.inl rfl
    | unblock => rfl
  · rw [hs, update_of_ne hst, ht.resolve_right fun h => hst h.1]
    exact h.2

theorem Sound.fire_wait {K1} (h : K.Sound) (hr : Ran K K1 t) (ht : t = K.executing)
    (hc : K.call = some (.wait w ticks p)) : (K1.fire t).Sound ∧ Noted K (K1.fire t) t := by
  obtain ⟨hqd, hA⟩ := h.own _ hc
  rw [← ht] at hqd hA
  rw [hr.active] at hA
  -- the time-out is noted in the synchronization state that the call looks at
  have key (hw : w ≠ .seize → (K.task t).currentState = w.state K.queue)
      (hT : w.Told (K.task t) .active K.queue K.eventSync) (hrt : (K.task t).routine = w.routine)
      (hp : p = .settle ∨ p = .setState ∧ w = .seize ∧ (K.task t).currentState = States.ready) :
      (K1.fire t).Sound ∧ Noted K (K1.fire t) t := by
    have hN : Noted K (K1.fire t) t ∧
        w.Told (K.task t) .inactive (K1.fire t).queue (K1.fire t).eventSync ∧
        w.state (K1.fire t).queue = w.state K.queue := by
      cases w with
      | delay => exact absurd hT id
      | enqueue q =>
        obtain ⟨rfl, hsy, -⟩ := hT
        rw [fire_queueTimeout hr ht hrt hsy]
        split
        · refine ⟨⟨ht, hr.task, hr.states, hr.executing, hr.call⟩, ⟨rfl, ?_, fun _ => rfl⟩, ?_⟩
          · simp [setSyncState]
          · change ((K1.setSyncState _ _).queue _).state = _
            rw [state_setSyncState, hr.queue]
            rfl
        · exact ⟨hr.noted ht, ⟨rfl, by rw [hr.queue]; exact hsy, fun _ => rfl⟩, by rw [hr.queue]⟩
      | seize =>
        rw [fire_eventTimeout hr ht hrt hT.1]
        split
        · exact ⟨⟨ht, hr.task, hr.states, hr.executing, hr.call⟩, ⟨by simp [setEventSync], fun _ => rfl⟩, rfl⟩
        · exact ⟨hr.noted ht, ⟨by rw [hr.eventSync]; exact hT.1, fun _ => rfl⟩, rfl⟩
    obtain ⟨hN, hT', hst⟩ := hN
    refine ⟨h.noted hN fun d hd => ?_, hN⟩
    obtain rfl := Option.some.inj (hc.symm.trans hd)
    have hin : (K1.fire t).timers.state t = .inactive := by rw [hN.states, update_self]
    refine ⟨?_, ?_⟩ <;> rw [hN.executing, ← ht, hN.task]
    · exact hqd
    · rw [hin]
      rcases hp with rfl | ⟨rfl, hz, hrd⟩
      · exact ⟨hT', fun hn => (hw hn).trans hst.symm, Or.inl rfl⟩
      · exact ⟨hrd, Or.inr ⟨hz, hT', Or.inl rfl⟩⟩
  cases p with
  | setState =>
    rcases hA.2 with ⟨-, -, h0, -⟩ | ⟨rfl, hT, h0 | ⟨-, hrt⟩⟩
    · cases h0
    · cases h0
    · exact key (fun hn => absurd rfl hn) hT hrt (Or.inr ⟨rfl, rfl, hA.1⟩)
  | initializing => cases hA.2.2.2
  | insert => cases hA.2.2.2.1
  | inserting => rcases hA.2.2.1 with h0 | h0 <;> cases h0
  | settle =>
    obtain ⟨hT, hw, h0 | ⟨-, hrt, -⟩⟩ := hA
    · cases h0
    · exact key hw hT hrt (Or.inl rfl)
  | releasing rp =>
    cases rp with
    | flash => exact absurd hA id
    | remove => rcases hA.2 with h0 | h0 <;> cases h0
    | unblock => cases hA

theorem Sound.fire {K1} (h : K.Sound) (hr : Ran K K1 t) :
    (K1.fire t).Sound ∧ (K1.fire t).call = K.call ∧ (K1.fire t).executing = K.executing := by
  -- outside of the thread's own call
  have hother (hs : (K.task t).Suits) (ho : ∀ w ticks p, K.call = some (.wait w ticks p) → K.executing ≠ t) :
      (K1.fire t).Sound ∧ (K1.fire t).call = K.call ∧ (K1.fire t).executing = K.executing := by
    have hown {s : T} {rp : ReleasePoint} (hd : K.call = some (.release s rp))
        (hst : (K1.fire t).timers.state = Function.update K.timers.state t .inactive)
        (ht : (K1.fire t).task s = K.task s ∨ s = t ∧ (K1.fire t).task s = (K.task s).freed) :
        (K1.fire t).Own (.release s rp) := (h.own _ hd).lapse hst ht
    rcases fire_cases hr h hs with hF | hN
    · refine ⟨?_, hF.call, hF.executing⟩
      by_cases hsub : K.subject = some t
      · -- another thread lets it go
        refine h.freed_of hF fun d hd => ?_
        cases d with
        | wait w ticks p =>
          refine absurd ?_ (ho w ticks p hd)
          simpa [subject, hd] using hsub
        | release s rp =>
          refine hown hd hF.states ?_
          by_cases hst : s = t
          · subst hst
            exact Or.inr ⟨rfl, hF.task_self⟩
          · exact Or.inl (hF.task_ne hst)
      · exact h.freed hF hsub
    · refine ⟨h.noted hN fun d hd => ?_, hN.call, hN.executing⟩
      cases d with
      | wait w ticks p => exact absurd hN.self.symm (ho w ticks p hd)
      | release s rp => exact hown hd hN.states (Or.inl (by rw [hN.task]))
  by_cases hsub : K.subject = some t
  · rcases subject_cases hsub with ⟨w, ticks, p, hc, hx⟩ | ⟨rp, hc⟩
    · obtain ⟨hS, hN⟩ := h.fire_wait hr hx.symm hc
      exact ⟨hS, hN.call, hN.executing⟩
    · obtain ⟨-, hA⟩ := h.own _ hc
      rw [hr.active] at hA
      cases rp with
      | flash =>
        rcases hA with h0 | ⟨-, hs⟩
        · cases h0
        · exact hother hs fun w ticks p hd => by rw [hc] at hd; cases hd
      | remove => rcases hA with h0 | ⟨h0, -⟩ <;> cases h0
      | unblock => cases hA
  · rcases h.fits t hsub with h0 | ⟨-, hs⟩
    · rw [hr.active] at h0
      cases h0
    · refine hother hs fun w ticks p hd hx => hsub ?_
      simp [subject, hd, hx]

end Kernel

end Rtems.ThreadTimer
