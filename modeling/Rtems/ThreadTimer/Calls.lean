import Rtems.ThreadTimer.Interrupt

/-! # What a step of a call leaves of the invariant -/

namespace Rtems.ThreadTimer

open Function
open Watchdog (TimerState Runs)

variable {Q T : Type*} [DecidableEq Q] [DecidableEq T] {K K' : Kernel Q T} {t u : T} {w : Wait Q}
  {ticks l : Nat}

namespace Kernel

section

variable {x : T} {d : Call Q T}

omit [DecidableEq Q] [DecidableEq T]

theorem Own.queued_eq_false (h : K.Own d) (hd : K.call = some d) (hx : K.subject = some x) :
    (K.task x).queued = false := by
  cases d with
  | wait w ticks p =>
    have : K.executing = x := by simpa [subject, hd] using hx
    rw [← this]
    exact h.1
  | release t p =>
    have : t = x := by simpa [subject, hd] using hx
    rw [← this]
    exact h.1

theorem alone (hx : K.subject = some x) : ∀ u ≠ x, K.subject ≠ some u :=
  fun _ hu hn => hu (Option.some.inj (hx.symm.trans hn)).symm

theorem alone_wait {p} (hc : K.call = some (.wait w ticks p)) :
    ∀ u ≠ K.executing, K.subject ≠ some u := alone (by simp [subject, hc])

theorem Sound.proceed (h : K.Sound) (hx : ∀ u ≠ x, K.subject ≠ some u) (hd : K'.call = some d)
    (hx' : K'.subject = some x) (htask : ∀ u ≠ x, K'.task u = K.task u)
    (hst : ∀ u ≠ x, K'.timers.state u = K.timers.state u) (ha : (K'.task x).Apart) (hown : K'.Own d) :
    K'.Sound := by
  refine h.update x htask hst (fun u hu _ => hx u hu) (fun hn => absurd hx' hn) (fun hq => ?_) ha
    fun d' hd' => ?_
  · rw [hown.queued_eq_false hd hx'] at hq
    cases hq
  · obtain rfl := Option.some.inj (hd.symm.trans hd')
    exact hown

theorem Sound.finish (h : K.Sound) (hx : ∀ u ≠ x, K.subject ≠ some u) (hd : K'.call = none)
    (htask : ∀ u ≠ x, K'.task u = K.task u) (hst : ∀ u ≠ x, K'.timers.state u = K.timers.state u)
    (hfit : (K'.task x).Fits (K'.timers.state x)) (hq : (K'.task x).queued = true → K'.isWaiting x = true)
    (ha : (K'.task x).Apart) : K'.Sound := by
  refine h.update x htask hst (fun u hu _ => hx u hu) (fun _ => hfit) hq ha fun d' hd' => ?_
  rw [hd] at hd'
  cases hd'

end

/-! ### A thread is let go -/

omit [DecidableEq Q] in
theorem deactivateTimer_eq (hR : Runs K.timers [.body l])
    (hs : K.timers.state t = .inactive ∨ K.timers.state t = .active) :
    ∃ timers p, K.deactivateTimer t = (K.setTimers timers, p) ∧ Runs timers [.body l] ∧
      (∀ u ≠ t, timers.state u = K.timers.state u) ∧
      (K.timers.state t = .inactive ∧ p = .unblock ∧ timers.state t = .inactive ∨
        K.timers.state t = .active ∧ p = .remove ∧ timers.state t = .removeIt) := by
  rcases hs with hi | ha
  · refine ⟨K.timers, .unblock, if_neg fun ha => ?_, hR, fun _ _ => rfl, Or.inl ⟨hi, rfl, hi⟩⟩
    cases hi.symm.trans (of_decide_eq_true ha)
  · have hst : (Watchdog.deactivate K.timers t).state = update K.timers.state t .removeIt :=
      Watchdog.Timers.state_setState
    refine ⟨_, .remove, if_pos (decide_eq_true ha), hR.deactivate ha, fun u hu => ?_, Or.inr ⟨ha, rfl, ?_⟩⟩
    · rw [hst, update_of_ne hu]
    · rw [hst, update_self]

section

variable (rest : ReleasePoint → Call Q T) (h : K.Sound) (hR : Runs K.timers [.body l])
  (hx : ∀ u ≠ t, K.subject ≠ some u)

include h hR hx

omit [DecidableEq Q]

theorem Sound.go_remove (hx' : ((K.removeTimer t).setCall (some (rest .unblock))).subject = some t)
    (hown : ∀ K' : Kernel Q T, K'.task = K.task → K'.executing = K.executing →
      K'.timers.state t = .inactive → K'.Own (rest .unblock)) :
    (K.releaseStep t rest .remove).Sound ∧ Runs (K.releaseStep t rest .remove).timers [.body l] := by
  have hs : (Watchdog.remove K.timers t).1.state = Function.update K.timers.state t .inactive :=
    hR.state_remove
  refine ⟨h.proceed hx rfl hx' (fun _ _ => rfl) (fun u hu => ?_) (h.apart t) (hown _ rfl rfl ?_),
    hR.remove (by simp)⟩
  · change (Watchdog.remove K.timers t).1.state u = _
    rw [hs, update_of_ne hu]
  · change (Watchdog.remove K.timers t).1.state t = _
    rw [hs, update_self]

theorem Sound.go_unblock (hi : K.timers.state t = .inactive) (hq : (K.task t).queued = false) :
    (K.releaseStep t rest .unblock).Sound ∧ Runs (K.releaseStep t rest .unblock).timers [.body l] := by
  refine ⟨h.finish hx rfl (fun u hu => task_unblock_ne hu) (fun _ _ => rfl) (Or.inl hi) (fun hq' => ?_)
    apart_unblock, hR⟩
  have : ((K.unblock t).task t).queued = true := hq'
  rw [task_unblock_self, hq] at this
  cases this

end

omit [DecidableEq Q] in
theorem Sound.go_release {p} (h : K.Sound) (hR : Runs K.timers [.body l])
    (hc : K.call = some (.release t p)) :
    (K.releaseStep t (.release t) p).Sound ∧ Runs (K.releaseStep t (.release t) p).timers [.body l] := by
  obtain ⟨hq, hA⟩ := h.own _ hc
  have hx : ∀ u ≠ t, K.subject ≠ some u := alone (by simp [subject, hc])
  cases p with
  | flash =>
    obtain ⟨timers, p, he, hR', hne, hp⟩ := deactivateTimer_eq hR (Or.imp id And.left hA)
    simp only [releaseStep, he]
    refine ⟨h.proceed hx rfl rfl (fun _ _ => rfl) hne (h.apart t) ⟨hq, ?_⟩, hR'⟩
    rcases hp with ⟨-, rfl, hi⟩ | ⟨ha, rfl, hr⟩
    · exact hi
    · exact Or.inr ⟨hr, (hA.resolve_left (by simp [ha])).2.engaged⟩
  | remove =>
    refine Sound.go_remove (.release t) h hR hx rfl fun K' ht _ hi => ⟨?_, hi⟩
    rw [ht]
    exact hq
  | unblock => exact Sound.go_unblock (.release t) h hR hx hA hq

/-! ### A thread waits -/

section Wait

variable (h : K.Sound) (hR : Runs K.timers [.body l])

include h hR

theorem Sound.go_setState (hc : K.call = some (.wait w ticks .setState)) :
    (K.waitStep w ticks .setState).Sound ∧ Runs (K.waitStep w ticks .setState).timers [.body l] := by
  obtain ⟨hq, hr, hA⟩ := h.own _ hc
  have hx := alone_wait hc
  have hne : ∀ u ≠ K.executing, (K.waitStep w ticks .setState).task u = K.task u :=
    fun u hu => update_of_ne hu ..
  have hst : (K.waitStep w ticks .setState).task K.executing =
      { K.task K.executing with currentState := w.state K.queue } := by
    change ((K.setState K.executing _).task K.executing) = _
    rw [setState, task_modify_self, hr, States.set_ready_right]
  refine ⟨h.proceed hx rfl rfl hne (fun _ _ => rfl) ?_ ⟨?_, ?_⟩, hR⟩
  · rw [hst]
    exact (Wait.state_engaged rfl).2
  · change ((K.waitStep w ticks .setState).task K.executing).queued = false
    rw [hst]
    exact hq
  · change w.At ((K.waitStep w ticks .setState).task K.executing) (K.timers.state K.executing) K.queue
      K.eventSync ticks (w.afterState ticks)
    rw [hst]
    rcases hA with ⟨hn, ho, hi, hd⟩ | ⟨rfl, hT, hts⟩
    · cases w with
      | delay b => exact ⟨hd b rfl, trivial, rfl, hi⟩
      | enqueue q =>
        by_cases h0 : ticks ≠ 0
        · rw [Wait.afterState, if_pos h0]
          exact ⟨h0, ho, rfl, hi⟩
        · rw [Wait.afterState, if_neg h0]
          exact ⟨⟨ho.1, ho.2.1, fun _ => hi⟩, fun _ => rfl, Or.inl hi⟩
      | seize => exact absurd rfl hn
    · refine ⟨hT, fun hn => absurd rfl hn, hts.imp id fun hs => ⟨hs.1, hs.2, ?_⟩⟩
      unfold Task.Suits
      rw [show (K.task K.executing).routine = .eventTimeout from hs.2]
      show States.areSet States.waitingForEvent States.waitingForEvent = true
      decide

theorem Sound.go_initializing (hc : K.call = some (.wait w ticks .initializing)) :
    (K.waitStep w ticks .initializing).Sound ∧
      Runs (K.waitStep w ticks .initializing).timers [.body l] := by
  obtain ⟨hq, h0, ho, hp, hi⟩ := h.own _ hc
  have hx := alone_wait hc
  have ht : (K.waitStep w ticks .initializing).timers = K.timers := Watchdog.initializeTimer_eq hi
  have hne : ∀ u ≠ K.executing, (K.waitStep w ticks .initializing).task u = K.task u :=
    fun u hu => update_of_ne hu ..
  have hst : (K.waitStep w ticks .initializing).task K.executing =
      { K.task K.executing with routine := w.routine } := update_self ..
  refine ⟨h.proceed hx rfl rfl hne (fun u _ => by rw [ht]) ?_ ⟨?_, ?_⟩, by rw [ht]; exact hR⟩
  · rw [hst]
    exact h.apart K.executing
  · change ((K.waitStep w ticks .initializing).task K.executing).queued = false
    rw [hst]
    exact hq
  · change w.At ((K.waitStep w ticks .initializing).task K.executing)
      ((K.waitStep w ticks .initializing).timers.state K.executing) K.queue K.eventSync ticks .insert
    rw [hst, ht]
    cases w <;> exact ⟨h0, ho, hp, hi, rfl⟩

theorem Sound.go_insert (hu : ticks < 2 ^ 32) (hc : K.call = some (.wait w ticks .insert)) :
    (K.waitStep w ticks .insert).Sound ∧ (K.waitStep w ticks .insert).Timed l := by
  obtain ⟨hq, h0, ho, hp, hi, hrt⟩ := h.own _ hc
  have hx := alone_wait hc
  have hst : (K.timers.setInitial K.executing ticks).state = K.timers.state :=
    Watchdog.Timers.state_setInitial
  obtain ⟨c, hh, ht, hcp, hcr, hR'⟩ := hR.call () hi (by simp) (by omega) hu
  refine ⟨h.proceed hx rfl rfl (fun _ _ => rfl) (fun u _ => ?_) (h.apart _) ⟨hq, ho, hp, ?_, hrt⟩,
    c, hh, ht, hcp, hcr, hR'⟩
  · exact congrFun hst u
  · exact Or.inl ((congrFun hst _).trans hi)

end Wait

theorem Sound.go_inserting {ip} (h : K.Sound) (hT : K.Timed l)
    (hc : K.call = some (.wait w ticks (.inserting ip))) :
    (K.waitStep w ticks (.inserting ip)).Sound ∧ (K.waitStep w ticks (.inserting ip)).Timed l := by
  obtain ⟨hq, ho, hp, -, hrt⟩ := h.own _ hc
  have hx := alone_wait hc
  rw [Timed, hc] at hT
  obtain ⟨c, -, ht, rfl, hr, hR⟩ := hT
  obtain ⟨-, hne, hA⟩ := hR.advance hr
  rw [ht] at hne hA
  rcases hA with ⟨hd, hact, hR'⟩ | ⟨hd, c', hh', ht', hp', hr', hR'⟩
  · have he : K.waitStep w ticks (.inserting c.point) =
        (K.setTimers (Watchdog.insertStep K.timers () K.executing c.point).1).setCall
          (w.afterInsert.map (.wait w ticks)) := by
      simp only [waitStep]
      rw [if_pos hd]
    rw [he]
    cases w with
    | delay b =>
      refine ⟨h.finish hx rfl (fun _ _ => rfl) hne (Or.inr ⟨hact, hp.suits (by simp) hrt⟩) (fun hq' => ?_)
        (h.apart _), hR'⟩
      rw [show (K.task K.executing).queued = true from hq'] at hq
      cases hq
    | enqueue q =>
      exact ⟨h.proceed hx rfl rfl (fun _ _ => rfl) hne (h.apart _) ⟨hq, ⟨ho.1, ho.2.1, fun h => absurd h ho.2.2⟩,
        fun _ => hp, Or.inr ⟨hact, hrt, hp.suits (by simp) hrt⟩⟩, hR'⟩
    | seize =>
      exact ⟨h.proceed hx rfl rfl (fun _ _ => rfl) hne (h.apart _) ⟨hq, hp, Or.inr ⟨rfl,
        ⟨ho.1, fun h => absurd h ho.2⟩, Or.inr ⟨hact, hrt⟩⟩⟩, hR'⟩
  · have he : K.waitStep w ticks (.inserting c.point) =
        (K.setTimers (Watchdog.insertStep K.timers () K.executing c.point).1).setCall
          (some (.wait w ticks (.inserting (Watchdog.insertStep K.timers () K.executing c.point).2))) := by
      simp only [waitStep]
      rw [if_neg hd]
    rw [he]
    refine ⟨h.proceed hx rfl rfl (fun _ _ => rfl) hne (h.apart _) ⟨hq, ho, hp, ?_, hrt⟩,
      c', rfl, ht', hp', hr', hR'⟩
    have := hR'.state_inserting (List.mem_cons_self ..)
    rwa [ht'] at this

omit [DecidableEq Q] in
theorem Sound.go_satisfied {K1 : Kernel Q T} (h : K.Sound) (hx : ∀ u ≠ K.executing, K.subject ≠ some u)
    (hR : Runs K1.timers [.body l]) (ht : K1.task = K.task) (hm : K1.timers = K.timers)
    (he : K1.executing = K.executing) (hq : (K.task K.executing).queued = false)
    (hs : w ≠ .seize → (K.task K.executing).currentState = w.state K1.queue)
    (hts : K.timers.state K.executing = .inactive ∨ K.timers.state K.executing = .active) :
    ((K1.deactivateTimer K.executing).1.setCall
        (some (.wait w ticks (.releasing (K1.deactivateTimer K.executing).2)))).Sound ∧
      Runs (K1.deactivateTimer K.executing).1.timers [.body l] := by
  obtain ⟨timers, p, hd, hR', hne, hp⟩ := deactivateTimer_eq (t := K.executing) hR (hm ▸ hts)
  rw [hd]
  refine ⟨h.proceed hx rfl (congrArg some he) (fun u _ => congrFun ht u) (fun u hu => hm ▸ hne u hu) ?_ ⟨?_, ?_⟩,
    hR'⟩
  · change (K1.task K.executing).Apart
    rw [ht]
    exact h.apart _
  · change (K1.task K1.executing).queued = false
    rw [ht, he]
    exact hq
  · change w.At (K1.task K1.executing) (timers.state K1.executing) K1.queue K1.eventSync ticks (.releasing p)
    rw [ht, he]
    rcases hp with ⟨-, rfl, hi⟩ | ⟨-, rfl, hr⟩
    · exact hi
    · exact ⟨hs, Or.inr hr⟩

section Settle

variable (h : K.Sound) (hR : Runs K.timers [.body l])

include h hR

theorem Sound.go_settleQueue {q : Q} (hc : K.call = some (.wait (.enqueue q) ticks .settle)) :
    (K.settleQueue q ticks).Sound ∧ Runs (K.settleQueue q ticks).timers [.body l] := by
  obtain ⟨hq, ⟨-, hn, hto⟩, hs, hts⟩ := h.own _ hc
  have hx := alone_wait hc
  have hs : (K.task K.executing).currentState = (K.queue q).state := hs (by simp)
  unfold settleQueue
  dsimp only
  split
  · -- the thread stays on the queue
    have hst : (((K.setSyncState q .synchronized).setQueued K.executing true).task K.executing) =
        { K.task K.executing with queued := true } := task_modify_self
    refine ⟨h.finish hx rfl (fun u hu => ?_) (fun _ _ => rfl) ?_ (fun _ => ?_) ?_, hR⟩
    · exact update_of_ne hu ..
    · change (((K.setSyncState q .synchronized).setQueued K.executing true).task K.executing).Fits _
      rw [hst]
      exact hts.imp id fun h => ⟨h.1, h.2.2⟩
    · change States.isWaitingOnThreadQueue
        (((K.setSyncState q .synchronized).setQueued K.executing true).task K.executing).currentState = true
      rw [hst, hs]
      exact (K.queue q).waits
    · change (((K.setSyncState q .synchronized).setQueued K.executing true).task K.executing).Apart
      rw [hst]
      exact h.apart K.executing
  · rename_i he
    exact absurd he hn
  · rename_i he
    exact ⟨h.proceed hx rfl rfl (fun _ _ => rfl) (fun _ _ => rfl) (h.apart _) ⟨hq, hto he⟩, hR⟩
  · refine h.go_satisfied hx hR rfl rfl rfl hq (fun _ => ?_) (hts.imp id And.left)
    rw [hs]
    exact (state_setSyncState q q .synchronized).symm

omit [DecidableEq Q] in
theorem Sound.go_settleEvent (hc : K.call = some (.wait .seize ticks .settle)) :
    (K.settleEvent ticks).Sound ∧ Runs (K.settleEvent ticks).timers [.body l] := by
  obtain ⟨hq, ⟨hn, hto⟩, -, hts⟩ := h.own _ hc
  have hx := alone_wait hc
  unfold settleEvent
  dsimp only
  split
  · refine ⟨h.finish hx rfl (fun _ _ => rfl) (fun _ _ => rfl) (hts.imp id fun h => ⟨h.1, h.2.2⟩)
      (fun hq' => ?_) (h.apart _), hR⟩
    rw [show (K.task K.executing).queued = true from hq'] at hq
    cases hq
  · rename_i he
    exact absurd he hn
  · rename_i he
    exact ⟨h.proceed hx rfl rfl (fun _ _ => rfl) (fun _ _ => rfl) (h.apart _) ⟨hq, hto he⟩, hR⟩
  · exact h.go_satisfied hx hR rfl rfl rfl hq (fun hw => absurd rfl hw) (hts.imp id And.left)

theorem Sound.go_releasing {p} (hc : K.call = some (.wait w ticks (.releasing p))) :
    (K.waitStep w ticks (.releasing p)).Sound ∧ Runs (K.waitStep w ticks (.releasing p)).timers [.body l] := by
  obtain ⟨hq, hA⟩ := h.own _ hc
  have hx := alone_wait hc
  cases p with
  | flash => exact absurd hA id
  | remove =>
    refine Sound.go_remove (fun p => .wait w ticks (.releasing p)) h hR hx rfl
      fun K' ht he hi => ⟨?_, ?_⟩
    · rw [ht, he]
      exact hq
    · rw [← he] at hi
      exact hi
  | unblock => exact Sound.go_unblock (fun p => .wait w ticks (.releasing p)) h hR hx hA hq

end Settle

def Short (K : Kernel Q T) : Prop := ∀ w ticks p, K.call = some (.wait w ticks p) → ticks < 2 ^ 32

theorem Sound.go (h : K.Sound) (hT : K.Timed l) (hb : K.Short) (he : K.go = some K') :
    K'.Sound ∧ K'.Timed l := by
  obtain ⟨d, hc, rfl⟩ := Option.map_eq_some_iff.mp he
  -- the steps other than those of an insertion
  have hrun {K1 : Kernel Q T} (hn : ∀ w ticks ip, K.call ≠ some (.wait w ticks (.inserting ip)))
      (hg : Runs K.timers [.body l] → K1.Sound ∧ Runs K1.timers [.body l])
      (hn' : ∀ w ticks ip, K1.call ≠ some (.wait w ticks (.inserting ip))) : K1.Sound ∧ K1.Timed l :=
    (hg ((timed_iff hn).mp hT)).imp_right (timed_iff hn').mpr
  cases d with
  | release t p =>
    refine hrun (by simp [hc]) (fun hR => h.go_release hR hc) ?_
    cases p <;> simp [releaseStep, setCall]
  | wait w ticks p =>
    cases p with
    | inserting ip => exact h.go_inserting hT hc
    | insert => exact h.go_insert ((timed_iff (by simp [hc])).mp hT) (hb w ticks _ hc) hc
    | setState =>
      refine hrun (by simp [hc]) (fun hR => h.go_setState hR hc) ?_
      cases w <;> simp [waitStep, setCall, Wait.afterState]
      split <;> simp
    | initializing =>
      exact hrun (by simp [hc]) (fun hR => h.go_initializing hR hc) (by simp [waitStep, setCall])
    | settle =>
      cases w with
      | delay b => exact absurd (h.own _ hc).2.1 id
      | enqueue q =>
        refine hrun (by simp [hc]) (fun hR => h.go_settleQueue hR hc) ?_
        unfold waitStep settleQueue
        dsimp only
        split <;> simp [setCall]
      | seize =>
        refine hrun (by simp [hc]) (fun hR => h.go_settleEvent hR hc) ?_
        unfold waitStep settleEvent
        dsimp only
        split <;> simp [setCall]
    | releasing p =>
      refine hrun (by simp [hc]) (fun hR => h.go_releasing hR hc) ?_
      cases p <;> simp [waitStep, releaseStep, setCall]

/-! ### A call begins -/

omit [DecidableEq Q] [DecidableEq T] in
theorem Sound.ready (h : K.Sound) (ht : K.subject ≠ some t) (hr : K.isReady t = true) :
    (K.task t).currentState = States.ready ∧ K.timers.state t = .inactive ∧ (K.task t).queued = false := by
  have hr : (K.task t).currentState = States.ready := of_decide_eq_true hr
  refine ⟨hr, (h.fits t ht).resolve_right fun hs => ?_, h.queued_eq_false ?_⟩
  · have := hs.2.engaged
    rw [Task.Engaged, hr] at this
    exact absurd this (by decide)
  · unfold isWaiting
    rw [hr]
    decide

omit [DecidableEq Q] [DecidableEq T] in
theorem alone_of_none (hn : K.call = none) : ∀ u ≠ t, K.subject ≠ some u := fun _ _ => by simp [subject, hn]

section Begin

variable {p : ReleasePoint} (h : K.Sound) (hR : Runs K.timers [.body l]) (hn : K.call = none)

include h hR hn

theorem Sound.beginWait (hr : K.isReady K.executing = true) (he : K.beginWait w ticks = some K') :
    K'.Sound ∧ K'.Timed l := by
  obtain ⟨hr, hi, hq⟩ := h.ready (by simp [subject, hn]) hr
  cases w with
  | delay b =>
    simp only [Kernel.beginWait] at he
    split at he
    · rename_i h0
      cases he
      exact ⟨h.proceed (alone_of_none hn) rfl rfl (fun _ _ => rfl) (fun _ _ => rfl) (h.apart _) ⟨hq, hr,
        Or.inl ⟨by simp, trivial, hi, fun _ _ => h0⟩⟩, hR⟩
    · cases he
  | enqueue q =>
    cases he
    have hst : (K.modify K.executing fun c => { c with queue := q }).task K.executing =
        { K.task K.executing with queue := q } := task_modify_self
    have hs : ((K.modify K.executing fun c => { c with queue := q }).setSyncState q
        .nothingHappened).queue q = { K.queue q with syncState := .nothingHappened } :=
      update_self ..
    refine ⟨h.proceed (alone_of_none hn) rfl rfl (fun u hu => update_of_ne hu ..) (fun _ _ => rfl) ?_ ⟨?_, ?_,
      Or.inl ⟨by simp, ⟨?_, ?_, ?_⟩, hi, by simp⟩⟩, hR⟩
    · exact hst ▸ h.apart K.executing
    · exact hst ▸ hq
    · exact hst ▸ hr
    · exact congrArg Task.queue hst
    · exact fun h' => by cases (congrArg Queue.syncState hs).symm.trans h'
    · exact fun h' => by cases (congrArg Queue.syncState hs).symm.trans h'
  | seize =>
    cases he
    by_cases h0 : ticks ≠ 0
    · simp only [if_pos h0]
      exact ⟨h.proceed (alone_of_none hn) rfl rfl (fun _ _ => rfl) (fun _ _ => rfl) (h.apart _)
        ⟨hq, h0, ⟨by simp [setEventSync, setCall], by simp [setEventSync, setCall]⟩, hr, hi⟩, hR⟩
    · simp only [if_neg h0]
      exact ⟨h.proceed (alone_of_none hn) rfl rfl (fun _ _ => rfl) (fun _ _ => rfl) (h.apart _)
        ⟨hq, hr, Or.inr ⟨rfl, ⟨by simp [setEventSync, setCall], by simp [setEventSync, setCall]⟩,
          Or.inl hi⟩⟩, hR⟩

omit [DecidableEq Q] in
theorem Sound.beginDequeue
    (hd : (K.setQueued t false).deactivateTimer t = (K', p)) :
    (K'.setCall (some (.release t p))).Sound ∧ Runs K'.timers [.body l] := by
  have hst : ((K.setQueued t false).task t) = { K.task t with queued := false } := task_modify_self
  have hne : ∀ u ≠ t, (K.setQueued t false).task u = K.task u := fun u hu => task_modify_ne hu
  have hap : ((K.setQueued t false).task t).Apart := by
    rw [hst]
    exact h.apart t
  have hf := h.fits t (by simp [subject, hn])
  obtain ⟨timers, p', he, hR', hts, hp⟩ := deactivateTimer_eq (K := K.setQueued t false) hR (hf.imp id And.left)
  cases he.symm.trans hd
  refine ⟨h.proceed (alone_of_none hn) rfl rfl hne hts hap ⟨congrArg Task.queued hst, ?_⟩, hR'⟩
  rcases hp with ⟨-, rfl, hi⟩ | ⟨ha, rfl, hr⟩
  · exact hi
  · refine Or.inr ⟨hr, ?_⟩
    change ((K.setQueued t false).task t).Engaged
    rw [hst]
    exact (hf.resolve_left fun hi => by cases hi.symm.trans ha).2.engaged

omit hR [DecidableEq Q] [DecidableEq T] in
theorem Sound.beginSurrender
    (hs : States.areSet (K.task t).currentState States.waitingForEvent = true) :
    (K.setCall (some (.release t .flash))).Sound := by
  have hw : K.isWaiting t = false := h.not_waiting (by rw [States.areSet_or, hs, Bool.or_true])
  exact h.proceed (alone_of_none hn) rfl rfl (fun _ _ => rfl) (fun _ _ => rfl) (h.apart t)
    ⟨h.queued_eq_false hw, h.fits t (by simp [subject, hn])⟩

end Begin

end Kernel

end Rtems.ThreadTimer
