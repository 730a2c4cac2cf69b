import Rtems.ThreadTimer.Handlers

/-! # What an interrupt leaves of the invariant -/

namespace Rtems.ThreadTimer

open Watchdog (TimerState Runs)

variable {Q T : Type*} [DecidableEq T] {K K' : Kernel Q T} {t u : T} {w : Wait Q} {ticks l : Nat}
  {fs : List (Watchdog.Frame Unit T)}

/-! ## Handlers -/

theorem Wait.state_apart {queue} (hw : w ≠ .seize) :
    States.areSet (w.state queue) States.waitingForEvent = false := by
  cases w with
  | delay b =>
    simp only [Wait.state]
    cases b <;> decide
  | enqueue q =>
    have := (queue q).apart
    rw [States.areSet_or, Bool.or_eq_false_iff] at this
    exact this.2
  | seize => exact absurd rfl hw

theorem Task.Suits.engaged {c : Task Q} (h : c.Suits) : c.Engaged := by
  unfold Task.Suits at h
  unfold Task.Engaged
  rw [States.areSet_or, States.areSet_or]
  split at h
  · rw [h]
    rfl
  · have h : States.areSet c.currentState States.waitingOnThreadQueue = true := h
    rw [h, Bool.or_true]
  · rw [h, Bool.or_true]
    rfl

theorem Task.engaged_of_waiting {c : Task Q} (h : States.isWaitingOnThreadQueue c.currentState = true) :
    c.Engaged := by
  have h : States.areSet c.currentState States.waitingOnThreadQueue = true := h
  unfold Task.Engaged
  rw [States.areSet_or, h, Bool.or_true]

theorem Task.Fits.engaged {c : Task Q} {ts} (h : c.Fits ts) (ht : ts = .active ∨ ts = .removeIt) :
    c.Engaged := by
  rcases h with rfl | ⟨-, hs⟩
  · rcases ht with ht | ht <;> cases ht
  · exact hs.engaged

theorem Wait.state_engaged {queue} {c : Task Q} (h : c.currentState = w.state queue) :
    c.Engaged ∧ c.Apart := by
  unfold Task.Engaged Task.Apart
  rw [h]
  cases w with
  | delay b =>
    simp only [Wait.state]
    cases b <;> exact ⟨by decide, by decide⟩
  | enqueue q =>
    refine ⟨?_, fun _ => (queue q).apart⟩
    have : States.areSet (queue q).state States.waitingOnThreadQueue = true := (queue q).waits
    rw [Wait.state, States.areSet_or, this, Bool.or_true]
  | seize =>
    simp only [Wait.state]
    exact ⟨by decide, by decide⟩

theorem Wait.Phase.suits {c queue}
    (hw : w ≠ .seize) (hp : w.Phase c queue) (hr : c.routine = w.routine) : c.Suits := by
  unfold Task.Suits
  rw [hr]
  cases w with
  | delay b =>
    have hp : c.currentState = _ := hp
    simp only [Wait.routine, hp, Wait.state]
    cases b <;> decide
  | enqueue q =>
    have hp : c.currentState = (queue q).state := hp
    simp only [Wait.routine, hp]
    exact (queue q).waits
  | seize => exact absurd rfl hw

namespace Kernel

structure Handled (K K' : Kernel Q T) (l : Nat) (fs : List (Watchdog.Frame Unit T)) : Prop where
  sound : K'.Sound
  timed : Runs K'.timers (.body l :: fs)
  call : K'.call = K.call
  executing : K'.executing = K.executing

section

variable (h : K.Sound) (hR : Runs K.timers (.body l :: fs))

include h hR

theorem Sound.handled_dequeue (hq : (K.task t).queued = true) :
    Handled K ((K.setQueued t false).letGo t) l fs := by
  have ht : K.subject ≠ some t := by
    intro hs
    rcases subject_cases hs with ⟨w, ticks, p, hc, rfl⟩ | ⟨p, hc⟩
    · cases hq.symm.trans (h.own _ hc).1
    · cases hq.symm.trans (h.own _ hc).1
  obtain ⟨hF, hR'⟩ := freed_dequeue hR ((h.fits t ht).imp id And.left)
  exact ⟨h.freed hF ht, hR', hF.call, hF.executing⟩

theorem Sound.handled_kill (hk : K.subject ≠ some t ∨
    States.areSet (K.task t).currentState States.interruptibleBySignal = false) (signo : Nat) :
    Handled K (K.unblockThread t signo) l fs := by
  rcases hk with ht | hi
  · rcases unblockThread_cases h hR ht signo with he | ⟨hF, hR'⟩
    · rw [he]
      exact ⟨h, hR, rfl, rfl⟩
    · exact ⟨h.freed hF ht, hR', hF.call, hF.executing⟩
  · rw [unblockThread_eq hi]
    exact ⟨h, hR, rfl, rfl⟩

theorem Sound.handled_surrender_self {p} (hc : K.call = some (.wait w ticks p))
    (he : States.areSet (K.task K.executing).currentState States.waitingForEvent = true) :
    Handled K (K.letGo K.executing) l fs := by
  obtain ⟨hq, hA⟩ := h.own _ hc
  have hsub : K.subject = some K.executing := by simp [subject, hc]
  have hready (hr : (K.task K.executing).currentState = States.ready) : False := by
    rw [hr] at he
    exact absurd he (by decide)
  have hw (hs : w ≠ .seize → (K.task K.executing).currentState = w.state K.queue) : w = .seize := by
    by_contra hn
    rw [hs hn, Wait.state_apart hn] at he
    cases he
  have hphase (hp : w.Phase (K.task K.executing) K.queue) : False := by
    cases w with
    | seize => exact hready hp
    | delay b =>
      have := hw fun _ => hp
      cases this
    | enqueue q =>
      have := hw fun _ => hp
      cases this
  -- the thread is let go, and the call is where it was
  have done (hs : K.timers.state K.executing = .inactive ∨ K.timers.state K.executing = .active)
      (hown : w.At (K.task K.executing).freed .inactive K.queue K.eventSync ticks p) :
      Handled K (K.letGo K.executing) l fs := by
    obtain ⟨hF, hR'⟩ := freed_letGo hR hq hs
    refine ⟨h.update K.executing (fun u hu => hF.task_ne hu) (fun u hu => hF.state_ne hu)
      (fun u _ hu => by rwa [hF.subject] at hu) (fun _ => Or.inl hF.state_self) (fun hq' => ?_) ?_
      fun d hd => ?_, hR', hF.call, hF.executing⟩
    · rw [hF.task_self] at hq'
      cases hq'
    · rw [hF.task_self]
      exact Task.freed_apart _
    · rw [hF.call, hc] at hd
      cases hd
      rw [Own, hF.executing, hF.task_self, hF.state_self, hF.queue, hF.eventSync]
      exact ⟨rfl, hown⟩
  cases p with
  | setState => exact absurd hA.1 hready
  | initializing => exact absurd hA.2.2.1 hphase
  | insert => exact absurd hA.2.2.1 hphase
  | inserting => exact absurd hA.2.1 hphase
  | settle =>
    obtain ⟨hT, hs, hts⟩ := hA
    obtain rfl := hw hs
    exact done (hts.imp id And.left) ⟨⟨hT.1, fun _ => rfl⟩, fun hn => absurd rfl hn, Or.inl rfl⟩
  | releasing rp =>
    cases rp with
    | flash => exact absurd hA id
    | remove =>
      obtain ⟨hs, hts⟩ := hA
      obtain rfl := hw hs
      rcases hts with hts | hts
      · exact done (Or.inl hts) ⟨fun hn => absurd rfl hn, Or.inl rfl⟩
      · -- the timer is still to be removed
        rw [letGo_idle (by simp [hts])]
        refine ⟨h.update K.executing (fun u hu => ?_) (fun _ _ => rfl) (fun _ _ hu => hu)
          (fun hn => absurd hsub hn) (fun hq' => ?_) ?_ fun d hd => ?_, hR, rfl, rfl⟩
        · exact task_unblock_ne hu
        · rw [task_unblock_self, hq] at hq'
          cases hq'
        · exact apart_unblock
        · obtain rfl := Option.some.inj (hc.symm.trans hd)
          refine ⟨?_, fun hn => absurd rfl hn, Or.inr hts⟩
          exact (congrArg Task.queued task_unblock_self).trans hq
    | unblock => exact done (Or.inl hA) rfl

theorem Sound.handled_surrender (hk : ∀ p, K.call ≠ some (.release t p)) : Handled K (K.surrender t) l fs := by
  unfold surrender
  split
  · rename_i he
    by_cases hsub : K.subject = some t
    · rcases subject_cases hsub with ⟨w, ticks, p, hc, rfl⟩ | ⟨p, hc⟩
      · exact h.handled_surrender_self hR hc he
      · exact absurd hc (hk p)
    · have hq : (K.task t).queued = false :=
        h.queued_eq_false (h.not_waiting (by rw [States.areSet_or, he, Bool.or_true]))
      obtain ⟨hF, hR'⟩ := freed_letGo hR hq ((h.fits t hsub).imp id And.left)
      exact ⟨h.freed hF hsub, hR', hF.call, hF.executing⟩
  · split
    · exact ⟨h.setEventSync_satisfied, hR, rfl, rfl⟩
    · exact ⟨h, hR, rfl, rfl⟩

end

theorem Sound.lapse {timers} (h : K.Sound) (hr : K.timers.state t = .removeIt)
    (hs : timers.state = Function.update K.timers.state t .inactive) : (K.setTimers timers).Sound := by
  have hne {x : T} (hx : x ≠ t) : timers.state x = K.timers.state x := by rw [hs, Function.update_of_ne hx]
  have hself : timers.state t = .inactive := by rw [hs, Function.update_self]
  refine h.update t (fun _ _ => rfl) (fun u hu => hne hu) (fun _ _ hu => hu) (fun _ => Or.inl hself)
    (h.queued t) (h.apart t) fun d hd => ?_
  have hO := h.own d hd
  cases d with
  | release s p => exact hO.lapse hs (Or.inl rfl)
  | wait w ticks p =>
    refine ⟨hO.1, ?_⟩
    change w.At (K.task K.executing) (timers.state K.executing) K.queue K.eventSync ticks p
    by_cases hx : K.executing = t
    · obtain ⟨-, hA⟩ := hO
      rw [hx, hr] at hA
      rw [hx, hself]
      cases p with
      | setState =>
        rcases hA.2 with ⟨-, -, h0, -⟩ | ⟨-, -, h0 | ⟨h0, -⟩⟩ <;> cases h0
      | initializing => cases hA.2.2.2
      | insert => cases hA.2.2.2.1
      | inserting => rcases hA.2.2.1 with h0 | h0 <;> cases h0
      | settle => rcases hA.2.2 with h0 | ⟨h0, -⟩ <;> cases h0
      | releasing rp =>
        cases rp with
        | flash => exact hA
        | remove => exact ⟨hA.1, Or.inl rfl⟩
        | unblock => rfl
    · rw [hne hx]
      exact hO.2

variable [DecidableEq Q]

theorem timers_fire (h : K.timers.state t = .inactive) : (K.fire t).timers = K.timers := by
  have hl : (K.setQueued t false).letGo t = (K.setQueued t false).unblock t :=
    letGo_idle (by
      change K.timers.state t ≠ _
      rw [h]
      simp)
  unfold fire
  split
  · rfl
  · unfold timeout extract
    dsimp only
    split
    · split <;> rfl
    · split
      · rw [hl]
        rfl
      · rfl
  · unfold eventTimeout
    split
    · split <;> rfl
    · rfl

theorem Sound.handled_tick {fuel} (h : K.Sound) (hR : Runs K.timers (.body l :: fs))
    (hf : ∀ f ∈ fs, f.ticks ≠ some ()) (he : K.tick fuel = some K') : Handled K K' l fs := by
  have hT : Watchdog.Ticks host (fun t (K : Kernel Q T) => K.fire t)
      fun K' => K'.Sound ∧ K'.call = K.call ∧ K'.executing = K.executing := by
    refine ⟨fun _ _ => rfl, ?_, fun h => timers_fire h, ?_⟩
    · rintro K timers ⟨hS, hc, hx⟩ hs -
      exact ⟨hS.setTimers hs, hc, hx⟩
    · rintro K t ⟨hS, hc, hx⟩ hs hst -
      unfold Watchdog.tickleRound
      split
      · rename_i ha
        have hr : Ran K (K.setTimers (Watchdog.remove K.timers t).1) t :=
          ⟨ha, rfl, hst, rfl, rfl, rfl, rfl⟩
        obtain ⟨hS', hc', hx'⟩ := hS.fire hr
        exact ⟨hS', hc'.trans hc, hx'.trans hx⟩
      · rename_i ha
        exact ⟨hS.lapse (hs.resolve_left ha) hst, hc, hx⟩
  obtain ⟨⟨hS, hc, hx⟩, hR'⟩ := hT.tickle ⟨h, rfl, rfl⟩ hR hf he
  exact ⟨hS, hR', hc, hx⟩

/-! ## Interrupts -/

/-- No signal to a thread about to block or let go, nor an event to the latter. -/
def Careful (K : Kernel Q T) : Move Q T → Prop
  | .interrupt (.kill t _) => K.subject ≠ some t ∨
      States.areSet (K.task t).currentState States.interruptibleBySignal = false
  | .interrupt (.surrender t) => ∀ p, K.call ≠ some (.release t p)
  | .wait _ ticks => ticks < 2 ^ 32
  | _ => True

theorem Sound.handled {hd} (h : K.Sound) (hR : Runs K.timers (.body l :: fs))
    (hf : ∀ f ∈ fs, f.ticks ≠ some ()) (hc : K.Careful (.interrupt hd)) (he : K.handle hd = some K') :
    Handled K K' l fs := by
  cases hd with
  | tick fuel => exact h.handled_tick hR hf he
  | kill t signo =>
    cases he
    exact h.handled_kill hR hc signo
  | dequeue t =>
    simp only [handle] at he
    split at he
    · rename_i hq
      cases he
      exact h.handled_dequeue hR hq
    · cases he
  | satisfy q =>
    cases he
    refine ⟨h.satisfy q, ?_, ?_, ?_⟩ <;> unfold Kernel.satisfy <;> split <;> first | exact hR | rfl
  | surrender t =>
    cases he
    exact h.handled_surrender hR hc

def Timed (K : Kernel Q T) (l : Nat) : Prop :=
  match K.call with
  | some (.wait _ _ (.inserting ip)) => ∃ c : Watchdog.Call Unit T, c.header = () ∧
      c.timer = K.executing ∧ c.point = ip ∧ c.removed = false ∧ Runs K.timers [.insert c, .body l]
  | _ => Runs K.timers [.body l]

omit [DecidableEq Q] in
theorem timed_iff (h : ∀ w ticks ip, K.call ≠ some (.wait w ticks (.inserting ip))) :
    K.Timed l ↔ Runs K.timers [.body l] := by
  unfold Timed
  split
  · rename_i hc
    exact absurd hc (h _ _ _)
  · exact Iff.rfl

omit [DecidableEq Q] in
theorem Timed.frames (h : K.Timed l) : ∃ f fs, Runs K.timers (f :: fs) ∧
    (∀ g ∈ f :: fs, g.ticks ≠ some ()) ∧ ∀ {K' : Kernel Q T}, K'.call = K.call →
      K'.executing = K.executing → Runs K'.timers (f :: fs) → K'.Timed l := by
  unfold Timed at h
  split at h
  · rename_i hc
    obtain ⟨c, hh, ht, hp, hr, hR⟩ := h
    refine ⟨_, _, hR, by simp [Watchdog.Frame.ticks], fun hc' hx hR' => ?_⟩
    unfold Timed
    rw [hc', hc]
    exact ⟨c, hh, ht.trans hx.symm, hp, hr, hR'⟩
  · rename_i hn
    refine ⟨_, _, h, by simp [Watchdog.Frame.ticks], fun hc' _ hR' => ?_⟩
    exact (timed_iff fun w ticks ip hc => hn w ticks ip (hc' ▸ hc)).mpr hR'

theorem Sound.interrupt {hd} (h : K.Sound) (hT : K.Timed l)
    (hc : K.Careful (.interrupt hd)) (he : K.interrupt hd = some K') :
    K'.Sound ∧ K'.Timed l ∧ K'.call = K.call := by
  obtain ⟨f, fs, hR, hf, hback⟩ := hT.frames
  obtain ⟨K1, h1, rfl⟩ := Option.map_eq_some_iff.mp he
  have hR1 : Runs (K.setNest (K.timers.isrNestLevel + 1)).timers (.body (f.level + 1) :: f :: fs) := by
    have := hR.interrupt
    rw [← hR.nest] at this ⊢
    exact this
  have hH : Handled (K.setNest (K.timers.isrNestLevel + 1)) K1 (f.level + 1) (f :: fs) := by
    refine Sound.handled (h.setTimers rfl) hR1 hf ?_ h1
    cases hd <;> exact hc
  refine ⟨hH.sound.setTimers rfl, hback hH.call hH.executing ?_, hH.call⟩
  have := hH.timed.ret
  rw [← hR.nest] at this
  exact this

end Kernel

end Rtems.ThreadTimer
