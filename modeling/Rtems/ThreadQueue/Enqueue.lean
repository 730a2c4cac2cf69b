import Rtems.ThreadQueue.Release

/-! # What holds during `_Thread_queue_Enqueue` -/

namespace Rtems.ThreadQueue


open Function Intrusive Thread
open Watchdog (Runs)

variable {Q T : Type*}

/-! ## The invariant -/

def transit (e : Enqueue Q T) : EnqueuePoint Q T → Set T
  | .releasing .flash | .releasing .done | .done => ∅
  | _ => {e.thread}

def critical (e : Enqueue Q T) : EnqueuePoint Q T → Set Q
  | .releasing _ | .done => ∅
  | _ => {e.queue}

section

variable (e : Enqueue Q T) (code : Nat) (K : Kernel Q T) (n : Nat)

def Open : Prop :=
  (K.queue e.queue).syncState ≠ .synchronized ∧ (K.wait e.thread).returnCode = code ∧
    n = if (K.queue e.queue).syncState = .satisfied then 1 else 0

def Settled : Prop :=
  n = 1 ∧ (K.wait e.thread).returnCode = code ∨
    n = 0 ∧ (K.wait e.thread).returnCode = (K.queue e.queue).timeoutStatus

def Ledger : EnqueuePoint Q T → Prop
  | .releasing _ => Settled e code K n
  | .done => True
  | _ => Open e code K n

def Waits : Prop := (K.sched.control e.thread).currentState = (K.queue e.queue).state

def Ready : Prop := (K.sched.control e.thread).currentState = States.ready

def Armed : Prop :=
  if e.timeout = 0 then K.timers.state e.thread = .inactive ∧ (K.queue e.queue).syncState ≠ .timeout
  else K.timers.state e.thread = .active ∧ (K.queue e.queue).syncState ≠ .timeout ∨
    K.timers.state e.thread = .inactive ∧ (K.queue e.queue).syncState ≠ .nothingHappened

def Unarmed : Prop := K.timers.state e.thread = .inactive ∧ (K.queue e.queue).syncState ≠ .timeout

def Looks (oc : Members Q T) (p : Priority) : Prop :=
  Waits e K ∧ Armed e K ∧ K.discipline e.queue = .priority ∧ oc (.block2n e.thread) = some [] ∧
    K.priority e.thread = p

def AtPoint (oc : Members Q T) (lead : Q → Fin 4 → List T) :
    EnqueuePoint Q T → Prop
  | .entry => Ready e K ∧ Unarmed e K
  | .stateFlash | .blocked => Waits e K ∧ Unarmed e K
  | .initialized => Waits e K ∧ Unarmed e K ∧ e.timeout ≠ 0
  | .inserting _ => Waits e K ∧
      (K.timers.state e.thread = .inactive ∨ K.timers.state e.thread = .beingInserted) ∧
      (K.queue e.queue).syncState ≠ .timeout ∧ e.timeout ≠ 0
  | .linking => Waits e K ∧ Armed e K
  | .restart p => Looks e K oc p
  | .search p sp node => Looks e K oc p ∧ p.val ≠ sp ∧ ∃ u, node = .obj u ∧ Beyond K p u ∧
      (u ∈ lead e.queue (headerNumber p) ∨
        States.areSet (K.sched.control u).currentState (K.queue e.queue).state = false)
  | .releasing .remove => Waits e K ∧
      (K.timers.state e.thread = .removeIt ∨ K.timers.state e.thread = .inactive)
  | .releasing .unblock => Waits e K ∧ K.timers.state e.thread = .inactive
  | .releasing .flash => Ready e K ∧ K.timers.state e.thread = .inactive
  | .releasing .done => False
  | .done =>
    Waits e K ∧ K.timers.state e.thread = (if e.timeout = 0 then .inactive else .active) ∧ n = 0 ∧
        (K.wait e.thread).returnCode = code ∨
      Ready e K ∧ K.timers.state e.thread = .inactive ∧ Settled e code K n

end

section

variable [DecidableEq Q] [DecidableEq T]

structure Blocks (e : Enqueue Q T) (code : Nat) (K : Kernel Q T) (p : EnqueuePoint Q T) (n : Nat)
    (rd : Priority → List T) (oc : Members Q T) (lead : Q → Fin 4 → List T)
    (fol : T → List T) : Prop where
  kept : Kept K (transit e p) (critical e p) rd oc lead fol
  executing : K.sched.executing = e.thread
  queue : (K.wait e.thread).queue = e.queue
  ledger : Ledger e code K n p
  point : AtPoint e code K n oc lead p

def Timed (e : Enqueue Q T) (timers : Watchdog.Timers Unit T) (l : Nat) : EnqueuePoint Q T → Prop
  | .inserting ip => ∃ c : Watchdog.Call Unit T, c.header = () ∧ c.timer = e.thread ∧ c.point = ip ∧
      c.removed = false ∧ Runs timers [.insert c, .body l]
  | _ => Runs timers [.body l]

end

/-! ## What a step of the call leaves alone -/

structure Onward (e : Enqueue Q T) (K K' : Kernel Q T) : Prop where
  control : ∀ u ≠ e.thread, K'.sched.control u = K.sched.control u
  own : K'.sched.control e.thread =
    { K.sched.control e.thread with currentState := (K'.sched.control e.thread).currentState }
  executing : K'.sched.executing = K.sched.executing
  wait : ∀ u ≠ e.thread, K'.wait u = K.wait u
  waitQueue : (K'.wait e.thread).queue = (K.wait e.thread).queue
  queue : ∀ r ≠ e.queue, K'.queue r = K.queue r
  self : K'.queue e.queue = { K.queue e.queue with syncState := (K'.queue e.queue).syncState }
  timer : ∀ u ≠ e.thread, K'.timers.state u = K.timers.state u

namespace Onward

variable {e : Enqueue Q T} {K K' K'' : Kernel Q T}

theorem refl (e : Enqueue Q T) (K : Kernel Q T) : Onward e K K :=
  ⟨fun _ _ => rfl, rfl, rfl, fun _ _ => rfl, rfl, fun _ _ => rfl, rfl, fun _ _ => rfl⟩

theorem trans (h : Onward e K K') (h' : Onward e K' K'') : Onward e K K'' where
  control u hu := (h'.control u hu).trans (h.control u hu)
  own := by rw [h'.own, h.own]
  executing := h'.executing.trans h.executing
  wait u hu := (h'.wait u hu).trans (h.wait u hu)
  waitQueue := h'.waitQueue.trans h.waitQueue
  queue r hr := (h'.queue r hr).trans (h.queue r hr)
  self := by rw [h'.self, h.self]
  timer u hu := (h'.timer u hu).trans (h.timer u hu)

theorem links (L : Links (QueueName Q T) T) : Onward e K (K.setLinks L) :=
  ⟨fun _ _ => rfl, rfl, rfl, fun _ _ => rfl, rfl, fun _ _ => rfl, rfl, fun _ _ => rfl⟩

theorem timers {timers} (ht : ∀ u ≠ e.thread, timers.state u = K.timers.state u) :
    Onward e K (K.setTimers timers) :=
  ⟨fun _ _ => rfl, rfl, rfl, fun _ _ => rfl, rfl, fun _ _ => rfl, rfl, ht⟩

variable [DecidableEq T]

theorem sched {S s} (hc : S.control = (K.sched.setCurrentState e.thread s).control)
    (he : S.executing = K.sched.executing) : Onward e K { K with sched := S } where
  control u hu := by simp only [hc, Scheduler.control_setCurrentState_ne hu]
  own := by simp [hc]
  executing := he
  wait _ _ := rfl
  waitQueue := rfl
  queue _ _ := rfl
  self := rfl
  timer _ _ := rfl

theorem returnCode (code : Nat) : Onward e K (K.setReturnCode e.thread code) where
  control _ _ := rfl
  own := rfl
  executing := rfl
  wait u hu := by simp [Kernel.setReturnCode, hu]
  waitQueue := by simp [Kernel.setReturnCode]
  queue _ _ := rfl
  self := rfl
  timer _ _ := rfl

variable [DecidableEq Q]

omit [DecidableEq T] in
theorem syncState (s : SyncState) : Onward e K (K.setSyncState e.queue s) where
  control _ _ := rfl
  own := rfl
  executing := rfl
  wait _ _ := rfl
  waitQueue := rfl
  queue _ hr := Kernel.queue_setSyncState_ne hr
  self := by simp
  timer _ _ := rfl

end Onward

variable {e : Enqueue Q T} {code n : Nat} {K K' : Kernel Q T} {p : EnqueuePoint Q T}
  {rd rd' : Priority → List T} {oc oc' : Members Q T}
  {lead lead' : Q → Fin 4 → List T} {fol fol' : T → List T} {l : Nat} {X X' : Set T} {W W' : Set Q}

theorem Waits.isWaiting (h : Waits e K) : K.isWaiting e.thread = true := by
  rw [Kernel.isWaiting, h]
  exact (K.queue e.queue).waits

theorem Waits.not_ready (h : Waits e K) : (K.sched.control e.thread).currentState ≠ States.ready := by
  rw [h]
  exact (K.queue e.queue).state_ne

theorem Waits.includes (h : Waits e K) :
    States.Includes (K.sched.control e.thread).currentState (K.queue e.queue).state := by
  rw [h]
  exact .refl _

theorem Onward.priority (h : Onward e K K') : K'.priority = K.priority := by
  funext u
  by_cases hu : u = e.thread
  · subst hu
    rw [Kernel.priority, h.own]
    rfl
  · rw [Kernel.priority, h.control u hu]
    rfl

theorem Onward.field {β : Type*} (h : Onward e K K') (f : Control → β)
    (hf : ∀ c s, f { c with syncState := s } = f c) (r : Q) : f (K'.queue r) = f (K.queue r) := by
  by_cases hr : r = e.queue
  · subst hr
    rw [h.self, hf]
  · rw [h.queue r hr]

theorem Onward.discipline (h : Onward e K K') : K'.discipline = K.discipline :=
  funext (h.field Control.discipline fun _ _ => rfl)

variable [DecidableEq T] [DecidableEq Q]

theorem Onward.kept (h : Onward e K K') (hK : Kept K X W rd oc lead fol)
    (hS : Standing K' X' rd' oc' lead' fol') (hX : X ⊆ insert e.thread X') (hW : W ⊆ insert e.queue W')
    (ht : e.thread ∉ X' → K'.timers.state e.thread = .inactive ∨
      K'.timers.state e.thread = .active ∧ K'.isWaiting e.thread = true)
    (hq : e.queue ∉ W' → (K'.queue e.queue).syncState = .synchronized) :
    Kept K' X' W' rd' oc' lead' fol' := by
  refine ⟨hS, fun {u} hu => ?_, fun {r} hr => ?_⟩
  · by_cases hut : u = e.thread
    · subst hut
      exact ht hu
    · have hw : K'.isWaiting u = K.isWaiting u := by simp only [Kernel.isWaiting, h.control u hut]
      rw [h.timer u hut, hw]
      exact hK.armed fun hx => (hX hx).elim hut hu
  · by_cases hrq : r = e.queue
    · subst hrq
      exact hq hr
    · rw [h.queue r hrq]
      exact hK.synced fun hw => (hW hw).elim hrq hr

theorem Onward.kept_transit (h : Onward e K K') (hK : Kept K {e.thread} {e.queue} rd oc lead fol)
    (hS : Standing K' {e.thread} rd' oc' lead' fol') : Kept K' {e.thread} {e.queue} rd' oc' lead' fol' :=
  h.kept hK hS (by simp) (by simp) (fun ht => absurd rfl ht) fun hq => absurd rfl hq

theorem Kept.prepare (hK : Kept K ∅ ∅ rd oc lead fol)
    (hr : (K.sched.control K.sched.executing).currentState = States.ready) (q : Q) (timeout : Nat) :
    Blocks ⟨K.sched.executing, q, timeout⟩ (K.wait K.sched.executing).returnCode (K.prepare q) .entry 0
      rd oc lead fol := by
  have hw : K.isWaiting K.sched.executing = false := by
    rw [Kernel.isWaiting, hr]
    decide
  have hi : K.timers.state K.sched.executing = .inactive := by
    rcases hK.armed (Set.notMem_empty K.sched.executing) with h | h
    · exact h
    · simp [hw] at h
  have hS := ((hK.standing.enter hw).setWaitQueue (Set.mem_insert _ _) q).setSyncState q .nothingHappened
  rw [insert_empty_eq] at hS
  have hK' : Kept (K.prepare q) {K.sched.executing} {q} rd oc lead fol := by
    refine ⟨hS, fun {u} _ => hK.armed (Set.notMem_empty u), fun {r} hr => ?_⟩
    rw [Kernel.prepare, Kernel.enterCriticalSection, Kernel.queue_setSyncState_ne hr]
    exact hK.synced (Set.notMem_empty r)
  have hq : ((K.prepare q).queue q).syncState = .nothingHappened := by
    simp [Kernel.prepare, Kernel.enterCriticalSection]
  have hwq : (K.prepare q).wait K.sched.executing = { K.wait K.sched.executing with queue := q } :=
    update_self _ _ _
  exact ⟨hK', rfl, by rw [hwq], ⟨by rw [hq]; simp, by rw [hwq], by rw [hq]; rfl⟩, hr, hi, by rw [hq]; simp⟩

/-! ## The steps of the call -/

def Went (e : Enqueue Q T) (code : Nat) (K : Kernel Q T) (n l : Nat) (lead : Q → Fin 4 → List T)
    (fol : T → List T) (r : Kernel Q T × EnqueuePoint Q T) : Prop :=
  ∃ rd' oc' lead' fol', Blocks e code r.1 r.2 n rd' oc' lead' fol' ∧ Timed e r.1.timers l r.2 ∧
    Onward e K r.1 ∧
    (lead' = lead ∧ fol' = fol ∧ ((K.queue e.queue).syncState = .nothingHappened →
        r.2 ≠ .done ∧ (r.1.queue e.queue).syncState = .nothingHappened) ∨
      r.2 = .done ∧ ∃ rd L' oc', Joined K.discipline K.priority rd L' oc' lead lead' fol fol' e.queue e.thread)

omit [DecidableEq Q] in
theorem Went.quiet (hB : Blocks e code K' p n rd' oc' lead fol) (hT : Timed e K'.timers l p)
    (hO : Onward e K K') (hp : p ≠ .done) (hq : K'.queue = K.queue) :
    Went e code K n l lead fol (K', p) :=
  ⟨rd', oc', lead, fol, hB, hT, hO, Or.inl ⟨rfl, rfl, fun hs => ⟨hp, by rw [hq]; exact hs⟩⟩⟩

theorem Blocks.go_entry (hB : Blocks e code K .entry n rd oc lead fol) (hT : Runs K.timers [.body l]) :
    Went e code K n l lead fol (K.enqueueStep e .entry) := by
  obtain ⟨hr, ht⟩ := hB.point
  have hE := Scheduler.setStateEnter_ready (s := (K.queue e.queue).state) hr
  obtain ⟨rd', hS⟩ := hB.kept.standing.setStateEnter (t := e.thread) (by simp [transit])
    (K.queue e.queue).state_ne
  simp only [Kernel.enqueueStep, hE] at hS ⊢
  have hO : Onward e K { K with
      sched := (K.sched.setCurrentState e.thread (K.queue e.queue).state).unlinkReady e.thread } :=
    .sched (s := (K.queue e.queue).state) (by simp) (by simp)
  refine .quiet ⟨hO.kept_transit hB.kept hS, hO.executing.trans hB.executing, hB.queue, hB.ledger, ?_, ht⟩
    hT hO (by simp) rfl
  simp [Waits]

theorem Blocks.go_stateFlash (hB : Blocks e code K .stateFlash n rd oc lead fol)
    (hT : Runs K.timers [.body l]) : Went e code K n l lead fol (K.enqueueStep e .stateFlash) := by
  obtain ⟨hw, ht⟩ := hB.point
  have hS := hB.kept.standing.setStateFinish (t := e.thread)
  have hO : Onward e K { K with sched := K.sched.setStateFinish e.thread } :=
    .sched (s := (K.sched.control e.thread).currentState) (by simp [Scheduler.setCurrentState_self]) (by simp)
  refine .quiet ⟨hO.kept_transit hB.kept hS, hO.executing.trans hB.executing, hB.queue, hB.ledger, ?_, ht⟩
    hT hO (by simp) rfl
  simpa [Waits] using hw

theorem Blocks.go_blocked (hB : Blocks e code K .blocked n rd oc lead fol)
    (hT : Runs K.timers [.body l]) : Went e code K n l lead fol (K.enqueueStep e .blocked) := by
  obtain ⟨hw, ht⟩ := hB.point
  by_cases h0 : e.timeout = 0
  · simp only [Kernel.enqueueStep, h0, ne_eq, not_true_eq_false, if_false]
    refine .quiet (p := .linking) ⟨hB.kept, hB.executing, hB.queue, hB.ledger, hw, ?_⟩ hT (.refl e K)
      (by simp) rfl
    unfold Armed
    rw [if_pos h0]
    exact ht
  · simp only [Kernel.enqueueStep, ne_eq, h0, not_false_eq_true, if_true, Watchdog.initializeTimer_eq ht.1]
    exact .quiet (p := .initialized) ⟨hB.kept, hB.executing, hB.queue, hB.ledger, hw, ht, h0⟩ hT
      (.refl e K) (by simp) rfl

theorem Blocks.go_initialized (hB : Blocks e code K .initialized n rd oc lead fol)
    (hT : Runs K.timers [.body l]) (hu : e.timeout < 2 ^ 32) :
    Went e code K n l lead fol (K.enqueueStep e .initialized) := by
  obtain ⟨hw, ht, h0⟩ := hB.point
  obtain ⟨c, hc, hct, hcp, hcr, hR⟩ := hT.call (u := e.timeout) () ht.1 (by simp) (by omega) hu
  have hst : (K.timers.setInitial e.thread e.timeout).state = K.timers.state :=
    Watchdog.Timers.state_setInitial
  have hO : Onward e K (K.setTimers (K.timers.setInitial e.thread e.timeout)) :=
    .timers fun u _ => by rw [hst]
  exact .quiet (p := .inserting .entry)
    ⟨hO.kept_transit hB.kept (hB.kept.standing.setTimers _), hB.executing, hB.queue, hB.ledger, hw,
      Or.inl (by change (K.timers.setInitial _ _).state _ = _; rw [hst]; exact ht.1), ht.2, h0⟩
    ⟨c, hc, hct, hcp, hcr, hR⟩ hO (by simp) rfl

theorem Kernel.enqueueStep_inserted {ip}
    (h : (Watchdog.insertStep K.timers () e.thread ip).2 = .done) : K.enqueueStep e (.inserting ip) =
      (K.setTimers (Watchdog.insertStep K.timers () e.thread ip).1, .linking) := by
  simp only [Kernel.enqueueStep]
  generalize Watchdog.insertStep K.timers () e.thread ip = r at h ⊢
  obtain ⟨timers, p⟩ := r
  obtain rfl := h
  rfl

theorem Kernel.enqueueStep_inserting {ip}
    (h : (Watchdog.insertStep K.timers () e.thread ip).2 ≠ .done) : K.enqueueStep e (.inserting ip) =
      (K.setTimers (Watchdog.insertStep K.timers () e.thread ip).1,
        .inserting (Watchdog.insertStep K.timers () e.thread ip).2) := by
  simp only [Kernel.enqueueStep]

theorem Blocks.go_inserting {ip}
    (hB : Blocks e code K (.inserting ip) n rd oc lead fol) (hT : Timed e K.timers l (.inserting ip)) :
    Went e code K n l lead fol (K.enqueueStep e (.inserting ip)) := by
  obtain ⟨hw, ht, hs, h0⟩ := hB.point
  obtain ⟨c, hc, hct, rfl, hcr, hR⟩ := hT
  obtain ⟨hn, ho, hA⟩ := hR.advance hcr
  rw [hc, hct] at hn ho hA
  have hO : Onward e K (K.setTimers (Watchdog.insertStep K.timers () e.thread c.point).1) := .timers ho
  have hK := hO.kept_transit hB.kept (hB.kept.standing.setTimers _)
  rcases hA with ⟨hp, hact, hR'⟩ | ⟨hp, c', hc', hct', hcp', hcr', hR'⟩
  · rw [Kernel.enqueueStep_inserted hp]
    refine .quiet (p := .linking) ⟨hK, hB.executing, hB.queue, hB.ledger, hw, ?_⟩ hR' hO (by simp) rfl
    unfold Armed
    rw [if_neg h0]
    exact Or.inl ⟨hact, hs⟩
  · rw [Kernel.enqueueStep_inserting hp]
    have ht' := hR'.state_inserting (c := c') (by simp)
    rw [hct'] at ht'
    exact .quiet ⟨hK, hB.executing, hB.queue, hB.ledger, hw, ht', hs, h0⟩
      ⟨c', rfl, hct', hcp', hcr', hR'⟩ hO (by simp) rfl

/-! ### The end of the critical section -/

omit [DecidableEq Q] in
theorem Went.stopped (hB : Blocks e code K' p n rd' oc' lead fol) (hT : Timed e K'.timers l p)
    (hO : Onward e K K') (hs : (K.queue e.queue).syncState ≠ .nothingHappened) :
    Went e code K n l lead fol (K', p) :=
  ⟨rd', oc', lead, fol, hB, hT, hO, Or.inl ⟨rfl, rfl, fun h => absurd h hs⟩⟩

omit [DecidableEq T] [DecidableEq Q] in
theorem Blocks.seeking {p} (hK : Kept K {e.thread} W rd oc lead fol) (hP : Looks e K oc p) :
    Seeking K e p rd oc lead fol := by
  obtain ⟨hw, -, hd, hb, hp⟩ := hP
  have habs := hK.standing.absent (Set.mem_singleton e.thread)
  exact ⟨hK.standing.on, hK.standing.grouped, hd, hK.standing.chained.off hw.not_ready
    (hK.standing.off habs), habs, hb, hp⟩

section

variable (hK : Kept K {e.thread} {e.queue} rd oc lead fol) (hx : K.sched.executing = e.thread)
  (hq : (K.wait e.thread).queue = e.queue) (hL : Open e code K n) (hT : Runs K.timers [.body l])

include hK hx hq hL hT

theorem Blocks.synchronize (hw : Waits e K) (ha : Armed e K)
    (hs : (K.queue e.queue).syncState ≠ .nothingHappened) : Went e code K n l lead fol (K.synchronize e) := by
  obtain ⟨hL1, hL2, hL3⟩ := hL
  have hO : Onward e K (K.setSyncState e.queue .synchronized) := .syncState _
  have hK' : Kept (K.setSyncState e.queue .synchronized) {e.thread} ∅ rd oc lead fol :=
    hO.kept hK (hK.standing.setSyncState _ _) (by simp) (by simp) (fun h => absurd rfl h) (by simp)
  have hw' : Waits e (K.setSyncState e.queue .synchronized) := by
    unfold Waits at *
    rw [Kernel.state_setSyncState]
    exact hw
  unfold Kernel.synchronize
  generalize hK1 : K.setSyncState e.queue .synchronized = K1 at *
  have hst : K1.timers = K.timers := by rw [← hK1]; rfl
  have hcode : K1.wait = K.wait := by rw [← hK1]; rfl
  cases hsy : (K.queue e.queue).syncState with
  | synchronized => exact absurd hsy hL1
  | nothingHappened => exact absurd hsy hs
  | timeout =>
    -- the timer that has run out is inactive
    have ht : K.timers.state e.thread = .inactive := by
      unfold Armed at ha
      split at ha <;> simp_all
    refine .stopped (p := .releasing .unblock) ⟨hK'.setReturnCode _ _, hO.executing.trans hx,
      (Onward.returnCode _).waitQueue.trans (hcode ▸ hq), Or.inr ⟨?_, ?_⟩, hw', hst ▸ ht⟩ (hst ▸ hT)
      (hO.trans (.returnCode _)) hs
    · simpa [hsy] using hL3
    · simp [Kernel.setReturnCode, hcode, hq]
  | satisfied =>
    have hset : Settled e code K1 n := Or.inl ⟨by simpa [hsy] using hL3, hcode ▸ hL2⟩
    dsimp only
    by_cases hact : K1.timers.state e.thread = .active
    · have hst' : (Watchdog.deactivate K1.timers e.thread).state =
          update K1.timers.state e.thread .removeIt := Watchdog.Timers.state_setState
      have hO' : Onward e K1 (K1.setTimers (Watchdog.deactivate K1.timers e.thread)) :=
        .timers fun u hu => by rw [hst', update_of_ne hu]
      rw [Kernel.deactivateTimer_active hact]
      refine .stopped (p := .releasing .remove) ⟨hO'.kept hK' (hK'.standing.setTimers _) (by simp)
        (by simp) (fun h => absurd rfl h) fun _ => hK'.synced (by simp), hO.executing.trans hx,
        hcode ▸ hq, hset, hw', Or.inl ?_⟩ ((hst ▸ hT).deactivate hact) (hO.trans hO') hs
      change (Watchdog.deactivate K1.timers e.thread).state _ = _
      rw [hst', update_self]
    · rw [Kernel.deactivateTimer_inactive hact]
      refine .stopped (p := .releasing .unblock) ⟨hK', hO.executing.trans hx, hcode ▸ hq, hset, hw', ?_⟩
        (hst ▸ hT) hO hs
      unfold Armed at ha
      split at ha <;> simp_all

theorem Blocks.join {L'} (hw : Waits e K) (ha : Armed e K)
    (hs : (K.queue e.queue).syncState = .nothingHappened)
    (hJ : Joined K.discipline K.priority rd L' oc' lead lead' fol fol' e.queue e.thread) :
    Went e code K n l lead fol ((K.setSyncState e.queue .synchronized).setLinks L', .done) := by
  have hO : Onward e K ((K.setSyncState e.queue .synchronized).setLinks L') :=
    (Onward.syncState _).trans (.links _)
  have hJ' : Joined (K.setSyncState e.queue .synchronized).discipline
      (K.setSyncState e.queue .synchronized).priority rd L' oc' lead lead' fol fol' e.queue e.thread := by
    rw [Kernel.discipline_setSyncState]
    exact hJ
  have hS := (hK.standing.setSyncState e.queue .synchronized).joined hJ' hq
    (by rw [Kernel.state_setSyncState]; exact hw.includes)
  rw [Set.sdiff_self] at hS
  have ht : K.timers.state e.thread = if e.timeout = 0 then .inactive else .active := by
    unfold Armed at ha
    split at ha <;> simp_all
  obtain ⟨hL1, hL2, hL3⟩ := hL
  refine ⟨rd, oc', lead', fol', ⟨hO.kept hK hS (by simp) (by simp) (fun _ => ?_) fun _ => ?_,
    hO.executing.trans hx, hq, trivial, Or.inl ⟨?_, ht, ?_, hL2⟩⟩, hT, hO, Or.inr ⟨rfl, rd, L', oc', hJ⟩⟩
  · change K.timers.state _ = _ ∨ K.timers.state _ = _ ∧ _
    rw [ht]
    split
    · exact Or.inl rfl
    · exact Or.inr ⟨rfl, hw.isWaiting⟩
  · simp [Kernel.setLinks]
  · unfold Waits at *
    simp only [Kernel.setLinks, Kernel.state_setSyncState]
    exact hw
  · simpa [hs] using hL3

theorem Blocks.searched {p r m} (hP : Looks e K oc p) (hr : Searched K e p rd lead fol m r) :
    Went e code K n l lead fol r := by
  cases hr with
  | stopped hs => exact Blocks.synchronize hK hx hq hL hT hP.1 hP.2.1 hs
  | joined hs hJ => exact Blocks.join hK hx hq hL hT hP.1 hP.2.1 hs hJ
  | flash hsp hu hb _ =>
    exact .quiet (p := .search _ _ _) ⟨hK, hx, hq, hL, hP, hsp, _, rfl, hb, Or.inl (by rw [hu]; simp)⟩ hT
      (.refl e K) (by simp) rfl

end

theorem Blocks.go_linking (hB : Blocks e code K .linking n rd oc lead fol) (hT : Runs K.timers [.body l]) :
    Went e code K n l lead fol (K.enqueueStep e .linking) := by
  obtain ⟨hw, ha⟩ := hB.point
  have hK : Kept K {e.thread} {e.queue} rd oc lead fol := hB.kept
  unfold Kernel.enqueueStep
  cases hd : (K.queue e.queue).discipline with
  | fifo =>
    unfold Kernel.enqueueFifo
    by_cases hs : (K.queue e.queue).syncState = .nothingHappened
    · rw [if_pos hs]
      have habs := hK.standing.absent (Set.mem_singleton e.thread)
      have hi : lead e.queue 0 = lead e.queue 0 ++ [] := by simp
      have hL := Chain.append_represents hK.standing.on (show chains rd oc (header e.queue 0) = _ from
        hK.standing.grouped.header (Or.inr rfl)) (hK.standing.chained.off hw.not_ready (hK.standing.off habs))
      rw [update_chains_other] at hL
      have hno : K.discipline e.queue ≠ .priority := by simp [Kernel.discipline, hd]
      exact Blocks.join hK hB.executing hB.queue hB.ledger hT hw ha hs
        (joined_leader hK.standing.on hK.standing.grouped (Or.inr rfl) habs (fun hp => absurd hp hno) hi
          (fun _ => rfl) (fun hp => absurd hp hno) hL)
    · rw [if_neg hs]
      exact Blocks.synchronize hK hB.executing hB.queue hB.ledger hT hw ha hs
  | priority =>
    have hO : Onward e K (K.setLinks (Chain.initializeEmpty K.sched.links (block2n e.thread))) := .links _
    exact .quiet ⟨hO.kept_transit hK (hK.standing.initializeBlock rfl), hB.executing, hB.queue, hB.ledger,
      hw, ha, hd, update_self _ _ _, rfl⟩ hT hO (by simp) rfl

theorem Blocks.go_restart {p} (hB : Blocks e code K (.restart p) n rd oc lead fol)
    (hT : Runs K.timers [.body l]) : Went e code K n l lead fol (K.enqueueStep e (.restart p)) :=
  Blocks.searched hB.kept hB.executing hB.queue hB.ledger hT hB.point
    (Blocks.seeking hB.kept hB.point).searchRestart

theorem Blocks.go_search {p sp node}
    (hB : Blocks e code K (.search p sp node) n rd oc lead fol) (hT : Runs K.timers [.body l]) :
    Went e code K n l lead fol (K.enqueueStep e (.search p sp node)) := by
  obtain ⟨hP, hsp, u, rfl, hb, hu⟩ := hB.point
  by_cases hw : States.areSet (K.sched.control u).currentState (K.queue e.queue).state = true
  · obtain ⟨l1, l2, hi⟩ := List.append_of_mem (hu.resolve_right (by simp [hw]))
    exact Blocks.searched hB.kept hB.executing hB.queue hB.ledger hT hP
      ((Blocks.seeking hB.kept hP).searchResume hi hw hsp hb)
  · -- the leader has gone while interrupts were enabled
    simp only [Kernel.enqueueStep, Kernel.searchResume, hw]
    exact .quiet (p := .restart p) ⟨hB.kept, hB.executing, hB.queue, hB.ledger, hP⟩ hT (.refl e K)
      (by simp) rfl

/-! ### Letting the thread go -/

theorem Blocks.go_remove (hB : Blocks e code K (.releasing .remove) n rd oc lead fol)
    (hT : Runs K.timers [.body l]) :
    Went e code K n l lead fol (K.enqueueStep e (.releasing .remove)) := by
  obtain ⟨hw, -⟩ := hB.point
  have hK : Kept K {e.thread} ∅ rd oc lead fol := hB.kept
  have hst := hT.state_remove (w := e.thread)
  have hO : Onward e K (K.removeTimer e.thread) :=
    .timers fun u hu => by rw [hst, update_of_ne hu]
  have hs : (K.queue e.queue).syncState ≠ .nothingHappened := by
    rw [hK.synced (by simp)]
    simp
  refine .stopped (p := .releasing .unblock) ⟨hO.kept hK (hK.standing.setTimers _) (by simp)
    (by simp) (fun h => absurd rfl h) fun _ => hK.synced (by simp), hB.executing,
    hB.queue, hB.ledger, hw, ?_⟩ (hT.remove (by simp)) hO hs
  change (Watchdog.remove K.timers e.thread).1.state _ = _
  rw [hst, update_self]

theorem Blocks.go_unblock (hB : Blocks e code K (.releasing .unblock) n rd oc lead fol)
    (hT : Runs K.timers [.body l]) :
    Went e code K n l lead fol (K.enqueueStep e (.releasing .unblock)) := by
  obtain ⟨hw, ht⟩ := hB.point
  have hK : Kept K {e.thread} ∅ rd oc lead fol := hB.kept
  have hs : (K.queue e.queue).syncState = .synchronized := hK.synced (by simp)
  have hwake : K.sched.Wakes e.thread States.blocked := by
    refine ⟨hw.not_ready, ?_⟩
    rw [hw]
    exact (K.queue e.queue).blocks
  have hE := Scheduler.clearStateEnter_wakes hwake
  obtain ⟨rd', hS⟩ := hK.standing.unblockEnter (t := e.thread) rfl
  rw [Set.sdiff_self] at hS
  simp only [Kernel.enqueueStep, Kernel.releaseStep, hE] at hS ⊢
  have hO : Onward e K { K with
      sched := (K.sched.setCurrentState e.thread States.ready).linkReady e.thread false } :=
    .sched (s := States.ready) (by simp) (by simp)
  refine .stopped (p := .releasing .flash) ⟨hO.kept hK hS (by simp) (by simp) (fun _ => Or.inl ht)
    fun _ => hs, hO.executing.trans hB.executing, hB.queue, hB.ledger, ?_, ht⟩ hT hO
    (by simp [hs])
  simp [Ready]

theorem Blocks.go_flash (hB : Blocks e code K (.releasing .flash) n rd oc lead fol)
    (hT : Runs K.timers [.body l]) :
    Went e code K n l lead fol (K.enqueueStep e (.releasing .flash)) := by
  obtain ⟨hr, ht⟩ := hB.point
  have hs : (K.queue e.queue).syncState = .synchronized := hB.kept.synced (by simp [critical])
  have hO : Onward e K { K with sched := K.sched.clearStateFinish e.thread } :=
    .sched (s := (K.sched.control e.thread).currentState) (by simp [Scheduler.setCurrentState_self]) (by simp)
  have hS : Standing { K with sched := K.sched.clearStateFinish e.thread } ∅ rd oc lead fol :=
    hB.kept.standing.withSched_transit hB.kept.standing.chained.clearStateFinish fun u _ => by simp
  refine .stopped (p := .done) ⟨hO.kept hB.kept hS (by simp [transit]) (by simp [critical])
    (fun _ => Or.inl ht) fun _ => hs, hO.executing.trans hB.executing, hB.queue, trivial,
    Or.inr ⟨?_, ht, hB.ledger⟩⟩ hT hO (by simp [hs])
  simpa [Ready] using hr

theorem Blocks.go (hB : Blocks e code K p n rd oc lead fol) (hT : Timed e K.timers l p)
    (hu : e.timeout < 2 ^ 32) (hp : p ≠ .done) : Went e code K n l lead fol (K.enqueueStep e p) := by
  cases p with
  | entry => exact hB.go_entry hT
  | stateFlash => exact hB.go_stateFlash hT
  | blocked => exact hB.go_blocked hT
  | initialized => exact hB.go_initialized hT hu
  | inserting ip => exact hB.go_inserting hT
  | linking => exact hB.go_linking hT
  | restart p => exact hB.go_restart hT
  | search p sp node => exact hB.go_search hT
  | releasing rp =>
    cases rp with
    | remove => exact hB.go_remove hT
    | unblock => exact hB.go_unblock hT
    | flash => exact hB.go_flash hT
    | done => exact absurd hB.point id
  | done => exact absurd rfl hp

end Rtems.ThreadQueue
