import Rtems.Mpci.Send

/-! # Responses -/

namespace Rtems.Mpci

open Function Thread ThreadQueue Transition Option

variable {Q T : Type*} [DecidableEq T] {N : Node Q T} {s s' : System Q T} {lead lead' : Q → Fin 4 → List T}
  {fol fol' : T → List T} {K K' : Kernel Q T} {t : T} {r : Request T} {code fuel : Nat}

/-! ## The requests that have not timed out -/

structure System.Sound (N : Node Q T) (s : System Q T) (lead : Q → Fin 4 → List T) (fol : T → List T) :
    Prop where
  rests : Rests s.kernel lead fol
  blocked : ∀ t ∈ service (lead N.remote) fol,
    States.clear States.blocked (s.kernel.sched.control t).currentState = States.ready
  source : ∀ r ∈ s.requests, r.packet.sourceTid = N.id r.thread
  awaits : ∀ r ∈ s.requests, r.timedOut = false →
    r.thread ∈ service (lead N.remote) fol ∧ s.latest r.thread = r.number

/-- The thread was waiting for a response, and has got it. -/
structure Answers (N : Node Q T) (K K' : Kernel Q T) (t : T) (returnCode : Nat) : Prop where
  waits : ∃ l, K.Serves N.remote l ∧ t ∈ l ∧ K'.Serves N.remote (l.erase t)
  other : ∀ q ≠ N.remote, ∀ l, K'.Serves q l ↔ K.Serves q l
  ready : (K'.sched.control t).currentState = States.ready
  returnCode : (K'.wait t).returnCode = returnCode
  rest : ∀ u ≠ t, K'.sched.control u = K.sched.control u ∧ K'.wait u = K.wait u

theorem merge_rests (h : Rests K lead fol) (hw : K.isWaiting t = true) {extraState}
    (hx : States.clear States.blocked extraState = States.ready) :
    Rests (merge K t extraState (K.sched.control t).currentState) lead fol := by
  obtain ⟨rd, oc, hK⟩ := h.kept
  refine ⟨⟨rd, oc, merge_kept hK hw extraState⟩, h.timed, fun u => ?_⟩
  by_cases hu : u = t
  · subst hu
    rw [merge, Scheduler.control_setCurrentState_self]
    exact (States.steady_of_blocks hx).set (h.steady u)
  · rw [merge, Scheduler.control_setCurrentState_ne hu]
    exact h.steady u

variable [DecidableEq Q]

/-- Responses come before a time-out, and `extra_state` is cleared with the wait. -/
def System.InTime (N : Node Q T) (s : System Q T) : Move Q T → Prop
  | .send p extraState _ =>
    p.interval N < 2 ^ 32 ∧ States.clear States.blocked extraState = States.ready
  | .response number _ => ∀ r ∈ s.requests, r.number = number → r.timedOut = false
  | .block _ timeout _ => timeout < 2 ^ 32
  | .tick _ | .dequeue _ | .switch _ => True

section

variable (h : s.Sound N lead fol)

include h

theorem System.Sound.processResponse (hr : r ∈ s.requests) (ht : r.timedOut = false) (code : Nat) :
    ∃ lead' fol', Rests (processResponse N s.kernel (r.packet.response code)).1 lead' fol' ∧
      Departs s.kernel.discipline lead lead' fol fol' N.remote r.thread ∧
      Answers N s.kernel (processResponse N s.kernel (r.packet.response code)).1 r.thread code := by
  obtain ⟨hm, -⟩ := h.awaits r hr ht
  obtain ⟨lead', fol', hR, hD, hT⟩ := h.rests.extract hm
  have hp : Mpci.processResponse N s.kernel (r.packet.response code) =
      ((s.kernel.extract N.remote r.thread).setReturnCode r.thread code, some r.thread) := by
    simp only [Mpci.processResponse, Packet.response, h.source r hr, N.threadGet_id]
  have hR' := hR.setReturnCode r.thread code
  rw [hp]
  refine ⟨lead', fol', hR', hD, ⟨_, h.rests.serves_iff.mpr rfl, hm, ?_⟩, fun q hq l => ?_, ?_, ?_, ?_⟩
  · exact hR'.serves_iff.mpr hD.erased.symm
  · rw [hR'.serves_iff, h.rests.serves_iff, hD.other q hq]
  · exact hT.currentState.trans (h.blocked _ hm)
  · simp [Kernel.setReturnCode]
  · intro u hu
    refine ⟨hT.control_ne hu, ?_⟩
    rw [← hT.wait]
    exact update_of_ne hu _ _

theorem System.Sound.answer (hr : r ∈ s.requests) (ht : r.timedOut = false) :
    ∃ lead' fol', (s.answer N r code).Sound N lead' fol' := by
  obtain ⟨lead', fol', hR, hD, hA⟩ := h.processResponse hr ht code
  refine ⟨lead', fol', hR, fun u hu => ?_, fun r' hr' => h.source r' (List.mem_of_mem_filter hr'),
    fun r' hr' ht' => ?_⟩
  · obtain ⟨hu, hne⟩ := hD.mem.mp hu
    rw [System.answer, (hA.rest u hne).1]
    exact h.blocked u hu
  · obtain ⟨hr', hn⟩ := List.mem_filter.mp hr'
    obtain ⟨hm, hl⟩ := h.awaits r' hr' ht'
    refine ⟨hD.mem.mpr ⟨hm, ?_⟩, hl⟩
    -- another request of the same thread is not the last one
    intro hrt
    rw [hrt, (h.awaits r hr ht).2] at hl
    simp [hl] at hn

theorem System.Sound.send {p extraState} (hw : s.InTime N (.send p extraState fuel))
    (he : s.step N (.send p extraState fuel) = some s') : ∃ lead' fol', s'.Sound N lead' fol' := by
  simp only [System.step] at he
  split at he
  · rename_i hr
    have hr : (s.kernel.sched.control s.kernel.sched.executing).currentState = States.ready :=
      of_decide_eq_true hr
    obtain ⟨K, hb, rfl⟩ := map_eq_some_iff.mp he
    obtain ⟨lead', fol', hR, hB, hA⟩ := h.rests.block hr hw.1 hb
    have hs : (K.sched.control s.kernel.sched.executing).currentState = (s.kernel.queue N.remote).state := by
      rw [hB.own]
    have hwt : K.isWaiting s.kernel.sched.executing = true := by
      rw [Kernel.isWaiting, hs]
      exact (s.kernel.queue N.remote).waits
    have hne {u : T} (hu : u ∈ service (lead N.remote) fol) : u ≠ s.kernel.sched.executing := by
      rintro rfl
      exact h.rests.ready_absent hr N.remote hu
    refine ⟨lead', fol', merge_rests hR hwt hw.2, fun u hu => ?_, fun r hr => ?_, fun r hr ht => ?_⟩
    · rcases hA.mem.mp hu with hu | ⟨-, rfl⟩
      · rw [merge, Scheduler.control_setCurrentState_ne (hne hu), hB.control u (hne hu)]
        exact h.blocked u hu
      · rw [merge, Scheduler.control_setCurrentState_self, hs]
        exact States.clear_set_eq_ready (s.kernel.queue N.remote).blocks hw.2
    · rcases List.mem_cons.mp hr with rfl | hr
      · rfl
      · exact h.source r hr
    · rcases List.mem_cons.mp hr with rfl | hr
      · exact ⟨hA.mem.mpr (Or.inr ⟨rfl, rfl⟩), update_self _ _ _⟩
      · obtain ⟨hm, hl⟩ := h.awaits r hr ht
        exact ⟨hA.mem.mpr (Or.inl hm), (update_of_ne (hne hm) _ _).trans hl⟩
  · cases he

theorem System.Sound.tick (he : s.step N (.tick fuel) = some s') : ∃ lead' fol', s'.Sound N lead' fol' := by
  obtain ⟨⟨K', o⟩, hi, rfl⟩ := map_eq_some_iff.mp he
  obtain ⟨lead', fol', hR, hb, hq⟩ := h.rests.tick
    (I := fun K lead fol => (∀ t ∈ service (lead N.remote) fol,
        States.clear States.blocked (K.sched.control t).currentState = States.ready) ∧
      ∀ u, (K.wait u).queue = (s.kernel.wait u).queue)
    (fun _ h => h)
    (fun {K K' lead fol lead' fol' t} h hD hT => by
      refine ⟨fun u hu => ?_, fun u => ?_⟩
      · obtain ⟨hu, hne⟩ := hD.mem.mp hu
        rw [hT.control_ne hne]
        exact h.1 u hu
      · rw [hT.wait, ← h.2 u]
        by_cases hu : u = t <;> simp [Kernel.setReturnCode, hu])
    ⟨h.blocked, fun _ => rfl⟩ hi
  refine ⟨lead', fol', hR, hb, fun r' hr' => ?_, fun r' hr' ht => ?_⟩
  · obtain ⟨r, hr, rfl⟩ := List.mem_map.mp hr'
    exact h.source r hr
  · obtain ⟨r, hr, rfl⟩ := List.mem_map.mp hr'
    obtain ⟨ht, hw⟩ := Bool.or_eq_false_iff.mp ht
    obtain ⟨hm, hl⟩ := h.awaits r hr ht
    have hqr := h.rests.queue_eq hm
    have hwt : s.kernel.isWaiting r.thread = true := h.rests.isWaiting_iff.mpr (by rw [hqr]; exact hm)
    -- it still waits, and the queue it waits on has not changed
    have hwt' : K'.isWaiting r.thread = true := by simpa [hwt] using hw
    have := hR.isWaiting_iff.mp hwt'
    rw [hq, hqr] at this
    exact ⟨this, hl⟩

omit [DecidableEq Q] in
theorem System.Sound.withKernel (hR : Rests K' lead' fol')
    (hq : service (lead' N.remote) fol' = service (lead N.remote) fol)
    (hc : ∀ u ∈ service (lead N.remote) fol, K'.sched.control u = s.kernel.sched.control u) :
    { s with kernel := K' }.Sound N lead' fol' := by
  refine ⟨hR, fun u hu => ?_, h.source, fun r hr ht => ?_⟩
  · rw [hq] at hu
    rw [hc u hu]
    exact h.blocked u hu
  · rw [hq]
    exact h.awaits r hr ht

theorem System.Sound.block {q timeout} (hu : timeout < 2 ^ 32)
    (he : s.step N (.block q timeout fuel) = some s') : ∃ lead' fol', s'.Sound N lead' fol' := by
  simp only [System.step] at he
  split at he
  · rename_i hr
    obtain ⟨hr, hq⟩ := hr
    have hr : (s.kernel.sched.control s.kernel.sched.executing).currentState = States.ready :=
      of_decide_eq_true hr
    obtain ⟨K, hb, rfl⟩ := map_eq_some_iff.mp he
    obtain ⟨lead', fol', hR, hB, hA⟩ := h.rests.block hr hu hb
    refine ⟨lead', fol', h.withKernel hR (hA.other _ (Ne.symm hq)) fun u hu => hB.control u ?_⟩
    rintro rfl
    exact h.rests.ready_absent hr N.remote hu
  · cases he

theorem System.Sound.dequeue {q} (he : s.step N (.dequeue q) = some s') :
    ∃ lead' fol', s'.Sound N lead' fol' := by
  simp only [System.step] at he
  split at he
  · rename_i hq
    cases he
    cases hs : service (lead q) fol with
    | nil =>
      rw [h.rests.dequeue_nil hs]
      exact ⟨lead, fol, h⟩
    | cons t k =>
      obtain ⟨K', lead', fol', hd, hR, hD, hT⟩ := h.rests.dequeue hs
      rw [hd]
      refine ⟨lead', fol', h.withKernel hR (hD.other _ (Ne.symm hq)) fun u hu => hT.control_ne ?_⟩
      rintro rfl
      exact hq ((h.rests.queue_eq hD.waits).symm.trans (h.rests.queue_eq hu))
  · cases he

theorem System.Sound.step {mv} (hw : s.InTime N mv) (he : s.step N mv = some s') :
    ∃ lead' fol', s'.Sound N lead' fol' := by
  cases mv with
  | send p extraState fuel => exact h.send hw he
  | response number code =>
    obtain ⟨r, hf, rfl⟩ := map_eq_some_iff.mp he
    have hn : r.number = number := by simpa using List.find?_some hf
    exact h.answer (List.mem_of_find?_eq_some hf) (hw r (List.mem_of_find?_eq_some hf) hn)
  | tick fuel => exact h.tick he
  | block q timeout fuel => exact h.block hw he
  | dequeue q => exact h.dequeue he
  | switch t =>
    simp only [System.step] at he
    split at he
    · cases he
      exact ⟨lead, fol, h.withKernel (h.rests.switch t) rfl fun _ _ => rfl⟩
    · cases he

end

/-- A response in time finds its thread waiting, which is then ready. -/
theorem response_finds_waiter {number : Nat} (hK : K.Idle)
    (h : Steps (System.step N) (System.InTime N) (System.start K) s)
    (hw : s.InTime N (.response number code)) (he : s.step N (.response number code) = some s') :
    ∃ r ∈ s.requests, r.number = number ∧ s.latest r.thread = number ∧
      Answers N s.kernel s'.kernel r.thread code := by
  obtain ⟨lead, fol, hs⟩ : ∃ lead fol, s.Sound N lead fol := by
    refine h.invariant (I := fun s => ∃ lead fol, s.Sound N lead fol) ?_ ?_
    · rintro s mv s' ⟨lead, fol, hs⟩ hw he
      exact hs.step hw he
    · obtain ⟨lead, fol, hR, he, -⟩ := hK.rests
      exact ⟨lead, fol, hR, fun t ht => by simp [he] at ht, fun _ hr => absurd hr List.not_mem_nil,
        fun _ hr => absurd hr List.not_mem_nil⟩
  obtain ⟨r, hf, rfl⟩ := map_eq_some_iff.mp he
  have hn : r.number = number := by simpa using List.find?_some hf
  have hr := List.mem_of_find?_eq_some hf
  obtain ⟨lead', fol', -, -, hA⟩ := hs.processResponse hr (hw r hr hn) code
  exact ⟨r, hr, hn, (hs.awaits r hr (hw r hr hn)).2.trans hn, hA⟩

instance (N : Node Q T) (s : System Q T) (mv : Move Q T) : Decidable (s.InTime N mv) := by
  cases mv <;> unfold System.InTime <;> infer_instance

def twoQueues : Bool → ThreadQueue.Control
  | true => remoteBlockedThreads
  | false => semaphoreQueue .priority

def smallNode : Node Bool Nat := ⟨true, 5, id, some, fun _ => rfl⟩

def twoCallers : Kernel Bool Nat := Kernel.boot twoQueues (fun _ => .of 5) true 1 true [1, 2]

theorem twoCallers_idle : twoCallers.Idle :=
  Kernel.boot_idle (by decide) (fun _ => .of 5) true 1 true [1, 2]

theorem response_finds_waiter_twoCallers :
    ∃ s s', run (checked (System.step smallNode) (System.InTime smallNode))
        [.send ⟨9, 0, .of 0, 0, 32, 1⟩ States.ready 19, .switch 2,
          .send ⟨9, 0, .of 0, 0, 32, 2⟩ States.waitingForMessage 19, .tick 9]
        (System.start twoCallers) = some s ∧ s.step smallNode (.response 1 4) = some s' ∧
      ∃ r ∈ s.requests, r.number = 1 ∧ s.latest r.thread = 1 ∧
        Answers smallNode s.kernel s'.kernel r.thread 4 := by
  have h : ((run (checked (System.step smallNode) (System.InTime smallNode))
      [.send ⟨9, 0, .of 0, 0, 32, 1⟩ States.ready 19, .switch 2,
        .send ⟨9, 0, .of 0, 0, 32, 2⟩ States.waitingForMessage 19, .tick 9]
      (System.start twoCallers)).map fun s => (decide (s.InTime smallNode (.response 1 4)),
        (s.step smallNode (.response 1 4)).isSome)) = some (true, true) := by
    decide +kernel
  obtain ⟨s, hs, he⟩ := map_eq_some_iff.mp h
  obtain ⟨hw, hsome⟩ := Prod.mk.inj he
  obtain ⟨s', hs'⟩ := isSome_iff_exists.mp hsome
  exact ⟨s, s', hs, hs', response_finds_waiter twoCallers_idle (.run_checked .refl hs)
    (of_decide_eq_true hw) hs'⟩

def System.view (s : System Bool Nat) : States × Nat × Option Nat × Bool :=
  ((s.kernel.sched.control 1).currentState, (s.kernel.wait 1).returnCode, s.kernel.first false,
    s.kernel.isWaiting 2)

def timedOutRequest : List (Move Bool Nat) :=
  [.send ⟨9, 0, .of 0, 0, 32, 1⟩ States.ready 19, .switch 2, .tick 9]

def laterBlocks : List (Move Bool Nat) := [.switch 1, .block false 0 19, .switch 2, .block false 0 19]

/-- A late response takes the thread off a semaphore. -/
theorem late_response_harms :
    (run (System.step smallNode) timedOutRequest (System.start twoCallers)).map System.view =
      some (States.ready, 6, none, false) ∧
    (run (System.step smallNode) (timedOutRequest ++ [.response 0 4]) (System.start twoCallers)).map
      System.view = some (States.ready, 4, none, false) ∧
    (run (System.step smallNode) (timedOutRequest ++ laterBlocks) (System.start twoCallers)).map
      System.view = some (States.waitingForSemaphore, 6, some 1, true) ∧
    (run (System.step smallNode) (timedOutRequest ++ laterBlocks ++ [.response 0 4])
      (System.start twoCallers)).map System.view = some (States.ready, 4, none, true) := by
  refine ⟨?_, ?_, ?_, ?_⟩ <;> decide +kernel

end Rtems.Mpci
