import Rtems.Library.StableQueue
import Rtems.ThreadQueue.Directives

/-! # A priority queue is stable -/

namespace Rtems.ThreadQueue

open Function Thread StableQueue

variable {Q T : Type*}

inductive QueueOp (Q T : Type*)
  /-- The fuel is for `_Thread_queue_Enqueue`. -/
  | enqueue (t : T) (q : Q) (timeout fuel : Nat)
  | dequeue (q : Q)
  | extract (q : Q) (t : T)
  | changePriority (t : T) (p : Priority) (prependIt : Bool)
  deriving DecidableEq, Repr

structure Queueing (Q T : Type*) where
  kernel : Kernel Q T
  arrivals : Q → List T

namespace Queueing

variable [DecidableEq Q] [DecidableEq T]

def forget (s : Queueing Q T) (q : Q) (t : T) : Q → List T :=
  update s.arrivals q ((s.arrivals q).erase t)

def step (s : Queueing Q T) : QueueOp Q T → Option (Queueing Q T)
  | .enqueue t q timeout fuel =>
    ({ s.kernel with sched := { s.kernel.sched with executing := t } }.block q timeout fuel).map fun K =>
      ⟨K, update s.arrivals q (s.arrivals q ++ [t])⟩
  | .dequeue q =>
    let r := s.kernel.dequeue q
    some ⟨r.1, r.2.elim s.arrivals (s.forget q)⟩
  | .extract q t => some ⟨s.kernel.extract q t, s.forget q t⟩
  | .changePriority t p prependIt =>
    some ⟨{ s.kernel with sched := s.kernel.sched.changePriority t p prependIt }, s.arrivals⟩

/-- Ready threads are enqueued, and queued ones keep their priorities. -/
def Allowed (s : Queueing Q T) : QueueOp Q T → Prop
  | .enqueue t _ timeout _ => (s.kernel.sched.control t).currentState = States.ready ∧ timeout < 2 ^ 32
  | .dequeue _ => True
  | .extract q t => s.kernel.isWaiting t = true ∧ (s.kernel.wait t).queue = q
  | .changePriority t _ _ => s.kernel.isWaiting t = false

instance (s : Queueing Q T) (op : QueueOp Q T) : Decidable (s.Allowed op) := by
  cases op <;> unfold Allowed <;> infer_instance

/-! ## What every run keeps -/

/-- The disciplines are `disc`, and priority queues in order. -/
structure Ranked (disc : Q → Discipline) (s : Queueing Q T) (lead : Q → Fin 4 → List T)
    (fol : T → List T) : Prop where
  rests : Rests s.kernel lead fol
  disciplines : s.kernel.discipline = disc
  ordered : Ordered disc s.kernel.priority lead fol
  ranks : ∀ q, disc q = .priority → Ranks s.kernel.priority (s.arrivals q) (service (lead q) fol)

variable {s s' : Queueing Q T} {op : QueueOp Q T} {K K' : Kernel Q T} {lead lead' : Q → Fin 4 → List T}
  {fol fol' : T → List T} {q : Q} {t : T} {disc : Q → Discipline}

theorem Ranked.departs (h : s.Ranked disc lead fol) (hD : Departs disc lead lead' fol fol' q t)
    (hT : Took s.kernel K' t) (h' : Rests K' lead' fol') :
    Ranked disc ⟨K', s.forget q t⟩ lead' fol' := by
  refine ⟨h', hT.discipline.trans h.disciplines, ?_, fun r hd => ?_⟩
  · rw [hT.priority]
    exact hD.ordered h.ordered
  · simp only [hT.priority, forget]
    by_cases hr : r = q
    · subst hr
      rw [update_self, hD.erased]
      exact (h.ranks r hd).erase t
    · rw [update_of_ne hr, hD.other r hr]
      exact h.ranks r hd

theorem Ranked.arrives (h : s.Ranked disc lead fol)
    (hA : Arrives disc s.kernel.priority lead lead' fol fol' q t) (hd : K'.discipline = disc)
    (hp : K'.priority = s.kernel.priority) (h' : Rests K' lead' fol') :
    Ranked disc ⟨K', update s.arrivals q (s.arrivals q ++ [t])⟩ lead' fol' := by
  refine ⟨h', hd, ?_, fun r hr => ?_⟩
  · rw [hp]
    exact hA.ordered h.ordered
  · simp only [hp]
    by_cases hrq : r = q
    · subst hrq
      obtain ⟨l1, l2, hl, hl', -, ho⟩ := hA.self
      obtain ⟨h1, h2⟩ := ho hr h.ordered
      have hq := h.ranks r hr
      rw [hl] at hq
      rw [update_self, hl']
      exact hq.insert h1 h2
    · rw [update_of_ne hrq, hA.other r hrq]
      exact h.ranks r hr

theorem Ranked.step (h : s.Ranked disc lead fol) (ha : s.Allowed op) (he : s.step op = some s') :
    ∃ lead' fol', s'.Ranked disc lead' fol' := by
  have hK := h.rests
  obtain rfl := h.disciplines
  cases op with
  | enqueue t q timeout fuel =>
    obtain ⟨K', hb, rfl⟩ := Option.map_eq_some_iff.mp he
    obtain ⟨lead', fol', h', hB, hA⟩ := (hK.switch t).block ha.1 ha.2 hb
    have hd : K'.discipline = s.kernel.discipline := by
      unfold Kernel.discipline
      rw [hB.queue]
    exact ⟨lead', fol', h.arrives hA hd hB.priority h'⟩
  | dequeue q =>
    cases he
    cases hs : service (lead q) fol with
    | nil =>
      rw [hK.dequeue_nil hs]
      exact ⟨lead, fol, h⟩
    | cons t k =>
      obtain ⟨K', lead', fol', hd, h', hD, hT⟩ := hK.dequeue hs
      rw [hd]
      exact ⟨lead', fol', h.departs hD hT h'⟩
  | extract q t =>
    cases he
    have ht : t ∈ service (lead q) fol := ha.2 ▸ hK.isWaiting_iff.mp ha.1
    obtain ⟨lead', fol', h', hD, hT⟩ := hK.extract ht
    exact ⟨lead', fol', h.departs hD hT h'⟩
  | changePriority t p prependIt =>
    cases he
    have h' := hK.changePriority t p prependIt
    have hp : ∀ q, ∀ u ∈ service (lead q) fol, Kernel.priority
        { s.kernel with sched := s.kernel.sched.changePriority t p prependIt } u = s.kernel.priority u := by
      intro q u hu
      rw [hK.priority_changePriority]
      refine update_of_ne ?_ _ _
      rintro rfl
      have hw : s.kernel.isWaiting u = false := ha
      rw [← Bool.not_eq_true, hK.isWaiting_iff, hK.queue_eq hu] at hw
      exact hw hu
    refine ⟨lead, fol, h', rfl, h'.ordered_congr h.ordered fun q _ => hp q, fun q hd => ?_⟩
    exact (h.ranks q hd).congr fun u hu => hp q u ((h.ranks q hd).mem_iff.mpr hu)

/-- By priority, and those of one priority as they came. -/
theorem priority_queue_stable (hK : K.Idle) (hq : K.discipline q = .priority)
    (h : Transition.Steps step Allowed ⟨K, fun _ => []⟩ s) :
    s.kernel.first q = (s.arrivals q).argmin s.kernel.priority ∧
    (s.kernel.dequeue q).2 = (s.arrivals q).argmin s.kernel.priority ∧
    ((s.kernel.dequeue q).2 = none ↔ s.arrivals q = []) ∧
    (∃ l, s.kernel.Serves q l ∧ l.Perm (s.arrivals q) ∧ (s.kernel.dequeue q).1.Serves q l.tail ∧
      ∀ t ∈ l, (s.kernel.extract q t).Serves q (l.erase t) ∧
        ∀ r ≠ q, ∀ k, s.kernel.Serves r k → (s.kernel.extract q t).Serves r k) ∧
    ∀ t timeout, s.Allowed (.enqueue t q timeout 0) →
      ∃ fuel s', s.step (.enqueue t q timeout fuel) = some s' := by
  obtain ⟨lead₀, fol₀, h₀, hs₀, hO₀⟩ := hK.rests
  obtain ⟨lead, fol, hR⟩ : ∃ lead fol, s.Ranked K.discipline lead fol := by
    refine h.invariant (I := fun s => ∃ lead fol, s.Ranked K.discipline lead fol) ?_
      ⟨lead₀, fol₀, h₀, rfl, hO₀, fun q _ => (hs₀ q).symm ▸ .nil⟩
    rintro s op s' ⟨lead, fol, hR⟩ ha he
    exact hR.step ha he
  have hs := hR.rests
  have hr := hR.ranks q hq
  have hd : (s.kernel.dequeue q).2 = (service (lead q) fol).head? ∧
      (s.kernel.dequeue q).1.Serves q (service (lead q) fol).tail := by
    cases hl : service (lead q) fol with
    | nil =>
      rw [hs.dequeue_nil hl]
      exact ⟨rfl, hs.serves_iff.mpr hl.symm⟩
    | cons t k =>
      obtain ⟨K', lead', fol', he, h', hD, -⟩ := hs.dequeue hl
      rw [he]
      refine ⟨rfl, h'.serves_iff.mpr ?_⟩
      rw [hD.erased, hl, List.erase_cons_head]
      rfl
  refine ⟨(hs.first_eq q).trans hr.head?_eq, hd.1.trans hr.head?_eq, ?_,
    ⟨_, hs.serves_iff.mpr rfl, hr.perm, hd.2, fun t ht => ?_⟩, fun t timeout ha => ?_⟩
  · rw [hd.1, List.head?_eq_none_iff, hr.eq_nil_iff]
  · obtain ⟨lead', fol', h', hD, -⟩ := hs.extract ht
    refine ⟨h'.serves_iff.mpr hD.erased.symm, fun r hne k hk => h'.serves_iff.mpr ?_⟩
    rw [hs.serves_iff.mp hk, hD.other r hne]
  · obtain ⟨fuel, K', hb⟩ := (hs.switch t).block_total ha.1 q ha.2
    exact ⟨fuel, _, Option.map_eq_some_iff.mpr ⟨K', hb, rfl⟩⟩

theorem priority_queue_stable_three :
    ∃ s, Transition.run (Transition.checked step Allowed)
        [.enqueue 10 () 0 9, .enqueue 11 () 0 9, .enqueue 5 () 0 9, .extract () 10]
        ⟨.boot (fun _ => semaphoreQueue .priority) (fun n => .of (n / 2)) () 5 true [5, 10, 11], fun _ => []⟩ =
        some s ∧ s.arrivals () = [11, 5] ∧ s.kernel.first () = (s.arrivals ()).argmin s.kernel.priority := by
  refine Transition.exists_of_map (fun s => s.arrivals ()) [11, 5] (by decide +kernel) fun s hs ha => ?_
  exact ⟨ha, (priority_queue_stable (q := ()) (Kernel.boot_idle (fun _ => rfl) _ _ _ _ _) rfl
    (.run_checked .refl hs)).1⟩

end Queueing

end Rtems.ThreadQueue
