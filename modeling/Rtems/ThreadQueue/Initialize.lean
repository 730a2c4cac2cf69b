import Rtems.ThreadQueue.Calm

/-! # `_Thread_queue_Initialize` -/

namespace Rtems.ThreadQueue

open Intrusive Thread

variable {Q T : Type*} [DecidableEq Q] [DecidableEq T]

def headers (q : Q) : Discipline → List (QueueName Q T)
  | .fifo => [fifoHeader q]
  | .priority => (List.finRange 4).map (header q)

def Kernel.initializeQueue (K : Kernel Q T) (q : Q) (c : Control) : Kernel Q T :=
  { K.setLinks ((headers q c.discipline).foldl Chain.initializeEmpty K.sched.links) with
    queue := Function.update K.queue q { c with syncState := .synchronized } }

variable {K : Kernel Q T} {X : Set T} {rd : Priority → List T} {oc : Members Q T}
  {lead : Q → Fin 4 → List T} {fol : T → List T} {q : Q} {c : Control}

omit [DecidableEq Q] [DecidableEq T] in
theorem ready_notMem_headers {d p} :
    (.ready p : QueueName Q T) ∉ headers q d := by
  cases d with
  | fifo => simp [headers]
  | priority => simp [headers]

omit [DecidableEq Q] [DecidableEq T] in
theorem mem_headers {d} {x : QueueChain Q T} :
    .other x ∈ headers q d ↔ ∃ i, x = .queue q i ∧ (d = .priority ∨ i.val = 0) := by
  cases d with
  | fifo => simp [headers]
  | priority => simp [headers, eq_comm]

def initializedChains (oc : Members Q T) (q : Q) (d : Discipline) :
    Members Q T
  | .queue r i => if r = q then if d = .priority ∨ i.val = 0 then some [] else none else oc (.queue r i)
  | .block2n u => oc (.block2n u)

theorem represents_initialized (hR : Represents K.sched.links (chains rd oc)) (q : Q) (d : Discipline) :
    Represents ((headers q d).foldl Chain.initializeEmpty K.sched.links)
      (chains rd (initializedChains oc q d)) := by
  refine (Chain.initializeEmpty_all hR (headers q d)).mono fun {x l} hx => ?_
  match x with
  | .ready p =>
    rw [if_neg ready_notMem_headers]
    exact hx
  | .other (.block2n u) =>
    rw [if_neg (by simp [mem_headers])]
    exact hx
  | .other (.queue r i) =>
    simp only [chains, initializedChains] at hx
    by_cases hr : r = q
    · subst hr
      rw [if_pos rfl] at hx
      split at hx
      · next hd => rw [if_pos (mem_headers.mpr ⟨i, rfl, hd⟩), hx]
      · cases hx
    · rw [if_neg hr] at hx
      rw [if_neg (by simp [mem_headers, hr])]
      exact hx

theorem Standing.initializeQueue (h : Standing K X rd oc lead fol) (hq : service (lead q) fol = [])
    (c : Control) :
    Standing (K.initializeQueue q c) X rd (initializedChains oc q c.discipline) lead fol := by
  have habs {i : Fin 4} {u : T} : u ∉ lead q i := by
    intro hu
    have : u ∈ service (lead q) fol := mem_service.mpr ⟨i, u, hu, Or.inl rfl⟩
    rw [hq] at this
    cases this
  have hl (i : Fin 4) : lead q i = [] := List.eq_nil_iff_forall_not_mem.mpr fun _ => habs
  have hself : (K.initializeQueue q c).discipline q = c.discipline := by
    simp [Kernel.discipline, Kernel.initializeQueue]
  have hne {r : Q} (hr : r ≠ q) : (K.initializeQueue q c).queue r = K.queue r := by
    simp [Kernel.initializeQueue, hr]
  have hdisc {r : Q} (hr : r ≠ q) : (K.initializeQueue q c).discipline r = K.discipline r := by
    simp only [Kernel.discipline, hne hr]
  refine ⟨h.chained.relink (represents_initialized h.on q c.discipline), ⟨fun {r i} hd => ?_,
    fun {r i} hd hi => ?_, fun {r i u} hd hu => ?_, h.grouped.block, fun {u f} hf => ?_⟩,
    fun {r u} hu => ?_, h.waiting⟩
  · by_cases hr : r = q
    · subst hr
      rw [hself] at hd
      simp [initializedChains, hd, hl]
    · rw [hdisc hr] at hd
      simpa [initializedChains, hr] using h.grouped.header hd
  · by_cases hr : r = q
    · subst hr
      rw [hself] at hd
      simp [initializedChains, hd, hi, hl]
    · rw [hdisc hr] at hd
      simpa [initializedChains, hr] using h.grouped.unused hd hi
  · by_cases hr : r = q
    · subst hr
      exact absurd hu habs
    · rw [hdisc hr] at hd
      exact h.grouped.leader hd hu
  · obtain ⟨ho, r, i, hd, hu⟩ := h.grouped.follower hf
    have hr : r ≠ q := by
      rintro rfl
      exact habs hu
    exact ⟨ho, r, i, (hdisc hr).trans hd, hu⟩
  · have hr : r ≠ q := by
      rintro rfl
      rw [hq] at hu
      cases hu
    rw [hne hr]
    exact h.queued hu

theorem Calm.initializeQueue (h : Calm K lead fol) (hq : service (lead q) fol = []) (c : Control) :
    Calm (K.initializeQueue q c) lead fol := by
  obtain ⟨rd, oc, hS⟩ := h.standing
  refine ⟨⟨rd, _, hS.initializeQueue hq c⟩, h.armed, fun r => ?_, h.dormant⟩
  by_cases hr : r = q
  · simp [Kernel.initializeQueue, hr]
  · simpa [Kernel.initializeQueue, hr] using h.synced r

end Rtems.ThreadQueue
