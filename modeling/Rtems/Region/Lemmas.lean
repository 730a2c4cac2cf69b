import Rtems.Heap.Space
import Rtems.Region.Model
import Rtems.ThreadQueue.Directives

/-! # What the directives of a region do -/

namespace Rtems

open Function Option

theorem Heap.free_refused {m h p} (hf : (Heap.free m h p).2 = false) :
    (Heap.free m h p).1 = m := by
  unfold Heap.free at *
  simp only at hf ⊢
  split
  · rfl
  split
  · rfl
  · rename_i h1 h2
    rw [if_neg h1, if_neg h2] at hf
    unfold Heap.release at hf ⊢
    split
    · rename_i h3
      rw [if_pos h3] at hf
      simp only at hf ⊢
      split
      · rfl
      · rename_i h4
        rw [if_neg h4] at hf
        split at hf <;> cases hf
    · rename_i h3
      rw [if_neg h3] at hf
      split at hf <;> cases hf

namespace Region

open ThreadQueue

variable {T : Type*} [DecidableEq T] {A : Heap.Area} {s s' : System T}
  {lead lead' : Unit → Fin 4 → List T} {fol fol' : T → List T} {L L' : Heap.Layout}
  {fl fl' : List Nat} {owned owned' : List (Heap.Block × Nat × Nat)} {t : T} {n p : Nat} {m : Memory}

structure System.Sound (A : Heap.Area) (s : System T) (lead : Unit → Fin 4 → List T) (fol : T → List T)
    (L : Heap.Layout) (fl : List Nat) (owned : List (Heap.Block × Nat × Nat)) : Prop where
  rests : Rests s.kernel lead fol
  valid : Heap.Valid A s.heap L fl owned
  complete : Heap.Complete L owned
  used_eq : s.numberOfUsedBlocks = s.heap.live.length
  unwrapped : ∀ t ∈ service (lead ()) fol, Heap.Unwrapped A.page (s.count t)

def Short (A : Heap.Area) (L : Heap.Layout) (n : Nat) : Prop :=
  ∀ b ∈ L.blocks, b.used = false → b.size < Heap.roundedSize A.page n

namespace System.Sound

variable (h : s.Sound A lead fol L fl owned)

include h

theorem length_live_lt : s.heap.live.length + 1 < 2 ^ 32 := by
  have hl := h.valid.length_live
  have hf := h.valid.holds.placed.fits
  omega

theorem allocate (hw : Heap.Unwrapped A.page n) :
    (Heap.allocate s.heap.mem A.control n = some (s.heap.mem, 0) ∧ Short A L n) ∨
    ∃ m p L' fl' owned', Heap.allocate s.heap.mem A.control n = some (m, p) ∧ p ≠ 0 ∧
      (s.handOut m p n).Sound A lead fol L' fl' owned' ∧ L'.start = L.start ∧ L'.final = L.final ∧
      ∀ k, Short A L k → Short A L' k := by
  rcases h.valid.allocate_cases hw with hn | ⟨m, p, L', fl', c, he, hp, hA, hV⟩
  · exact Or.inl hn
  · have hlt := h.length_live_lt
    refine Or.inr ⟨m, p, L', fl', _, he, hp, ⟨h.rests, hV, h.complete.allocated hA, ?_, h.unwrapped⟩,
      hA.start_eq, hA.final_eq, fun k hk d hd hu => ?_⟩
    · rw [System.handOut, h.used_eq, addWord_eq (by omega)]
      rfl
    · obtain ⟨b, hb, hbu, hle⟩ := hA.free_le hd hu
      exact Nat.lt_of_le_of_lt hle (hk b hb hbu)

theorem setSegment (t : T) (p : Nat) : (s.setSegment t p).Sound A lead fol L fl owned :=
  ⟨h.rests, h.valid, h.complete, h.used_eq, h.unwrapped⟩

theorem wait {timeout fuel} (hr : s.isReady s.kernel.sched.executing = true) (hu : timeout < 2 ^ 32)
    (hw : Heap.Unwrapped A.page n) (he : s.wait n timeout fuel = some s') :
    ∃ lead' fol', s'.Sound A lead' fol' L fl owned ∧ s'.heap = s.heap ∧
      s'.count = update s.count s.kernel.sched.executing n ∧
      s.kernel.sched.executing ∉ service (lead ()) fol ∧
      ∃ l1 l2, service (lead ()) fol = l1 ++ l2 ∧
        service (lead' ()) fol' = l1 ++ s.kernel.sched.executing :: l2 := by
  obtain ⟨K, hK, rfl⟩ := map_eq_some_iff.mp he
  have hr := of_decide_eq_true hr
  obtain ⟨lead', fol', hR, hB, hA⟩ := h.rests.block hr hu hK
  have habs := h.rests.ready_absent hr ()
  obtain ⟨l1, l2, hl, hl', -⟩ := hA.self
  refine ⟨lead', fol', ⟨hR, h.valid, h.complete, h.used_eq, fun t ht => ?_⟩, rfl, rfl, habs, l1, l2, hl,
    hl'⟩
  by_cases hte : t = s.kernel.sched.executing
  · simp only [hte, update_self]
    exact hw
  · simp only [update_of_ne hte]
    exact h.unwrapped t ((hA.mem.mp ht).resolve_right fun h => hte h.2)

theorem grant {m p k} (hk : service (lead ()) fol = t :: k)
    (hs : (s.handOut m p (s.count t)).Sound A lead fol L' fl' owned') :
    ∃ lead' fol', (s.grant t m p).Sound A lead' fol' L' fl' owned' ∧ service (lead' ()) fol' = k ∧
      (s.grant t m p).count = s.count := by
  obtain ⟨lead', fol', hR, hD, -⟩ := h.rests.extract (q := ()) (t := t) (by simp [hk])
  have hk' : service (lead' ()) fol' = k := by rw [hD.erased, hk, List.erase_cons_head]
  refine ⟨lead', fol', ⟨hR.setReturnCode t 0, hs.valid, hs.complete, hs.used_eq, fun u hu => ?_⟩, hk', rfl⟩
  rw [hk'] at hu
  exact h.unwrapped u (by simp [hk, hu])

end System.Sound

theorem System.Sound.serve {fuel} (h : s.Sound A lead fol L fl owned)
    (he : System.serve A.control fuel s = some s') :
    ∃ lead' fol' L' fl' owned', s'.Sound A lead' fol' L' fl' owned' ∧ L'.start = L.start ∧
      L'.final = L.final ∧ s'.count = s.count ∧ (service (lead' ()) fol' <:+ service (lead ()) fol) ∧
      ∀ t ∈ (service (lead' ()) fol').head?, Short A L' (s.count t) := by
  induction fuel generalizing s lead fol L fl owned with
  | zero => cases he
  | succ fuel ih =>
    rw [System.serve, h.rests.first_eq] at he
    cases hq : service (lead ()) fol with
    | nil =>
      rw [hq] at he
      cases he
      exact ⟨lead, fol, L, fl, owned, h, rfl, rfl, rfl, hq ▸ List.suffix_rfl, by simp [hq]⟩
    | cons t k =>
      rw [hq, List.head?_cons, elim_some] at he
      rcases h.allocate (h.unwrapped t (by simp [hq])) with
        ⟨hn, hS⟩ | ⟨m, p, L1, fl1, owned1, hm, hp, hs, hst, hfi, -⟩
      · rw [hn, bind_some, if_pos rfl] at he
        cases he
        refine ⟨lead, fol, L, fl, owned, h, rfl, rfl, rfl, hq ▸ List.suffix_rfl, fun u hu => ?_⟩
        rw [hq] at hu
        cases hu
        exact hS
      · rw [hm, bind_some, if_neg hp] at he
        obtain ⟨lead1, fol1, hs1, hk, hc⟩ := h.grant hq hs
        obtain ⟨lead', fol', L', fl', owned', hs', hst', hfi', hc', hsuf, hh⟩ := ih hs1 he
        refine ⟨lead', fol', L', fl', owned', hs', hst'.trans hst, hfi'.trans hfi, hc'.trans hc, ?_,
          fun u hu => hc ▸ hh u hu⟩
        rw [hk] at hsuf
        exact hsuf.trans (List.suffix_cons t k)

theorem System.Sound.serve_total (h : s.Sound A lead fol L fl owned) :
    ∃ fuel s', System.serve A.control fuel s = some s' := by
  induction hq : service (lead ()) fol generalizing s lead fol L fl owned with
  | nil =>
    refine ⟨1, s, ?_⟩
    rw [System.serve, h.rests.first_eq, hq]
    rfl
  | cons t k ih =>
    rcases h.allocate (h.unwrapped t (by simp [hq])) with
      ⟨hn, -⟩ | ⟨m, p, L1, fl1, owned1, hm, hp, hs, -⟩
    · refine ⟨1, s, ?_⟩
      rw [System.serve, h.rests.first_eq, hq, List.head?_cons, elim_some, hn, bind_some,
        if_pos rfl]
    · obtain ⟨lead1, fol1, hs1, hk, -⟩ := h.grant hq hs
      obtain ⟨fuel, s', hf⟩ := ih hs1 hk
      refine ⟨fuel + 1, s', ?_⟩
      rw [System.serve, h.rests.first_eq, hq, List.head?_cons, elim_some, hm, bind_some,
        if_neg hp, hf]

end Region

end Rtems
