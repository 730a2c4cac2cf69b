import Rtems.Heap.Pointers
import Rtems.Region.Theorems

/-! # What `realloc` copies -/

namespace Rtems.Region

variable {T : Type*}

structure Copy where
  destination : Nat
  source : Nat
  count : Nat
  deriving DecidableEq, Repr

def System.reallocCopy (memory : Nat) (s : System T) (ptr size newArea : Nat) : Option Copy :=
  match s.getSegmentSize memory ptr with
  | .ok oldSize => some ⟨newArea, ptr, if size < oldSize then size else oldSize⟩
  | .error _ => none

/-- The size reported is that of the block, which never has as much room behind the pointer; a copy stays
inside the block just if its size does. -/
theorem realloc_copy_inside (A : Heap.Area) {s : System T} {p n : Nat}
    (hs : Heap.Reachable A (Heap.Sound A) s.heap) (hl : (p, n) ∈ s.heap.live) :
    ∃ bs fl b, Heap.Describes s.heap.mem A.control bs fl ∧ b ∈ bs ∧ b.used = true ∧
      Heap.userBlockAt s.heap.mem p = b.addr ∧
      Heap.sizeOfUserArea s.heap.mem A.control p = some b.size ∧
      s.getSegmentSize A.control p = .ok b.size ∧ n ≤ b.size ∧ b.addr + 8 ≤ p ∧
      ¬ p + b.size ≤ b.addr + b.size ∧
      ∀ size newArea, ∃ k, s.reallocCopy A.control p size newArea = some ⟨newArea, p, k⟩ ∧
        (p + k ≤ b.addr + b.size ↔ p + size ≤ b.addr + b.size) := by
  obtain ⟨L, fl, owned, hV, -⟩ := hs.valid fun _ _ h => h
  rw [← hV.live_eq] at hl
  obtain ⟨⟨c, e⟩, ho, rfl⟩ := List.mem_map.mp hl
  obtain ⟨hc, hu, ha⟩ := hV.owns _ ho
  have hsz := hV.holds.sizeOfUserArea_eq hc hu ha
  have hst := ha.start
  have hro := ha.room
  simp only at hc hu hsz hst hro
  have hseg : s.getSegmentSize A.control p = .ok c.size := by
    unfold System.getSegmentSize
    rw [hsz]
  refine ⟨L.blocks, fl, c, hV.holds.describes, hc, hu, ha.userBlockAt_eq hc hV.holds.placed, hsz, hseg,
    by omega, by omega, by omega, fun size newArea => ⟨if size < c.size then size else c.size, ?_, ?_⟩⟩
  · unfold System.reallocCopy
    rw [hseg]
  · split <;> omega

def tenBytes : Option (System Nat) :=
  (Heap.allocate (Heap.smallArea.memory fun _ => 0) 0 10).map fun r =>
    ⟨threeTasks, fun _ => 0, fun _ => r.2, ⟨r.1, [(r.2, 10)]⟩, 256, 240, 1⟩

theorem tenBytes_reachable {s} (h : tenBytes = some s) :
    Heap.Reachable Heap.smallArea (Heap.Sound Heap.smallArea) s.heap := by
  obtain ⟨⟨m', p⟩, he, rfl⟩ := Option.map_eq_some_iff.mp h
  have hr : (Heap.allocate (Heap.smallArea.memory fun _ => 0) 0 10).map Prod.snd = some 296 := by
    decide +kernel
  rw [he] at hr
  cases hr
  refine .step (.allocate 10) (.initialized fun _ => 0) (by unfold Heap.Permitted; decide)
    (Or.inl (by decide)) ?_
  have he' : Heap.allocate (Heap.smallArea.memory fun _ => 0) Heap.smallArea.control 10 = some (m', 296) := he
  simp only [Heap.perform, he', Option.map_some]
  rfl

theorem realloc_copy_inside_ten :
    ∃ s, tenBytes = some s ∧ s.reallocCopy 0 296 16 64 = some ⟨64, 296, 16⟩ ∧
      ∃ bs fl b, Heap.Describes s.heap.mem 0 bs fl ∧ b ∈ bs ∧ 296 + 16 ≤ b.addr + b.size := by
  refine Transition.exists_of_map (fun s => (s.reallocCopy 0 296 16 64, s.heap.live, Heap.userBlockAt s.heap.mem 296, Heap.sizeOfUserArea s.heap.mem 0 296)) (some ⟨64, 296, 16⟩, [(296, 10)], 280, some 32)
    (by decide +kernel) fun s hs he => ?_
  simp only [Prod.mk.injEq] at he
  obtain ⟨hcopy, hlive, hub, hsz⟩ := he
  obtain ⟨bs, fl, b, hD, hb, -, hub', hsz', -, -, -, -, hin⟩ := realloc_copy_inside Heap.smallArea
    (tenBytes_reachable hs) (p := 296) (n := 10) (by rw [hlive]; simp)
  change Heap.sizeOfUserArea s.heap.mem 0 296 = _ at hsz'
  rw [hsz] at hsz'
  have hsize := Option.some.inj hsz'
  obtain ⟨k, hk, hle⟩ := hin 16 64
  change s.reallocCopy 0 296 16 64 = _ at hk
  rw [hcopy] at hk
  injection hk with hk
  injection hk with _ _ hk
  exact ⟨hcopy, bs, fl, b, hD, hb, hk ▸ hle.mpr (by omega)⟩

/-- For 10 bytes 32 are reported, over the end of the heap. -/
theorem realloc_copy_outside :
    ∃ s, tenBytes = some s ∧ Heap.Reachable Heap.smallArea (Heap.Sound Heap.smallArea) s.heap ∧
      s.heap.live = [(296, 10)] ∧ s.getSegmentSize 0 296 = .ok 32 ∧
      s.reallocCopy 0 296 32 64 = some ⟨64, 296, 32⟩ ∧
      Heap.final s.heap.mem 0 + 8 < 296 + 32 := by
  refine Transition.exists_of_map (fun s => (s.reallocCopy 0 296 32 64, s.heap.live, (s.getSegmentSize 0 296).toOption, Heap.final s.heap.mem 0)) (some ⟨64, 296, 32⟩, [(296, 10)], some 32, 312)
    (by decide +kernel) fun s hs he => ?_
  simp only [Prod.mk.injEq] at he
  obtain ⟨hcopy, hlive, hseg, hfin⟩ := he
  refine ⟨tenBytes_reachable hs, hlive, ?_, hcopy, by omega⟩
  cases hg : s.getSegmentSize 0 296 with
  | error e => simp [hg, Except.toOption] at hseg
  | ok k => simpa [hg, Except.toOption] using hseg

end Rtems.Region
