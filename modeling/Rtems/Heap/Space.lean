import Rtems.Heap.Run

/-! # How much is free -/

namespace Rtems.Heap

/-! ## Layouts -/

theorem Contiguous.cover {bs a z x} (h : Contiguous a bs z) (ha : a ≤ x) (hz : x < z) :
    ∃ b ∈ bs, b.addr ≤ x ∧ x < b.addr + b.size := by
  induction bs generalizing a with
  | nil =>
    have : a = z := h
    omega
  | cons b bs ih =>
    obtain ⟨hb, h⟩ := h
    by_cases hx : x < a + b.size
    · exact ⟨b, by simp, by omega, by omega⟩
    · obtain ⟨c, hc, hcx⟩ := ih h (by omega)
      exact ⟨c, by simp [hc], hcx⟩

namespace Layout

variable {L L' : Layout} {b d : Block}

private theorem starts_of_free (hs : L'.start = L.start)
    (hused : ∀ b ∈ L'.blocks, b.used = true → b ∈ L.blocks) (hd : d ∈ L'.blocks) (hdu : d.used = false)
    (hdf : d.addr < L.final) : ∃ g ∈ L.blocks, g.addr = d.addr := by
  obtain ⟨g, hg, hgx, hxg⟩ := L.contiguous.cover (x := d.addr) (by have := L'.start_le hd; omega) hdf
  refine ⟨g, hg, ?_⟩
  obtain ⟨xs, ys, hsplit⟩ := List.append_of_mem hd
  have hx := (L'.split_at hsplit).1
  rcases List.eq_nil_or_concat' xs with rfl | ⟨xs', u, rfl⟩
  · have : L'.start = d.addr := hx
    have := L.start_le hg
    omega
  · -- the block before `d` is used, so it is a block of `L` too
    obtain ⟨q, -, hq, hud⟩ := contiguous_append.mp hx
    have hue : u.addr + u.size = d.addr := by rw [hq]; exact hud
    have huu := (hsplit ▸ L'.separated : Separated ((xs' ++ [u]) ++ d :: ys)).used_before hdu u (by simp)
    rcases L.apart (hused u (by rw [hsplit]; simp) huu) hg with h | h | h
    · rw [← h] at hxg
      omega
    · omega
    · omega

theorem free_within (hs : L'.start = L.start) (hf : L.final ≤ L'.final)
    (hused : ∀ b ∈ L'.blocks, b.used = true → b ∈ L.blocks) (hb : b ∈ L.blocks)
    (hbu : b.used = true → b ∉ L'.blocks) :
    ∃ d ∈ L'.blocks, d.used = false ∧ (d.addr = b.addr ∨ d.addr + 16 ≤ b.addr) ∧
      b.addr + b.size ≤ d.addr + d.size := by
  have h16 := L.size_ge b hb
  have hbs := L.start_le hb
  have hbf := L.le_final hb
  have hne : ∀ c ∈ L'.blocks, c.used = true → c.addr + c.size ≤ b.addr ∨ b.addr + b.size ≤ c.addr := by
    intro c hc hu
    rcases L.apart (hused c hc hu) hb with rfl | h | h
    · exact absurd hc (hbu hu)
    · exact Or.inl h
    · exact Or.inr h
  obtain ⟨d, hd, hdx, hxd⟩ := L'.contiguous.cover (x := b.addr) (by omega) (by omega)
  have hdu : d.used = false := by
    rw [← Bool.not_eq_true]
    intro hu
    have := hne d hd hu
    omega
  obtain ⟨g, hg, hgd⟩ := starts_of_free hs hused hd hdu (by omega)
  have hg16 := L.size_ge g hg
  refine ⟨d, hd, hdu, ?_, ?_⟩
  · rcases L.apart hg hb with rfl | h | h
    · exact Or.inl hgd.symm
    · omega
    · omega
  · -- the block behind `d` is used, so `b` ends before it
    obtain ⟨xs, ys, hsplit⟩ := List.append_of_mem hd
    have hy := (L'.split_at hsplit).2
    cases ys with
    | nil =>
      have : d.addr + d.size = L'.final := hy
      omega
    | cons y ys =>
      have hyu := (hsplit ▸ L'.separated : Separated (xs ++ d :: y :: ys)).used_after hdu y rfl
      have hya := hy.1
      have hym : y ∈ L'.blocks := by rw [hsplit]; simp
      have := hne y hym hyu
      omega

theorem free_inside (hs : L'.start = L.start) (hf : L'.final = L.final)
    (hused : ∀ b ∈ L.blocks, b.used = true → b ∈ L'.blocks) (hd : d ∈ L'.blocks) (hdu : d.used = false) :
    ∃ b ∈ L.blocks, b.used = false ∧ d.size ≤ b.size := by
  obtain ⟨b, hb, hbu, hle, hend⟩ := free_within hs.symm (Nat.le_of_eq hf) hused hd fun hu =>
    absurd hu (by simp [hdu])
  exact ⟨b, hb, hbu, by omega⟩

/-- With the same used blocks, a free block was one before, begins like the last one, or is new. -/
theorem free_grown (hs : L'.start = L.start)
    (hused : ∀ b, b.used = true → (b ∈ L'.blocks ↔ b ∈ L.blocks)) (hd : d ∈ L'.blocks)
    (hdu : d.used = false) : L.final ≤ d.addr ∨ ∃ g ∈ L.blocks, g.used = false ∧ g.addr = d.addr ∧
      (d.size ≤ g.size ∨ g.addr + g.size = L.final) := by
  by_cases hdf : L.final ≤ d.addr
  · exact Or.inl hdf
  obtain ⟨g, hg, hgd⟩ :=
    starts_of_free hs (fun b hb hu => (hused b hu).mp hb) hd hdu (Nat.lt_of_not_le hdf)
  have hd16 := L'.size_ge d hd
  have hg16 := L.size_ge g hg
  have hgu : g.used = false := by
    rw [← Bool.not_eq_true]
    intro hu
    rcases L'.apart ((hused g hu).mpr hg) hd with h | h | h
    · rw [h, hdu] at hu
      cases hu
    · omega
    · omega
  refine Or.inr ⟨g, hg, hgu, hgd, ?_⟩
  obtain ⟨xs, ys, hsplit⟩ := List.append_of_mem hg
  have hy := (L.split_at hsplit).2
  cases ys with
  | nil => exact Or.inr hy
  | cons y ys =>
    have hyu := (hsplit ▸ L.separated : Separated (xs ++ g :: y :: ys)).used_after hgu y rfl
    have hya := hy.1
    rcases L'.apart ((hused y hyu).mpr (by rw [hsplit]; simp)) hd with h | h | h
    · rw [h, hdu] at hyu
      cases hyu
    · omega
    · omega

/-- The free block that holds the last one goes up to the new end. -/
theorem free_last (hs : L'.start = L.start) (hf : L.final ≤ L'.final)
    (hused : ∀ b ∈ L'.blocks, b.used = true → b ∈ L.blocks) (hb : b ∈ L.blocks) (hbu : b.used = false)
    (he : b.addr + b.size = L.final) :
    ∃ d ∈ L'.blocks, d.used = false ∧ d.addr ≤ b.addr ∧ d.addr + d.size = L'.final := by
  obtain ⟨d, hd, hdu, hle, hend⟩ := free_within hs hf hused hb fun hu => absurd hu (by simp [hbu])
  refine ⟨d, hd, hdu, by omega, ?_⟩
  obtain ⟨xs, ys, hsplit⟩ := List.append_of_mem hd
  have hy := (L'.split_at hsplit).2
  cases ys with
  | nil => exact hy
  | cons y ys =>
    have hyu := (hsplit ▸ L'.separated : Separated (xs ++ d :: y :: ys)).used_after hdu y rfl
    have hym : y ∈ L'.blocks := by rw [hsplit]; simp
    have hya := hy.1
    have := L.le_final (hused y hym hyu)
    have := L'.size_ge y hym
    omega

theorem single (h : ∀ b ∈ L.blocks, b.used = false) (hne : L.start < L.final) :
    ∃ b ∈ L.blocks, b.used = false ∧ b.size = L.final - L.start := by
  have hc := L.contiguous
  have hsep := L.separated
  cases hbs : L.blocks with
  | nil =>
    rw [hbs] at hc
    have : L.start = L.final := hc
    omega
  | cons b bs =>
    rw [hbs] at hc hsep
    have hb := h b (by simp [hbs])
    cases bs with
    | nil =>
      have : L.start + b.size = L.final := hc.2
      exact ⟨b, by simp, hb, by omega⟩
    | cons c bs =>
      have hcu := (show Separated ([] ++ b :: c :: bs) from hsep).used_after hb c rfl
      rw [h c (by simp [hbs])] at hcu
      cases hcu

theorem length_le (L : Layout) : 16 * L.blocks.length ≤ L.final - L.start := by
  have hsum := L.contiguous.sum_size
  have hle : ∀ bs : List Block, (∀ b ∈ bs, 16 ≤ b.size) → 16 * bs.length ≤ (bs.map Block.size).sum := by
    intro bs
    induction bs with
    | nil => simp
    | cons b bs ih =>
      intro hb
      have := hb b (by simp)
      have := ih fun c hc => hb c (by simp [hc])
      simp only [List.length_cons, List.map_cons, List.sum_cons]
      omega
  have := hle L.blocks L.size_ge
  omega

end Layout

/-! ## Every used block has an owner -/

def Complete (L : Layout) (owned : List (Block × Nat × Nat)) : Prop :=
  ∀ b ∈ L.blocks, b.used = true → b ∈ owned.map Prod.fst

variable {A : Area} {s : State} {L L' : Layout} {fl fl' : List Nat} {owned : List (Block × Nat × Nat)}
  {m' : Memory} {n p : Nat} {c : Block}

theorem initialized_complete (A : Area) : Complete A.layout [] := by
  simp [Complete, Area.layout]

theorem Complete.allocated (h : Complete L owned)
    (hA : Allocated s.mem m' A.control A.page L L' fl' c p n) : Complete L' ((c, p, n) :: owned) := by
  intro b hb hu
  by_cases hbc : b = c
  · simp [hbc]
  · exact List.mem_cons_of_mem _ (h b ((hA.same.mem_iff b hu hbc).mp hb) hu)

theorem Complete.freed {o k1 k2}
    (h : Complete L (k1 ++ o :: k2)) (hF : Freed s.mem m' A.control A.page L L' fl' o.1) :
    Complete L' (k1 ++ k2) := by
  intro b hb hu
  have hne : b ≠ o.1 := by
    rintro rfl
    exact hF.gone hb
  have hm := h b ((hF.same.mem_iff b hu hne).mp hb) hu
  rw [List.map_append, List.map_cons, List.mem_append, List.mem_cons] at hm
  rw [List.map_append, List.mem_append]
  exact hm.imp id fun h => h.resolve_left hne

theorem Complete.extended (h : Complete L owned) (hS : SameUsed s.mem m' L L' c) (hg : c ∉ L'.blocks) :
    Complete L' owned := by
  intro b hb hu
  have hne : b ≠ c := by
    rintro rfl
    exact hg hb
  exact h b ((hS.mem_iff b hu hne).mp hb) hu

theorem Allocated.free_le (hA : Allocated s.mem m' A.control A.page L L' fl' c p n) {d}
    (hd : d ∈ L'.blocks) (hdu : d.used = false) : ∃ b ∈ L.blocks, b.used = false ∧ d.size ≤ b.size := by
  refine Layout.free_inside hA.start_eq hA.final_eq (fun b hb hu => ?_) hd hdu
  by_cases hbc : b = c
  · rw [hbc]
    exact hA.mem
  · exact (hA.same.mem_iff b hu hbc).mpr hb

theorem Holds.allocate_null {m h page} (hH : Holds m h page L fl)
    (hS : ∀ b ∈ L.blocks, b.used = false → b.size < roundedSize page n) :
    allocate m h n = some (m, 0) := by
  refine hH.allocate_null_of_list fun x hx => ?_
  obtain ⟨b, hb, rfl, hu⟩ := hH.list.block hx
  rw [hH.frontFlag_free hb hu]
  exact hS b hb hu

/-- The size of the free block that ends at `final`, or 0. -/
def lastFree (m : Memory) (h : Nat) : Nat :=
  if isPreviousBlockFree m (final m h) then clearUsed (backFlag m (final m h)) else 0

theorem Holds.lastFree_eq {m h page b} (hH : Holds m h page L fl) (hb : b ∈ L.blocks)
    (hu : b.used = false) (he : b.addr + b.size = L.final) : lastFree m h = b.size := by
  have hback : backFlag m L.final = b.flag := by rw [← he]; exact hH.tags.back b hb
  unfold lastFree isPreviousBlockFree
  rw [hH.control.final_eq, hback, and_blockUsed, Block.flag_mod hb, Block.clearUsed_flag hH.placed hb]
  simp [hu]

theorem Holds.lastFree_cases {m h page} (hH : Holds m h page L fl) :
    lastFree m h = 0 ∨ ∃ b ∈ L.blocks, b.used = false ∧ b.addr + b.size = L.final := by
  rcases List.eq_nil_or_concat' L.blocks with hn | ⟨xs, b, hn⟩
  · have hc := L.contiguous
    rw [hn] at hc
    left
    unfold lastFree isPreviousBlockFree
    rw [hH.control.final_eq, ← show L.start = L.final from hc, hH.tags.dummy_back]
    rfl
  · have hb : b ∈ L.blocks := by simp [hn]
    have he : b.addr + b.size = L.final := (L.split_at hn).2
    cases hu : b.used with
    | false => exact Or.inr ⟨b, hb, hu, he⟩
    | true =>
      left
      have hback : backFlag m L.final = b.flag := by rw [← he]; exact hH.tags.back b hb
      unfold lastFree isPreviousBlockFree
      rw [hH.control.final_eq, hback, and_blockUsed, Block.flag_mod hb]
      simp [hu]

theorem Valid.length_live (hV : Valid A s L fl owned) : 16 * s.live.length ≤ L.final - L.start := by
  have hsub : (owned.map Prod.fst).length ≤ L.blocks.length := by
    refine (List.subperm_of_subset hV.nodup fun b hb => ?_).length_le
    obtain ⟨o, ho, rfl⟩ := List.mem_map.mp hb
    exact (hV.owns o ho).1
  have := L.length_le
  rw [← hV.live_eq]
  rw [List.length_map] at hsub ⊢
  omega

theorem Valid.single (hV : Valid A s L fl owned) (hc : Complete L owned) (hl : s.live = [])
    (hne : L.start < L.final) : ∃ b ∈ L.blocks, b.used = false ∧ b.size = L.final - L.start := by
  refine Layout.single (fun b hb => ?_) hne
  rw [← Bool.not_eq_true]
  intro hu
  have hm := hc b hb hu
  have ho : owned = [] := by
    have he := hV.live_eq
    rw [hl] at he
    exact List.map_eq_nil_iff.mp he
  simp [ho] at hm

end Rtems.Heap
