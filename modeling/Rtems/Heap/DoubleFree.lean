import Rtems.Heap.Space
import Rtems.Heap.Theorems
import Rtems.Library.Transition

/-! # A pointer that is freed twice -/

namespace Rtems.Heap

open Transition

variable {A : Area} {s s' : State} {m m' : Memory} {h page n p w : Nat} {L L' : Layout} {fl : List Nat}
  {owned : List (Block × Nat × Nat)} {b c d : Block}

def Deep (d : Block) (w : Nat) : Prop := d.addr + 16 ≤ w ∧ w + 4 ≤ d.addr + d.size

theorem Deep.noLink (hw : Deep d w) (hp : Placed h L.start L.final) (hd : d ∈ L.blocks) :
    NoLink h L w := by
  obtain ⟨hw1, hw2⟩ := hw
  have hin : Inside d w := ⟨by omega, hw2⟩
  intro x hx
  by_cases hxd : x = d.addr
  · omega
  · exact ⟨hin.ne_link hp hd hx hxd (Or.inl rfl), hin.ne_link hp hd hx hxd (Or.inr rfl)⟩

theorem Deep.ne_tag (hw : Deep d w) (hd : d ∈ L.blocks) (hb : b ∈ L.blocks) :
    w ≠ b.addr + 4 ∧ w ≠ b.addr + b.size := by
  obtain ⟨hw1, hw2⟩ := hw
  rcases L.apart hb hd with rfl | h | h <;> omega

theorem noLink_front (hp : Placed h L.start L.final) (hb : b ∈ L.blocks) : NoLink h L (b.addr + 4) :=
  fun _ hx => ⟨((hx.ne_tag hp (Or.inl rfl)).1 b hb).1, ((hx.ne_tag hp (Or.inr rfl)).1 b hb).1⟩

theorem noLink_back (hp : Placed h L.start L.final) (hb : b ∈ L.blocks) : NoLink h L (b.addr + b.size) :=
  fun _ hx => ⟨((hx.ne_tag hp (Or.inl rfl)).1 b hb).2, ((hx.ne_tag hp (Or.inr rfl)).1 b hb).2⟩

theorem Framed.deep (hF : Framed m m' h L) (hp : Placed h L.start L.final) (hd : d ∈ L.blocks)
    (hw : Deep d w) : m' w = m w := by
  rcases hF w (hw.noLink hp hd) with h | ⟨-, b, hb, h⟩
  · exact h
  · have := hw.ne_tag hd hb
    omega

theorem Framed.even (hF : Framed m m' h L) (hw : NoLink h L w) (he : m w % 2 = 0) : m' w % 2 = 0 := by
  rcases hF w hw with h | ⟨h, -⟩
  · rw [h]
    exact he
  · exact h

/-! ## What is left of a block -/

structure Buried (L : Layout) (c : Block) (p : Nat) (d : Block) : Prop where
  mem : d ∈ L.blocks
  free : d.used = false
  start_le : d.addr = c.addr ∨ d.addr + 16 ≤ c.addr
  le_end : c.addr + c.size ≤ d.addr + d.size
  deep : d.addr + 20 ≤ p
  aligned : c.addr % 4 = 0
  size_aligned : c.size % 4 = 0
  size_ge : 16 ≤ c.size

structure Remains (m : Memory) (c : Block) (p n : Nat) (d : Block) : Prop where
  area : UserArea m c p n
  refused : m (c.addr + 4) % 2 = 0 ∨
    d.addr < c.addr ∧ m (c.addr + 4) = c.size + 1 ∧ m (c.addr + c.size) % 2 = 0

namespace Remains

theorem congr (hR : Remains m c p n d) (hB : Buried L c p d)
    (hm : ∀ w, d.addr + 4 ≤ w → w ≤ d.addr + d.size → m' w = m w) : Remains m' c p n d := by
  have hroom := hR.area.room
  have hs := hB.start_le
  have he := hB.le_end
  have h20 := hB.deep
  have h16 := hB.size_ge
  refine ⟨hR.area.congr (hm _ (by omega) (by omega)), ?_⟩
  rw [hm (c.addr + 4) (by omega) (by omega), hm (c.addr + c.size) (by omega) (by omega)]
  exact hR.refused

theorem framed (hR : Remains m c p n d) (hB : Buried L c p d) (hp : Placed h L.start L.final)
    (hF : Framed m m' h L) : Remains m' c p n d := by
  have hroom := hR.area.room
  have hs := hB.start_le
  have he := hB.le_end
  have h20 := hB.deep
  have h16 := hB.size_ge
  have hc4 := hB.aligned
  have hcs4 := hB.size_aligned
  have hd4 := L.addr_aligned hB.mem
  have hds4 := L.size_aligned d hB.mem
  refine ⟨hR.area.congr (hF.deep hp hB.mem ⟨by omega, by omega⟩), ?_⟩
  rcases hR.refused with h0 | ⟨hlt, h1, h2⟩
  · -- the front tag is that of the free block or a word inside it
    left
    rcases hs with hs | hs
    · rw [← hs] at h0 ⊢
      exact hF.even (noLink_front hp hB.mem) h0
    · rw [hF.deep hp hB.mem ⟨by omega, by omega⟩]
      exact h0
  · right
    refine ⟨hlt, (hF.deep hp hB.mem ⟨by omega, by omega⟩).trans h1, ?_⟩
    by_cases hend : c.addr + c.size = d.addr + d.size
    · rw [hend] at h2 ⊢
      exact hF.even (noLink_back hp hB.mem) h2
    · rw [hF.deep hp hB.mem ⟨by omega, by omega⟩]
      exact h2

theorem free_eq (hR : Remains m c p n d) (hB : Buried L c p d) (hH : Holds m h page L fl) :
    Heap.free m h p = (m, false) := by
  have he := hB.le_end
  have hfi := L.le_final hB.mem
  have hfit := hH.placed.fits
  have hcs4 := hB.size_aligned
  have hub : userBlockAt m p = c.addr := hR.area.userBlockAt_of_le (by omega)
  unfold Heap.free
  simp only [hub]
  rcases hR.refused with h0 | ⟨-, h1, h2⟩
  · have hfree : isBlockFree m c.addr = true := by
      unfold isBlockFree
      rw [and_blockUsed]
      exact decide_eq_true h0
    rw [if_pos (Or.inr hfree)]
  · have hsize : blockSize m c.addr = c.size := by
      unfold blockSize frontFlag
      rw [h1, clearUsed_eq (by omega)]
      omega
    have hnext : blockAt c.addr c.size = c.addr + c.size := addWord_eq (by omega)
    have htags : frontFlag m c.addr ≠ backFlag m (c.addr + c.size) := by
      unfold frontFlag backFlag
      omega
    simp only [hsize, hnext]
    rw [if_pos (c := ¬ isBlockIn m h (c.addr + c.size) = true ∨ _) (Or.inr htags), ite_self]

end Remains

theorem Buried.within (hB : Buried L c p d) (hs : L'.start = L.start) (hf : L.final ≤ L'.final)
    (hused : ∀ b ∈ L'.blocks, b.used = true → b ∈ L.blocks) :
    ∃ d', Buried L' c p d' ∧ ∀ m n, Remains m c p n d → Remains m c p n d' := by
  obtain ⟨d', hd', hfree, hst, hend⟩ := Layout.free_within hs hf hused hB.mem fun hu => by
    rw [hB.free] at hu
    cases hu
  have hs' := hB.start_le
  have he := hB.le_end
  have h20 := hB.deep
  refine ⟨d', ⟨hd', hfree, by omega, by omega, by omega, hB.aligned, hB.size_aligned, hB.size_ge⟩,
    fun m n hR => ⟨hR.area, ?_⟩⟩
  rcases hR.refused with h0 | ⟨hlt, h1, h2⟩
  · exact Or.inl h0
  · exact Or.inr ⟨by omega, h1, h2⟩

/-! ## The first call -/

/-- Joined to the block before it only, or with the offset word behind the links. -/
def Detected (m : Memory) (p : Nat) : Prop :=
  let theBlock := userBlockAt m p
  isPreviousBlockFree m theBlock = true ∧
      isBlockFree m (blockAt theBlock (blockSize m theBlock)) = false ∨
    isPreviousBlockFree m theBlock = false ∧ theBlock + 20 ≤ p

instance (m : Memory) (p : Nat) : Decidable (Detected m p) := by unfold Detected; infer_instance

theorem Freed.used_mem {fl'} (hF : Freed m m' h page L L' fl' c) :
    ∀ b ∈ L'.blocks, b.used = true → b ∈ L.blocks := by
  intro b hb hbu
  have hne : b ≠ c := by
    rintro rfl
    exact hF.gone hb
  exact (hF.same.mem_iff b hbu hne).mp hb

theorem Freed.part {fl'} (hF : Freed m m' h page L L' fl' c) (hc : c ∈ L.blocks) :
    ∃ d ∈ L'.blocks, d.used = false ∧ (d.addr = c.addr ∨ d.addr + 16 ≤ c.addr) ∧
      c.addr + c.size ≤ d.addr + d.size ∧ m' (d.addr + 4) % 2 = 0 := by
  obtain ⟨d, hd, hdu, hds, hde⟩ := Layout.free_within hF.start_eq (Nat.le_of_eq hF.final_eq.symm)
    hF.used_mem hc fun _ => hF.gone
  refine ⟨d, hd, hdu, hds, hde, ?_⟩
  rw [show m' (d.addr + 4) = d.flag from hF.holds.tags.front d hd, Block.flag_mod hd, hdu]
  rfl

theorem Coalesced.eq_previous (hC : Coalesced m h L c m') (hH : Holds m h page L fl)
    (hpf : isPreviousBlockFree m c.addr = true) (hnf : isBlockFree m (c.addr + c.size) = false) :
    ∃ pr ∈ L.blocks, pr.addr + pr.size = c.addr ∧ m' = mergeMemory m pr.addr (pr.size + c.size) := by
  have hused : ∀ xs ys, L.blocks = xs ++ c :: ys → (∀ x ∈ xs.getLast?, x.used = true) → False := by
    intro xs ys hbs hl
    rcases hH.previous_cases hbs with ⟨xs', x, rfl, hxu, -⟩ | ⟨h, -⟩
    · have := hl x (by simp)
      rw [hxu] at this
      cases this
    · rw [hpf] at h
      cases h
  cases hC with
  | @both pr nx xs ys hbs _ hnu =>
    have hbs' : L.blocks = xs ++ [pr] ++ c :: nx :: ys := by simpa using hbs
    rcases hH.next_cases hbs' with ⟨-, -, -, -, h, -⟩ | ⟨-, h⟩
    · rw [hnf] at h
      cases h
    · have := h nx rfl
      rw [hnu] at this
      cases this
  | @previous pr xs ys hbs hpu hr =>
    obtain ⟨q, h1, -⟩ := contiguous_append.mp (hbs ▸ L.contiguous)
    obtain ⟨r, -, hpr, hcr, -⟩ := contiguous_append.mp h1
    exact ⟨pr, by rw [hbs]; simp, by omega, rfl⟩
  | @next nx xs ys hbs _ hl => exact (hused xs (nx :: ys) (by simpa using hbs) hl).elim
  | @alone xs ys hbs hl _ => exact (hused xs ys (by simpa using hbs) hl).elim

section First

variable {fl' : List Nat} (hH : Holds m h page L fl) (hc : c ∈ L.blocks) (ha : UserArea m c p n)
  (hF : Freed m m' h page L L' fl' c)

include hH hc ha hF

theorem Coalesced.buried_previous (hC : Coalesced m h L c m') (hu : c.used = true)
    (hpf : isPreviousBlockFree m c.addr = true) (hnf : isBlockFree m (c.addr + c.size) = false) :
    ∃ d, Buried L' c p d ∧ Remains m' c p n d := by
  have hc16 := L.size_ge c hc
  have hc4 := L.size_aligned c hc
  have hst := ha.start
  have hro := ha.room
  obtain ⟨d, hd, hdu, hds, hde, hdf⟩ := hF.part hc
  obtain ⟨pr, hpr, hprc, rfl⟩ := hC.eq_previous hH hpf hnf
  have hpr16 := L.size_ge pr hpr
  have hpr4 := L.size_aligned pr hpr
  have hfront : mergeMemory m pr.addr (pr.size + c.size) (c.addr + 4) = c.size + 1 := by
    rw [mergeMemory_same (by omega) (by omega)]
    have := hH.tags.front c hc
    unfold frontFlag Block.flag at this
    rw [this, hu]
    rfl
  have hback : mergeMemory m pr.addr (pr.size + c.size) (c.addr + c.size) = pr.size + c.size := by
    rw [show c.addr + c.size = pr.addr + (pr.size + c.size) by omega]
    exact Memory.store_same _ _ _
  have hne : d.addr ≠ c.addr := by
    intro he
    rw [he, hfront] at hdf
    omega
  exact ⟨d, ⟨hd, hdu, hds, hde, by omega, L.addr_aligned hc, hc4, hc16⟩,
    ha.congr (mergeMemory_same (by omega) (by omega)), Or.inr ⟨by omega, hfront, by omega⟩⟩

theorem Framed.buried_front (hFr : Framed m m' h L) (hpf : isPreviousBlockFree m c.addr = false)
    (h20 : c.addr + 20 ≤ p) : ∃ d, Buried L' c p d ∧ Remains m' c p n d := by
  have hc16 := L.size_ge c hc
  have hro := ha.room
  obtain ⟨d, hd, hdu, hds, hde, hdf⟩ := hF.part hc
  have hda : d.addr = c.addr := by
    obtain ⟨xs, ys, hbs⟩ := List.append_of_mem hc
    have hx := (L.split_at hbs).1
    have hdst := L'.start_le hd
    rw [hF.start_eq] at hdst
    rcases hH.previous_cases hbs with ⟨-, -, -, -, h, -⟩ | ⟨-, hused⟩
    · rw [hpf] at h
      cases h
    · rcases List.eq_nil_or_concat' xs with rfl | ⟨xs', x, rfl⟩
      · have : L.start = c.addr := hx
        omega
      · -- the block before is still there
        obtain ⟨q, -, hq, hxc⟩ := contiguous_append.mp hx
        have hxe : x.addr + x.size = c.addr := by rw [hq]; exact hxc
        have hxu := hused x (by simp)
        have hxne : x ≠ c := by
          rintro rfl
          omega
        have hxm := (hF.same.mem_iff x hxu hxne).mpr (by rw [hbs]; simp)
        rcases L'.apart hd hxm with rfl | h | h
        · rw [hdu] at hxu
          cases hxu
        · omega
        · omega
  refine ⟨d, ⟨hd, hdu, hds, hde, by omega, L.addr_aligned hc, L.size_aligned c hc, hc16⟩,
    ha.congr (hFr.deep hH.placed hc ⟨by omega, by omega⟩), Or.inl ?_⟩
  rw [← hda]
  exact hdf

end First

def Refuses (A : Area) (p : Nat) (s : State) : Prop :=
  ∃ L fl owned c n d, Valid A s L fl owned ∧ Buried L c p d ∧ Remains s.mem c p n d

theorem Refuses.free_eq (hR : Refuses A p s) : Heap.free s.mem A.control p = (s.mem, false) := by
  obtain ⟨L, fl, owned, c, n, d, hV, hB, hR⟩ := hR
  exact hR.free_eq hB hV.holds

theorem Valid.free_refuses (hV : Valid A s L fl owned) (hp : Permitted A.control s (.free p))
    (hd : Detected s.mem p) (he : perform A.control s (.free p) = some s') : Refuses A p s' := by
  obtain ⟨m', L', fl', o, k1, k2, hfree, hk, hop, hC, hF, hV'⟩ := hV.free_cases hp
  have hs' : s' = ⟨m', s.live.eraseP fun e => e.1 = p⟩ := by
    simp only [perform, hfree, Option.some.injEq] at he
    exact he.symm
  obtain ⟨hc, hu, ha⟩ := hV.owns o (by rw [hk]; simp)
  rw [hop] at ha
  have hk' := hV.holds.accepted hc hu ha
  unfold Detected at hd
  simp only [hk'.block_eq, hk'.size_eq, hk'.next_eq] at hd
  have hb : ∃ d, Buried L' o.1 p d ∧ Remains m' o.1 p o.2.2 d := by
    rcases hd with ⟨hpf, hnf⟩ | ⟨hpf, h20⟩
    · exact hC.buried_previous hV.holds hc ha hF hu hpf hnf
    · exact (hC.freed hV.holds hu).2.buried_front hV.holds hc ha hF hpf h20
  obtain ⟨d, hB, hR⟩ := hb
  subst hs'
  exact ⟨L', fl', k1 ++ k2, o.1, o.2.2, d, hV', hB, hR⟩

/-! ## Until something is allocated -/

def Returning (A : Area) (s : State) (r : Request) : Prop := Permitted A.control s r ∧ ∀ n, r ≠ .allocate n

theorem Refuses.free {q} (hR : Refuses A p s) (hp : Permitted A.control s (.free q))
    (he : perform A.control s (.free q) = some s') : Refuses A p s' := by
  obtain ⟨L, fl, owned, c, n, d, hV, hB, hR⟩ := hR
  obtain ⟨m', L', fl', o, k1, k2, hfree, hk, -, hC, hF, hV'⟩ := hV.free_cases hp
  simp only [perform, hfree, Option.some.injEq] at he
  subst he
  obtain ⟨hc, hu, -⟩ := hV.owns o (by rw [hk]; simp)
  have hR' := hR.framed hB hV.holds.placed (hC.freed hV.holds hu).2
  obtain ⟨d', hB', hd'⟩ := hB.within hF.start_eq (Nat.le_of_eq hF.final_eq.symm) hF.used_mem
  exact ⟨L', fl', _, c, n, d', hV', hB', hd' m' n hR'⟩

theorem Refuses.write {a v} (hR : Refuses A p s) (hp : Permitted A.control s (.write a v)) :
    Refuses A p ⟨s.mem.store a v, s.live⟩ := by
  obtain ⟨L, fl, owned, c, n, d, hV, hB, hR⟩ := hR
  refine ⟨L, fl, owned, c, n, d, hV.store hp, hB, hR.congr hB fun w h1 h2 => Memory.store_ne _ _ ?_⟩
  -- the word written is inside a block that is used
  obtain ⟨-, e, he, hle, hlt⟩ := hp
  rw [← hV.live_eq] at he
  obtain ⟨o, ho, rfl⟩ := List.mem_map.mp he
  obtain ⟨hm, hu, hua⟩ := hV.owns o ho
  have hst := hua.start
  have hro := hua.room
  have hfree := hB.free
  rcases L.apart hm hB.mem with h | h | h
  · rw [← h, hu] at hfree
    cases hfree
  · omega
  · omega

theorem Refuses.extend {a k} (hR : Refuses A p s) (hp : Permitted A.control s (.extend a k)) :
    Refuses A p ⟨(Heap.extend s.mem A.control a k).1, s.live⟩ := by
  obtain ⟨L, fl, owned, c, n, d, hV, hB, hR⟩ := hR
  rcases hV.extend_cases hp with ⟨hm, -⟩ | ⟨m', L', fl', ha, he, hf, hS, hg, hV'⟩
  · rw [hm]
    exact ⟨L, fl, owned, c, n, d, hV, hB, hR⟩
  · have hfin := hV.holds.control.final_eq
    have hsta := hV.holds.control.start_eq
    obtain ⟨h4, h16, hfit, hout⟩ := hp.2 (by rw [hfin]; exact ha)
    subst ha
    have hpl : Placed A.control L.start (L.final + k) := ⟨by omega, by omega⟩
    have hG := grow_holds hV.holds h4 h16 hpl
    -- the free block is not touched when the new area is laid out, and then another block is freed
    have hBg : Buried (L.grow k h4 h16) c p d := { hB with mem := by simp [Layout.grow, hB.mem] }
    have hRg : Remains (growMemory s.mem A.control L.final k) c p n d := by
      have hst := L.start_le hB.mem
      have hle := L.le_final hB.mem
      refine hR.congr hB fun w h1 h2 => growMemory_same (by omega) ?_ (Or.inl (by omega))
      omega
    obtain ⟨m1, hfree, hC⟩ := Heap.free_cases hG (grow_mem h4 h16) rfl (grow_area h16)
    obtain rfl : m1 = m' := by
      rw [extend_eq hV.holds h4 hpl, hfree] at he
      exact congrArg Prod.fst he
    have hR' := hRg.framed hBg hG.placed (hC.freed hG rfl).2
    have hused : ∀ b ∈ L'.blocks, b.used = true → b ∈ L.blocks := by
      intro b hb hbu
      have hne : b ≠ ⟨L.final, k, true⟩ := by
        rintro rfl
        exact hg hb
      exact (hS.mem_iff b hbu hne).mp hb
    obtain ⟨d', hB', hd'⟩ := hB.within (hV'.start_eq.trans hV.start_eq.symm) (by omega) hused
    rw [he]
    exact ⟨L', fl', owned, c, n, d', hV', hB', hd' _ n hR'⟩

theorem Refuses.step {r} (hR : Refuses A p s) (hr : Returning A s r)
    (he : perform A.control s r = some s') : Refuses A p s' := by
  cases r with
  | allocate n => exact absurd rfl (hr.2 n)
  | free q => exact hR.free hr.1 he
  | extend a k =>
    cases he
    exact hR.extend hr.1
  | write a v =>
    cases he
    exact hR.write hr.1

/-! ## The second call -/

/-- A free that its words tell is refused until something is allocated. -/
theorem free_twice_refused (A : Area) {s s₁ s₂ : State} {p : Nat} (hs : Reachable A (Sound A) s)
    (hp : Permitted A.control s (.free p)) (hd : Detected s.mem p)
    (he : perform A.control s (.free p) = some s₁)
    (h : Steps (perform A.control) (Returning A) s₁ s₂) :
    (free s.mem A.control p).2 = true ∧ free s₂.mem A.control p = (s₂.mem, false) := by
  obtain ⟨L, fl, owned, hV, -⟩ := hs.valid fun _ _ h => h
  obtain ⟨m', L', fl', o, k₁, k₂, hfree, -⟩ := hV.free_cases hp
  refine ⟨by rw [hfree], ?_⟩
  exact (h.invariant (I := Refuses A p) (fun hR hr he => hR.step hr he)
    (hV.free_refuses hp hd he)).free_eq

def Plain (A : Area) (s : State) (r : Request) : Prop :=
  Permitted A.control s r ∧ ∀ n ∈ (match r with | .allocate n => some n | _ => none), Unwrapped A.page n

instance (A : Area) (s : State) (r : Request) : Decidable (Plain A s r) := by
  unfold Plain; infer_instance

theorem Reachable.plain (hs : Reachable A (Sound A) s) (h : Steps (perform A.control) (Plain A) s s') :
    Reachable A (Sound A) s' := by
  refine h.invariant (I := Reachable A (Sound A)) (fun hs hp he => hs.step _ hp.1 ?_ he) hs
  rename_i r _
  cases r with
  | allocate n => exact Or.inl (hp.2 n rfl)
  | free p => trivial
  | extend a n => trivial
  | write a v => trivial

theorem free_twice_refused_smallArea :
    ∃ s, run (checked (perform 0) (Plain smallArea)) [.allocate 10] ⟨smallArea.memory fun _ => 0, []⟩ = some s ∧
      ∃ s₁ s₂, perform 0 s (.free 296) = some s₁ ∧ perform 0 s₁ (.extend 320 16) = some s₂ ∧
        free s₂.mem 0 296 = (s₂.mem, false) := by
  refine exists_of_map (fun s => (s.live, decide (Detected s.mem 296), decide (Permitted 0 ⟨(free s.mem 0 296).1, []⟩ (.extend 320 16)))) ([(296, 10)], true, true)
    (by decide +kernel) fun s hs he => ?_
  simp only [Prod.mk.injEq, decide_eq_true_eq] at he
  obtain ⟨hl, hd, hx⟩ := he
  have hreach := (Reachable.initialized fun _ => 0).plain (.run_checked .refl hs)
  refine ⟨_, _, rfl, rfl, ?_⟩
  refine (free_twice_refused smallArea hreach ⟨(296, 10), by rw [hl]; simp, rfl⟩ hd rfl
    (.tail .refl (m := .extend 320 16) ⟨?_, by simp⟩ rfl)).2
  exact hx

/-- The block between two free ones is freed twice. -/
theorem free_twice_accepted :
    ∃ s s₁, run (checked (perform 0) (Plain smallArea)) [.allocate 10, .allocate 10, .allocate 10,
        .free 296, .free 232] ⟨smallArea.memory fun _ => 0, []⟩ = some s ∧
      Reachable smallArea (Sound smallArea) s ∧ (264, 10) ∈ s.live ∧
      perform 0 s (.free 264) = some s₁ ∧ (free s.mem 0 264).2 = true ∧
      (free s₁.mem 0 264).2 = true ∧ frontFlag s₁.mem 64 = 248 ∧
      frontFlag (free s₁.mem 0 264).1 64 = 312 := by
  have h : (run (checked (perform 0) (Plain smallArea)) [.allocate 10, .allocate 10, .allocate 10,
      .free 296, .free 232] ⟨smallArea.memory fun _ => 0, []⟩).map (fun s => (s.live,
        (free s.mem 0 264).2, (free (free s.mem 0 264).1 0 264).2, frontFlag (free s.mem 0 264).1 64,
        frontFlag (free (free s.mem 0 264).1 0 264).1 64)) =
      some ([(264, 10)], true, true, 248, 312) := by decide +kernel
  obtain ⟨s, hs, he⟩ := Option.map_eq_some_iff.mp h
  simp only [Prod.mk.injEq] at he
  obtain ⟨hl, h1, h2, h3, h4⟩ := he
  exact ⟨s, _, hs, (Reachable.initialized fun _ => 0).plain (.run_checked .refl hs),
    by rw [hl]; simp, rfl, h1, h2, h3, h4⟩

end Rtems.Heap
