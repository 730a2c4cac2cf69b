import Rtems.Heap.Lemmas.Allocate

/-! # `_Heap_Free` keeps the heap -/

namespace Rtems.Heap

open List (mem_append mem_cons mem_singleton not_mem_nil)

variable {m : Memory} {h page : Nat} {L : Layout} {fl : List Nat}

/-! ## One free block out of several -/

def mergeMemory (m : Memory) (a t : Nat) : Memory := (m.store (a + 4) t).store (a + t) t

theorem mergeMemory_same {a t w} (h1 : w ≠ a + 4) (h2 : w ≠ a + t) :
    mergeMemory m a t w = m w := by
  unfold mergeMemory
  rw [Memory.store_ne _ _ h2, Memory.store_ne _ _ h1]

/-- The blocks `mid` are one free block; the free list is still to be adjusted. -/
structure Merged (m : Memory) (h page : Nat) (L L' : Layout) (fl : List Nat) (mid : List Block)
    (a t : Nat) : Prop where
  start_eq : L'.start = L.start
  final_eq : L'.final = L.final
  placed : Placed h L'.start L'.final
  tags : Tags (mergeMemory m a t) L'
  control : Control (mergeMemory m a t) h page L'
  links : Linked (next (mergeMemory m a t)) (previous (mergeMemory m a t)) (head h :: (fl ++ [tail h]))
  inside : ∀ d ∈ L.blocks, d ∉ mid → ∀ w, Inside d w → mergeMemory m a t w = m w
  free_iff : ∀ x, (∃ d ∈ L'.blocks, d.addr = x ∧ d.used = false) ↔
    x = a ∨ (∃ d ∈ L.blocks, d.addr = x ∧ d.used = false) ∧ ∀ d ∈ mid, d.addr ≠ x
  starts : ∀ x, Starts L x → (∀ d ∈ mid, d.addr ≠ x) ∨ x = a → Starts L' x

section

variable (hH : Holds m h page L fl)

include hH

theorem merge_spec {b xs mid ys t} (hbs : L.blocks = xs ++ b :: mid ++ ys)
    (ht : ((b :: mid).map Block.size).sum = t) (hl : ∀ x ∈ xs.getLast?, x.used = true)
    (hr : ∀ y ∈ ys.head?, y.used = true) :
    ∃ L', L'.blocks = xs ++ [⟨b.addr, t, false⟩] ++ ys ∧ Contiguous b.addr (b :: mid) (b.addr + t) ∧
      Merged m h page L L' fl (b :: mid) b.addr t := by
  obtain ⟨q, h1, hy⟩ := contiguous_append.mp (hbs ▸ L.contiguous)
  obtain ⟨a, hx, hm⟩ := contiguous_append.mp h1
  obtain rfl : b.addr = a := hm.1
  obtain rfl : b.addr + t = q := ht ▸ hm.sum_size
  have hmem : ∀ d, d ∈ L.blocks ↔ (d ∈ xs ∨ d ∈ b :: mid) ∨ d ∈ ys := by
    intro d; rw [hbs]; simp only [mem_append]
  have hb : b ∈ L.blocks := (hmem b).mpr (Or.inl (Or.inr List.mem_cons_self))
  have hb16 := L.size_ge b hb
  have hb4 := L.addr_aligned hb
  have hmt := hm.2.le
  have hxa := hx.le
  have hyf := hy.le
  have hout := hH.placed.outside
  have h4 : t % 4 = 0 := by
    have := (hm.aligned hb4 fun d hd => L.size_aligned d ((hmem d).mpr (Or.inl (Or.inr hd)))).1
    omega
  obtain ⟨L', hs, hf, hbs'⟩ := Layout.exchange hbs [⟨b.addr, t, false⟩]
    (fun p q hpq => ⟨hpq.1, ht ▸ hpq.sum_size⟩) (by simp; omega) (by simpa using h4)
    ((hbs ▸ L.separated).between hl hr)
  -- a block lies before, in or behind the merged range
  have hwhere : ∀ d ∈ L.blocks, d.addr + d.size ≤ b.addr ∨
      (b.addr ≤ d.addr ∧ d.addr + d.size ≤ b.addr + t) ∨ b.addr + t ≤ d.addr := by
    intro d hd
    rcases (hmem d).mp hd with (hd | hd) | hd
    · exact Or.inl (hx.bounds hd).2
    · exact Or.inr (Or.inl (hm.bounds hd))
    · exact Or.inr (Or.inr (hy.bounds hd).1)
  refine ⟨L', hbs', hm, hs, hf, by rw [hs, hf]; exact hH.placed, ?_, ?_, ?_, ?_, ?_, ?_⟩
  · refine hH.tags.exchange hbs hbs' hs hf hx hy
      (fun w hw => mergeMemory_same (by omega) (by omega)) ?_
    simp only [mem_singleton, forall_eq, frontFlag, backFlag, Block.flag, mergeMemory,
      Bool.false_eq_true, ↓reduceIte, Nat.add_zero]
    refine ⟨?_, Memory.store_same _ _ _⟩
    rw [Memory.store_ne _ _ (by omega), Memory.store_same]
  · refine hH.control.congr ?_ ?_ ?_ hs hf <;> exact mergeMemory_same (by omega) (by omega)
  · refine hH.list.congr (fun x hx => ?_) fun x hx => ?_
    all_goals
      rcases hx with hx | hx
      · simp only [head, tail] at hx
        exact mergeMemory_same (by omega) (by omega)
      · obtain ⟨d, hd, rfl⟩ := hH.list.starts x hx
        have hds := L.size_ge d hd
        have hdb := L.apart hd hb
        rcases hwhere d hd with hd' | hd' | hd'
        · exact mergeMemory_same (by omega) (by omega)
        · refine mergeMemory_same ?_ (by omega)
          rcases hdb with rfl | h | h <;> omega
        · exact mergeMemory_same (by omega) (by omega)
  · rintro d hd hdm w ⟨hw1, hw2⟩
    have hd' : d.addr + d.size ≤ b.addr ∨ b.addr + t ≤ d.addr := by
      rcases (hmem d).mp hd with (hd | hd) | hd
      · exact Or.inl (hx.bounds hd).2
      · exact absurd hd hdm
      · exact Or.inr (hy.bounds hd).1
    exact mergeMemory_same (by omega) (by omega)
  · intro x
    rw [L'.free_iff hbs', L.free_iff hbs]
    constructor
    · rintro (⟨d, hd, rfl, -⟩ | ⟨d, hd, rfl, hdu⟩)
      · rw [mem_singleton.mp hd]
        exact Or.inl rfl
      · exact Or.inr ⟨Or.inr ⟨d, hd, rfl, hdu⟩, fun e he => (L.addr_ne hbs hd he).symm⟩
    · rintro (rfl | ⟨⟨d, hd, rfl, -⟩ | hd, hdm⟩)
      · exact Or.inl ⟨_, List.mem_cons_self, rfl, rfl⟩
      · exact absurd rfl (hdm d hd)
      · exact Or.inr hd
  · rintro x ⟨d, hd, rfl⟩ hx'
    unfold Starts
    simp only [hbs', mem_append, mem_singleton]
    rcases hx' with hx' | hx'
    · rcases (hmem d).mp hd with (hd | hd) | hd
      · exact ⟨d, Or.inl (Or.inl hd), rfl⟩
      · exact absurd rfl (hx' d hd)
      · exact ⟨d, Or.inr hd, rfl⟩
    · exact ⟨⟨b.addr, t, false⟩, Or.inl (Or.inr rfl), hx'.symm⟩

theorem Holds.isBlockFree_eq {b} (hb : b ∈ L.blocks) :
    isBlockFree m b.addr = !b.used := by
  unfold isBlockFree
  rw [and_blockUsed, hH.tags.front b hb, Block.flag_mod hb]
  cases b.used <;> rfl

theorem Holds.previous_cases {c xs ys} (hbs : L.blocks = xs ++ c :: ys) :
    (∃ xs' p, xs = xs' ++ [p] ∧ p.used = false ∧ isPreviousBlockFree m c.addr = true ∧
      previousBlock m c.addr = p.addr ∧ p.addr + p.size = c.addr) ∨
    (isPreviousBlockFree m c.addr = false ∧ ∀ x ∈ xs.getLast?, x.used = true) := by
  obtain ⟨hx, -⟩ := L.split_at hbs
  rcases List.eq_nil_or_concat' xs with rfl | ⟨xs', p, rfl⟩
  · right
    refine ⟨?_, by simp⟩
    unfold isPreviousBlockFree
    rw [← show L.start = c.addr from hx, hH.tags.dummy_back]
    rfl
  · obtain ⟨q, -, hq, hpc⟩ := contiguous_append.mp hx
    have hpc : p.addr + p.size = c.addr := by rw [hq]; exact hpc
    have hp : p ∈ L.blocks := by rw [hbs]; simp
    have hfin := L.le_final hp
    have hfit := hH.placed.fits
    have hback : backFlag m c.addr = p.flag := by rw [← hpc]; exact hH.tags.back p hp
    unfold isPreviousBlockFree previousBlock
    rw [hback, and_blockUsed, Block.flag_mod hp, Block.clearUsed_flag hH.placed hp,
      subWord_eq (by omega) (by omega)]
    cases hu : p.used with
    | false => exact Or.inl ⟨xs', p, rfl, hu, rfl, by omega, hpc⟩
    | true => exact Or.inr ⟨rfl, by simp [hu]⟩

theorem Holds.next_cases {c xs ys} (hbs : L.blocks = xs ++ c :: ys) :
    (∃ n ys', ys = n :: ys' ∧ n.used = false ∧ isBlockFree m (c.addr + c.size) = true ∧
      n.addr = c.addr + c.size) ∨
    (isBlockFree m (c.addr + c.size) = false ∧ ∀ y ∈ ys.head?, y.used = true) := by
  obtain ⟨-, hy⟩ := L.split_at hbs
  cases ys with
  | nil =>
    right
    refine ⟨?_, by simp⟩
    unfold isBlockFree
    rw [show c.addr + c.size = L.final from hy, hH.tags.dummy_front]
    rfl
  | cons n ys =>
    have hn : n ∈ L.blocks := by rw [hbs]; simp
    have hfree := hH.isBlockFree_eq hn
    rw [hy.1] at hfree
    cases hu : n.used with
    | false => exact Or.inl ⟨n, ys, rfl, hu, by simpa [hu] using hfree, hy.1⟩
    | true => exact Or.inr ⟨by simpa [hu] using hfree, by simp [hu]⟩

end

/-! ## The four cases -/

structure Freed (m m' : Memory) (h page : Nat) (L L' : Layout) (fl' : List Nat) (c : Block) :
    Prop where
  holds : Holds m' h page L' fl'
  start_eq : L'.start = L.start
  final_eq : L'.final = L.final
  same : SameUsed m m' L L' c
  gone : c ∉ L'.blocks

theorem Holds.avoids {mid : List Block} {x} (hH : Holds m h page L fl) (hx : x ∈ fl)
    (hm : ∀ d ∈ mid, d ∈ L.blocks) (hn : ∀ d ∈ mid, d.used = false → d.addr ≠ x) : ∀ d ∈ mid, d.addr ≠ x := by
  rintro d hd rfl
  cases hu : d.used with
  | false => exact hn d hd hu rfl
  | true => exact hH.list.used_notMem (hm d hd) hu hx

theorem Merged.starts_of_mem {L' mid a t x} (hM : Merged m h page L L' fl mid a t)
    (hH : Holds m h page L fl) (hm : ∀ d ∈ mid, d ∈ L.blocks) (hx : x ∈ fl)
    (hn : x = a ∨ ∀ d ∈ mid, d.used = false → d.addr ≠ x) : Starts L' x :=
  hM.starts x (hH.list.starts x hx) (hn.symm.imp (hH.avoids hx hm) id)

theorem Freed.of_merged {m' L' fl' c} {a t xs mid ys} (hM : Merged m h page L L' fl mid a t)
    (hbs : L.blocks = xs ++ mid ++ ys) (hbs' : L'.blocks = xs ++ [⟨a, t, false⟩] ++ ys)
    (hH : Holds m h page L fl) (hc : c ∈ mid) (hu : c.used = true) (hcm : ∀ d ∈ mid, d.used = true → d = c)
    (htc : Tags m' L' ∧ Control m' h page L')
    (hl : Linked (next m') (previous m') (head h :: (fl' ++ [tail h]))) (hnd : fl'.Nodup)
    (hmem : ∀ x, x ∈ fl' ↔ x = a ∨ x ∈ fl ∧ ∀ d ∈ mid, d.used = false → d.addr ≠ x)
    (hin : ∀ d ∈ L.blocks, d.used = true → d ≠ c → ∀ w, Inside d w → m' w = mergeMemory m a t w) :
    Freed m m' h page L L' fl' c := by
  refine ⟨⟨htc.1, ⟨hl, hnd, fun x => ?_⟩, hM.placed, htc.2⟩, hM.start_eq, hM.final_eq, ?_, ?_⟩
  · rw [hmem, hM.free_iff, ← hH.list.mem_iff]
    exact or_congr_right (and_congr_right fun hx =>
      ⟨hH.avoids hx (L.mem_of_mid hbs), fun hn d hd _ => hn d hd⟩)
  · refine SameUsed.of_exchange hbs hbs' hcm (by simp) fun d hd hdu hne w hw => ?_
    rw [hin d hd hdu hne w hw]
    exact hM.inside d hd (fun hdm => hne (hcm d hdm hdu)) w hw
  · intro hc'
    have hcb := L.size_ge c (L.mem_of_mid hbs c hc)
    obtain ⟨q, h1, hy⟩ := contiguous_append.mp (hbs ▸ L.contiguous)
    obtain ⟨p, hx, hm⟩ := contiguous_append.mp h1
    have hcm' := hm.bounds hc
    simp only [hbs', mem_append, mem_singleton] at hc'
    rcases hc' with (hc' | rfl) | hc'
    · have := hx.bounds hc'; omega
    · cases hu
    · have := hy.bounds hc'; omega

def Framed (m m' : Memory) (h : Nat) (L : Layout) : Prop :=
  ∀ w, NoLink h L w → m' w = m w ∨ m' w % 2 = 0 ∧ ∃ b ∈ L.blocks, w = b.addr + 4 ∨ w = b.addr + b.size

theorem Framed.of_merge {m' b d t} (hb : b ∈ L.blocks) (hd : d ∈ L.blocks)
    (ht : b.addr + t = d.addr + d.size)
    (hm : ∀ w, NoLink h L w → m' w = mergeMemory m b.addr t w) : Framed m m' h L := by
  intro w hw
  have h4 : t % 2 = 0 := by
    have := L.addr_aligned hb
    have := L.addr_aligned hd
    have := L.size_aligned d hd
    omega
  rw [hm w hw]
  by_cases h2 : w = b.addr + t
  · right
    refine ⟨?_, d, hd, Or.inr (h2.trans ht)⟩
    unfold mergeMemory
    rw [h2, Memory.store_same]
    exact h4
  · by_cases h1 : w = b.addr + 4
    · right
      refine ⟨?_, b, hb, Or.inl h1⟩
      unfold mergeMemory
      rw [Memory.store_ne _ _ h2, h1, Memory.store_same]
      exact h4
    · exact Or.inl (mergeMemory_same h1 h2)

section Release

variable {c p n : Block} {xs ys : List Block}

section

variable (hH : Holds m h page L fl)

include hH

theorem release_both (hbs : L.blocks = xs ++ [p, c, n] ++ ys)
    (hcu : c.used = true) (hpu : p.used = false) (hnu : n.used = false) :
    (∃ L' fl', Freed m (unlink (mergeMemory m p.addr (p.size + (n.size + c.size))) n.addr) h page L L'
      fl' c) ∧ Framed m (unlink (mergeMemory m p.addr (p.size + (n.size + c.size))) n.addr) h L := by
  have hin := L.mem_of_mid hbs
  have hp := hin p (by simp)
  have hn := hin n (by simp)
  have hsep := L.separated
  obtain ⟨L', hbs', ⟨-, hcr, hnr, -⟩, hM⟩ := merge_spec hH hbs (t := p.size + (n.size + c.size))
    (by simp; omega)
    (Separated.used_before (show Separated (xs ++ p :: c :: n :: ys) by simpa [hbs] using hsep) hpu)
    (Separated.used_after (show Separated (xs ++ [p, c] ++ n :: ys) by simpa [hbs] using hsep) hnu)
  obtain ⟨l1, l2, hfl, hnd, hst⟩ := hH.list.split_at hn hnu
  have hpsz := L.size_ge p hp
  have hst' : ∀ y ∈ l1 ++ l2, Starts L' y := by
    intro y hy
    obtain ⟨hy1, hy2⟩ := (Linked.mem_without hnd).mp hy
    refine hM.starts_of_mem hH hin (hfl ▸ hy1) (or_iff_not_imp_left.mpr fun hyp => ?_)
    simp [hcu, Ne.symm hyp, Ne.symm hy2]
  have hl := hM.links
  rw [hfl, List.append_assoc, List.cons_append] at hl
  refine ⟨⟨L', l1 ++ l2, Freed.of_merged hM hbs hbs' hH (by simp) hcu (by simp [hpu, hnu])
    (unlink_tags hH.placed hst hnd hl hM.tags hM.control hM.placed hst')
    (unlink_linked hH.placed hst hnd hl) (Linked.nodup_without hnd) (fun x => ?_)
    fun d hd hdu _ w hw => ?_⟩, Framed.of_merge hp hn ?_ fun w hw => unlink_same hH.placed hst hnd hl hw⟩
  · rw [Linked.mem_without hnd, ← hfl]
    simp only [mem_cons, not_mem_nil, or_false, forall_eq_or_imp, forall_eq, hpu, hcu, hnu, forall_const,
      Bool.true_eq_false, false_implies, true_and]
    constructor
    · rintro ⟨hx1, hx2⟩
      exact or_iff_not_imp_left.mpr fun hxp => ⟨hx1, Ne.symm hxp, Ne.symm hx2⟩
    · rintro (rfl | ⟨hx1, -, hx2⟩)
      · exact ⟨(hH.list.mem_iff _).mpr ⟨p, hp, rfl, hpu⟩, by omega⟩
      · exact ⟨hx1, Ne.symm hx2⟩
  · exact unlink_inside hH.placed hst hnd hl hd (hfl ▸ hH.list.used_notMem hd hdu) hw
  · omega

theorem release_previous (hbs : L.blocks = xs ++ [p, c] ++ ys)
    (hcu : c.used = true) (hpu : p.used = false) (hr : ∀ y ∈ ys.head?, y.used = true) :
    (∃ L' fl', Freed m (mergeMemory m p.addr (p.size + c.size)) h page L L' fl' c) ∧
      Framed m (mergeMemory m p.addr (p.size + c.size)) h L := by
  have hin := L.mem_of_mid hbs
  have hp := hin p (by simp)
  have hsep := L.separated
  obtain ⟨L', hbs', ⟨-, hcr, -⟩, hM⟩ := merge_spec hH hbs (t := p.size + c.size) (by simp)
    (Separated.used_before (show Separated (xs ++ p :: c :: ys) by simpa [hbs] using hsep) hpu) hr
  refine ⟨⟨L', fl, Freed.of_merged hM hbs hbs' hH (by simp) hcu (by simp [hpu])
    ⟨hM.tags, hM.control⟩ hM.links hH.list.nodup (fun x => ?_) fun _ _ _ _ _ _ => rfl⟩,
    Framed.of_merge hp (hin c (by simp)) (by omega) fun _ _ => rfl⟩
  simp only [mem_cons, not_mem_nil, or_false, forall_eq_or_imp, forall_eq, hpu, hcu, forall_const,
    Bool.true_eq_false, false_implies, and_true]
  constructor
  · exact fun hx => or_iff_not_imp_left.mpr fun hxp => ⟨hx, Ne.symm hxp⟩
  · rintro (rfl | ⟨hx, -⟩)
    · exact (hH.list.mem_iff _).mpr ⟨p, hp, rfl, hpu⟩
    · exact hx

theorem release_next (hbs : L.blocks = xs ++ [c, n] ++ ys)
    (hcu : c.used = true) (hnu : n.used = false) (hl : ∀ x ∈ xs.getLast?, x.used = true) :
    (∃ L' fl', Freed m (relink (mergeMemory m c.addr (c.size + n.size)) h c.addr n.addr) h page L L'
      fl' c) ∧ Framed m (relink (mergeMemory m c.addr (c.size + n.size)) h c.addr n.addr) h L := by
  have hin := L.mem_of_mid hbs
  have hc := hin c (by simp)
  have hn := hin n (by simp)
  have hsep := L.separated
  obtain ⟨L', hbs', ⟨-, hnr, -⟩, hM⟩ := merge_spec hH hbs (t := c.size + n.size) (by simp) hl
    (Separated.used_after (show Separated (xs ++ [c] ++ n :: ys) by simpa [hbs] using hsep) hnu)
  obtain ⟨l1, l2, hfl, hnd, hst⟩ := hH.list.split_at hn hnu
  have hcl : c.addr ∉ l1 ++ n.addr :: l2 := hfl ▸ hH.list.used_notMem hc hcu
  have hst' : ∀ y ∈ l1 ++ l2, Starts L' y := by
    intro y hy
    obtain ⟨hy1, hy2⟩ := (Linked.mem_without hnd).mp hy
    exact hM.starts_of_mem hH hin (hfl ▸ hy1) (Or.inr (by simp [hcu, Ne.symm hy2]))
  have hlk := hM.links
  rw [hfl, List.append_assoc, List.cons_append] at hlk
  rw [relink_eq hH.placed ⟨c, hc, rfl⟩ hst hnd hcl hlk]
  refine ⟨⟨L', l1 ++ c.addr :: l2, Freed.of_merged hM hbs hbs' hH (by simp) hcu (by simp [hnu])
    (relink_tags hM.tags hM.control hM.placed (hM.starts _ ⟨c, hc, rfl⟩ (Or.inr rfl)) hst' hlk)
    (by simpa using relinkMemory_linked hH.placed ⟨c, hc, rfl⟩ hst hnd hcl hlk) ?_ (fun x => ?_)
    fun d hd hdu hne w hw => ?_⟩,
    Framed.of_merge hc hn (by omega) fun w hw => relink_same ⟨c, hc, rfl⟩ hst hlk hw⟩
  · have hnc : c.addr ∉ l1 ++ l2 := fun h => hcl ((Linked.mem_without hnd).mp h).1
    exact (List.perm_middle.nodup_iff).mpr (List.nodup_cons.mpr ⟨hnc, Linked.nodup_without hnd⟩)
  · have hmem : x ∈ l1 ++ c.addr :: l2 ↔ x = c.addr ∨ x ∈ l1 ++ l2 := by
      simp only [mem_append, mem_cons]; tauto
    rw [hmem, Linked.mem_without hnd, ← hfl]
    simp [hcu, hnu, ne_comm (a := x)]
  · exact relink_inside hH.placed ⟨c, hc, rfl⟩ hst hlk hd (fun he => hne (L.eq_of_addr hc hd he).symm)
      (hfl ▸ hH.list.used_notMem hd hdu) hw

theorem release_alone (hbs : L.blocks = xs ++ [c] ++ ys)
    (hcu : c.used = true) (hl : ∀ x ∈ xs.getLast?, x.used = true)
    (hr : ∀ y ∈ ys.head?, y.used = true) :
    (∃ L' fl', Freed m (push (mergeMemory m c.addr c.size) h c.addr) h page L L' fl' c) ∧
      Framed m (push (mergeMemory m c.addr c.size) h c.addr) h L := by
  have hc : c ∈ L.blocks := by rw [hbs]; simp
  obtain ⟨L', hbs', -, hM⟩ := merge_spec hH hbs (t := c.size) (by simp) hl hr
  have hcl : c.addr ∉ fl := hH.list.used_notMem hc hcu
  have hst : ∀ y ∈ c.addr :: fl, Starts L y := by
    rw [List.forall_mem_cons]; exact ⟨⟨c, hc, rfl⟩, hH.list.starts⟩
  have hst' : ∀ y ∈ c.addr :: fl, Starts L' y := by
    rw [List.forall_mem_cons]
    refine ⟨hM.starts _ ⟨c, hc, rfl⟩ (Or.inr rfl), fun y hy => hM.starts_of_mem hH ?_ hy (Or.inr ?_)⟩
    · simpa using hc
    · simp [hcu]
  refine ⟨⟨L', c.addr :: fl, Freed.of_merged hM hbs hbs' hH (by simp) hcu (by simp)
    (push_tags hM.placed hst' hM.links hM.tags hM.control)
    (push_linked hH.placed hst (List.nodup_cons.mpr ⟨hcl, hH.list.nodup⟩) hM.links)
    (List.nodup_cons.mpr ⟨hcl, hH.list.nodup⟩) (fun x => ?_) fun d hd hdu hne w hw => ?_⟩,
    Framed.of_merge hc hc rfl fun w hw => push_same hH.placed hst hM.links hw⟩
  · simp [hcu]
  · refine push_inside hH.placed hst hM.links hd ?_ hw
    simp only [mem_cons, not_or]
    exact ⟨fun he => hne (L.eq_of_addr hd hc he), hH.list.used_notMem hd hdu⟩

/-- The block `c` was made free, by the four cases of coalescing. -/
inductive Coalesced (m : Memory) (h : Nat) (L : Layout) (c : Block) : Memory → Prop
  | both {p n : Block} {xs ys : List Block} (hbs : L.blocks = xs ++ [p, c, n] ++ ys) (hp : p.used = false)
      (hn : n.used = false) :
      Coalesced m h L c (unlink (mergeMemory m p.addr (p.size + (n.size + c.size))) n.addr)
  | previous {p : Block} {xs ys : List Block} (hbs : L.blocks = xs ++ [p, c] ++ ys) (hp : p.used = false)
      (hr : ∀ y ∈ ys.head?, y.used = true) : Coalesced m h L c (mergeMemory m p.addr (p.size + c.size))
  | next {n : Block} {xs ys : List Block} (hbs : L.blocks = xs ++ [c, n] ++ ys) (hn : n.used = false)
      (hl : ∀ x ∈ xs.getLast?, x.used = true) :
      Coalesced m h L c (relink (mergeMemory m c.addr (c.size + n.size)) h c.addr n.addr)
  | alone {xs ys : List Block} (hbs : L.blocks = xs ++ [c] ++ ys) (hl : ∀ x ∈ xs.getLast?, x.used = true)
      (hr : ∀ y ∈ ys.head?, y.used = true) :
      Coalesced m h L c (push (mergeMemory m c.addr c.size) h c.addr)

omit hH in
theorem Coalesced.freed {m'} (hC : Coalesced m h L c m') (hH : Holds m h page L fl)
    (hcu : c.used = true) : (∃ L' fl', Freed m m' h page L L' fl' c) ∧ Framed m m' h L := by
  cases hC with
  | both hbs hp hn => exact release_both hH hbs hcu hp hn
  | previous hbs hp hr => exact release_previous hH hbs hcu hp hr
  | next hbs hn hl => exact release_next hH hbs hcu hn hl
  | alone hbs hl hr => exact release_alone hH hbs hcu hl hr

theorem release_cases (hc : c ∈ L.blocks) :
    ∃ m', release m h c.addr (c.addr + c.size) c.size = (m', true) ∧ Coalesced m h L c m' := by
  obtain ⟨xs, ys, hbs⟩ := List.append_of_mem hc
  have hfit := hH.placed.fits
  have hcf := L.le_final hc
  have hc4 := L.size_aligned c hc
  have hc16 := L.size_ge c hc
  rcases hH.previous_cases hbs with ⟨xs', p, rfl, hpu, hpf, hpb, hpc⟩ | ⟨hpf, hl⟩
  · have hp : p ∈ L.blocks := by rw [hbs]; simp
    have hp4 := L.size_aligned p hp
    have hpin : isBlockIn m h p.addr = true := by
      have := L.start_le hp
      refine decide_eq_true ?_
      rw [hH.control.start_eq, hH.control.final_eq]
      omega
    rcases hH.next_cases hbs with ⟨n, ys', rfl, hnu, hnf, hna⟩ | ⟨hnf, hr⟩
    · have hn : n ∈ L.blocks := by rw [hbs]; simp
      have hnf' := L.le_final hn
      have hn4 := L.size_aligned n hn
      have hsum : addWord p.size (addWord n.size c.size) = p.size + (n.size + c.size) := by
        rw [addWord_eq (a := n.size) (by omega), addWord_eq (by omega)]
      refine ⟨_, ?_, .both (show L.blocks = xs' ++ [p, c, n] ++ ys' by simpa using hbs) hpu hnu⟩
      have hnext : nextBlock (setFrontFlag m p.addr (p.size + (n.size + c.size))) p.addr =
          p.addr + (p.size + (n.size + c.size)) := nextBlock_set (by omega) (by omega)
      rw [← hna] at hnf ⊢
      unfold release
      simp only [hpf, ↓reduceIte, hpb, hpin, not_true_eq_false, hnf, hH.frontFlag_free hp hpu,
        hH.frontFlag_free hn hnu, hsum, hnext, frontFlag_set]
      rfl
    · have hsum : addWord p.size c.size = p.size + c.size := addWord_eq (by omega)
      refine ⟨_, ?_, .previous (show L.blocks = xs' ++ [p, c] ++ ys by simpa using hbs) hpu hr⟩
      -- here the back tag is written first
      have hcomm : setFrontFlag (setBackFlag m (c.addr + c.size) (p.size + c.size)) p.addr
          (p.size + c.size) = mergeMemory m p.addr (p.size + c.size) := by
        rw [← hpc, Nat.add_assoc]
        exact Memory.store_comm _ (by omega) _ _
      unfold release
      simp only [hpf, ↓reduceIte, hpb, hpin, not_true_eq_false, hnf, Bool.false_eq_true,
        hH.frontFlag_free hp hpu, hsum, backFlag_set, hcomm]
  · rcases hH.next_cases hbs with ⟨n, ys', rfl, hnu, hnf, hna⟩ | ⟨hnf, hr⟩
    · have hn : n ∈ L.blocks := by rw [hbs]; simp
      have hnf' := L.le_final hn
      have hn4 := L.size_aligned n hn
      have hsum : addWord c.size n.size = c.size + n.size := addWord_eq (by omega)
      refine ⟨_, ?_, .next (show L.blocks = xs ++ [c, n] ++ ys' by simpa using hbs) hnu hl⟩
      have hnext : nextBlock (setFrontFlag m c.addr (c.size + n.size)) c.addr =
          c.addr + (c.size + n.size) := nextBlock_set (by omega) (by omega)
      rw [← hna] at hnf ⊢
      unfold release
      simp only [hpf, Bool.false_eq_true, ↓reduceIte, hnf, hH.frontFlag_free hn hnu, hsum,
        hnext, frontFlag_set]
      rfl
    · refine ⟨_, ?_, .alone (show L.blocks = xs ++ [c] ++ ys by simpa using hbs) hl hr⟩
      unfold release
      simp only [hpf, Bool.false_eq_true, ↓reduceIte, hnf, frontFlag_set]
      rfl

end

end Release

/-! ## The whole call -/

theorem UserArea.userBlockAt_of_le {c p n} (ha : UserArea m c p n)
    (hf : c.addr + c.size < 2 ^ 32) : userBlockAt m p = c.addr := by
  have hs := ha.start
  have hr := ha.room
  unfold userBlockAt blockAt addWord subWord blockUsedOverhead
  simp only
  omega

theorem UserArea.userBlockAt_eq {c p n} (ha : UserArea m c p n)
    (hc : c ∈ L.blocks) (hp : Placed h L.start L.final) : userBlockAt m p = c.addr := by
  have hf := L.le_final hc
  have hfit := hp.fits
  exact ha.userBlockAt_of_le (by omega)

/-- The checks of `_Heap_Free` and `_Heap_Size_of_user_area`. -/
structure Accepted (m : Memory) (h p : Nat) (c : Block) : Prop where
  block_eq : userBlockAt m p = c.addr
  block_in : isBlockIn m h c.addr = true
  not_free : isBlockFree m c.addr = false
  size_eq : blockSize m c.addr = c.size
  next_eq : blockAt c.addr c.size = c.addr + c.size
  next_in : isBlockIn m h (c.addr + c.size) = true
  tags_eq : frontFlag m c.addr = backFlag m (c.addr + c.size)

section

variable (hH : Holds m h page L fl)

include hH

theorem Holds.accepted {c p n} (hc : c ∈ L.blocks)
    (hu : c.used = true) (ha : UserArea m c p n) : Accepted m h p c := by
  have hs := L.start_le hc
  have hf := L.le_final hc
  have hfit := hH.placed.fits
  have hin : ∀ x, L.start ≤ x → x ≤ L.final → isBlockIn m h x = true := by
    intro x h1 h2
    refine decide_eq_true ?_
    rw [hH.control.start_eq, hH.control.final_eq]
    exact ⟨h1, h2⟩
  refine ⟨ha.userBlockAt_eq hc hH.placed, hin _ hs (by omega), ?_, ?_, addWord_eq (by omega),
    hin _ (by omega) hf, ?_⟩
  · rw [hH.isBlockFree_eq hc, hu]
    rfl
  · unfold blockSize
    rw [hH.tags.front c hc, Block.clearUsed_flag hH.placed hc]
  · rw [hH.tags.front c hc, hH.tags.back c hc]

theorem free_cases {c p n} (hc : c ∈ L.blocks) (hu : c.used = true) (ha : UserArea m c p n) :
    ∃ m', free m h p = (m', true) ∧ Coalesced m h L c m' := by
  obtain ⟨m', he, hC⟩ := release_cases hH hc
  refine ⟨m', ?_, hC⟩
  have hk := hH.accepted hc hu ha
  unfold free
  simp only [hk.block_eq, hk.block_in, hk.not_free, hk.size_eq, hk.next_eq, hk.next_in, hk.tags_eq]
  simpa using he

theorem free_spec {c p n} (hc : c ∈ L.blocks) (hu : c.used = true) (ha : UserArea m c p n) :
    ∃ m' L' fl', free m h p = (m', true) ∧ Freed m m' h page L L' fl' c := by
  obtain ⟨m', he, hC⟩ := free_cases hH hc hu ha
  obtain ⟨⟨L', fl', hF⟩, -⟩ := hC.freed hH hu
  exact ⟨m', L', fl', he, hF⟩

theorem Holds.sizeOfUserArea_eq {c p n} (hc : c ∈ L.blocks)
    (hu : c.used = true) (ha : UserArea m c p n) : sizeOfUserArea m h p = some c.size := by
  have hk := hH.accepted hc hu ha
  unfold sizeOfUserArea
  simp [hk.block_eq, hk.block_in, hk.not_free, hk.size_eq, hk.next_eq, hk.next_in, hk.tags_eq]

end

end Rtems.Heap
