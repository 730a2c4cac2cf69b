import Rtems.Heap.Lemmas.FreeList

/-! # `_Heap_Allocate` keeps the heap -/

namespace Rtems.Heap

open Memory (store_ne store_same)

variable {m : Memory} {h page : Nat} {L : Layout} {fl : List Nat}

def Unwrapped (page size : Nat) : Prop := size + page + 8 + (page - size % page) % page < 2 ^ 32

instance (page size : Nat) : Decidable (Unwrapped page size) := by unfold Unwrapped; infer_instance

private theorem excess_aligned {page size} (h4 : page % 4 = 0) (hlt : size % page < page) : (size + (page - size % page)) % 4 = 0 := by
  have hd := Nat.div_add_mod size page
  have hp : (page * (size / page)) % 4 = 0 := by rw [Nat.mul_mod, h4, Nat.zero_mul, Nat.zero_mod]
  omega

theorem roundedSize_block {page} (h0 : 0 < page) (h4 : page % 4 = 0) (size : Nat) :
    16 ≤ roundedSize page size ∧ roundedSize page size % 4 = 0 ∧ roundedSize page size < 2 ^ 32 := by
  have hlt := Nat.mod_lt size h0
  unfold roundedSize addWord blockUsedOverhead sizeofBlock
  by_cases he : size % page = 0
  · have hs : size % 4 = 0 := by
      have hd := Nat.div_add_mod size page
      have hp : (page * (size / page)) % 4 = 0 := by rw [Nat.mul_mod, h4, Nat.zero_mul, Nat.zero_mod]
      omega
    simp only [he, ne_eq, not_true_eq_false, ↓reduceIte]
    split <;> omega
  · have := excess_aligned h4 hlt
    simp only [he, ne_eq, not_false_eq_true, ↓reduceIte]
    split <;> omega

theorem roundedSize_ge {page size} (h0 : 0 < page) (hw : Unwrapped page size) :
    size + page + 8 ≤ roundedSize page size := by
  unfold Unwrapped at hw
  unfold roundedSize addWord blockUsedOverhead sizeofBlock
  by_cases he : size % page = 0
  · simp only [he, ne_eq, not_true_eq_false, ↓reduceIte]
    split <;> omega
  · rw [Nat.mod_eq_of_lt (a := page - size % page) (by omega)] at hw
    simp only [he, ne_eq, not_false_eq_true, ↓reduceIte]
    split <;> omega

theorem unwrapped_of_bound {page size} (h0 : 0 < page) (h : size + 2 * page + 8 < 2 ^ 32) :
    Unwrapped page size := by
  have := Nat.mod_lt (page - size % page) h0
  unfold Unwrapped
  omega

/-! ## First fit -/

theorem search_eq {x theSize fuel bs}
    (hl : Linked (next m) (previous m) (x :: (bs ++ [tail h]))) (ht : tail h ∉ bs)
    (hf : bs.length < fuel) :
    search m h theSize fuel (next m x) = some (bs.find? fun b => frontFlag m b ≥ theSize) := by
  induction bs generalizing x fuel with
  | nil =>
    obtain ⟨fuel, rfl⟩ := Nat.exists_eq_succ_of_ne_zero (by omega : fuel ≠ 0)
    rw [(Linked.cons_cons_iff.mp hl).1.1]
    simp [search]
  | cons b bs ih =>
    obtain ⟨fuel, rfl⟩ := Nat.exists_eq_succ_of_ne_zero (by omega : fuel ≠ 0)
    obtain ⟨⟨hn, -⟩, hl⟩ := Linked.cons_cons_iff.mp hl
    simp only [List.mem_cons, not_or] at ht
    rw [hn]
    by_cases hb : frontFlag m b ≥ theSize
    · simp [search, Ne.symm ht.1, hb]
    · simp only [search, Ne.symm ht.1, ↓reduceIte, hb]
      rw [ih hl ht.2 (by simpa using hf)]
      simp [hb]

theorem FreeList.length_le (hl : FreeList m h L fl) : fl.length ≤ L.final - L.start := by
  have hlen : L.blocks.length ≤ (L.blocks.map Block.size).sum := by
    have hge := L.size_ge
    generalize L.blocks = bs at hge
    induction bs with
    | nil => simp
    | cons b bs ih =>
      have h1 := hge b (by simp)
      have h2 := ih fun c hc => hge c (by simp [hc])
      simp only [List.length_cons, List.map_cons, List.sum_cons]
      omega
  have hsub : fl.length ≤ (L.blocks.map Block.addr).length := by
    refine (List.subperm_of_subset hl.nodup ?_).length_le
    intro a ha
    obtain ⟨b, hb, rfl, -⟩ := hl.block ha
    exact List.mem_map_of_mem hb
  have := L.contiguous.sum_size
  simp only [List.length_map] at hsub
  omega

theorem FreeList.tail_notMem (hl : FreeList m h L fl) (hp : Placed h L.start L.final) :
    tail h ∉ fl := by
  intro ht
  obtain ⟨b, hb, hbt, -⟩ := hl.block ht
  have := L.start_le hb
  have := L.le_final hb
  have := hp.outside
  unfold tail at hbt
  omega

section

variable (hH : Holds m h page L fl)

include hH

theorem Holds.search (theSize : Nat) :
    search m h theSize (final m h - start m h + 1) (first m h) =
      some (fl.find? fun b => frontFlag m b ≥ theSize) := by
  have hlen := hH.list.length_le
  refine search_eq (x := head h) hH.list.links (hH.list.tail_notMem hH.placed) ?_
  rw [hH.control.final_eq, hH.control.start_eq]
  omega

structure SameUsed (m m' : Memory) (L L' : Layout) (c : Block) : Prop where
  mem_iff : ∀ d, d.used = true → d ≠ c → (d ∈ L'.blocks ↔ d ∈ L.blocks)
  inside : ∀ d ∈ L.blocks, d.used = true → d ≠ c → ∀ x, Inside d x → m' x = m x

omit hH in
theorem SameUsed.of_exchange {m' L' c xs mid mid' ys}
    (h : L.blocks = xs ++ mid ++ ys) (h' : L'.blocks = xs ++ mid' ++ ys)
    (hm : ∀ d ∈ mid, d.used = true → d = c) (hm' : ∀ d ∈ mid', d.used = true → d = c)
    (hin : ∀ d ∈ L.blocks, d.used = true → d ≠ c → ∀ x, Inside d x → m' x = m x) :
    SameUsed m m' L L' c := by
  refine ⟨fun d hu hne => ?_, hin⟩
  have h1 : d ∉ mid := fun hd => hne (hm d hd hu)
  have h2 : d ∉ mid' := fun hd => hne (hm' d hd hu)
  simp [h, h', h1, h2]

theorem Holds.store_inside {c x v} (hc : c ∈ L.blocks)
    (hu : c.used = true) (hx : Inside c x) : Holds (m.store x v) h page L fl := by
  obtain ⟨hx1, hx2⟩ := hx
  have hcs := L.start_le hc
  have hcf := L.le_final hc
  have hout := hH.placed.outside
  have hfree : ∀ y ∈ fl, y + 8 ≠ x ∧ y + 12 ≠ x := by
    intro y hy
    obtain ⟨b, hb, rfl, hbu⟩ := hH.list.block hy
    have hbs := L.size_ge b hb
    have hne : b ≠ c := by rintro rfl; simp [hu] at hbu
    rcases L.apart hb hc with h | h | h
    · exact absurd h hne
    · omega
    · omega
  refine ⟨?_, ⟨?_, hH.list.nodup, hH.list.mem_iff⟩, hH.placed, ?_⟩
  · refine hH.tags.congr (fun b hb => m.store_ne v ?_) (fun b hb => m.store_ne v ?_)
      (m.store_ne v (by omega)) (m.store_ne v (by omega))
    · rcases L.apart hb hc with rfl | h | h <;> omega
    · rcases L.apart hb hc with rfl | h | h <;> omega
  · refine hH.list.congr (fun y hy => m.store_ne v ?_) fun y hy => m.store_ne v ?_
    · rcases hy with hy | hy
      · unfold head at hy; omega
      · exact (hfree y hy).1
    · rcases hy with hy | hy
      · unfold tail at hy; omega
      · exact (hfree y hy).2
  · exact hH.control.congr (m.store_ne v (by omega)) (m.store_ne v (by omega))
      (m.store_ne v (by omega)) rfl rfl

/-! ## Splitting a block -/

theorem Holds.frontFlag_free {b} (hb : b ∈ L.blocks)
    (hu : b.used = false) : frontFlag m b.addr = b.size := by
  rw [hH.tags.front b hb]
  simp [Block.flag, hu]

omit hH in
theorem nextBlock_set {a n} (h4 : n % 4 = 0) (ha : a + n < 2 ^ 32) :
    nextBlock (setFrontFlag m a n) a = a + n := by
  unfold nextBlock
  rw [frontFlag_set, clearUsed_eq (by omega), addWord_eq (by omega)]
  omega

theorem Holds.nextBlock_eq {b} (hb : b ∈ L.blocks) :
    nextBlock m b.addr = b.addr + b.size := by
  have := L.le_final hb
  have := hH.placed.fits
  unfold nextBlock
  rw [hH.tags.front b hb, Block.clearUsed_flag hH.placed hb, addWord_eq (by omega)]

def splitMemory (m : Memory) (a s t : Nat) : Memory :=
  (((m.store (a + 4) (s - t)).store (a + (s - t)) (s - t)).store (a + (s - t) + 4) (t + 1)).store
    (a + s) (t + 1)

omit hH in
theorem splitMemory_same {a s t w} (ht : t ≤ s) (h16 : 16 ≤ t) (hr : 16 ≤ s - t)
    (hw : w ≤ a ∨ a + s < w ∨ w = a + 8 ∨ w = a + 12) : splitMemory m a s t w = m w := by
  unfold splitMemory
  rw [store_ne _ _ (by omega), store_ne _ _ (by omega),
    store_ne _ _ (by omega), store_ne _ _ (by omega)]

theorem carve_split_eq {b t} (hb : b ∈ L.blocks)
    (hu : b.used = false) (h4 : t % 4 = 0) (hle : t ≤ b.size) (hpage : page + 8 < 2 ^ 32)
    (hgt : page + 8 < b.size - t) :
    carve m h b.addr t = (splitMemory m b.addr b.size t, b.addr + (b.size - t) + 8) := by
  have hfin := L.le_final hb
  have hfit := hH.placed.fits
  have hal := L.size_aligned b hb
  have hsub : subWord b.size t = b.size - t := subWord_eq hle (by omega)
  have hnext : nextBlock (setFrontFlag m b.addr (b.size - t)) b.addr = b.addr + (b.size - t) :=
    nextBlock_set (by omega) (by omega)
  have htemp : blockAt (b.addr + (b.size - t)) t = b.addr + b.size := by
    unfold blockAt
    rw [addWord_eq (by omega)]
    omega
  have hpg : addWord (pageSize m h) blockUsedOverhead = page + 8 := by
    rw [hH.control.page_eq]
    exact addWord_eq hpage
  unfold carve
  simp only [hH.frontFlag_free hb hu, hsub, hpg, gt_iff_lt, hgt, ↓reduceIte, hnext, frontFlag_set,
    buildFlag_used h4, htemp, startOfUserArea]
  rfl

theorem carve_split {b t xs ys}
    (hbs : L.blocks = xs ++ [b] ++ ys) (hu : b.used = false) (h16 : 16 ≤ t) (h4 : t % 4 = 0)
    (hle : t ≤ b.size) (hpage : page + 8 < 2 ^ 32) (hgt : page + 8 < b.size - t) :
    ∃ L', L'.start = L.start ∧ L'.final = L.final ∧
      L'.blocks = xs ++ [⟨b.addr, b.size - t, false⟩, ⟨b.addr + (b.size - t), t, true⟩] ++ ys ∧
      Holds (carve m h b.addr t).1 h page L' fl ∧
      (carve m h b.addr t).2 = b.addr + (b.size - t) + 8 ∧
      SameUsed m (carve m h b.addr t).1 L L' ⟨b.addr + (b.size - t), t, true⟩ := by
  have hb : b ∈ L.blocks := by rw [hbs]; simp
  have hpg := hH.control.page_pos
  have hal := L.size_aligned b hb
  have hs0 := L.start_le hb
  have hsf := L.le_final hb
  have hout := hH.placed.outside
  rw [carve_split_eq hH hb hu h4 hle hpage hgt]
  obtain ⟨L', hs, hf, hbs'⟩ := Layout.exchange hbs
    [⟨b.addr, b.size - t, false⟩, ⟨b.addr + (b.size - t), t, true⟩]
    (by
      rintro p q ⟨hp, hq⟩
      simp only [Contiguous] at hq ⊢
      exact ⟨hp, by omega, by omega⟩)
    (by simp only [List.forall_mem_cons]; exact ⟨by omega, h16, by simp⟩)
    (by simp only [List.forall_mem_cons]; exact ⟨by omega, h4, by simp⟩)
    ((hbs ▸ L.separated).split hu.symm rfl)
  refine ⟨L', hs, hf, hbs', ⟨?_, ⟨?_, hH.list.nodup, ?_⟩, by rw [hs, hf]; exact hH.placed, ?_⟩,
    rfl, ?_⟩
  · obtain ⟨hx, hy⟩ := L.split_at (by simpa using hbs)
    refine hH.tags.exchange hbs hbs' hs hf hx hy
      (fun w hw => splitMemory_same hle h16 (by omega) (by omega)) ?_
    simp only [List.mem_cons, List.not_mem_nil, or_false]
    rintro d (rfl | rfl)
    · simp only [frontFlag, backFlag, Block.flag, splitMemory, Bool.false_eq_true, ↓reduceIte]
      constructor
      · rw [store_ne _ _ (by omega), store_ne _ _ (by omega),
          store_ne _ _ (by omega), store_same, Nat.add_zero]
      · rw [store_ne _ _ (by omega), store_ne _ _ (by omega), store_same,
          Nat.add_zero]
    · simp only [frontFlag, backFlag, Block.flag, splitMemory, ↓reduceIte]
      constructor
      · rw [store_ne _ _ (by omega), store_same]
      · rw [show b.addr + (b.size - t) + t = b.addr + b.size by omega, store_same]
  · -- no word of a link is written
    refine hH.list.congr (fun x hx => ?_) fun x hx => ?_
    all_goals
      refine splitMemory_same hle h16 (by omega) ?_
      rcases hx with hx | hx
      · simp only [head, tail] at hx
        omega
      · obtain ⟨c, hc, rfl, -⟩ := hH.list.block hx
        have hcs := L.size_ge c hc
        rcases L.apart hc hb with rfl | hcb | hcb <;> omega
  · intro a
    rw [hH.list.mem_iff a, L.free_iff hbs, L'.free_iff hbs']
    simp [hu]
  · refine hH.control.congr ?_ ?_ ?_ hs hf <;>
      exact splitMemory_same hle h16 (by omega) (by omega)
  · refine SameUsed.of_exchange hbs hbs' (by simp [hu]) (by simp) fun d hd hdu _ x hx => ?_
    obtain ⟨hx1, hx2⟩ := hx
    refine splitMemory_same hle h16 (by omega) ?_
    rcases L.apart hd hb with rfl | h | h
    · cases hu.symm.trans hdu
    · omega
    · omega

/-! ## Taking a whole block -/

def takeMemory (m : Memory) (a s : Nat) : Memory := (m.store (a + s) (s + 1)).store (a + 4) (s + 1)

omit hH in
theorem takeMemory_same {a s w} (h1 : w ≠ a + s) (h2 : w ≠ a + 4) :
    takeMemory m a s w = m w := by
  unfold takeMemory
  rw [store_ne _ _ h2, store_ne _ _ h1]

theorem carve_whole_eq {b t} (hb : b ∈ L.blocks)
    (hu : b.used = false) (hle : t ≤ b.size) (hpage : page + 8 < 2 ^ 32)
    (hgt : ¬ page + 8 < b.size - t) :
    carve m h b.addr t = (unlink (takeMemory m b.addr b.size) b.addr, b.addr + 8) := by
  have hfin := L.le_final hb
  have hfit := hH.placed.fits
  have hsub : subWord b.size t = b.size - t := subWord_eq hle (by omega)
  have hpg : addWord (pageSize m h) blockUsedOverhead = page + 8 := by
    rw [hH.control.page_eq]
    exact addWord_eq hpage
  unfold carve
  simp only [hH.frontFlag_free hb hu, hsub, hpg, gt_iff_lt, hgt, ↓reduceIte, hH.nextBlock_eq hb,
    buildFlag_used (L.size_aligned b hb), backFlag_set, startOfUserArea]
  rfl

omit hH in
theorem FreeList.starts (hl : FreeList m h L fl) : ∀ y ∈ fl, Starts L y := fun y hy => by
  obtain ⟨b, hb, hby, -⟩ := hl.block hy
  exact ⟨b, hb, hby⟩

omit hH in
theorem FreeList.split_at {b} (hl : FreeList m h L fl) (hb : b ∈ L.blocks) (hu : b.used = false) :
    ∃ l1 l2, fl = l1 ++ b.addr :: l2 ∧ (l1 ++ b.addr :: l2).Nodup ∧ ∀ y ∈ l1 ++ b.addr :: l2, Starts L y := by
  obtain ⟨l1, l2, rfl⟩ := List.append_of_mem ((hl.mem_iff b.addr).mpr ⟨b, hb, rfl, hu⟩)
  exact ⟨l1, l2, rfl, hl.nodup, hl.starts⟩

omit hH in
theorem FreeList.used_notMem {d} (hl : FreeList m h L fl) (hd : d ∈ L.blocks)
    (hu : d.used = true) : d.addr ∉ fl := by
  intro hm
  obtain ⟨b, hb, hbd, hbu⟩ := hl.block hm
  rw [L.eq_of_addr hb hd hbd, hu] at hbu
  cases hbu

theorem carve_whole {b t xs ys}
    (hbs : L.blocks = xs ++ [b] ++ ys) (hu : b.used = false) (hle : t ≤ b.size)
    (hpage : page + 8 < 2 ^ 32) (hgt : ¬ page + 8 < b.size - t) :
    ∃ L' l1 l2, L'.start = L.start ∧ L'.final = L.final ∧ fl = l1 ++ b.addr :: l2 ∧
      L'.blocks = xs ++ [⟨b.addr, b.size, true⟩] ++ ys ∧
      Holds (carve m h b.addr t).1 h page L' (l1 ++ l2) ∧
      (carve m h b.addr t).2 = b.addr + 8 ∧
      SameUsed m (carve m h b.addr t).1 L L' ⟨b.addr, b.size, true⟩ := by
  have hb : b ∈ L.blocks := by rw [hbs]; simp
  have hge := L.size_ge b hb
  have hs0 := L.start_le hb
  have hsf := L.le_final hb
  have hout := hH.placed.outside
  obtain ⟨l1, l2, hfl, hnd, hst⟩ := hH.list.split_at hb hu
  obtain ⟨L', hs, hf, hbs'⟩ := Layout.exchange hbs [⟨b.addr, b.size, true⟩]
    (by rintro p q ⟨hp, hq⟩; exact ⟨hp, hq⟩) (by simpa using hge)
    (by simpa using L.size_aligned b hb) ((hbs ▸ L.separated).take rfl)
  have hp' : Placed h L'.start L'.final := by rw [hs, hf]; exact hH.placed
  have hst' : ∀ y ∈ l1 ++ l2, Starts L' y := by
    intro y hy
    obtain ⟨d, hd, rfl⟩ := hst y (by simp only [List.mem_append, List.mem_cons] at hy ⊢; tauto)
    unfold Starts
    simp only [hbs', List.mem_append, List.mem_singleton]
    simp only [hbs, List.mem_append, List.mem_singleton] at hd
    rcases hd with (hd | rfl) | hd
    · exact ⟨d, Or.inl (Or.inl hd), rfl⟩
    · exact ⟨⟨d.addr, d.size, true⟩, Or.inl (Or.inr rfl), rfl⟩
    · exact ⟨d, Or.inr hd, rfl⟩
  -- the tags are written first, while the list is still the old one
  have ht : Tags (takeMemory m b.addr b.size) L' := by
    obtain ⟨hx, hy⟩ := L.split_at (by simpa using hbs)
    refine hH.tags.exchange hbs hbs' hs hf hx hy
      (fun w hw => takeMemory_same (by omega) (by omega)) ?_
    simp only [List.mem_singleton, forall_eq, frontFlag, backFlag, Block.flag, takeMemory, ↓reduceIte]
    refine ⟨store_same _ _ _, ?_⟩
    rw [store_ne _ _ (by omega), store_same]
  have hl : Linked (next (takeMemory m b.addr b.size)) (previous (takeMemory m b.addr b.size))
      (head h :: (l1 ++ b.addr :: (l2 ++ [tail h]))) := by
    have he : l1 ++ b.addr :: (l2 ++ [tail h]) = fl ++ [tail h] := by simp [hfl]
    have hw {x k : Nat} (hx : Site h L x) (hk : k = 8 ∨ k = 12) : takeMemory m b.addr b.size (x + k) = m (x + k) := by
      have := (hx.ne_tag hH.placed hk).1 b hb
      exact takeMemory_same this.2.symm this.1.symm
    rw [he]
    exact hH.list.congr (fun x hx => hw (hx.imp id fun hx => Or.inr (hH.list.starts x hx)) (Or.inl rfl))
      fun x hx => hw (Or.inr (hx.imp id (hH.list.starts x))) (Or.inr rfl)
  have hc : Control (takeMemory m b.addr b.size) h page L' := by
    refine hH.control.congr ?_ ?_ ?_ hs hf <;> exact takeMemory_same (by omega) (by omega)
  obtain ⟨ht', hc'⟩ := unlink_tags hH.placed hst hnd hl ht hc hp' hst'
  rw [carve_whole_eq hH hb hu hle hpage hgt]
  refine ⟨L', l1, l2, hs, hf, hfl, hbs', ⟨ht', ⟨unlink_linked hH.placed hst hnd hl, ?_, ?_⟩, hp', hc'⟩,
    rfl, SameUsed.of_exchange hbs hbs' (by simp [hu]) (by simp) fun d hd hdu _ w hw => ?_⟩
  · exact Linked.nodup_without hnd
  · intro a
    rw [Linked.mem_without hnd, ← hfl, hH.list.mem_iff a, L.free_iff hbs, L'.free_iff hbs']
    constructor
    · rintro ⟨⟨d, hd, rfl, -⟩ | hd, hne⟩
      · exact absurd (congrArg Block.addr (List.mem_singleton.mp hd)) hne
      · exact Or.inr hd
    · rintro (⟨d, hd, -, hdu⟩ | ⟨d, hd, rfl, hdu⟩)
      · rw [List.mem_singleton.mp hd] at hdu
        cases hdu
      · exact ⟨Or.inr ⟨d, hd, rfl, hdu⟩, L.addr_ne hbs hd List.mem_cons_self⟩
  · refine (unlink_inside hH.placed hst hnd hl hd (hfl ▸ hH.list.used_notMem hd hdu) hw).trans ?_
    obtain ⟨hw1, hw2⟩ := hw
    rcases L.apart hd hb with rfl | h | h
    · cases hu.symm.trans hdu
    · exact takeMemory_same (by omega) (by omega)
    · exact takeMemory_same (by omega) (by omega)

/-- Room for `n` bytes; the word below the pointer leads back. -/
structure UserArea (m : Memory) (c : Block) (p n : Nat) : Prop where
  start : p = c.addr + 8 + m (p - 4)
  offset_ge : 4 ≤ m (p - 4)
  offset_aligned : m (p - 4) % 4 = 0
  room : p + n ≤ c.addr + c.size

omit hH in
theorem UserArea.inside {c p n} (hu : UserArea m c p n) : Inside c (p - 4) := by
  have := hu.start
  have := hu.offset_ge
  have := hu.room
  constructor <;> omega

omit hH in
theorem UserArea.congr {m' c p n} (hu : UserArea m c p n)
    (he : m' (p - 4) = m (p - 4)) : UserArea m' c p n := by
  refine ⟨?_, ?_, ?_, hu.room⟩ <;> rw [he]
  exacts [hu.start, hu.offset_ge, hu.offset_aligned]

theorem bump_spec {c n} (hc : c ∈ L.blocks) (hr : n + page + 8 ≤ c.size) :
    ∃ off, bump m h (c.addr + 8) = (m.store (c.addr + 8 + off - 4) off, c.addr + 8 + off) ∧
      UserArea (m.store (c.addr + 8 + off - 4) off) c (c.addr + 8 + off) n := by
  have hfin := L.le_final hc
  have hfit := hH.placed.fits
  have hal := L.addr_aligned hc
  have hlt := hH.control.page_lt
  obtain ⟨h0, h4⟩ := hH.control.page_pos
  have hand4 := and_page_aligned (p := c.addr + 8) (by omega) page
  have hand := Nat.and_le_right (n := c.addr + 8) (m := page - 1)
  have hoff : subWord (pageSize m h) (c.addr + 8 &&& (pageSize m h - 1)) =
      page - (c.addr + 8 &&& (page - 1)) := by
    rw [hH.control.page_eq]
    exact subWord_eq (by omega) hlt
  refine ⟨page - (c.addr + 8 &&& (page - 1)), ?_, ?_⟩
  · unfold bump
    simp only [hoff]
    rw [addWord_eq (by omega)]
  · constructor
    all_goals try rw [store_same]
    all_goals omega

/-! ## The whole call -/

structure Allocated (m m' : Memory) (h page : Nat) (L L' : Layout) (fl' : List Nat) (c : Block)
    (p n : Nat) : Prop where
  holds : Holds m' h page L' fl'
  start_eq : L'.start = L.start
  final_eq : L'.final = L.final
  mem : c ∈ L'.blocks
  used : c.used = true
  area : UserArea m' c p n
  same : SameUsed m m' L L' c
  origin : ∃ b ∈ L.blocks, b.used = false ∧ b.addr ≤ c.addr ∧ c.addr + c.size = b.addr + b.size

omit hH in
theorem Allocated.notMem {m' L' fl' c} {p n}
    (hA : Allocated m m' h page L L' fl' c p n) : c ∉ L.blocks := by
  intro hc
  obtain ⟨b, hb, hbu, hle, hend⟩ := hA.origin
  have hc16 := L.size_ge c hc
  rcases L.apart hc hb with he | he | he
  · rw [← he, hA.used] at hbu
    cases hbu
  · omega
  · omega

omit hH in
theorem Allocated.of_carve {m1 L' fl' n} (c : Block)
    (hH : Holds m1 h page L' fl') (hs : L'.start = L.start) (hf : L'.final = L.final)
    (hc : c ∈ L'.blocks) (hu : c.used = true) (hr : n + page + 8 ≤ c.size) (hsame : SameUsed m m1 L L' c)
    (ho : ∃ b ∈ L.blocks, b.used = false ∧ b.addr ≤ c.addr ∧ c.addr + c.size = b.addr + b.size) :
    ∃ m' p, bump m1 h (c.addr + 8) = (m', p) ∧ p ≠ 0 ∧ Allocated m m' h page L L' fl' c p n := by
  obtain ⟨off, he, ha⟩ := bump_spec hH hc hr
  refine ⟨_, _, he, by omega, ?_, hs, hf, hc, hu, ha, ⟨hsame.mem_iff, fun d hd hdu hne x hx => ?_⟩, ho⟩
  · exact hH.store_inside hc hu ha.inside
  · have hd' : d ∈ L'.blocks := (hsame.mem_iff d hdu hne).mpr hd
    rw [store_ne, hsame.inside d hd hdu hne x hx]
    obtain ⟨hx1, hx2⟩ := hx
    obtain ⟨hi1, hi2⟩ := ha.inside
    rcases L'.apart hd' hc with h | h | h
    · exact absurd h hne
    · omega
    · omega

/-- `NULL` when no free block is large enough, else a fresh used block. -/
theorem allocate_spec {n} (hw : Unwrapped page n) :
    (allocate m h n = some (m, 0) ∧
      ∀ b ∈ L.blocks, b.used = false → b.size < roundedSize page n) ∨
    ∃ m' p L' fl' c, allocate m h n = some (m', p) ∧ p ≠ 0 ∧
      Allocated m m' h page L L' fl' c p n := by
  obtain ⟨h0, h4⟩ := hH.control.page_pos
  obtain ⟨h16, hr4, -⟩ := roundedSize_block h0 h4 n
  have hge := roundedSize_ge h0 hw
  have hpage : page + 8 < 2 ^ 32 := by unfold Unwrapped at hw; omega
  unfold allocate
  simp only [hH.control.page_eq, hH.search]
  cases hfind : fl.find? fun b => frontFlag m b ≥ roundedSize page n with
  | none =>
    refine Or.inl ⟨rfl, fun b hb hbu => ?_⟩
    have := List.find?_eq_none.mp hfind b.addr ((hH.list.mem_iff _).mpr ⟨b, hb, rfl, hbu⟩)
    simpa [hH.frontFlag_free hb hbu] using this
  | some x =>
    right
    obtain ⟨b, hb, rfl, hbu⟩ := hH.list.block (List.mem_of_find?_eq_some hfind)
    have hle : roundedSize page n ≤ b.size := by
      have := List.find?_some hfind
      simpa [hH.frontFlag_free hb hbu] using this
    obtain ⟨xs, ys, hbs⟩ := List.append_of_mem hb
    have hbs : L.blocks = xs ++ [b] ++ ys := by simpa using hbs
    by_cases hgt : page + 8 < b.size - roundedSize page n
    · obtain ⟨L', hs, hf, hbl, hH', hp, hsame⟩ := carve_split hH hbs hbu h16 hr4 hle hpage hgt
      obtain ⟨m', p, he, hp0, ha⟩ := Allocated.of_carve
        ⟨b.addr + (b.size - roundedSize page n), roundedSize page n, true⟩ hH' hs hf
        (by rw [hbl]; simp) rfl hge hsame ⟨b, hb, hbu, by simp, by simp; omega⟩
      exact ⟨m', p, L', fl, _, by simp only [hp]; rw [he], hp0, ha⟩
    · obtain ⟨L', l1, l2, hs, hf, -, hbl, hH', hp, hsame⟩ := carve_whole hH hbs hbu hle hpage hgt
      obtain ⟨m', p, he, hp0, ha⟩ := Allocated.of_carve ⟨b.addr, b.size, true⟩ hH' hs hf
        (by rw [hbl]; simp) rfl (hge.trans hle) hsame ⟨b, hb, hbu, by simp, by simp⟩
      exact ⟨m', p, L', l1 ++ l2, _, by simp only [hp]; rw [he], hp0, ha⟩

end

end Rtems.Heap
