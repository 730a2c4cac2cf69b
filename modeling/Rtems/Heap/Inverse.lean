import Rtems.Heap.Space
import Rtems.Heap.Theorems

/-! # `_Heap_Free` undoes `_Heap_Allocate` -/

namespace Rtems.Heap

/-! ## The used blocks determine the partition -/

theorem Contiguous.start_lt {bs a z b} (h : Contiguous a (b :: bs) z) (hb : 16 ≤ b.size) : a < z := by
  have := h.2.le
  omega

private theorem front_size_le {xs ys b c a z}
    (hx : Contiguous a (b :: xs) z) (hy : Contiguous a (c :: ys) z) (hsep : Separated (b :: xs))
    (hx16 : ∀ d ∈ b :: xs, 16 ≤ d.size) (hb : b.used = false) (hc : c.used = false)
    (hused : ∀ d ∈ b :: xs, d.used = true → d ∈ c :: ys) : c.size ≤ b.size := by
  cases xs with
  | nil =>
    have hz : a + b.size = z := hx.2
    have := hy.2.le
    omega
  | cons d xs =>
    have hd : d.used = true := (show Separated ([] ++ b :: d :: xs) from hsep).used_after hb d rfl
    have hda : d.addr = a + b.size := hx.2.1
    have hd16 := hx16 d (by simp)
    rcases hy.apart (hused d (by simp) hd) (List.mem_cons_self) with he | he | he
    · rw [he, hc] at hd
      cases hd
    · have := hy.1
      omega
    · have := hy.1
      omega

theorem Contiguous.eq_of_used {xs ys a z} (hx : Contiguous a xs z)
    (hy : Contiguous a ys z) (hsx : Separated xs) (hsy : Separated ys)
    (hx16 : ∀ b ∈ xs, 16 ≤ b.size) (hy16 : ∀ b ∈ ys, 16 ≤ b.size)
    (hused : ∀ b, b.used = true → (b ∈ xs ↔ b ∈ ys)) : xs = ys := by
  induction xs generalizing a ys with
  | nil =>
    cases ys with
    | nil => rfl
    | cons c ys =>
      have hz : a = z := hx
      have := hy.start_lt (hy16 c (by simp))
      omega
  | cons b xs ih =>
    cases ys with
    | nil =>
      have hz : a = z := hy
      have := hx.start_lt (hx16 b (by simp))
      omega
    | cons c ys =>
      have hb16 := hx16 b (by simp)
      have hc16 := hy16 c (by simp)
      have hba := hx.1
      have hca := hy.1
      have hbc : b = c := by
        cases hbu : b.used with
        | true =>
          rcases hy.apart ((hused b hbu).mp (by simp)) (List.mem_cons_self) with h | h | h
          · exact h
          · omega
          · omega
        | false =>
          cases hcu : c.used with
          | true =>
            have hcm := (hused c hcu).mpr (by simp)
            rcases hx.apart hcm (List.mem_cons_self) with h | h | h
            · exact h.symm
            · omega
            · omega
          | false =>
            have h1 := front_size_le hx hy hsx hx16 hbu hcu fun d hd hu => (hused d hu).mp hd
            have h2 := front_size_le hy hx hsy hy16 hcu hbu fun d hd hu => (hused d hu).mpr hd
            obtain ⟨ba, bs, bu⟩ := b
            obtain ⟨ca, cs, cu⟩ := c
            simp only at *
            rw [hba, hca, hbu, hcu, Nat.le_antisymm h2 h1]
      subst hbc
      -- the block at the front does not come again behind it
      have hbx : ∀ d ∈ xs, d ≠ b := by
        rintro d hd rfl
        have := hx.2.bounds hd
        omega
      have hby : ∀ d ∈ ys, d ≠ b := by
        rintro d hd rfl
        have := hy.2.bounds hd
        omega
      congr 1
      refine ih hx.2 hy.2 hsx.tail hsy.tail (fun d hd => hx16 d (by simp [hd]))
        (fun d hd => hy16 d (by simp [hd])) fun d hu => ⟨fun hd => ?_, fun hd => ?_⟩
      · exact (List.mem_cons.mp ((hused d hu).mp (by simp [hd]))).resolve_left (hbx d hd)
      · exact (List.mem_cons.mp ((hused d hu).mpr (by simp [hd]))).resolve_left (hby d hd)

theorem Layout.eq_of_used {L L' : Layout} (hs : L'.start = L.start) (hf : L'.final = L.final)
    (hused : ∀ b, b.used = true → (b ∈ L'.blocks ↔ b ∈ L.blocks)) : L' = L := by
  have hbs : L'.blocks = L.blocks := by
    refine Contiguous.eq_of_used L'.contiguous ?_ L'.separated L.separated L'.size_ge L.size_ge hused
    rw [hs, hf]
    exact L.contiguous
  cases L
  subst hs hf hbs
  rfl

section Inverse

variable {m m' m'' : Memory} {h page n p : Nat} {L L' L'' : Layout} {fl fl' fl'' : List Nat} {c : Block}

theorem Allocated.freed_eq (hA : Allocated m m' h page L L' fl' c p n)
    (hF : Freed m' m'' h page L' L'' fl'' c) : L'' = L := by
  refine Layout.eq_of_used (hF.start_eq.trans hA.start_eq) (hF.final_eq.trans hA.final_eq) fun b hu => ?_
  by_cases hb : b = c
  · subst hb
    exact iff_of_false hF.gone hA.notMem
  · exact (hF.same.mem_iff b hu hb).trans (hA.same.mem_iff b hu hb)

theorem FreeList.perm (hl : FreeList m h L fl) (hl' : FreeList m' h L fl') : fl'.Perm fl :=
  (List.perm_ext_iff_of_nodup hl'.nodup hl.nodup).mpr fun a => (hl'.mem_iff a).trans (hl.mem_iff a).symm

/-- `NULL` just when no free block has the size; a free gives back what was taken. -/
theorem free_allocate (hH : Holds m h page L fl) (hw : Unwrapped page n) :
    ∃ m' p, allocate m h n = some (m', p) ∧
      (p = 0 ↔ ¬ ∃ b ∈ L.blocks, b.used = false ∧ roundedSize page n ≤ b.size) ∧
      (p = 0 → m' = m) ∧
      (p ≠ 0 → ∃ m'' fl'', free m' h p = (m'', true) ∧ Holds m'' h page L fl'' ∧ fl''.Perm fl) := by
  rcases allocate_spec hH hw with ⟨he, hS⟩ | ⟨m', p, L', fl', c, he, hp, hA⟩
  · refine ⟨m, 0, he, iff_of_true rfl ?_, fun _ => rfl, fun h => absurd rfl h⟩
    rintro ⟨b, hb, hu, hle⟩
    have := hS b hb hu
    omega
  · obtain ⟨m'', L'', fl'', hfree, hF⟩ := free_spec hA.holds hA.mem hA.used hA.area
    have hL := hA.freed_eq hF
    subst hL
    refine ⟨m', p, he, iff_of_false hp ?_, fun h => absurd h hp, fun _ =>
      ⟨m'', fl'', hfree, hF.holds, hH.list.perm hF.holds.list⟩⟩
    intro hnone
    refine hp (congrArg Prod.snd (Option.some.inj (he.symm.trans (hH.allocate_null ?_))))
    intro b hb hu
    exact Nat.lt_of_not_le fun hle => hnone ⟨b, hb, hu, hle⟩

end Inverse

theorem free_allocate_smallArea :
    ∃ m' m'', allocate (smallArea.memory fun _ => 0) 0 100 = some (m', 208) ∧
      free m' 0 208 = (m'', true) ∧ Holds m'' 0 8 smallArea.layout [64] := by
  obtain ⟨m', p, he, -, -, hfree⟩ := free_allocate (n := 100)
    (initialize_spec smallArea fun _ => 0) (by decide)
  have hr : (allocate (smallArea.memory fun _ => 0) 0 100).map Prod.snd = some 208 := by decide +kernel
  change allocate (smallArea.memory fun _ => 0) 0 100 = _ at he
  rw [he] at hr
  cases hr
  obtain ⟨m'', fl'', hf, hH, hperm⟩ := hfree (by decide)
  rw [List.perm_singleton.mp hperm] at hH
  exact ⟨m', m'', he, hf, hH⟩

end Rtems.Heap
