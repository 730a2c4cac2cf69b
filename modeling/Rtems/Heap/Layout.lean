import Mathlib.Algebra.GroupWithZero.Nat
import Mathlib.Data.List.Chain
import Mathlib.Algebra.BigOperators.Group.List.Basic

/-! # Partitions of an address range into blocks -/

namespace Rtems.Heap

structure Block where
  addr : Nat
  size : Nat
  used : Bool
  deriving DecidableEq, Repr

def Block.flag (b : Block) : Nat := b.size + if b.used then 1 else 0

def Contiguous : Nat → List Block → Nat → Prop
  | a, [], z => a = z
  | a, b :: bs, z => b.addr = a ∧ Contiguous (a + b.size) bs z

def Separated (bs : List Block) : Prop := bs.IsChain fun b c => b.used = true ∨ c.used = true

structure Layout where
  start : Nat
  final : Nat
  blocks : List Block
  aligned : start % 4 = 0
  contiguous : Contiguous start blocks final
  size_ge : ∀ b ∈ blocks, 16 ≤ b.size
  size_aligned : ∀ b ∈ blocks, b.size % 4 = 0
  separated : Separated blocks

theorem contiguous_append {xs ys a z} :
    Contiguous a (xs ++ ys) z ↔ ∃ p, Contiguous a xs p ∧ Contiguous p ys z := by
  induction xs generalizing a with
  | nil => simp [Contiguous]
  | cons b xs ih =>
    simp only [List.cons_append, Contiguous, ih]
    constructor
    · rintro ⟨h, p, h1, h2⟩; exact ⟨p, ⟨h, h1⟩, h2⟩
    · rintro ⟨p, ⟨h, h1⟩, h2⟩; exact ⟨h, p, h1, h2⟩

theorem Contiguous.le {bs a z} (h : Contiguous a bs z) : a ≤ z := by
  induction bs generalizing a with
  | nil => exact Nat.le_of_eq h
  | cons b bs ih => have := ih h.2; omega

theorem Contiguous.bounds {bs a z} (h : Contiguous a bs z) {b}
    (hb : b ∈ bs) : a ≤ b.addr ∧ b.addr + b.size ≤ z := by
  obtain ⟨xs, ys, rfl⟩ := List.append_of_mem hb
  obtain ⟨p, hx, hp, hy⟩ := contiguous_append.mp h
  have := hx.le
  have := hy.le
  omega

theorem Contiguous.sum_size {bs a z} (h : Contiguous a bs z) :
    a + (bs.map Block.size).sum = z := by
  induction bs generalizing a with
  | nil => simpa [Contiguous] using h
  | cons b bs ih => have := ih h.2; simp only [List.map_cons, List.sum_cons]; omega

theorem Contiguous.aligned {bs a z} (h : Contiguous a bs z)
    (ha : a % 4 = 0) (hs : ∀ b ∈ bs, b.size % 4 = 0) : z % 4 = 0 ∧ ∀ b ∈ bs, b.addr % 4 = 0 := by
  induction bs generalizing a with
  | nil => exact ⟨h ▸ ha, by simp⟩
  | cons c bs ih =>
    have hc := hs c (by simp)
    obtain ⟨hz, hbs⟩ := ih h.2 (by omega) fun b hb => hs b (by simp [hb])
    refine ⟨hz, fun b hb => ?_⟩
    rcases List.mem_cons.mp hb with rfl | hb
    · have := h.1; omega
    · exact hbs b hb

theorem Contiguous.apart {bs a z} (h : Contiguous a bs z) {b c}
    (hb : b ∈ bs) (hc : c ∈ bs) : b = c ∨ b.addr + b.size ≤ c.addr ∨ c.addr + c.size ≤ b.addr := by
  obtain ⟨xs, ys, rfl⟩ := List.append_of_mem hb
  obtain ⟨p, hx, hp, hy⟩ := contiguous_append.mp h
  rcases List.mem_append.mp hc with hc | hc
  · have := hx.bounds hc; omega
  · rcases List.mem_cons.mp hc with rfl | hc
    · exact Or.inl rfl
    · have := hy.bounds hc; omega

theorem Contiguous.exchange {xs mid mid' ys a z} (h : Contiguous a (xs ++ mid ++ ys) z)
    (hm : ∀ p q, Contiguous p mid q → Contiguous p mid' q) : Contiguous a (xs ++ mid' ++ ys) z := by
  obtain ⟨q, h1, hy⟩ := contiguous_append.mp h
  obtain ⟨p, hx, h2⟩ := contiguous_append.mp h1
  exact contiguous_append.mpr ⟨q, contiguous_append.mpr ⟨p, hx, hm p q h2⟩, hy⟩

section Separated

variable {xs ys : List Block} {b c d e : Block}

theorem Separated.split (h : Separated (xs ++ [b] ++ ys)) (hd : d.used = b.used) (he : e.used = true) :
    Separated (xs ++ [d, e] ++ ys) := by
  simp only [Separated, List.isChain_append] at h ⊢
  obtain ⟨⟨h1, -, h2⟩, h3, -⟩ := h
  refine ⟨⟨h1, ?_, ?_⟩, h3, ?_⟩
  · simp [he]
  · simpa [hd] using h2
  · simp [he]

theorem Separated.take (h : Separated (xs ++ [b] ++ ys)) (hd : d.used = true) :
    Separated (xs ++ [d] ++ ys) := by
  simp only [Separated, List.isChain_append] at h ⊢
  obtain ⟨⟨h1, -⟩, h3, -⟩ := h
  refine ⟨⟨h1, ?_, ?_⟩, h3, ?_⟩ <;> simp [hd]

theorem Separated.between {mid} (h : Separated (xs ++ mid ++ ys))
    (hl : ∀ x ∈ xs.getLast?, x.used = true) (hr : ∀ y ∈ ys.head?, y.used = true) :
    Separated (xs ++ [d] ++ ys) := by
  simp only [Separated, List.isChain_append] at h ⊢
  obtain ⟨⟨h1, -⟩, h3, -⟩ := h
  refine ⟨⟨h1, ?_, ?_⟩, h3, ?_⟩
  · simp
  · intro x hx y _; exact Or.inl (hl x hx)
  · intro x _ y hy; exact Or.inr (hr y hy)

theorem Separated.used_before (h : Separated (xs ++ b :: ys)) (hb : b.used = false) :
    ∀ x ∈ xs.getLast?, x.used = true := by
  intro x hx
  simpa [hb] using (List.isChain_append.mp h).2.2 x hx b (by simp)

theorem Separated.used_after (h : Separated (xs ++ b :: ys)) (hb : b.used = false) :
    ∀ y ∈ ys.head?, y.used = true := by
  intro y hy
  rw [← List.singleton_append, ← List.append_assoc] at h
  simpa [hb] using (List.isChain_append.mp h).2.2 b (by simp) y hy

end Separated

/-! ## Layouts -/

namespace Layout

variable {L : Layout} {b c : Block}

section

variable (hb : b ∈ L.blocks)

include hb

theorem start_le : L.start ≤ b.addr := (L.contiguous.bounds hb).1

theorem le_final : b.addr + b.size ≤ L.final := (L.contiguous.bounds hb).2

theorem apart (hc : c ∈ L.blocks) :
    b = c ∨ b.addr + b.size ≤ c.addr ∨ c.addr + c.size ≤ b.addr := L.contiguous.apart hb hc

theorem eq_of_addr (hc : c ∈ L.blocks) (h : b.addr = c.addr) : b = c := by
  have hbs := L.size_ge b hb
  have hcs := L.size_ge c hc
  rcases L.apart hb hc with h' | h' | h'
  · exact h'
  · omega
  · omega

theorem addr_aligned : b.addr % 4 = 0 :=
  (L.contiguous.aligned L.aligned L.size_aligned).2 b hb

end

theorem split_at {xs ys} (h : L.blocks = xs ++ b :: ys) :
    Contiguous L.start xs b.addr ∧ Contiguous (b.addr + b.size) ys L.final := by
  have hc := L.contiguous
  rw [h] at hc
  obtain ⟨p, hx, hp, hy⟩ := contiguous_append.mp hc
  rw [hp]
  exact ⟨hx, hy⟩

theorem mem_of_mid {xs mid ys} (h : L.blocks = xs ++ mid ++ ys) : ∀ d ∈ mid, d ∈ L.blocks :=
  fun _ hd => h ▸ List.mem_append_left _ (List.mem_append_right _ hd)

theorem addr_ne {xs mid ys} (h : L.blocks = xs ++ mid ++ ys) {d}
    (hd : d ∈ xs ∨ d ∈ ys) (hb : b ∈ mid) : d.addr ≠ b.addr := by
  obtain ⟨q, h1, hy⟩ := contiguous_append.mp (h ▸ L.contiguous)
  obtain ⟨p, hx, hm⟩ := contiguous_append.mp h1
  have hb16 := L.size_ge b (L.mem_of_mid h b hb)
  have hbm := hm.bounds hb
  rcases hd with hd | hd
  · have := hx.bounds hd
    have := L.size_ge d (by rw [h]; simp [hd])
    omega
  · have := hy.bounds hd
    omega

theorem free_iff {xs mid ys} (h : L.blocks = xs ++ mid ++ ys) {a} :
    (∃ d ∈ L.blocks, d.addr = a ∧ d.used = false) ↔
      (∃ d ∈ mid, d.addr = a ∧ d.used = false) ∨ ∃ d, (d ∈ xs ∨ d ∈ ys) ∧ d.addr = a ∧ d.used = false := by
  rw [h, ← exists_or]
  refine exists_congr fun d => ?_
  rw [← or_and_right, List.mem_append, List.mem_append, or_comm (a := d ∈ xs), or_assoc]

theorem exchange {xs mid ys} (h : L.blocks = xs ++ mid ++ ys) (mid' : List Block)
    (hm : ∀ p q, Contiguous p mid q → Contiguous p mid' q) (hge : ∀ b ∈ mid', 16 ≤ b.size)
    (hal : ∀ b ∈ mid', b.size % 4 = 0) (hsep : Separated (xs ++ mid' ++ ys)) :
    ∃ L' : Layout, L'.start = L.start ∧ L'.final = L.final ∧ L'.blocks = xs ++ mid' ++ ys := by
  have hge' := L.size_ge
  have hal' := L.size_aligned
  simp only [h, List.mem_append] at hge' hal'
  refine ⟨⟨L.start, L.final, xs ++ mid' ++ ys, L.aligned,
    Contiguous.exchange (h ▸ L.contiguous) hm, fun b hb => ?_, fun b hb => ?_, hsep⟩, rfl, rfl, rfl⟩
  · simp only [List.mem_append] at hb
    rcases hb with (hb | hb) | hb
    · exact hge' b (Or.inl (Or.inl hb))
    · exact hge b hb
    · exact hge' b (Or.inr hb)
  · simp only [List.mem_append] at hb
    rcases hb with (hb | hb) | hb
    · exact hal' b (Or.inl (Or.inl hb))
    · exact hal b hb
    · exact hal' b (Or.inr hb)

end Layout

end Rtems.Heap
