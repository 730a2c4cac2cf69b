import Rtems.Library.Linked
import Rtems.Heap.Layout
import Rtems.Heap.Lemmas.Words

/-! # What the words of a heap say -/

namespace Rtems.Heap

structure Tags (m : Memory) (L : Layout) : Prop where
  front : ∀ b ∈ L.blocks, frontFlag m b.addr = b.flag
  back : ∀ b ∈ L.blocks, backFlag m (b.addr + b.size) = b.flag
  dummy_back : backFlag m L.start = dummyFlag
  dummy_front : frontFlag m L.final = dummyFlag

structure FreeList (m : Memory) (h : Nat) (L : Layout) (fl : List Nat) : Prop where
  links : Linked (next m) (previous m) (head h :: (fl ++ [tail h]))
  nodup : fl.Nodup
  mem_iff : ∀ a, a ∈ fl ↔ ∃ b ∈ L.blocks, b.addr = a ∧ b.used = false

structure Placed (h : Nat) (start final : Nat) : Prop where
  fits : final + 8 ≤ 2 ^ 32
  outside : h + 28 ≤ start ∨ final + 8 ≤ h

structure Control (m : Memory) (h page : Nat) (L : Layout) : Prop where
  start_eq : start m h = L.start
  final_eq : final m h = L.final
  page_eq : pageSize m h = page
  page_valid : isPageSizeValid page = true
  page_lt : page < 2 ^ 32

structure Holds (m : Memory) (h page : Nat) (L : Layout) (fl : List Nat) : Prop where
  tags : Tags m L
  list : FreeList m h L fl
  placed : Placed h L.start L.final
  control : Control m h page L

theorem Control.page_pos {m h page L} (hc : Control m h page L) :
    0 < page ∧ page % 4 = 0 := by
  have hv := of_decide_eq_true hc.page_valid
  unfold cpuHeapAlignment at hv
  omega

theorem Block.flag_lt {b} {L : Layout} {h} (hp : Placed h L.start L.final)
    (hb : b ∈ L.blocks) : b.flag < 2 ^ 32 := by
  have := hp.fits
  have := L.le_final hb
  unfold Block.flag
  split <;> omega

theorem Block.flag_mod {b} {L : Layout} (hb : b ∈ L.blocks) :
    b.flag % 2 = if b.used then 1 else 0 := by
  have := L.size_aligned b hb
  unfold Block.flag
  split <;> omega

theorem Block.clearUsed_flag {b} {L : Layout} {h} (hp : Placed h L.start L.final)
    (hb : b ∈ L.blocks) : clearUsed b.flag = b.size := by
  rw [clearUsed_eq (Block.flag_lt hp hb), Block.flag_mod hb]
  unfold Block.flag
  split <;> simp

theorem Tags.congr {m m' L} (ht : Tags m L) (hf : ∀ b ∈ L.blocks, m' (b.addr + 4) = m (b.addr + 4))
    (hb : ∀ b ∈ L.blocks, m' (b.addr + b.size) = m (b.addr + b.size))
    (h0 : m' L.start = m L.start) (h1 : m' (L.final + 4) = m (L.final + 4)) : Tags m' L where
  front b h := (hf b h).trans (ht.front b h)
  back b h := (hb b h).trans (ht.back b h)
  dummy_back := h0.trans ht.dummy_back
  dummy_front := h1.trans ht.dummy_front

theorem FreeList.congr {m m' h L fl}
    (hl : FreeList m h L fl) (hn : ∀ x, x = head h ∨ x ∈ fl → m' (x + 8) = m (x + 8))
    (hp : ∀ x, x = tail h ∨ x ∈ fl → m' (x + 12) = m (x + 12)) :
    Linked (next m') (previous m') (head h :: (fl ++ [tail h])) := by
  refine hl.links.congr (fun a ha => hn a ?_) fun a ha => hp a ?_
  · rw [← List.cons_append, List.dropLast_concat] at ha
    simpa using ha
  · simp only [List.tail_cons, List.mem_append, List.mem_singleton] at ha
    exact ha.symm

theorem Control.congr {m m' h page L L'} (hc : Control m h page L)
    (h0 : m' h = m h) (h1 : m' (h + 4) = m (h + 4)) (h2 : m' (h + 20) = m (h + 20))
    (hs : L'.start = L.start) (hf : L'.final = L.final) : Control m' h page L' where
  start_eq := by rw [hs]; exact h0.trans hc.start_eq
  final_eq := by rw [hf]; exact h1.trans hc.final_eq
  page_eq := h2.trans hc.page_eq
  page_valid := hc.page_valid
  page_lt := hc.page_lt

theorem FreeList.block {m h L fl} (hl : FreeList m h L fl)
    {x} (hx : x ∈ fl) : ∃ b ∈ L.blocks, b.addr = x ∧ b.used = false := (hl.mem_iff x).mp hx

theorem Tags.exchange {m m' L L' xs mid mid' ys p q}
    (ht : Tags m L) (h : L.blocks = xs ++ mid ++ ys) (h' : L'.blocks = xs ++ mid' ++ ys)
    (hs : L'.start = L.start) (hf : L'.final = L.final) (hx : Contiguous L.start xs p)
    (hy : Contiguous q ys L.final) (hsame : ∀ w, w ≤ p ∨ q < w → m' w = m w)
    (hm : ∀ b ∈ mid', frontFlag m' b.addr = b.flag ∧ backFlag m' (b.addr + b.size) = b.flag) :
    Tags m' L' := by
  have hmem : ∀ b, b ∈ xs ∨ b ∈ ys → b ∈ L.blocks := by
    intro b hb
    rw [h]
    simp only [List.mem_append]
    rcases hb with hb | hb
    · exact Or.inl (Or.inl hb)
    · exact Or.inr hb
  have hout : ∀ b, b ∈ xs ∨ b ∈ ys →
      frontFlag m' b.addr = b.flag ∧ backFlag m' (b.addr + b.size) = b.flag := by
    intro b hb
    have hsz := L.size_ge b (hmem b hb)
    have hb' : b.addr + b.size ≤ p ∨ q ≤ b.addr := by
      rcases hb with hb | hb
      · exact Or.inl (hx.bounds hb).2
      · exact Or.inr (hy.bounds hb).1
    rw [← ht.front b (hmem b hb)]
    refine ⟨hsame _ (by omega), ?_⟩
    rw [ht.front b (hmem b hb), ← ht.back b (hmem b hb)]
    exact hsame _ (by omega)
  have hin : ∀ b ∈ L'.blocks,
      frontFlag m' b.addr = b.flag ∧ backFlag m' (b.addr + b.size) = b.flag := by
    intro b hb
    simp only [h', List.mem_append] at hb
    rcases hb with (hb | hb) | hb
    · exact hout b (Or.inl hb)
    · exact hm b hb
    · exact hout b (Or.inr hb)
  refine ⟨fun b hb => (hin b hb).1, fun b hb => (hin b hb).2, ?_, ?_⟩
  · rw [hs, ← ht.dummy_back]; exact hsame _ (Or.inl hx.le)
  · rw [hf, ← ht.dummy_front]; exact hsame _ (Or.inr (by have := hy.le; omega))

def Site (h : Nat) (L : Layout) (x : Nat) : Prop :=
  x = head h ∨ x = tail h ∨ ∃ b ∈ L.blocks, b.addr = x

theorem Site.ne_tag {h x k L} (hp : Placed h L.start L.final) (hx : Site h L x) (hk : k = 8 ∨ k = 12) :
    (∀ b ∈ L.blocks, b.addr + 4 ≠ x + k ∧ b.addr + b.size ≠ x + k) ∧
      L.start ≠ x + k ∧ L.final + 4 ≠ x + k := by
  have hout := hp.outside
  have hsf := L.contiguous.le
  unfold Site head tail at hx
  rcases hx with hx | hx | ⟨c, hc, rfl⟩
  · refine ⟨fun b hb => ?_, by omega⟩
    have := L.start_le hb; have := L.le_final hb; have := L.size_ge b hb; omega
  · refine ⟨fun b hb => ?_, by omega⟩
    have := L.start_le hb; have := L.le_final hb; have := L.size_ge b hb; omega
  · have hcs := L.size_ge c hc
    have := L.start_le hc
    have := L.le_final hc
    refine ⟨fun b hb => ?_, by omega⟩
    rcases L.apart hb hc with rfl | h | h <;> omega

theorem Tags.store_link {m h x k v L} (ht : Tags m L)
    (hp : Placed h L.start L.final) (hx : Site h L x) (hk : k = 8 ∨ k = 12) :
    Tags (m.store (x + k) v) L := by
  obtain ⟨h1, h2, h3⟩ := hx.ne_tag hp hk
  exact ht.congr (fun b hb => m.store_ne v (h1 b hb).1) (fun b hb => m.store_ne v (h1 b hb).2)
    (m.store_ne v h2) (m.store_ne v h3)

theorem Tags.setNext {m h x v L} (ht : Tags m L)
    (hp : Placed h L.start L.final) (hx : Site h L x) : Tags (setNext m x v) L :=
  ht.store_link hp hx (Or.inl rfl)

theorem Tags.setPrevious {m h x v L} (ht : Tags m L)
    (hp : Placed h L.start L.final) (hx : Site h L x) : Tags (setPrevious m x v) L :=
  ht.store_link hp hx (Or.inr rfl)

end Rtems.Heap
