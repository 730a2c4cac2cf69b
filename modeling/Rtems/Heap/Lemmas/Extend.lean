import Rtems.Heap.Lemmas.Free

/-! # Making and growing a heap -/

namespace Rtems.Heap

open Memory (store_ne store_same)

/-! ## `_Heap_Initialize` -/

/-- What `_Heap_Initialize` accepts, inside the address space. -/
structure Area where
  control : Nat
  start : Nat
  size : Nat
  page : Nat
  aligned : start % 4 = 0
  size_aligned : size % 4 = 0
  size_ge : minimumSize ≤ size
  page_valid : isPageSizeValid page = true
  page_lt : page < 2 ^ 32
  fits : start + size ≤ 2 ^ 32
  outside : control + 28 ≤ start ∨ start + size ≤ control

/-- The memory after `_Heap_Initialize`. -/
def Area.memory (A : Area) (m : Memory) : Memory :=
  (initializeHeap m A.control A.start A.size A.page).1

def Area.layout (A : Area) : Layout where
  start := A.start
  final := A.start + (A.size - 8)
  blocks := [⟨A.start, A.size - 8, false⟩]
  aligned := A.aligned
  contiguous := ⟨rfl, rfl⟩
  size_ge := by
    have := A.size_ge
    simp only [minimumSize, overhead, sizeofBlock] at this
    simp only [List.mem_singleton, forall_eq]
    omega
  size_aligned := by
    have := A.size_ge
    simp only [minimumSize, overhead, sizeofBlock] at this
    have := A.size_aligned
    simp only [List.mem_singleton, forall_eq]
    omega
  separated := List.isChain_singleton _

private def Area.opened (A : Area) (m : Memory) : Memory :=
  (((((((((m.store (A.control + 20) A.page).store A.start dummyFlag).store (A.start + 4)
    (A.size - 8)).store (A.start + 8) (tail A.control)).store (A.start + 12)
    (head A.control)).store A.control A.start).store (A.control + 8) A.start).store
    (A.control + 12) 0).store (A.control + 16) A.start)

theorem Area.memory_eq (A : Area) (m : Memory) :
    (initializeHeap m A.control A.start A.size A.page).2 ≠ 0 ∧
      A.memory m = (((A.opened m).store (A.start + (A.size - 8)) (A.size - 8)).store
        (A.start + (A.size - 8) + 4) dummyFlag).store (A.control + 4) (A.start + (A.size - 8)) := by
  have hge : 24 ≤ A.size := A.size_ge
  have hfit := A.fits
  have h4 := A.size_aligned
  have hout := A.outside
  have hsub : subWord A.size overhead = A.size - 8 := by unfold subWord overhead; omega
  have hsub' : subWord (A.size - 8) blockUsedOverhead ≠ 0 := by
    unfold subWord blockUsedOverhead; omega
  have hguard : ¬ (¬ isPageSizeValid A.page = true ∨ A.size < minimumSize) := by
    simp only [A.page_valid, not_true_eq_false, false_or, Nat.not_lt]
    exact A.size_ge
  have hnext : nextBlock (A.opened m) A.start = A.start + (A.size - 8) := by
    have hf : frontFlag (A.opened m) A.start = A.size - 8 := by
      unfold frontFlag opened
      simp (disch := omega) only [store_ne, store_same]
    unfold nextBlock
    rw [hf, clearUsed_eq (by omega), addWord_eq (by omega)]
    omega
  unfold memory initializeHeap
  rw [if_neg hguard]
  simp only [hsub]
  refine ⟨hsub', ?_⟩
  change (let theBlock := nextBlock (A.opened m) A.start
    setFinal (setFrontFlag (setBackFlag (A.opened m) theBlock (A.size - 8)) theBlock dummyFlag)
      A.control theBlock) = _
  simp only [hnext]
  rfl

theorem initialize_spec (A : Area) (m : Memory) :
    Holds (A.memory m) A.control A.page A.layout [A.start] := by
  have hge : 24 ≤ A.size := A.size_ge
  have hfit := A.fits
  have hout := A.outside
  rw [(A.memory_eq m).2]
  unfold Area.opened
  refine ⟨⟨?_, ?_, ?_, ?_⟩, ⟨?_, by simp, ?_⟩, ⟨?_, ?_⟩, ⟨?_, ?_, ?_, A.page_valid, A.page_lt⟩⟩
  · simp only [Area.layout, List.mem_singleton, forall_eq, frontFlag, Block.flag]
    simp (disch := omega) only [store_ne, store_same]
    simp
  · simp only [Area.layout, List.mem_singleton, forall_eq, backFlag, Block.flag]
    simp (disch := omega) only [store_ne, store_same]
    simp
  · simp only [Area.layout, backFlag]
    simp (disch := omega) only [store_ne, store_same]
  · simp only [Area.layout, frontFlag]
    simp (disch := omega) only [store_ne, store_same]
  · refine Linked.cons_cons_iff.mpr ⟨⟨?_, ?_⟩, Linked.cons_cons_iff.mpr ⟨⟨?_, ?_⟩,
      Linked.singleton _⟩⟩
    all_goals
      simp only [next, previous, head, tail, Nat.add_assoc, Nat.reduceAdd]
      simp (disch := omega) only [store_ne, store_same]
  · intro a
    simp only [Area.layout, List.mem_singleton, exists_eq_left, and_true]
    exact eq_comm
  · simp only [Area.layout]; omega
  · simp only [Area.layout]; omega
  all_goals
    simp only [Area.layout, start, final, pageSize]
    simp (disch := omega) only [store_ne, store_same]

/-! ## `_Heap_Extend` -/

section Extend

variable {m : Memory} {h page n : Nat} {L : Layout} {fl : List Nat}

theorem SameUsed.trans {m1 m2 L1 L2 c} (h1 : SameUsed m m1 L L1 c)
    (h2 : SameUsed m1 m2 L1 L2 c) : SameUsed m m2 L L2 c := by
  refine ⟨fun d hu hne => (h2.mem_iff d hu hne).trans (h1.mem_iff d hu hne), ?_⟩
  intro d hd hu hne x hx
  rw [h2.inside d ((h1.mem_iff d hu hne).mpr hd) hu hne x hx, h1.inside d hd hu hne x hx]

def Layout.grow (L : Layout) (n : Nat) (h4 : n % 4 = 0) (h16 : 16 ≤ n) : Layout where
  start := L.start
  final := L.final + n
  blocks := L.blocks ++ [⟨L.final, n, true⟩]
  aligned := L.aligned
  contiguous := contiguous_append.mpr ⟨L.final, L.contiguous, by simp [Contiguous]⟩
  size_ge := by
    intro b hb
    rcases List.mem_append.mp hb with hb | hb
    · exact L.size_ge b hb
    · rw [List.mem_singleton.mp hb]; exact h16
  size_aligned := by
    intro b hb
    rcases List.mem_append.mp hb with hb | hb
    · exact L.size_aligned b hb
    · rw [List.mem_singleton.mp hb]; exact h4
  separated := List.isChain_append.mpr ⟨L.separated, List.isChain_singleton _, by simp⟩

/-- The memory when `_Heap_Extend` calls `_Heap_Free`. -/
def growMemory (m : Memory) (h final n : Nat) : Memory :=
  ((((m.store (h + 4) (final + n)).store (final + n) (n + 1)).store (final + 4) (n + 1)).store
    (final + n + 4) dummyFlag).store (final + 8) 4

theorem growMemory_same {final w} (hn : 0 < n) (hw : w ≠ h + 4)
    (hw' : w ≤ final ∨ final + n + 8 ≤ w) : growMemory m h final n w = m w := by
  unfold growMemory
  simp (disch := omega) only [store_ne]

theorem grow_holds (hH : Holds m h page L fl) (h4 : n % 4 = 0) (h16 : 16 ≤ n)
    (hp : Placed h L.start (L.final + n)) :
    Holds (growMemory m h L.final n) h page (L.grow n h4 h16) fl := by
  have hout := hp.outside
  have hsf := L.contiguous.le
  have hold : ∀ b ∈ L.blocks, frontFlag (growMemory m h L.final n) b.addr = b.flag ∧
      backFlag (growMemory m h L.final n) (b.addr + b.size) = b.flag := by
    intro b hb
    have := L.start_le hb
    have := L.le_final hb
    have := L.size_ge b hb
    rw [← hH.tags.front b hb]
    refine ⟨growMemory_same (by omega) (by omega) (by omega), ?_⟩
    rw [hH.tags.front b hb, ← hH.tags.back b hb]
    exact growMemory_same (by omega) (by omega) (by omega)
  have hnew : frontFlag (growMemory m h L.final n) L.final = n + 1 ∧
      backFlag (growMemory m h L.final n) (L.final + n) = n + 1 ∧
      frontFlag (growMemory m h L.final n) (L.final + n) = dummyFlag := by
    unfold frontFlag backFlag growMemory
    simp (disch := omega) only [store_ne, store_same, and_self]
  refine ⟨⟨fun b hb => ?_, fun b hb => ?_, ?_, hnew.2.2⟩, ⟨?_, hH.list.nodup, fun a => ?_⟩, hp, ?_⟩
  · rcases List.mem_append.mp hb with hb | hb
    · exact (hold b hb).1
    · rw [List.mem_singleton.mp hb]; exact hnew.1
  · rcases List.mem_append.mp hb with hb | hb
    · exact (hold b hb).2
    · rw [List.mem_singleton.mp hb]; exact hnew.2.1
  · rw [← hH.tags.dummy_back]
    exact growMemory_same (by omega) (by show L.start ≠ _; omega) (Or.inl hsf)
  · refine hH.list.congr (fun x hx => ?_) fun x hx => ?_
    all_goals
      rcases hx with hx | hx
      · simp only [head, tail] at hx
        exact growMemory_same (by omega) (by omega) (by omega)
      · have := (hH.list.starts x hx).bounds hH.placed
        exact growMemory_same (by omega) (by omega) (by omega)
  · rw [hH.list.mem_iff]
    simp [Layout.grow]
  · refine ⟨?_, ?_, ?_, hH.control.page_valid, hH.control.page_lt⟩
    · rw [← show start m h = (L.grow n h4 h16).start from hH.control.start_eq]
      exact growMemory_same (by omega) (by omega) (by omega)
    · unfold final growMemory
      simp (disch := omega) only [store_ne, store_same]
      rfl
    · rw [← hH.control.page_eq]
      exact growMemory_same (by omega) (by omega) (by omega)

theorem extend_eq (hH : Holds m h page L fl) (h4 : n % 4 = 0) (hp : Placed h L.start (L.final + n)) :
    extend m h (L.final + 8) n =
      ((free (growMemory m h L.final n) h (L.final + 12)).1, .successful, some n) := by
  have hsf := L.contiguous.le
  have hfit := hp.fits
  have h1 : ¬ (L.final + 8 ≥ L.start ∧ L.final + 8 ≤ L.final) := by omega
  have h2 : ¬ L.final + 8 < L.start := by omega
  have h3 : subWord (L.final + 8) overhead = L.final := by unfold subWord overhead; omega
  have h5 : addWord L.final n = L.final + n := addWord_eq (by omega)
  unfold extend
  simp only [hH.control.start_eq, hH.control.final_eq, h1, h2, h3, h5, ↓reduceIte, ne_eq,
    not_true_eq_false, buildFlag_used h4, backFlag_set]
  rfl

theorem grow_area (h16 : 16 ≤ n) :
    UserArea (growMemory m h L.final n) ⟨L.final, n, true⟩ (L.final + 12) 0 := by
  have hw : growMemory m h L.final n (L.final + 12 - 4) = 4 := by
    exact store_same _ _ _
  exact ⟨by rw [hw], by rw [hw], by rw [hw], by show _ ≤ L.final + n; omega⟩

theorem grow_mem (h4 : n % 4 = 0) (h16 : 16 ≤ n) :
    (⟨L.final, n, true⟩ : Block) ∈ (L.grow n h4 h16).blocks := by simp [Layout.grow]

theorem extend_spec (hH : Holds m h page L fl) (h4 : n % 4 = 0) (h16 : 16 ≤ n)
    (hp : Placed h L.start (L.final + n)) :
    ∃ m' L' fl', extend m h (L.final + 8) n = (m', .successful, some n) ∧ Holds m' h page L' fl' ∧
      L'.start = L.start ∧ L'.final = L.final + n ∧ SameUsed m m' L L' ⟨L.final, n, true⟩ ∧
      (⟨L.final, n, true⟩ : Block) ∉ L'.blocks := by
  have hout := hp.outside
  obtain ⟨m', L', fl', hfree, hF⟩ := free_spec (grow_holds hH h4 h16 hp) (grow_mem h4 h16) rfl
    (grow_area h16)
  refine ⟨m', L', fl', ?_, hF.holds, hF.start_eq, hF.final_eq, SameUsed.trans ⟨?_, ?_⟩ hF.same, hF.gone⟩
  · rw [extend_eq hH h4 hp, hfree]
  · intro d hu hne
    simp [Layout.grow, hne]
  · intro d hd hu hne x hx
    have := L.le_final hd
    have := L.start_le hd
    obtain ⟨hx1, hx2⟩ := hx
    exact growMemory_same (by omega) (by omega) (by omega)

end Extend

end Rtems.Heap
