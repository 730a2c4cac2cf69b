import Rtems.Region.Idle

/-! # `malloc` -/

namespace Rtems.Region

open ThreadQueue Transition

variable {T : Type*} [DecidableEq T]

/-- What `malloc` asks `sbrk` for. -/
def theSize (size sbrkAmount : Nat) : Nat := addWord size sbrkAmount / sbrkAmount * sbrkAmount

/-- `malloc`; `sbrk` returns the start of the memory that it adds. -/
def System.malloc (memory : Nat) (s : System T) (size sbrkAmount : Nat) (sbrk : Option Nat) :
    Option (System T × Nat) :=
  if size = 0 then some (s, 0)
  else
    (s.getSegment memory size true 0 0).bind fun (s, status) =>
      if status = some .successful then some (s, s.segment s.kernel.sched.executing)
      else if sbrkAmount = 0 then some (s, 0)
      else
        match sbrk with
        | none => some (s, 0)
        | some startingAddress =>
          let (s, status) := s.extend memory startingAddress (theSize size sbrkAmount)
          if status ≠ .successful then some (s, 0)
          else
            (s.getSegment memory size true 0 0).map fun (s, status) =>
              (s, if status = some .successful then s.segment s.kernel.sched.executing else 0)

variable {A : Heap.Area} {s s' : System T} {lead : Unit → Fin 4 → List T} {fol : T → List T} 
  {L L' : Heap.Layout} {fl : List Nat} {owned : List (Heap.Block × Nat × Nat)} {n p : Nat}

/-- A used block of the heap has room for `n` bytes at `p`. -/
def Contains (memory : Nat) (m : Memory) (p n : Nat) : Prop :=
  ∃ bs fl b, Heap.Describes m memory bs fl ∧ b ∈ bs ∧ b.used = true ∧ b.addr + 8 ≤ p ∧ p + n ≤ b.addr + b.size

theorem System.Sound.contains (h : s.Sound A lead fol L fl owned) (hl : (p, n) ∈ s.heap.live) :
    Contains A.control s.heap.mem p n := by
  rw [← h.valid.live_eq] at hl
  obtain ⟨⟨c, e⟩, ho, rfl⟩ := List.mem_map.mp hl
  obtain ⟨hc, hu, ha⟩ := h.valid.owns _ ho
  have := ha.start
  exact ⟨L.blocks, fl, c, h.valid.holds.describes, hc, hu, by simp only at *; omega, ha.room⟩

/-- The task has got a segment of `n` bytes. -/
def System.Granted (A : Heap.Area) (s : System T) (n : Nat) : Prop :=
  s.segment s.kernel.sched.executing ≠ 0 ∧ Contains A.control s.heap.mem (s.segment s.kernel.sched.executing) n

theorem System.Sound.getSegment_noWait (h : s.Sound A lead fol L fl owned) (hw : Heap.Unwrapped A.page n)
    (hn : n ≠ 0) :
    (∃ status, status ≠ some .successful ∧ s.getSegment A.control n true 0 0 =
        some (s.setSegment s.kernel.sched.executing 0, status) ∧ (n ≤ s.maximumSegmentSize → Short A L n)) ∨
      ∃ s', s.getSegment A.control n true 0 0 = some (s', some .successful) ∧ s'.Granted A n ∧
        ¬ Short A L n := by
  have h₁ := h.setSegment s.kernel.sched.executing 0
  simp only [System.getSegment, if_neg hn]
  split <;> rename_i hm
  · exact Or.inl ⟨_, by simp, rfl, fun hle => absurd hm (Nat.not_lt.mpr hle)⟩
  rcases h₁.allocate hw with ⟨he, hS⟩ | ⟨m', p, L', fl', owned', he, hp, h₂, -⟩
  · rw [he]
    exact Or.inl ⟨_, by simp, rfl, fun _ => hS⟩
  · rw [he, Option.bind_some, if_pos hp]
    have h₃ := h₂.setSegment s.kernel.sched.executing p
    refine Or.inr ⟨_, rfl, ⟨?_, h₃.contains ?_⟩, fun hS => hp ?_⟩
    · simpa [System.setSegment, System.handOut] using hp
    · simp [System.setSegment, System.handOut]
    · exact congrArg Prod.snd (Option.some.inj (he.symm.trans (h₁.valid.holds.allocate_null hS)))

/-- What is free behind the last used block is one block with the area that is added. -/
theorem Short.grown {m m' k} (hH : Heap.Holds m A.control A.page L fl) (hs : L'.start = L.start)
    (hf : L'.final = L.final + k) (hS : Heap.SameUsed m m' L L' ⟨L.final, k, true⟩)
    (hg : (⟨L.final, k, true⟩ : Heap.Block) ∉ L'.blocks) (h4 : k % 4 = 0) (h16 : 16 ≤ k)
    (hn : Short A L n) : Short A L' n ↔ k + Heap.lastFree m A.control < Heap.roundedSize A.page n := by
  have hused : ∀ b, b.used = true → (b ∈ L'.blocks ↔ b ∈ L.blocks) := fun b hu => by
    by_cases hb : b = ⟨L.final, k, true⟩
    · refine iff_of_false (hb ▸ hg) fun hL => ?_
      have := L.le_final (hb ▸ hL)
      simp only at this
      omega
    · exact hS.mem_iff b hu hb
  constructor
  · intro h
    rcases hH.lastFree_cases with h0 | ⟨b, hb, hbu, hbe⟩
    · obtain ⟨d, hd, hdu, hda, hde⟩ := Heap.Layout.free_within (L := L.grow k h4 h16) hs (Nat.le_of_eq hf.symm)
        (fun b hb hu => by simp [Heap.Layout.grow, (hused b hu).mp hb]) (Heap.grow_mem h4 h16) fun _ => hg
      have := h d hd hdu
      simp only at hda hde
      omega
    · obtain ⟨d, hd, hdu, hda, hde⟩ := Heap.Layout.free_last hs (by omega)
        (fun b hb hu => (hused b hu).mp hb) hb hbu hbe
      have := h d hd hdu
      rw [hH.lastFree_eq hb hbu hbe]
      omega
  · intro h d hd hdu
    have hdf := L'.le_final hd
    rcases Heap.Layout.free_grown hs hused hd hdu with hle | ⟨g, hg, hgu, hga, hle | he⟩
    · omega
    · exact Nat.lt_of_le_of_lt hle (hn g hg hgu)
    · rw [hH.lastFree_eq hg hgu he] at h
      omega

theorem System.Sized.short (hz : s.Sized A) (h : s.Sound A lead fol L fl owned)
    (hu : Heap.Unwrapped A.page n) (hn : ¬ n ≤ s.maximumSegmentSize) : Short A L n := by
  intro b hb _
  have hge := Heap.roundedSize_ge h.valid.holds.control.page_pos.1 hu
  have hbs := L.start_le hb
  have hbf := L.le_final hb
  unfold System.Sized at hz
  rw [h.valid.holds.control.final_eq, h.valid.holds.control.start_eq] at hz
  omega

theorem System.Sound.extend_getSegment {a k} (h : s.Sound A lead fol L fl owned) (hz : s.Sized A)
    (ha : a = Heap.final s.heap.mem A.control + 8) (hw : s.WellFormed A (.extend a k)) (hn : n ≠ 0)
    (hu : Heap.Unwrapped A.page n) (hS : Short A L n) :
    (s.extend A.control a k).2 = .successful ∧ ∃ s' status,
      (s.extend A.control a k).1.getSegment A.control n true 0 0 = some (s', status) ∧
      (status = some .successful ↔
        Heap.roundedSize A.page n ≤ k + Heap.lastFree s.heap.mem A.control) ∧
      (status = some .successful → s'.Granted A n) := by
  have hz' := hz.extend h hw
  obtain ⟨h4, h16, hfit, hout⟩ := hw.2 ha
  rw [h.valid.holds.control.final_eq] at ha
  rw [h.valid.holds.control.start_eq] at hout
  rcases h.valid.extend_cases hw with ⟨-, hr⟩ | ⟨m, L', fl', -, he, hf, hU, hg, hV⟩
  · obtain ⟨m', L', fl', hext, -⟩ := Heap.extend_spec h.valid.holds h4 h16 ⟨by omega, by omega⟩
    exact absurd (by rw [ha, hext]) hr
  have hS' : (s.extend A.control a k).1.Sound A lead fol L' fl' owned := by
    simp only [System.extend, he]
    exact ⟨h.rests, hV, h.complete.extended hU hg, h.used_eq, h.unwrapped⟩
  have hiff := Short.grown h.valid.holds (hV.start_eq.trans h.valid.start_eq.symm) hf hU hg h4 h16 hS
  refine ⟨by simp only [System.extend, he], ?_⟩
  rcases hS'.getSegment_noWait hu hn with ⟨status, hst, he', hshort⟩ | ⟨s', he', hG, hns⟩
  · have hs : Short A L' n := by
      by_cases hle : n ≤ (s.extend A.control a k).1.maximumSegmentSize
      · exact hshort hle
      · exact hz'.short hS' hu hle
    have := hiff.mp hs
    exact ⟨_, status, he', iff_of_false hst (by omega), fun h => absurd h hst⟩
  · have := mt hiff.mpr hns
    exact ⟨s', _, he', iff_of_true rfl (by omega), fun _ => hG⟩

/-- `malloc` returns a block just if one was free, or what it adds makes one with the last free block. -/
theorem malloc_grows {K : Kernel Unit T} {m : Memory} {s₀ : System T} {a : Nat} (hK : K.Idle)
    (hc : System.create A.control K m A.start A.size A.page = .ok s₀)
    (h : Steps (System.step A.control) (System.WellFormed A) s₀ s) (hn : n ≠ 0)
    (ha : a ≠ 0) (hw : Heap.Unwrapped A.page n)
    (hp : s.WellFormed A (.extend (Heap.final s.heap.mem A.control + 8) (theSize n a))) :
    ∃ s' p, s.malloc A.control n a (some (Heap.final s.heap.mem A.control + 8)) = some (s', p) ∧
      (p ≠ 0 ↔ (s.getSegment A.control n true 0 0).map Prod.snd = some (some .successful) ∨
        Heap.roundedSize A.page n ≤ theSize n a + Heap.lastFree s.heap.mem A.control) ∧
      (p ≠ 0 → Contains A.control s'.heap.mem p n) := by
  obtain ⟨lead, fol, L, fl, owned, hS, hz⟩ := sound_run (I := fun s _ _ => s.Sized A) hK hc (create_sized hc)
    (fun hs _ hw _ he _ hz => hz.step hs hw he) (P := fun _ _ => True) (by simpa using h)
  unfold System.malloc
  rw [if_neg hn]
  rcases hS.getSegment_noWait hw hn with ⟨status, hst, he, hshort⟩ | ⟨s', he, hG, -⟩
  · have hs : Short A L n := by
      by_cases hle : n ≤ s.maximumSegmentSize
      · exact hshort hle
      · exact hz.short hS hw hle
    obtain ⟨hx, s', status', hg, hiff, hG⟩ :=
      (hS.setSegment s.kernel.sched.executing 0).extend_getSegment
        (a := Heap.final s.heap.mem A.control + 8) hz rfl hp hn hw hs
    refine ⟨s', if status' = some .successful then s'.segment s'.kernel.sched.executing else 0, ?_, ?_, ?_⟩
    · rw [he, Option.bind_some]
      dsimp only
      rw [if_neg hst, if_neg ha]
      simp only [hx, hg, ne_eq, not_true_eq_false, if_false, Option.map_some]
    · rw [he]
      by_cases hok : status' = some .successful
      · rw [if_pos hok]
        exact iff_of_true (hG hok).1 (Or.inr (hiff.mp hok))
      · rw [if_neg hok]
        refine iff_of_false (by simp) ?_
        rintro (h | h)
        · exact hst (Option.some.inj h)
        · exact hok (hiff.mpr h)
    · by_cases hok : status' = some .successful
      · rw [if_pos hok]
        exact fun _ => (hG hok).2
      · rw [if_neg hok]
        exact fun h => absurd rfl h
  · exact ⟨s', _, by simp [he], iff_of_true hG.1 (Or.inl (by rw [he]; rfl)), fun _ => hG.2⟩

theorem malloc_grows_small :
    ∃ s, smallRegion = some s ∧ ∃ s' p, s.malloc 0 1023 1024 (some 320) = some (s', p) ∧ p ≠ 0 ∧
      Contains 0 s'.heap.mem p 1023 := by
  refine exists_of_map (fun s => (Heap.final s.heap.mem 0, Heap.start s.heap.mem 0,
    Heap.lastFree s.heap.mem 0)) (312, 64, 248) (by decide +kernel) fun s hs he => ?_
  simp only [Prod.mk.injEq] at he
  obtain ⟨hf, hst, hl⟩ : Heap.final s.heap.mem Heap.smallArea.control = 312 ∧
    Heap.start s.heap.mem Heap.smallArea.control = 64 ∧
    Heap.lastFree s.heap.mem Heap.smallArea.control = 248 := he
  have hg := malloc_grows (n := 1023) (a := 1024) threeTasks_idle (smallRegion_created hs) .refl (by decide)
    (by decide) (by decide)
  rw [hf] at hg
  obtain ⟨s', p, hm, hiff, hp⟩ :=
    hg ⟨by decide, fun _ => ⟨by decide, by decide, by decide, Or.inl (by rw [hst]; decide)⟩⟩
  have hp0 := hiff.mpr (Or.inr (by rw [hl]; decide))
  exact ⟨s', p, hm, hp0, hp hp0⟩

/-- For 1023 bytes 1024 are added, and 1040 are needed. -/
theorem malloc_fails_grown :
    (smallRegion.bind fun s => (s.malloc 0 100 1024 none).bind fun r => r.1.malloc 0 1023 1024 (some 320)).map
      (fun r => (r.2, r.1.maximumSegmentSize)) = some (0, 1264) := by
  decide +kernel

end Rtems.Region
