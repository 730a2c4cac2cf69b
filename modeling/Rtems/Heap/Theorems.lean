import Rtems.Heap.Run

/-! # What holds in every run of a heap -/

namespace Rtems.Heap

structure Describes (m : Memory) (h : Nat) (bs : List Block) (fl : List Nat) : Prop where
  walk : Contiguous (start m h) bs (final m h)
  front : ∀ b ∈ bs, blockSize m b.addr = b.size ∧ isBlockFree m b.addr = !b.used
  back : ∀ b ∈ bs, frontFlag m b.addr = backFlag m (b.addr + b.size)
  links : Linked (next m) (previous m) (head h :: (fl ++ [tail h]))
  nodup : fl.Nodup
  free_iff : ∀ a, a ∈ fl ↔ ∃ b ∈ bs, b.addr = a ∧ isBlockFree m b.addr = true
  separated : Separated bs

theorem Holds.describes {m h page L fl} (hH : Holds m h page L fl) : Describes m h L.blocks fl where
  walk := by
    rw [hH.control.start_eq, hH.control.final_eq]
    exact L.contiguous
  front b hb := by
    unfold blockSize
    rw [hH.tags.front b hb, Block.clearUsed_flag hH.placed hb]
    exact ⟨rfl, hH.isBlockFree_eq hb⟩
  back b hb := by rw [hH.tags.front b hb, hH.tags.back b hb]
  links := hH.list.links
  nodup := hH.list.nodup
  free_iff a := by
    rw [hH.list.mem_iff]
    refine exists_congr fun b => and_congr_right fun hb => and_congr_right fun _ => ?_
    rw [hH.isBlockFree_eq hb, Bool.not_eq_true']
  separated := L.separated

def Bounded (A : Area) (_ : State) : Request → Prop
  | .allocate n => n + 2 * A.page + 8 < 2 ^ 32
  | .extend _ _ => False
  | _ => True

theorem Area.page_pos (A : Area) : 0 < A.page := by
  have := of_decide_eq_true A.page_valid
  omega

theorem Bounded.sound {A s r} (h : Bounded A s r) : Sound A s r := by
  cases r with
  | allocate n => exact Or.inl (unwrapped_of_bound A.page_pos h)
  | free p => trivial
  | extend a n => trivial
  | write a v => trivial

/-- In runs of bounded requests tags and free list agree, and requests return. -/
theorem bounded_run_describes (A : Area) {s : State} (hs : Reachable A (Bounded A) s) :
    (∃ bs fl, Describes s.mem A.control bs fl ∧ (bs.map Block.size).sum = A.size - 8) ∧
      ∀ r, Permitted A.control s r → Bounded A s r → ∃ s', perform A.control s r = some s' := by
  obtain ⟨L, fl, owned, hV, hf⟩ := hs.valid fun _ _ => Bounded.sound
  refine ⟨⟨L.blocks, fl, hV.holds.describes, ?_⟩, fun r hp hr => ?_⟩
  · have hsum := L.contiguous.sum_size
    rw [hf fun _ _ _ h => h, hV.start_eq] at hsum
    omega
  · obtain ⟨s', -, -, -, he, -⟩ := hV.step hp hr.sound
    exact ⟨s', he⟩

def smallArea : Area where
  control := 0
  start := 64
  size := 256
  page := 8
  aligned := by decide
  size_aligned := by decide
  size_ge := by decide
  page_valid := by decide
  page_lt := by decide
  fits := by decide
  outside := by decide

theorem bounded_run_describes_smallArea :
    ∃ s, Reachable smallArea (Bounded smallArea) s ∧ s.live = [(296, 10)] ∧
      ∃ bs fl, Describes s.mem 0 bs fl ∧ (bs.map Block.size).sum = 248 := by
  have h0 : Reachable smallArea (Bounded smallArea) ⟨smallArea.memory fun _ => 0, []⟩ := .initialized _
  have hp : Permitted 0 ⟨smallArea.memory fun _ => 0, []⟩ (.allocate 10) := by unfold Permitted; decide
  have hb : Bounded smallArea ⟨smallArea.memory fun _ => 0, []⟩ (.allocate 10) := by
    unfold Bounded; decide
  obtain ⟨s, he⟩ := (bounded_run_describes smallArea h0).2 _ hp hb
  have hs := h0.step _ hp hb he
  have hl : (perform 0 ⟨smallArea.memory fun _ => 0, []⟩ (.allocate 10)).map State.live =
      some [(296, 10)] := by decide +kernel
  change perform 0 _ _ = _ at he
  rw [he] at hl
  exact ⟨s, hs, by simpa using hl, (bounded_run_describes smallArea hs).1⟩

/-! ## The area handed out -/

/-- A size that wraps leads over the end of the heap. -/
theorem allocate_wraps :
    ∃ s, Reachable smallArea (fun _ _ => True) s ∧
      Permitted 0 s (.allocate (2 ^ 32 - 1)) ∧
      ∃ m' p, allocate s.mem 0 (2 ^ 32 - 1) = some (m', p) ∧ p ≠ 0 ∧
        final m' 0 < p + (2 ^ 32 - 1) := by
  refine ⟨⟨smallArea.memory fun _ => 0, []⟩, .initialized _, by unfold Permitted; decide, ?_⟩
  have hr : (allocate (smallArea.memory fun _ => 0) 0 (2 ^ 32 - 1)).map
      (fun r => (r.2, final r.1 0)) = some (312, 312) := by decide +kernel
  obtain ⟨⟨m', p⟩, he, hpf⟩ := Option.map_eq_some_iff.mp hr
  simp only [Prod.mk.injEq] at hpf
  exact ⟨m', p, he, by omega, by omega⟩

/-- Inside the heap, overlapping no live area, tag or offset word. -/
theorem allocate_area (A : Area) {s : State} {m' : Memory} {n p : Nat} (hs : Reachable A (Sound A) s)
    (hS : Sound A s (.allocate n)) (he : allocate s.mem A.control n = some (m', p)) (hp : p ≠ 0) :
    (A.start ≤ p ∧ p + n ≤ final m' A.control) ∧
      (∀ e ∈ s.live, p + n ≤ e.1 ∨ e.1 + e.2 ≤ p) ∧
      (∀ e ∈ (p, n) :: s.live, p + n ≤ e.1 - 4 ∨ e.1 ≤ p) ∧
      ∃ bs fl, Describes m' A.control bs fl ∧ ∀ b ∈ bs, p + n ≤ b.addr ∨ b.addr + 8 ≤ p := by
  obtain ⟨L, fl, owned, hV, -⟩ := hs.valid fun _ _ h => h
  obtain ⟨s', L', fl', owned', he', hV', -⟩ := hV.allocate hS
  have hs' : s' = ⟨m', (p, n) :: s.live⟩ := by
    simp only [perform, he, Option.map_some, if_neg hp, Option.some.injEq] at he'
    exact he'.symm
  subst hs'
  -- the first owner is that of the new area
  obtain ⟨⟨c, e⟩, k, rfl, rfl, hk⟩ := List.map_eq_cons_iff.mp hV'.live_eq
  obtain ⟨hcm, hcu, hua⟩ := hV'.owns _ List.mem_cons_self
  have hcs := L'.start_le hcm
  have hcf := L'.le_final hcm
  have hst := hV'.start_eq
  have hps := hua.start
  have hpo := hua.offset_ge
  have hpr := hua.room
  simp only at hcs hcf hps hpo hpr hcm
  have hother : ∀ e ∈ s.live, p + n ≤ e.1 - 4 ∨ e.1 + e.2 ≤ p := by
    intro e hemem
    rw [← hk] at hemem
    obtain ⟨o, ho, rfl⟩ := List.mem_map.mp hemem
    obtain ⟨hom, -, hoa⟩ := hV'.owns o (List.mem_cons_of_mem _ ho)
    have hne : c ≠ o.1 := by
      rintro rfl
      exact (List.nodup_cons.mp hV'.nodup).1 (List.mem_map.mpr ⟨o, ho, rfl⟩)
    have hos := hoa.start
    have hoo := hoa.offset_ge
    have hor := hoa.room
    rcases L'.apart hcm hom with h | h | h
    · exact absurd h hne
    · omega
    · omega
  refine ⟨⟨by omega, ?_⟩, fun e hmem => ?_, ?_, L'.blocks, fl', hV'.holds.describes, fun b hb => ?_⟩
  · rw [show final m' A.control = L'.final from hV'.holds.control.final_eq]
    omega
  · have := hother e hmem; omega
  · rw [List.forall_mem_cons]
    refine ⟨by omega, fun e hmem => ?_⟩
    have := hother e hmem; omega
  · rcases L'.apart hcm hb with rfl | h | h
    · omega
    · omega
    · omega

theorem allocate_area_smallArea :
    ∃ m', allocate (smallArea.memory fun _ => 0) 0 10 = some (m', 296) ∧ 296 + 10 ≤ final m' 0 ∧
      ∃ bs fl, Describes m' 0 bs fl ∧ ∀ b ∈ bs, 296 + 10 ≤ b.addr ∨ b.addr + 8 ≤ 296 := by
  have hr : (allocate (smallArea.memory fun _ => 0) 0 10).map Prod.snd = some 296 := by
    decide +kernel
  obtain ⟨⟨m', p⟩, he, rfl⟩ := Option.map_eq_some_iff.mp hr
  obtain ⟨h1, -, -, h2⟩ := allocate_area smallArea (.initialized fun _ => 0)
    (Or.inl (by decide)) he (by decide)
  exact ⟨m', he, h1.2, h2⟩

/-! ## Growing a heap -/

/-- With no bytes, a block of size 0 becomes free. -/
theorem extend_by_nothing :
    ∃ s, Reachable smallArea (Sound smallArea) s ∧
      ∃ m', extend s.mem 0 (final s.mem 0 + 8) 0 = (m', .successful, some 0) ∧
        ¬ ∃ bs fl, Describes m' 0 bs fl := by
  refine ⟨⟨smallArea.memory fun _ => 0, []⟩, .initialized _,
    (extend (smallArea.memory fun _ => 0) 0 320 0).1, ?_, ?_⟩
  · have hf : final (smallArea.memory fun _ => 0) 0 + 8 = 320 := by decide +kernel
    have he : (extend (smallArea.memory fun _ => 0) 0 320 0).2 = (.successful, some 0) := by
      decide +kernel
    simp only [hf]
    rw [← he]
  · rintro ⟨bs, fl, hD⟩
    have hw : start (extend (smallArea.memory fun _ => 0) 0 320 0).1 0 = 64 ∧
        final (extend (smallArea.memory fun _ => 0) 0 320 0).1 0 = 312 ∧
        frontFlag (extend (smallArea.memory fun _ => 0) 0 320 0).1 64 = 248 ∧
        blockSize (extend (smallArea.memory fun _ => 0) 0 320 0).1 64 = 248 ∧
        backFlag (extend (smallArea.memory fun _ => 0) 0 320 0).1 312 = 0 := by
      decide +kernel
    obtain ⟨hs, hf, hff, hsz, hbf⟩ := hw
    have hwalk := hD.walk
    rw [hs, hf] at hwalk
    cases bs with
    | nil => cases hwalk
    | cons b bs =>
      have hb := (hD.front b (by simp)).1
      have hback := hD.back b (by simp)
      rw [hwalk.1] at hb hback
      rw [← hb, hsz, hff, hbf] at hback
      cases hback

/-- An area large enough for a block makes the heap larger. -/
theorem extend_describes (A : Area) {s : State} {n : Nat} (hs : Reachable A (Sound A) s)
    (h4 : n % 4 = 0) (h16 : 16 ≤ n) (hfit : final s.mem A.control + 8 + n ≤ 2 ^ 32)
    (hout : A.control + 28 ≤ A.start ∨ final s.mem A.control + 8 + n ≤ A.control) :
    ∃ m', extend s.mem A.control (final s.mem A.control + 8) n = (m', .successful, some n) ∧
      start m' A.control = start s.mem A.control ∧
      final m' A.control = final s.mem A.control + n ∧
      ∃ bs fl bs' fl', Describes s.mem A.control bs fl ∧ Describes m' A.control bs' fl' ∧
        (bs'.map Block.size).sum = (bs.map Block.size).sum + n := by
  obtain ⟨L, fl, owned, hV, -⟩ := hs.valid fun _ _ h => h
  have hH := hV.holds
  rw [hH.control.final_eq] at hfit hout ⊢
  rw [← hV.start_eq] at hout
  obtain ⟨m', L', fl', he, hH', hst, hfi, -⟩ := extend_spec hH h4 h16 ⟨by omega, by omega⟩
  refine ⟨m', he, ?_, ?_, L.blocks, fl, L'.blocks, fl', hH.describes, hH'.describes, ?_⟩
  · rw [hH'.control.start_eq, hH.control.start_eq, hst]
  · rw [hH'.control.final_eq, hfi]
  · have h₁ := L.contiguous.sum_size
    have h₂ := L'.contiguous.sum_size
    omega

theorem extend_describes_smallArea :
    ∃ m', extend (smallArea.memory fun _ => 0) 0 320 16 = (m', .successful, some 16) ∧
      ∃ bs fl, Describes m' 0 bs fl := by
  have hf : final (smallArea.memory fun _ => 0) 0 = 312 := by decide +kernel
  obtain ⟨m', he, -, -, -, -, bs', fl', -, hD, -⟩ := extend_describes smallArea (n := 16)
    (.initialized fun _ => 0) (by decide) (by decide)
    (by change final (smallArea.memory fun _ => 0) 0 + 8 + 16 ≤ _; rw [hf]; decide) (by decide)
  refine ⟨m', ?_, bs', fl', hD⟩
  change extend (smallArea.memory fun _ => 0) 0 (final (smallArea.memory fun _ => 0) 0 + 8) 16 = _ at he
  exact he

end Rtems.Heap
