import Rtems.Region.Theorems

/-! # Requests to an idle region -/

namespace Rtems.Region

open ThreadQueue Transition Option

variable {T : Type*} [DecidableEq T] {A : Heap.Area} {s s' : System T} {mv : Move T}
  {lead : Unit → Fin 4 → List T} {fol : T → List T} {L : Heap.Layout} {fl : List Nat}
  {owned : List (Heap.Block × Nat × Nat)}

/-! ## The advertised maximum -/

/-- `maximum_segment_size` is that of the heap without the overhead. -/
def System.Sized (A : Heap.Area) (s : System T) : Prop :=
  s.maximumSegmentSize + 8 + Heap.start s.heap.mem A.control = Heap.final s.heap.mem A.control

theorem System.serve_maximum {memory fuel} (he : System.serve memory fuel s = some s') :
    s'.maximumSegmentSize = s.maximumSegmentSize := by
  induction fuel generalizing s with
  | zero => cases he
  | succ fuel ih =>
    rw [System.serve] at he
    cases hf : s.kernel.first () with
    | none =>
      rw [hf] at he
      exact congrArg _ (some.inj he).symm
    | some t =>
      rw [hf] at he
      obtain ⟨r, -, he⟩ := bind_eq_some_iff.mp he
      split at he
      · exact congrArg _ (some.inj he).symm
      · exact (ih he).trans rfl

theorem System.getSegment_maximum {memory size timeout fuel noWait st}
    (he : s.getSegment memory size noWait timeout fuel = some (s', st)) :
    s'.maximumSegmentSize = s.maximumSegmentSize := by
  simp only [System.getSegment] at he
  split at he
  · cases he; rfl
  split at he
  · cases he; rfl
  obtain ⟨r, -, he⟩ := bind_eq_some_iff.mp he
  split at he
  · cases he; rfl
  split at he
  · cases he; rfl
  · obtain ⟨s1, hw, he⟩ := map_eq_some_iff.mp he
    obtain ⟨K, -, rfl⟩ := map_eq_some_iff.mp hw
    cases he
    rfl

theorem System.step_maximum {memory} (he : s.step memory mv = some s')
    (hne : ∀ a n, mv ≠ .extend a n) : s'.maximumSegmentSize = s.maximumSegmentSize := by
  cases mv with
  | getSegment size noWait timeout fuel =>
    simp only [System.step] at he
    split at he
    · obtain ⟨⟨s1, st⟩, hg, rfl⟩ := map_eq_some_iff.mp he
      exact System.getSegment_maximum hg
    · cases he
  | returnSegment p fuel =>
    obtain ⟨⟨s1, st⟩, hr, rfl⟩ := map_eq_some_iff.mp he
    simp only [System.returnSegment] at hr
    split at hr
    · obtain ⟨s2, hs, h2⟩ := map_eq_some_iff.mp hr
      cases h2
      exact (System.serve_maximum hs).trans rfl
    · cases hr
      rfl
  | extend a n => exact absurd rfl (hne a n)
  | tick fuel =>
    obtain ⟨r, -, rfl⟩ := map_eq_some_iff.mp he
    rfl
  | write a v =>
    cases he
    rfl
  | switch t =>
    simp only [System.step] at he
    split at he
    · cases he
      rfl
    · cases he

theorem System.Sized.extend {a n} (hz : s.Sized A) (h : s.Sound A lead fol L fl owned)
    (hw : s.WellFormed A (.extend a n)) : (s.extend A.control a n).1.Sized A := by
  unfold System.Sized at *
  rcases h.valid.extend_cases hw with ⟨hm, hst⟩ | ⟨m, L', fl', -, he, hf, -, -, hV⟩
  · rw [System.extend_refused hm hst]
    exact hz
  · have hfit := hV.holds.placed.fits
    have hfin := hV.holds.control.final_eq
    have hsta := hV.holds.control.start_eq
    have hs' : L'.start = L.start := hV.start_eq.trans h.valid.start_eq.symm
    rw [h.valid.holds.control.final_eq, h.valid.holds.control.start_eq] at hz
    simp only [System.extend, he, getD_some]
    rw [hfin, hsta, hf, hs', addWord_eq (by omega)]
    omega

theorem System.Sized.step (hz : s.Sized A) (h : s.Sound A lead fol L fl owned) (hw : s.WellFormed A mv)
    (he : s.step A.control mv = some s') : s'.Sized A := by
  by_cases hmv : ∃ a n, mv = .extend a n
  · obtain ⟨a, n, rfl⟩ := hmv
    cases he
    exact hz.extend h hw
  · have hne : ∀ a n, mv ≠ .extend a n := fun a n hmv' => hmv ⟨a, n, hmv'⟩
    obtain ⟨lead', fol', L', fl', owned', h', hE⟩ := h.step hw he
    unfold System.Sized at hz ⊢
    rw [h.valid.holds.control.final_eq, h.valid.holds.control.start_eq] at hz
    rw [h'.valid.holds.control.final_eq, h'.valid.holds.control.start_eq, System.step_maximum he hne]
    cases hE with
    | kept _ _ hst hfi _ _ => rw [hst, hfi]; exact hz
    | waits _ _ _ _ _ _ hL _ => rw [hL]; exact hz
    | served _ _ hst hfi _ => rw [hst, hfi]; exact hz
    | extended _ _ _ _ _ _ => exact absurd rfl (hne _ _)
    | ticked _ _ _ hL _ => rw [hL]; exact hz

omit [DecidableEq T] in
theorem create_sized {K m}
    (hc : System.create A.control K m A.start A.size A.page = .ok s) : s.Sized A := by
  have hH := Heap.initialize_spec A m
  have hge : 24 ≤ A.size := A.size_ge
  have hfit := A.fits
  unfold System.create at hc
  split at hc
  · cases hc
  simp only at hc
  split at hc
  · cases hc
  obtain rfl := Except.ok.inj hc
  have hguard : ¬ (¬ Heap.isPageSizeValid A.page = true ∨ A.size < Heap.minimumSize) := by
    simp only [A.page_valid, not_true_eq_false, false_or, Nat.not_lt]
    exact A.size_ge
  have hmax : (Heap.initializeHeap m A.control A.start A.size A.page).2 = A.size - 8 - 8 := by
    unfold Heap.initializeHeap
    rw [if_neg hguard]
    simp only
    unfold subWord Heap.overhead Heap.blockUsedOverhead
    omega
  have hst := hH.control.start_eq
  have hfi := hH.control.final_eq
  simp only [Heap.Area.memory, Heap.Area.layout] at hst hfi
  simp only [System.Sized, hmax, hst, hfi]
  omega

/-- A request that fits an idle region as rounded gets its segment. -/
theorem idle_region_allocates {K : Kernel Unit T} {m : Memory} {s0 : System T} {size : Nat} (hK : K.Idle)
    (hc : System.create A.control K m A.start A.size A.page = .ok s0)
    (h : Steps (System.step A.control) (fun s mv => s.WellFormed A mv ∧ s.Fitting A mv) s0 s)
    (hl : s.heap.live = []) (h1 : 1 ≤ size) (hmax : size ≤ s.maximumSegmentSize)
    (hw : Heap.Unwrapped A.page size)
    (hfit : Heap.roundedSize A.page size ≤ s.maximumSegmentSize + 8) :
    (∃ s', ∀ noWait timeout fuel,
      s.getSegment A.control size noWait timeout fuel = some (s', some .successful) ∧
        s'.segment s.kernel.sched.executing ≠ 0) ∧
    ∀ t, s.kernel.isWaiting t = false := by
  obtain ⟨lead, fol, L, fl, owned, hs, hS, hz⟩ := sound_run (I := fun s W L => Served A s W L ∧ s.Sized A)
    hK hc ⟨⟨by simp, fun _ => rfl⟩, create_sized hc⟩
    (fun hs hs' hw hp he hE hS => ⟨hE.serves hs hs' hp hS.1, hS.2.step hs hw he⟩) h
  unfold System.Sized at hz
  rw [hs.valid.holds.control.final_eq, hs.valid.holds.control.start_eq] at hz
  have h₁ := hs.setSegment s.kernel.sched.executing 0
  refine ⟨?_, fun t => ?_⟩
  · rcases h₁.allocate hw with ⟨-, hS'⟩ | ⟨m', p, L', fl', owned', hm, hp, -⟩
    · exact absurd hS' (hs.not_short hl (by omega))
    · refine ⟨((s.setSegment s.kernel.sched.executing 0).handOut m' p size).setSegment
        s.kernel.sched.executing p, fun noWait timeout fuel => ⟨?_, ?_⟩⟩
      · simp only [System.getSegment]
        rw [if_neg (by omega), if_neg (by simpa [System.setSegment] using hmax), hm, bind_some,
          if_pos hp]
      · simpa [System.setSegment] using hp
  · rw [← Bool.not_eq_true, hs.rests.isWaiting_iff, hS.used hl]
    exact List.not_mem_nil

theorem idle_region_allocates_small :
    ∃ s, smallRegion.bind (run (checked (System.step 0) fun s mv =>
        s.WellFormed Heap.smallArea mv ∧ s.Fitting Heap.smallArea mv)
        [.getSegment 200 false 0 9, .returnSegment 112 9, .extend 320 16]) = some s ∧
      s.maximumSegmentSize = 256 ∧
      ∃ s', s.getSegment 0 240 false 0 9 = some (s', some .successful) := by
  refine exists_of_map (fun s => (s.maximumSegmentSize, s.heap.live)) (256, [])
    (by decide +kernel) fun s hs he => ?_
  obtain ⟨hmax, hl⟩ := Prod.mk.inj he
  obtain ⟨s0, h0, hr⟩ := bind_eq_some_iff.mp hs
  obtain ⟨⟨s', hs'⟩, -⟩ := idle_region_allocates threeTasks_idle (smallRegion_created h0)
    (.run_checked .refl hr) hl (by decide : 1 ≤ 240) (by omega) (by decide) (by rw [hmax]; decide)
  exact ⟨hmax, s', (hs' false 0 9).1⟩

/-- 240 bytes are accepted, and the task waits. -/
theorem idle_region_waits :
    smallRegion.map (fun s => (s.heap.live, s.maximumSegmentSize)) = some ([], 240) ∧
    (smallRegion.bind fun s => s.getSegment 0 240 false 0 19).map (fun r =>
      (r.2, r.1.heap.live, r.1.kernel.isWaiting 1)) = some (none, [], true) := by
  decide +kernel

end Rtems.Region
