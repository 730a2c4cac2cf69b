import Rtems.Heap.Theorems
import Rtems.Region.Lemmas

/-! # Who waits while memory is free -/

namespace Rtems.Region

open Function ThreadQueue Transition Option

variable {T : Type*} [DecidableEq T] {A : Heap.Area} {s s' : System T} {mv : Move T}
  {lead lead' : Unit → Fin 4 → List T} {fol fol' : T → List T} {L L' : Heap.Layout}
  {fl fl' : List Nat} {owned owned' : List (Heap.Block × Nat × Nat)}

/-! ## One step -/

/-- Sizes that do not wrap, segments obtained, and what the heap permits. -/
def System.WellFormed (A : Heap.Area) (s : System T) : Move T → Prop
  | .getSegment size _ timeout _ =>
    timeout < 2 ^ 32 ∧ (size ≤ s.maximumSegmentSize → Heap.Unwrapped A.page size)
  | .returnSegment p _ =>
    Heap.Permitted A.control s.heap (.free p) ∨ (Heap.free s.heap.mem A.control p).2 = false
  | .extend a n => Heap.Permitted A.control s.heap (.extend a n)
  | .write a v => Heap.Permitted A.control s.heap (.write a v)
  | .tick _ => True
  | .switch _ => True

/-- What a step does to the tasks that wait and to the free memory. -/
inductive Effect (A : Heap.Area) (s s' : System T) (W W' : List T) (L L' : Heap.Layout) : Move T → Prop
  | kept {mv : Move T} (hW : W' = W) (hc : s'.count = s.count) (hs : L'.start = L.start)
      (hf : L'.final = L.final) (hS : ∀ k, Short A L k → Short A L' k)
      (hl : s'.heap.live = [] → s.heap.live = []) : Effect A s s' W W' L L' mv
  | waits {l₁ l₂ : List T} {n timeout fuel : Nat} (hW : W = l₁ ++ l₂)
      (hW' : W' = l₁ ++ s.kernel.sched.executing :: l₂) (he : s.kernel.sched.executing ∉ W)
      (hc : s'.count = update s.count s.kernel.sched.executing n)
      (hn : n ≤ s.maximumSegmentSize) (hS : Short A L n) (hL : L' = L) (hl : s'.heap = s.heap) :
      Effect A s s' W W' L L' (.getSegment n false timeout fuel)
  | served {p fuel : Nat} (hW : W' <:+ W) (hc : s'.count = s.count) (hs : L'.start = L.start)
      (hf : L'.final = L.final) (hS : ∀ t ∈ W'.head?, Short A L' (s.count t)) :
      Effect A s s' W W' L L' (.returnSegment p fuel)
  | extended {a n : Nat} (hW : W' = W) (hc : s'.count = s.count) (hs : L'.start = L.start)
      (hf : L.final ≤ L'.final) (hl : s'.heap.live = s.heap.live)
      (ha : a = L.final + 8) : Effect A s s' W W' L L' (.extend a n)
  | ticked {fuel : Nat} (hW : W'.Sublist W) (hw : ∀ t ∈ W, ¬ s.kernel.Expires t → t ∈ W') (hc : s'.count = s.count) (hL : L' = L)
      (hl : s'.heap = s.heap) : Effect A s s' W W' L L' (.tick fuel)

omit [DecidableEq T] in
theorem System.extend_refused {memory a n} (hm : (Heap.extend s.heap.mem memory a n).1 = s.heap.mem)
    (hs : (Heap.extend s.heap.mem memory a n).2.1 ≠ .successful) : (s.extend memory a n).1 = s := by
  unfold System.extend
  simp only
  split
  · rename_i hok
    exact absurd hok hs
  · rw [hm]
  · rw [hm]

section Step

variable (h : s.Sound A lead fol L fl owned)

include h

theorem System.Sound.getSegment {size timeout fuel noWait}
    (hw : s.WellFormed A (.getSegment size noWait timeout fuel))
    (he : s.step A.control (.getSegment size noWait timeout fuel) = some s') :
    ∃ lead' fol' L' fl' owned', s'.Sound A lead' fol' L' fl' owned' ∧
      Effect A s s' (service (lead ()) fol) (service (lead' ()) fol') L L'
        (.getSegment size noWait timeout fuel) := by
  simp only [System.step] at he
  split at he
  · rename_i hr
    obtain ⟨⟨s1, st⟩, hg, rfl⟩ := map_eq_some_iff.mp he
    simp only [System.getSegment] at hg
    split at hg
    · obtain ⟨rfl, -⟩ := Prod.mk.inj (some.inj hg)
      exact ⟨lead, fol, L, fl, owned, h.setSegment _ _, .kept rfl rfl rfl rfl (fun _ h => h) id⟩
    split at hg
    · obtain ⟨rfl, -⟩ := Prod.mk.inj (some.inj hg)
      exact ⟨lead, fol, L, fl, owned, h.setSegment _ _, .kept rfl rfl rfl rfl (fun _ h => h) id⟩
    · rename_i h0 hmax
      have hmax : size ≤ s.maximumSegmentSize := by simpa [System.setSegment] using hmax
      have h1 := h.setSegment s.kernel.sched.executing 0
      rcases h1.allocate (hw.2 hmax) with ⟨hn, hS⟩ | ⟨m, p, L', fl', owned', hm, hp, hs, hst, hfi, hk⟩
      · rw [hn, bind_some, if_neg (by simp)] at hg
        cases noWait with
        | true =>
          obtain ⟨rfl, -⟩ := Prod.mk.inj (some.inj hg)
          exact ⟨lead, fol, L, fl, owned, h1, .kept rfl rfl rfl rfl (fun _ h => h) id⟩
        | false =>
          obtain ⟨s2, hw2, h2⟩ := map_eq_some_iff.mp hg
          obtain ⟨rfl, -⟩ := Prod.mk.inj h2
          obtain ⟨lead', fol', hs, hh, hc, hne, l1, l2, hl, hl'⟩ := h1.wait hr hw.1 (hw.2 hmax) hw2
          exact ⟨lead', fol', L, fl, owned, hs, .waits hl hl' hne hc hmax hS rfl hh⟩
      · rw [hm, bind_some, if_pos hp] at hg
        obtain ⟨rfl, -⟩ := Prod.mk.inj (some.inj hg)
        refine ⟨lead, fol, L', fl', owned', hs.setSegment _ _, .kept rfl rfl hst hfi hk fun hl => ?_⟩
        cases hl
  · cases he

theorem System.Sound.giveUp {p} (hp : Heap.Permitted A.control s.heap (.free p)) :
    ∃ m L' fl' owned', Heap.free s.heap.mem A.control p = (m, true) ∧
      (s.giveUp m p).Sound A lead fol L' fl' owned' ∧ L'.start = L.start ∧ L'.final = L.final := by
  obtain ⟨m, L', fl', o, k1, k2, hfr, ho, -, -, hF, hV⟩ := h.valid.free_cases hp
  refine ⟨m, L', fl', k1 ++ k2, hfr, ⟨h.rests, hV, (ho ▸ h.complete).freed hF, ?_, h.unwrapped⟩,
    hF.start_eq, hF.final_eq⟩
  obtain ⟨e, he, hep⟩ := hp
  have hlen := List.length_eraseP_of_mem (p := fun e => decide (e.1 = p)) he (by simpa using hep)
  have hpos := List.length_pos_of_mem he
  have hlt := h.length_live_lt
  simp only [System.giveUp, h.used_eq, hlen]
  exact subWord_eq hpos (by omega)

theorem System.Sound.returnSegment {p fuel} (hw : s.WellFormed A (.returnSegment p fuel))
    (he : s.step A.control (.returnSegment p fuel) = some s') :
    ∃ lead' fol' L' fl' owned', s'.Sound A lead' fol' L' fl' owned' ∧
      Effect A s s' (service (lead ()) fol) (service (lead' ()) fol') L L' (.returnSegment p fuel) := by
  obtain ⟨⟨s1, st⟩, hr, rfl⟩ := map_eq_some_iff.mp he
  simp only [System.returnSegment] at hr
  rcases hw with hp | hf
  · obtain ⟨m, L1, fl1, owned1, hfr, h1, hst1, hfi1⟩ := h.giveUp hp
    rw [hfr, if_pos rfl] at hr
    obtain ⟨s2, hs, h2⟩ := map_eq_some_iff.mp hr
    obtain ⟨rfl, -⟩ := Prod.mk.inj h2
    obtain ⟨lead', fol', L', fl', owned', hs', hst, hfi, hc, hsuf, hh⟩ := h1.serve hs
    exact ⟨lead', fol', L', fl', owned', hs', .served hsuf hc (hst.trans hst1) (hfi.trans hfi1) hh⟩
  · rw [hf, Heap.free_refused hf] at hr
    obtain ⟨rfl, -⟩ := Prod.mk.inj (some.inj hr)
    exact ⟨lead, fol, L, fl, owned, h, .kept rfl rfl rfl rfl (fun _ h => h) id⟩

theorem System.Sound.extend {a n} (hw : s.WellFormed A (.extend a n)) :
    ∃ L' fl' owned', (s.extend A.control a n).1.Sound A lead fol L' fl' owned' ∧
      Effect A s (s.extend A.control a n).1 (service (lead ()) fol) (service (lead ()) fol) L L'
        (.extend a n) := by
  rcases h.valid.extend_cases hw with ⟨hm, hs⟩ | ⟨m, L', fl', ha, he, hf, hS, hg, hV⟩
  · rw [System.extend_refused hm hs]
    exact ⟨L, fl, owned, h, .kept rfl rfl rfl rfl (fun _ h => h) id⟩
  · have hst : L'.start = L.start := hV.start_eq.trans h.valid.start_eq.symm
    refine ⟨L', fl', owned, ?_, .extended rfl ?_ hst (by omega) ?_ ha⟩
    · simp only [System.extend, he]
      exact ⟨h.rests, hV, h.complete.extended hS hg, h.used_eq, h.unwrapped⟩
    · simp only [System.extend, he]
    · simp only [System.extend, he]

theorem System.Sound.tick {fuel} (he : s.step A.control (.tick fuel) = some s') :
    ∃ lead' fol', s'.Sound A lead' fol' L fl owned ∧
      Effect A s s' (service (lead ()) fol) (service (lead' ()) fol') L L (.tick fuel) := by
  obtain ⟨⟨K, o⟩, hK, rfl⟩ := map_eq_some_iff.mp he
  obtain ⟨lead', fol', hR, hsub⟩ := h.rests.tick
    (I := fun _ lead' fol' => (service (lead' ()) fol').Sublist (service (lead ()) fol))
    (fun _ h => h) (fun hI hD _ => (hD.erased ▸ List.erase_sublist).trans hI) (List.Sublist.refl _) hK
  refine ⟨lead', fol', ⟨hR, h.valid, h.complete, h.used_eq, fun t ht => h.unwrapped t (hsub.subset ht)⟩,
    .ticked hsub (fun t ht hx => ?_) rfl rfl rfl⟩
  exact hR.isWaiting_iff.mp (h.rests.waits_on hx (h.rests.isWaiting_iff.mpr ht) hK)

theorem System.Sound.step (hw : s.WellFormed A mv) (he : s.step A.control mv = some s') :
    ∃ lead' fol' L' fl' owned', s'.Sound A lead' fol' L' fl' owned' ∧
      Effect A s s' (service (lead ()) fol) (service (lead' ()) fol') L L' mv := by
  cases mv with
  | getSegment size noWait timeout fuel => exact h.getSegment hw he
  | returnSegment p fuel => exact h.returnSegment hw he
  | extend a n =>
    obtain rfl := some.inj he
    obtain ⟨L', fl', owned', hs⟩ := h.extend hw
    exact ⟨lead, fol, L', fl', owned', hs⟩
  | tick fuel =>
    obtain ⟨lead', fol', hs⟩ := h.tick he
    exact ⟨lead', fol', L, fl, owned, hs⟩
  | write a v =>
    obtain rfl := some.inj he
    exact ⟨lead, fol, L, fl, owned, ⟨h.rests, h.valid.store hw, h.complete, h.used_eq, h.unwrapped⟩,
      .kept rfl rfl rfl rfl (fun _ h => h) id⟩
  | switch t =>
    simp only [System.step] at he
    split at he
    · obtain rfl := some.inj he
      exact ⟨lead, fol, L, fl, owned,
        ⟨h.rests.switch t, h.valid, h.complete, h.used_eq, h.unwrapped⟩,
        .kept rfl rfl rfl rfl (fun _ h => h) id⟩
    · cases he

end Step

theorem create_sound {K m} (hK : K.Idle)
    (hc : System.create A.control K m A.start A.size A.page = .ok s) :
    ∃ lead fol, s.Sound A lead fol A.layout [A.start] [] ∧ service (lead ()) fol = [] := by
  obtain ⟨lead, fol, hR, hW, -⟩ := hK.rests
  unfold System.create at hc
  split at hc
  · cases hc
  simp only at hc
  split at hc
  · cases hc
  obtain rfl := Except.ok.inj hc
  refine ⟨lead, fol, ⟨hR, Heap.initialized_valid A m, Heap.initialized_complete A, rfl, ?_⟩, hW ()⟩
  rw [hW]
  simp

theorem sound_run {K m s₀} {P : System T → Move T → Prop} {I : System T → List T → Heap.Layout → Prop}
    (hK : K.Idle) (hc : System.create A.control K m A.start A.size A.page = .ok s₀) (h₀ : I s₀ [] A.layout)
    (hI : ∀ {s s' mv lead lead' fol fol' L L' fl fl' owned owned'}, s.Sound A lead fol L fl owned →
      s'.Sound A lead' fol' L' fl' owned' → s.WellFormed A mv → P s mv → s.step A.control mv = some s' →
      Effect A s s' (service (lead ()) fol) (service (lead' ()) fol') L L' mv →
      I s (service (lead ()) fol) L → I s' (service (lead' ()) fol') L')
    (h : Steps (System.step A.control) (fun s mv => s.WellFormed A mv ∧ P s mv) s₀ s) :
    ∃ lead fol L fl owned, s.Sound A lead fol L fl owned ∧ I s (service (lead ()) fol) L := by
  refine h.invariant (I := fun s => ∃ lead fol L fl owned, s.Sound A lead fol L fl owned ∧
    I s (service (lead ()) fol) L) ?_ ?_
  · rintro s mv s' ⟨lead, fol, L, fl, owned, hs, hS⟩ ⟨hw, hp⟩ he
    obtain ⟨lead', fol', L', fl', owned', hs', hE⟩ := hs.step hw he
    exact ⟨lead', fol', L', fl', owned', hs', hI hs hs' hw hp he hE hS⟩
  · obtain ⟨lead, fol, hs, hW⟩ := create_sound hK hc
    exact ⟨lead, fol, _, _, _, hs, hW.symm ▸ h₀⟩

/-! ## The first request cannot be satisfied -/

/-- No extension right behind the heap while a task waits; the first task is not timed out while
another waits for less. -/
def System.Prompt (A : Heap.Area) (s : System T) : Move T → Prop
  | .extend a _ => s.kernel.first () = none ∨ a ≠ Heap.final s.heap.mem A.control + Heap.overhead
  | .tick _ => ∀ u ∈ s.kernel.first (), s.kernel.Expires u → ∀ t, s.kernel.isWaiting t = true →
      Heap.roundedSize A.page (s.count u) ≤ Heap.roundedSize A.page (s.count t)
  | _ => True

theorem Effect.short (h : s.Sound A lead fol L fl owned) (hp : s.Prompt A mv)
    (he : Effect A s s' (service (lead ()) fol) (service (lead' ()) fol') L L' mv)
    (hS : ∀ t ∈ (service (lead ()) fol).head?, Short A L (s.count t)) :
    ∀ t ∈ (service (lead' ()) fol').head?, Short A L' (s'.count t) := by
  intro t ht
  cases he with
  | kept hW hc _ _ hk _ =>
    rw [hW] at ht
    rw [hc]
    exact hk _ (hS t ht)
  | @waits l1 l2 n _ _ hW hW' hne hc _ hn hL _ =>
    rw [hL, hc]
    rw [hW'] at ht
    cases l1 with
    | nil =>
      obtain rfl := some.inj ht
      rw [update_self]
      exact hn
    | cons u l =>
      obtain rfl := some.inj ht
      rw [update_of_ne fun hu => hne (by simp [hW, ← hu])]
      exact hS u (by simp [hW])
  | served _ hc _ _ hh =>
    rw [hc]
    exact hh t ht
  | extended hW _ _ _ _ ha =>
    rcases hp with hn | hn
    · rw [h.rests.first_eq] at hn
      rw [hW, hn] at ht
      cases ht
    · exact absurd (h.valid.holds.control.final_eq ▸ ha) hn
  | ticked hsub hw hc hL _ =>
    rw [hL, hc]
    have htW := hsub.subset (List.mem_of_mem_head? ht)
    cases hq : service (lead ()) fol with
    | nil => simp [hq] at htW
    | cons u l =>
      have hu : s.kernel.first () = some u := by rw [h.rests.first_eq, hq, List.head?_cons]
      have hSu := hS u (by rw [hq, List.head?_cons]; rfl)
      by_cases hx : s.kernel.Expires u
      · have hle := hp u hu hx t (h.rests.isWaiting_iff.mpr htW)
        exact fun b hb hbu => (hSu b hb hbu).trans_le hle
      · -- the first task stays, and before it there was none
        have hmem := hw u (by simp [hq]) hx
        rw [hq] at hsub
        obtain ⟨k, hk⟩ : ∃ k, service (lead' ()) fol' = t :: k := List.head?_eq_some_iff.mp ht
        rw [hk] at hsub hmem
        cases hsub with
        | cons _ hsub => exact absurd (hsub.subset hmem) (List.nodup_cons.mp (hq ▸ h.rests.nodup ())).1
        | cons_cons _ _ => exact hSu

/-- The request of the first waiting task cannot be satisfied. -/
theorem first_waiter_unsatisfied {K : Kernel Unit T} {m : Memory} {s₀ : System T} (hK : K.Idle)
    (hc : System.create A.control K m A.start A.size A.page = .ok s₀)
    (h : Steps (System.step A.control) (fun s mv => s.WellFormed A mv ∧ s.Prompt A mv) s₀ s) :
    (∀ t, s.kernel.first () = some t →
      Heap.allocate s.heap.mem A.control (s.count t) = some (s.heap.mem, 0)) ∧
    ∀ p, Heap.Permitted A.control s.heap (.free p) →
      ∃ fuel s', s.returnSegment A.control p fuel = some (s', .successful) := by
  obtain ⟨lead, fol, L, fl, owned, hs, hS⟩ := sound_run
    (I := fun s W L => ∀ t ∈ W.head?, Short A L (s.count t)) hK hc (by simp)
    (fun hs _ _ hp _ hE hS => hE.short hs hp hS) h
  refine ⟨fun t ht => ?_, fun p hp => ?_⟩
  · rw [hs.rests.first_eq] at ht
    exact hs.valid.holds.allocate_null (hS t ht)
  · obtain ⟨m, L₁, fl₁, owned₁, hfr, h₁, -⟩ := hs.giveUp hp
    obtain ⟨fuel, s', hf⟩ := h₁.serve_total
    refine ⟨fuel, s', ?_⟩
    simp only [System.returnSegment, hfr, if_true, hf, map_some]

instance (A : Heap.Area) (s : System T) (mv : Move T) : Decidable (s.WellFormed A mv) := by
  cases mv <;> unfold System.WellFormed <;> infer_instance

/-- A check that is enough: the first task has no timer, or one with a longer interval of its own. -/
def System.isPrompt (A : Heap.Area) (s : System T) : Move T → Bool
  | .extend a _ =>
    s.kernel.first () = none ∨ a ≠ Heap.final s.heap.mem A.control + Heap.overhead
  | .tick _ => (s.kernel.first ()).all fun u =>
    s.kernel.timers.state u ≠ .active ∨ 1 < s.kernel.timers.delta u
  | _ => true

theorem System.prompt_of_isPrompt (h : s.isPrompt A mv = true) : s.Prompt A mv := by
  cases mv with
  | extend a n => simpa only [System.isPrompt, System.Prompt, decide_eq_true_eq] using h
  | tick fuel =>
    rintro u hu ⟨ha, l, -, hl, hd⟩
    have hle := DeltaList.le_due (δ := s.kernel.timers.delta) hl
    simp only [System.isPrompt, mem_def.mp hu, Option.all_some, decide_eq_true_eq] at h
    rcases h with hc | hc
    · exact absurd ha hc
    · omega
  | _ => trivial

def threeTasks : Kernel Unit Nat :=
  .boot (fun _ => waitQueue .fifo) (fun _ => .of 1) () 1 true [1, 2, 3]

def smallRegion : Option (System Nat) :=
  (System.create 0 threeTasks (fun _ => 0) 64 256 8).toOption

theorem threeTasks_idle : threeTasks.Idle := Kernel.boot_idle (fun _ => rfl) _ _ _ _ _

theorem smallRegion_created {s} (h : smallRegion = some s) :
    System.create Heap.smallArea.control threeTasks (fun _ => 0) Heap.smallArea.start
      Heap.smallArea.size Heap.smallArea.page = .ok s := by
  cases hc : System.create 0 threeTasks (fun _ => 0) 64 256 8 with
  | error e => simp [smallRegion, hc, Except.toOption] at h
  | ok s1 =>
    simp only [smallRegion, hc, Except.toOption, some.injEq] at h
    rw [← h]
    exact hc

theorem first_waiter_unsatisfied_small :
    ∃ s, smallRegion.bind (run (checked (System.step 0) fun s mv =>
        s.WellFormed Heap.smallArea mv ∧ s.isPrompt Heap.smallArea mv = true)
        [.getSegment 200 false 0 9, .switch 2, .getSegment 100 false 3 19, .switch 3,
          .getSegment 50 false 1 19, .tick 9]) = some s ∧
      s.kernel.first () = some 2 ∧ Heap.allocate s.heap.mem 0 (s.count 2) = some (s.heap.mem, 0) := by
  refine exists_of_map (fun s => s.kernel.first ()) (some 2) (by decide +kernel) fun s hs hf => ?_
  obtain ⟨s₀, h₀, hr⟩ := bind_eq_some_iff.mp hs
  exact ⟨hf, (first_waiter_unsatisfied threeTasks_idle (smallRegion_created h₀)
    (.mono (fun hm => ⟨hm.1, System.prompt_of_isPrompt hm.2⟩) (.run_checked .refl hr))).1 2 hf⟩

/-- A task stays blocked after an extension, and after a time-out. -/
theorem first_waiter_left_blocked :
    (smallRegion.bind (run (System.step 0) [.getSegment 200 false 0 9, .switch 2,
      .getSegment 100 false 0 19, .extend 320 256])).map (fun s =>
        (s.kernel.first (), (Heap.allocate s.heap.mem 0 (s.count 2)).map Prod.snd)) =
      some (some 2, some 464) ∧
    (smallRegion.bind (run (System.step 0) [.getSegment 60 false 0 9, .getSegment 100 false 0 9,
      .switch 2, .getSegment 200 false 1 19, .switch 3, .getSegment 100 false 0 19,
      .returnSegment 128 9, .tick 9])).map (fun s =>
        (s.kernel.first (), (Heap.allocate s.heap.mem 0 (s.count 3)).map Prod.snd)) =
      some (some 3, some 128) := by
  decide +kernel

/-! ## A region that is deleted -/

def System.Fitting (A : Heap.Area) (s : System T) : Move T → Prop
  | .getSegment size noWait _ _ => noWait = false → size ≤ s.maximumSegmentSize →
      Heap.roundedSize A.page size ≤ Heap.final s.heap.mem A.control - Heap.start s.heap.mem A.control
  | _ => True

theorem System.Sound.not_short (h : s.Sound A lead fol L fl owned) (hl : s.heap.live = []) {n}
    (hn : Heap.roundedSize A.page n ≤ L.final - L.start) : ¬ Short A L n := by
  intro hS
  have h16 : 16 ≤ Heap.roundedSize A.page n :=
    (Heap.roundedSize_block h.valid.holds.control.page_pos.1 h.valid.holds.control.page_pos.2 n).1
  obtain ⟨b, hb, hu, hsz⟩ := h.valid.single h.complete hl (by omega)
  have := hS b hb hu
  omega

structure Served (A : Heap.Area) (s : System T) (W : List T) (L : Heap.Layout) : Prop where
  fits : ∀ t ∈ W, Heap.roundedSize A.page (s.count t) ≤ L.final - L.start
  used : s.heap.live = [] → W = []

theorem Effect.serves (h : s.Sound A lead fol L fl owned) (h' : s'.Sound A lead' fol' L' fl' owned')
    (hf : s.Fitting A mv)
    (he : Effect A s s' (service (lead ()) fol) (service (lead' ()) fol') L L' mv)
    (hs : Served A s (service (lead ()) fol) L) : Served A s' (service (lead' ()) fol') L' := by
  cases he with
  | kept hW hc hst hfi _ hl =>
    rw [hW]
    refine ⟨fun t ht => ?_, fun h0 => hs.used (hl h0)⟩
    rw [hc, hst, hfi]
    exact hs.fits t ht
  | @waits l1 l2 n _ _ hW hW' hne hc hmax hS hL hl =>
    have hfn := hf rfl hmax
    rw [h.valid.holds.control.final_eq, h.valid.holds.control.start_eq] at hfn
    refine ⟨fun t ht => ?_, fun h0 => ?_⟩
    · rw [hL, hc]
      by_cases hte : t = s.kernel.sched.executing
      · rw [hte, update_self]
        exact hfn
      · rw [update_of_ne hte]
        refine hs.fits t ?_
        rw [hW'] at ht
        rw [hW]
        simpa [hte] using ht
    · rw [hl] at h0
      exact absurd hS (h.not_short h0 hfn)
  | served hsuf hc hst hfi hh =>
    have hfits : ∀ t ∈ service (lead' ()) fol',
        Heap.roundedSize A.page (s.count t) ≤ L'.final - L'.start := by
      intro t ht
      rw [hst, hfi]
      exact hs.fits t (hsuf.subset ht)
    refine ⟨fun t ht => by rw [hc]; exact hfits t ht, fun h0 => ?_⟩
    cases hW : service (lead' ()) fol' with
    | nil => rfl
    | cons t k => exact absurd (hh t (by simp [hW])) (h'.not_short h0 (hfits t (by simp [hW])))
  | extended hW hc hst hfi hl _ =>
    rw [hW]
    refine ⟨fun t ht => ?_, fun h0 => hs.used (hl ▸ h0)⟩
    have := hs.fits t ht
    rw [hc, hst]
    omega
  | ticked hW _ hc hL hl =>
    refine ⟨fun t ht => ?_, fun h0 => ?_⟩
    · rw [hc, hL]
      exact hs.fits t (hW.subset ht)
    · rw [hl] at h0
      exact List.sublist_nil.mp (hs.used h0 ▸ hW)

/-- If requests fit, no task waits for a region that can be deleted. -/
theorem deleted_region_unwaited {K : Kernel Unit T} {m : Memory} {s₀ : System T} (hK : K.Idle)
    (hc : System.create A.control K m A.start A.size A.page = .ok s₀)
    (h : Steps (System.step A.control) (fun s mv => s.WellFormed A mv ∧ s.Fitting A mv) s₀ s)
    (hd : s.delete = .successful) :
    s.kernel.Serves () [] ∧ s.kernel.first () = none ∧ ∀ t, s.kernel.isWaiting t = false := by
  obtain ⟨lead, fol, L, fl, owned, hs, hS⟩ := sound_run (I := Served A) hK hc ⟨by simp, fun _ => rfl⟩
    (fun hs hs' _ hp _ hE hS => hE.serves hs hs' hp hS) h
  have h0 : s.heap.live = [] := by
    unfold System.delete at hd
    split at hd
    · rename_i hu
      rw [hs.used_eq] at hu
      exact List.length_eq_zero_iff.mp hu
    · cases hd
  have hW := hS.used h0
  refine ⟨hs.rests.serves_iff.mpr hW.symm, ?_, fun t => ?_⟩
  · rw [hs.rests.first_eq, hW]
    rfl
  · rw [← Bool.not_eq_true, hs.rests.isWaiting_iff, hW]
    exact List.not_mem_nil

instance (A : Heap.Area) (s : System T) (mv : Move T) : Decidable (s.Fitting A mv) := by
  cases mv <;> unfold System.Fitting <;> infer_instance

theorem deleted_region_unwaited_small :
    ∃ s, smallRegion.bind (run (checked (System.step 0) fun s mv =>
        s.WellFormed Heap.smallArea mv ∧ s.Fitting Heap.smallArea mv)
        [.getSegment 200 false 0 9, .switch 2, .getSegment 100 false 0 19, .returnSegment 112 9,
          .returnSegment 208 9]) = some s ∧ s.delete = .successful ∧ s.kernel.isWaiting 2 = false := by
  refine exists_of_map System.delete .successful (by decide +kernel) fun s hs hd => ?_
  obtain ⟨s₀, h₀, hr⟩ := bind_eq_some_iff.mp hs
  exact ⟨hd, (deleted_region_unwaited threeTasks_idle (smallRegion_created h₀)
    (.run_checked .refl hr) hd).2.2 2⟩

/-- A task waits for a region that can be deleted. -/
theorem deleted_region_waited :
    (smallRegion.bind (run (System.step 0) [.getSegment 240 false 0 19])).map (fun s =>
      (s.maximumSegmentSize, s.kernel.first (), s.delete)) = some (240, some 1, .successful) := by
  decide +kernel

end Rtems.Region
