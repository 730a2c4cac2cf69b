import Rtems.Creation.Theorems

/-! # Calls that fail give back what they took -/

namespace Rtems.Creation

open Objects (Table Block)
open Intrusive Transition

variable {cfg : Config} {s s' : System} {c : ThreadClass} {t : Tcb} {node : Nat}
  {fr : ThreadClass → List Tcb} {A : Heap.Area} {R R' : Resources} {n p : Nat}
  {k k' : List (Nat × Nat)}

def Resources.Valid (A : Heap.Area) (R : Resources) : Prop :=
  ∃ L fl owned, Heap.Valid A R.workspace L fl owned

namespace Resources.Valid

theorem setControl {v} (h : R.Valid A) : (R.setControl t v).Valid A := h

theorem allocate (h : R.Valid A) (hn : Heap.Unwrapped A.page n) :
    ∃ R' p, R.allocate A.control n = some (R', p) ∧ R'.Valid A ∧ R'.control = R.control ∧
      R'.workspace.live = if p = 0 then R.workspace.live else (p, n) :: R.workspace.live := by
  obtain ⟨L, fl, owned, hV⟩ := h
  obtain ⟨w, L', fl', owned', he, hV', -⟩ := hV.allocate (Or.inl hn)
  obtain ⟨⟨m, p⟩, hm, rfl⟩ := Option.map_eq_some_iff.mp he
  refine ⟨{ R with workspace := _ }, p, ?_, ⟨L', fl', owned', hV'⟩, rfl, rfl⟩
  simp only [Resources.allocate, hm, Option.map_some]

theorem free (h : R.Valid A) (hl : R.workspace.live = (p, n) :: k) :
    (R.free A.control p).Valid A ∧ (R.free A.control p).control = R.control ∧
      (R.free A.control p).workspace.live = k := by
  obtain ⟨L, fl, owned, hV⟩ := h
  obtain ⟨w, L', fl', owned', he, hV', -⟩ := hV.free ⟨(p, n), by simp [hl], rfl⟩
  cases he
  refine ⟨⟨L', fl', owned', hV'⟩, rfl, ?_⟩
  simp [Resources.free, hl]

end Resources.Valid

/-! ## The areas -/

def Latest (there : Prop) (p : Nat) (live k : List (Nat × Nat)) : Prop :=
  (there → ∃ n, live = (p, n) :: k) ∧ (¬ there → live = k)

def StackTaken (cfg : Config) (v : Control) : Prop :=
  v.coreAllocatedStack = true ∧ ¬ cfg.stackHooks = true

structure Request.Fits (q : Request) (cfg : Config) (page : Nat) : Prop where
  stack : q.stackArea = 0 → cfg.stackHooks = false →
    max q.stackSize cfg.stackMinimumSize + cfg.stackAlignment + 2 * page + 8 < 2 ^ 32
  fp : q.isFp = true → cfg.contextFpSize + 2 * page + 8 < 2 ^ 32
  extensions : cfg.maximumExtensions * 4 + 4 + 2 * page + 8 < 2 ^ 32

/-- No empty stack, and a floating point area that starts where its memory does. -/
structure Config.Regular (cfg : Config) (A : Heap.Area) : Prop where
  workspaceArea : cfg.workspaceArea = A.control
  stackMinimumSize : 0 < cfg.stackMinimumSize
  contextFpStart : ∀ a, cfg.contextFpStart a = a

section Areas

variable (hcfg : cfg.Regular A)

include hcfg

theorem stackFree_restores (h : R.Valid A)
    (hk : Latest (StackTaken cfg (R.control t)) (R.control t).initialStackArea R.workspace.live k) :
    (stackFree cfg R t).Valid A ∧ (stackFree cfg R t).workspace.live = k := by
  unfold stackFree
  rw [hcfg.workspaceArea]
  split
  · rename_i hc
    exact ⟨h, hk.2 fun hs => hc hs.1⟩
  split
  · rename_i hh
    exact ⟨h, hk.2 fun hs => hs.2 hh⟩
  · rename_i hc hh
    obtain ⟨n, hl⟩ := hk.1 ⟨not_not.mp hc, hh⟩
    obtain ⟨h1, -, h2⟩ := h.free hl
    exact ⟨h1, h2⟩

theorem fpFree_restores (h : R.Valid A)
    (hk : Latest ((R.control t).fpContext ≠ 0) (R.control t).fpContext R.workspace.live k) :
    (fpFree cfg R t).Valid A ∧ (fpFree cfg R t).control = R.control ∧
      (fpFree cfg R t).workspace.live = k := by
  unfold fpFree
  rw [hcfg.workspaceArea]
  split
  · rename_i h0
    exact ⟨h, rfl, hk.2 fun hn => hn h0⟩
  · rename_i h0
    obtain ⟨n, hl⟩ := hk.1 h0
    exact h.free hl

theorem stackAllocate_spec {stackSize} (granted : Nat) (h : R.Valid A)
    (he : cfg.stackMinimumSize ≤ stackSize)
    (hq : cfg.stackHooks = false → stackSize + cfg.stackAlignment + 2 * A.page + 8 < 2 ^ 32) :
    ∃ R' size stack, stackAllocate cfg R stackSize granted = some (R', size, stack) ∧ R'.Valid A ∧
      R'.control = R.control ∧ (size = 0 → R'.workspace.live = R.workspace.live) ∧
      (size ≠ 0 → Latest (¬ cfg.stackHooks = true) stack R'.workspace.live R.workspace.live) := by
  have hmin := hcfg.stackMinimumSize
  have henough : stackIsEnough cfg stackSize = true := decide_eq_true he
  simp only [stackAllocate, henough, if_true, hcfg.workspaceArea]
  split
  · rename_i hh
    exact ⟨R, _, _, rfl, h, rfl, fun _ => rfl, fun _ => ⟨fun hn => absurd hh hn, fun _ => rfl⟩⟩
  · rename_i hh
    have hq := hq (Bool.eq_false_iff.mpr hh)
    have hadj : stackAdjustSize cfg stackSize = stackSize + cfg.stackAlignment := addWord_eq (by omega)
    obtain ⟨R', p, hp, hV, hc, hl⟩ := h.allocate (n := stackSize + cfg.stackAlignment)
      (Heap.unwrapped_of_bound A.page_pos hq)
    rw [hadj, hp]
    refine ⟨R', _, p, rfl, hV, hc, fun h0 => ?_, fun h0 => ⟨fun _ => ?_, fun hn => absurd hh hn⟩⟩
    · have hp0 : p = 0 := by
        by_contra hp0
        rw [if_neg hp0] at h0
        omega
      rw [hl, if_pos hp0]
    · have hp0 : p ≠ 0 := fun hp0 => h0 (if_pos hp0)
      exact ⟨_, by rw [hl, if_neg hp0]⟩

theorem initializeStack_spec {stackArea stackSize} (granted : Nat) (h : R.Valid A)
    (hq : stackArea = 0 → cfg.stackHooks = false →
      max stackSize cfg.stackMinimumSize + cfg.stackAlignment + 2 * A.page + 8 < 2 ^ 32) :
    ∃ R' ok, initializeStack cfg R t stackArea stackSize granted = some (R', ok) ∧ R'.Valid A ∧
      (ok = false → R'.workspace.live = R.workspace.live) ∧
      (ok = true → Latest (StackTaken cfg (R'.control t)) (R'.control t).initialStackArea
        R'.workspace.live R.workspace.live) := by
  unfold initializeStack
  split
  · rename_i h0
    have hsize : (if stackIsEnough cfg stackSize then stackSize else cfg.stackMinimumSize) =
        max stackSize cfg.stackMinimumSize := by
      by_cases hs : cfg.stackMinimumSize ≤ stackSize
      · rw [stackIsEnough, if_pos (decide_eq_true hs), max_eq_left hs]
      · rw [stackIsEnough, if_neg (by simpa using hs), max_eq_right (by omega)]
    obtain ⟨R', size, stack, hs, hV, hc, hz, hnz⟩ :=
      stackAllocate_spec hcfg granted h (le_max_right stackSize cfg.stackMinimumSize)
        (hq h0)
    simp only [hsize, hs, Option.map_some]
    by_cases hz0 : size = 0
    · exact ⟨R', false, by rw [if_pos hz0], hV, fun _ => hz hz0, by simp⟩
    · refine ⟨_, true, by rw [if_neg hz0], hV.setControl, by simp, fun _ => ?_⟩
      simpa [StackTaken, Resources.setControl] using hnz hz0
  · refine ⟨_, true, rfl, h.setControl, by simp, fun _ => ?_⟩
    simp [Latest, StackTaken, Resources.setControl]

theorem initializeFp_spec {isFp} (h : R.Valid A)
    (hq : isFp = true → cfg.contextFpSize + 2 * A.page + 8 < 2 ^ 32)
    (hk : Latest (StackTaken cfg (R.control t)) (R.control t).initialStackArea R.workspace.live k) :
    ∃ R' ok, initializeFp cfg R t isFp = some (R', ok) ∧ R'.Valid A ∧
      (ok = false → R'.workspace.live = k) ∧
      (ok = true → ∃ k', Latest ((R'.control t).fpContext ≠ 0) (R'.control t).fpContext
          R'.workspace.live k' ∧
        Latest (StackTaken cfg (R'.control t)) (R'.control t).initialStackArea k' k) := by
  unfold initializeFp
  split
  · rename_i hf
    obtain ⟨R', p, hp, hV, hc, hl⟩ := h.allocate (n := cfg.contextFpSize)
      (Heap.unwrapped_of_bound A.page_pos (hq hf))
    rw [hcfg.workspaceArea, hp, Option.map_some]
    by_cases hp0 : p = 0
    · rw [if_pos hp0] at hl
      obtain ⟨hV', hl'⟩ := stackFree_restores hcfg hV (by rw [hc, hl]; exact hk)
      exact ⟨_, false, by simp [hp0], hV', fun _ => hl', by simp⟩
    · refine ⟨_, true, by rw [if_neg hp0], hV.setControl, by simp, fun _ =>
        ⟨R.workspace.live, ?_, ?_⟩⟩
      · simp [Latest, Resources.setControl, hcfg.contextFpStart, hp0, hl]
      · simpa [StackTaken, Resources.setControl, hc] using hk
  · refine ⟨_, true, rfl, h.setControl, by simp, fun _ => ⟨R.workspace.live, ?_, ?_⟩⟩
    · simp [Latest, Resources.setControl]
    · simpa [StackTaken, Resources.setControl] using hk

theorem initializeExtensions_spec (h : R.Valid A)
    (hq : cfg.maximumExtensions * 4 + 4 + 2 * A.page + 8 < 2 ^ 32)
    (hf : Latest ((R.control t).fpContext ≠ 0) (R.control t).fpContext R.workspace.live k')
    (hk : Latest (StackTaken cfg (R.control t)) (R.control t).initialStackArea k' k) :
    ∃ R' ok, initializeExtensions cfg R t = some (R', ok) ∧ R'.Valid A ∧
      (ok = false → R'.workspace.live = k) := by
  unfold initializeExtensions
  split
  · exact ⟨_, true, rfl, h.setControl, by simp⟩
  · have hsz : extensionsSize cfg = cfg.maximumExtensions * 4 + 4 := by
      unfold extensionsSize
      rw [addWord_eq (by omega)]
      omega
    obtain ⟨R', p, hp, hV, hc, hl⟩ := h.allocate (n := cfg.maximumExtensions * 4 + 4)
      (Heap.unwrapped_of_bound A.page_pos hq)
    rw [hcfg.workspaceArea, hsz, hp, Option.map_some]
    by_cases hp0 : p = 0
    · rw [if_pos hp0] at hl
      obtain ⟨hV1, hc1, hl1⟩ := fpFree_restores hcfg hV (by rw [hc, hl]; exact hf)
      obtain ⟨hV2, hl2⟩ := stackFree_restores hcfg hV1 (by rw [hc1, hc, hl1]; exact hk)
      exact ⟨_, false, by simp [hp0], hV2, fun _ => hl2⟩
    · exact ⟨_, true, by rw [if_neg hp0], hV.setControl, by simp⟩

/-- If the areas cannot all be allocated, those taken are given back. -/
theorem initializeAreas_spec {q : Request} (h : R.Valid A) (hq : q.Fits cfg A.page) :
    ∃ R' ok, initializeAreas cfg R t q.stackArea q.stackSize q.granted q.isFp = some (R', ok) ∧
      R'.Valid A ∧ (ok = false → R'.workspace.live = R.workspace.live) := by
  obtain ⟨R1, ok1, he1, hV1, hl1, hk1⟩ :=
    initializeStack_spec hcfg q.granted h hq.stack
  unfold initializeAreas andThen
  rw [he1, Option.bind_some]
  cases ok1 with
  | false => exact ⟨R1, false, rfl, hV1, fun _ => hl1 rfl⟩
  | true =>
    obtain ⟨R2, ok2, he2, hV2, hl2, hk2⟩ := initializeFp_spec hcfg hV1 hq.fp (hk1 rfl)
    simp only [if_true]
    rw [he2, Option.bind_some]
    cases ok2 with
    | false => exact ⟨R2, false, rfl, hV2, fun _ => hl2 rfl⟩
    | true =>
      obtain ⟨k', hf, hk⟩ := hk2 rfl
      exact initializeExtensions_spec hcfg hV2 hq.extensions hf hk

end Areas

/-! ## The calls -/

def Restored (A : Heap.Area) (fr : ThreadClass → List Tcb) (c : ThreadClass) (s s' : System) : Prop :=
  ∃ t l, fr c = t :: l ∧ s'.table.information = s.table.information ∧ s'.table.id = s.table.id ∧
    (∀ d i, i ≤ (s'.table.information d).maximum → (s'.table.information d).localTable i ≠ some t) ∧
    Represents s'.table.inactive (fun d => some (Function.update fr c (l ++ [t]) d)) ∧
    s'.resources.Valid A ∧ s'.resources.workspace.live = s.resources.workspace.live

theorem Ends.restored {q : Request} (hcfg : cfg.Regular A) (hT : Tables s.table node fr)
    (hV : s.resources.Valid A) (hq : q.Fits cfg A.page) (h : Ends cfg fr s s' c q false) :
    Restored A fr c s s' ↔ s.refused cfg c q = false := by
  cases h with
  | @givenUp t l hc hT' hA =>
    have hr : s.refused cfg c q = false := by
      simp [System.refused, (hT.placed.allocate_cons hc).1, hA]
    refine iff_of_true ?_ hr
    obtain ⟨R', ok, he, hV', hl⟩ := initializeAreas_spec hcfg hV hq
    obtain ⟨rfl, rfl⟩ := Prod.mk.inj (Option.some.inj (hA.symm.trans he))
    have hG := hT.giveUp hc
    rw [← hT'] at hG
    have hm : t ∈ Function.update fr c (l ++ [t]) c := by simp
    refine ⟨t, l, hc, ?_, ?_, fun d i hi ho => ?_, hG.placed.inactive, hV', hl rfl⟩
    · rw [hT', Objects.information_free, Objects.information_allocate]
    · rw [hT', Objects.id_free, Objects.id_allocate]
    · obtain ⟨rfl, -⟩ := hG.placed.own hm
      exact ((hG.placed.entry_eq_some hi).mp ho).2.2.2 hm
  | @refused t l hc hT' hr =>
    refine iff_of_false ?_ (by simp [hr])
    rintro ⟨t', l', hc', -, -, hopen, -⟩
    obtain ⟨rfl, rfl⟩ := List.cons.inj (hc.symm.trans hc')
    obtain ⟨rfl, hp⟩ := hT.placed.own (show t ∈ fr c by simp [hc])
    have hn : t ∉ l := (List.nodup_cons.mp (hc ▸ hT.placed.inactive.nodup rfl)).1
    -- the entry `_Thread_Initialize` made is still there
    have hG := (hT.create hc).placed
    have hp' : ((s.table.allocate t.owner).1.openObject t.owner t).Proper t :=
      Objects.proper_setEntry.mpr (by rwa [Table.Proper, Objects.information_allocate])
    rw [hT'] at hopen
    refine hopen t.owner t.number hp'.2 ((hG.entry_eq_some hp'.2).mpr ⟨rfl, rfl, hp', ?_⟩)
    rwa [Function.update_self]

end Rtems.Creation
