import Rtems.Heap.Lemmas.Extend

/-!
# Runs of the Heap Handler

Every live allocation has a used block of its own.
-/

namespace Rtems.Heap

inductive Request
  | allocate (size : Nat)
  | free (startingAddress : Nat)
  | extend (startingAddress size : Nat)
  | write (address value : Nat)
  deriving DecidableEq, Repr

structure State where
  mem : Memory
  live : List (Nat × Nat)

def perform (h : Nat) (s : State) : Request → Option State
  | .allocate n =>
    (allocate s.mem h n).map fun r => ⟨r.1, if r.2 = 0 then s.live else (r.2, n) :: s.live⟩
  | .free p => some ⟨(free s.mem h p).1, s.live.eraseP fun e => e.1 = p⟩
  | .extend a n => some ⟨(extend s.mem h a n).1, s.live⟩
  | .write a v => some ⟨s.mem.store a v, s.live⟩

/-- Live pointers are freed and live areas written; memory added is large enough. -/
def Permitted (h : Nat) (s : State) : Request → Prop
  | .allocate n => n < 2 ^ 32
  | .free p => ∃ e ∈ s.live, e.1 = p
  | .extend a n => a < 2 ^ 32 ∧ (a = final s.mem h + 8 → n % 4 = 0 ∧ 16 ≤ n ∧ a + n ≤ 2 ^ 32 ∧
      (h + 28 ≤ start s.mem h ∨ a + n ≤ h))
  | .write a _ => a % 4 = 0 ∧ ∃ e ∈ s.live, e.1 ≤ a ∧ a < e.1 + e.2

instance (h : Nat) (s : State) (r : Request) : Decidable (Permitted h s r) := by
  cases r <;> unfold Permitted <;> infer_instance

inductive Reachable (A : Area) (P : State → Request → Prop) : State → Prop
  | initialized (m : Memory) : Reachable A P ⟨A.memory m, []⟩
  | step {s s' : State} (r : Request) (hs : Reachable A P s) (hp : Permitted A.control s r)
      (hP : P s r) (he : perform A.control s r = some s') : Reachable A P s'

/-- A size that does not wrap, or for which all free blocks are too small. -/
def Sound (A : Area) (s : State) : Request → Prop
  | .allocate n => Unwrapped A.page n ∨
      ∀ fl, Linked (next s.mem) (previous s.mem) (head A.control :: (fl ++ [tail A.control])) →
        ∀ b ∈ fl, frontFlag s.mem b < roundedSize A.page n
  | _ => True

/-! ## The invariant -/

structure Valid (A : Area) (s : State) (L : Layout) (fl : List Nat) (owned : List (Block × Nat × Nat)) :
    Prop where
  holds : Holds s.mem A.control A.page L fl
  start_eq : L.start = A.start
  live_eq : owned.map Prod.snd = s.live
  owns : ∀ o ∈ owned, o.1 ∈ L.blocks ∧ o.1.used = true ∧ UserArea s.mem o.1 o.2.1 o.2.2
  nodup : (owned.map Prod.fst).Nodup

theorem initialized_valid (A : Area) (m : Memory) :
    Valid A ⟨A.memory m, []⟩ A.layout [A.start] [] :=
  ⟨initialize_spec A m, rfl, rfl, by simp, by simp⟩

theorem Holds.allocate_null_of_list {m h page L fl n} (hH : Holds m h page L fl)
    (hS : ∀ b ∈ fl, frontFlag m b < roundedSize page n) : allocate m h n = some (m, 0) := by
  have hfind : (fl.find? fun b => frontFlag m b ≥ roundedSize page n) = none :=
    List.find?_eq_none.mpr fun b hb => by simpa using hS b hb
  unfold allocate
  simp only [hH.control.page_eq, hH.search, hfind]

section Step

variable {A : Area} {s : State} {L : Layout} {fl : List Nat} {owned : List (Block × Nat × Nat)}

section

variable (hV : Valid A s L fl owned)

include hV

theorem Valid.owns_congr {m' L' c} {k : List (Block × Nat × Nat)}
    (hk : ∀ o ∈ k, o ∈ owned) (hc : c ∉ k.map Prod.fst) (hS : SameUsed s.mem m' L L' c) :
    ∀ o ∈ k, o.1 ∈ L'.blocks ∧ o.1.used = true ∧ UserArea m' o.1 o.2.1 o.2.2 := by
  intro o ho
  obtain ⟨hm, hu, ha⟩ := hV.owns o (hk o ho)
  have hne : o.1 ≠ c := by rintro rfl; exact hc (List.mem_map_of_mem ho)
  exact ⟨(hS.mem_iff _ hu hne).mpr hm, hu, ha.congr (hS.inside _ hm hu hne _ ha.inside)⟩

theorem Valid.fresh {m' L' fl' c} {p n} (hA : Allocated s.mem m' A.control A.page L L' fl' c p n) :
    c ∉ owned.map Prod.fst := by
  intro hc
  obtain ⟨o, ho, rfl⟩ := List.mem_map.mp hc
  exact hA.notMem (hV.owns o ho).1

theorem Valid.allocate_cases {n : Nat} (hw : Unwrapped A.page n) :
    (Heap.allocate s.mem A.control n = some (s.mem, 0) ∧
      ∀ b ∈ L.blocks, b.used = false → b.size < roundedSize A.page n) ∨
    ∃ m' p L' fl' c, Heap.allocate s.mem A.control n = some (m', p) ∧ p ≠ 0 ∧
      Allocated s.mem m' A.control A.page L L' fl' c p n ∧
      Valid A ⟨m', (p, n) :: s.live⟩ L' fl' ((c, p, n) :: owned) := by
  rcases allocate_spec hV.holds hw with h | ⟨m', p, L', fl', c, he, hp, hA⟩
  · exact Or.inl h
  · refine Or.inr ⟨m', p, L', fl', c, he, hp, hA, hA.holds, ?_, ?_, ?_, ?_⟩
    · rw [hA.start_eq, hV.start_eq]
    · simp [hV.live_eq]
    · rw [List.forall_mem_cons]
      exact ⟨⟨hA.mem, hA.used, hA.area⟩, hV.owns_congr (fun _ h => h) (hV.fresh hA) hA.same⟩
    · exact List.nodup_cons.mpr ⟨hV.fresh hA, hV.nodup⟩

theorem Valid.allocate {n} (hS : Sound A s (.allocate n)) :
    ∃ s' L' fl' owned', perform A.control s (.allocate n) = some s' ∧ Valid A s' L' fl' owned' ∧
      L'.final = L.final := by
  have hnull : Heap.allocate s.mem A.control n = some (s.mem, 0) →
      perform A.control s (.allocate n) = some s := by
    intro he
    simp only [perform, he, Option.map_some, ↓reduceIte]
  rcases hS with hw | he
  · rcases hV.allocate_cases hw with ⟨he, -⟩ | ⟨m', p, L', fl', c, he, hp, hA, hV'⟩
    · exact ⟨s, L, fl, owned, hnull he, hV, rfl⟩
    · refine ⟨_, L', fl', _, ?_, hV', hA.final_eq⟩
      simp only [perform, he, Option.map_some, if_neg hp]
  · exact ⟨s, L, fl, owned, hnull (hV.holds.allocate_null_of_list (he fl hV.holds.list.links)), hV, rfl⟩

theorem Valid.free_cases {p : Nat} (hp : Permitted A.control s (.free p)) :
    ∃ m' L' fl' o k1 k2, Heap.free s.mem A.control p = (m', true) ∧ owned = k1 ++ o :: k2 ∧
      o.2.1 = p ∧ Coalesced s.mem A.control L o.1 m' ∧ Freed s.mem m' A.control A.page L L' fl' o.1 ∧
      Valid A ⟨m', s.live.eraseP fun e => e.1 = p⟩ L' fl' (k1 ++ k2) := by
  obtain ⟨e, he, hep⟩ := hp
  rw [← hV.live_eq] at he
  obtain ⟨o, ho, rfl⟩ := List.mem_map.mp he
  obtain ⟨o', k1, k2, -, hop, hk, herase⟩ := List.exists_of_eraseP
    (p := (fun e : Nat × Nat => decide (e.1 = p)) ∘ Prod.snd) ho (by simpa using hep)
  have hop : o'.2.1 = p := by simpa using hop
  obtain ⟨hm, hu, ha⟩ := hV.owns o' (by rw [hk]; simp)
  rw [hop] at ha
  obtain ⟨m', hfree, hC⟩ := Heap.free_cases hV.holds hm hu ha
  obtain ⟨⟨L', fl', hF⟩, -⟩ := hC.freed hV.holds hu
  have hnd := hV.nodup
  rw [hk, List.map_append, List.map_cons] at hnd
  have hsub : ∀ o ∈ k1 ++ k2, o ∈ owned := by
    rw [hk]; intro o ho; simp only [List.mem_append, List.mem_cons] at ho ⊢; tauto
  refine ⟨m', L', fl', o', k1, k2, hfree, hk, hop, hC, hF, hF.holds, ?_, ?_, ?_, ?_⟩
  · rw [hF.start_eq, hV.start_eq]
  · rw [← herase, ← hV.live_eq, List.eraseP_map]
  · refine hV.owns_congr hsub (fun hc => ?_) hF.same
    rw [List.map_append] at hc
    exact ((Linked.mem_without hnd).mp hc).2 rfl
  · rw [List.map_append]
    exact Linked.nodup_without hnd

theorem Valid.free {p} (hp : Permitted A.control s (.free p)) :
    ∃ s' L' fl' owned', perform A.control s (.free p) = some s' ∧ Valid A s' L' fl' owned' ∧
      L'.final = L.final := by
  obtain ⟨m', L', fl', o, k1, k2, hfree, -, -, -, hF, hV'⟩ := hV.free_cases hp
  refine ⟨_, L', fl', _, ?_, hV', hF.final_eq⟩
  simp only [perform, hfree]

theorem Valid.store {a v : Nat} (hp : Permitted A.control s (.write a v)) :
    Valid A ⟨s.mem.store a v, s.live⟩ L fl owned := by
  obtain ⟨ha4, e, he, hle, hlt⟩ := hp
  rw [← hV.live_eq] at he
  obtain ⟨o, ho, rfl⟩ := List.mem_map.mp he
  obtain ⟨k1, k2, hk⟩ := List.append_of_mem ho
  obtain ⟨hm, hu, hua⟩ := hV.owns o ho
  have hin : Inside o.1 a := by
    have := hua.start
    have := hua.room
    have := L.size_aligned _ hm
    have := L.addr_aligned hm
    constructor <;> omega
  have hnd := hV.nodup
  rw [hk, List.map_append, List.map_cons] at hnd
  have hS : SameUsed s.mem (s.mem.store a v) L L o.1 := by
    refine ⟨fun _ _ _ => Iff.rfl, fun d hd _ hne x hx => Memory.store_ne _ _ ?_⟩
    obtain ⟨hx1, hx2⟩ := hx
    obtain ⟨hi1, hi2⟩ := hin
    rcases L.apart hd hm with h | h | h
    · exact absurd h hne
    · omega
    · omega
  have hothers := hV.owns_congr (k := k1 ++ k2)
    (by rw [hk]; intro o ho; simp only [List.mem_append, List.mem_cons] at ho ⊢; tauto)
    (fun hc => by
      rw [List.map_append] at hc
      exact ((Linked.mem_without hnd).mp hc).2 rfl) hS
  refine ⟨hV.holds.store_inside hm hu hin, hV.start_eq, hV.live_eq, ?_, hV.nodup⟩
  intro o' ho'
  by_cases heq : o' = o
  · -- the word written lies above the offset word of its own allocation
    rw [heq]
    have := hua.start
    exact ⟨hm, hu, hua.congr (Memory.store_ne _ _ (by omega))⟩
  · refine hothers o' ?_
    rw [hk] at ho'
    simp only [List.mem_append, List.mem_cons] at ho' ⊢
    tauto

theorem Valid.write {a v} (hp : Permitted A.control s (.write a v)) :
    ∃ s' L' fl' owned', perform A.control s (.write a v) = some s' ∧ Valid A s' L' fl' owned' ∧
      L'.final = L.final :=
  ⟨_, L, fl, owned, rfl, hV.store hp, rfl⟩

theorem Valid.extend_cases {a n : Nat} (hp : Permitted A.control s (.extend a n)) :
    ((Heap.extend s.mem A.control a n).1 = s.mem ∧ (Heap.extend s.mem A.control a n).2.1 ≠ .successful) ∨
    ∃ m' L' fl', a = L.final + 8 ∧ Heap.extend s.mem A.control a n = (m', .successful, some n) ∧
      L'.final = L.final + n ∧ SameUsed s.mem m' L L' ⟨L.final, n, true⟩ ∧
      (⟨L.final, n, true⟩ : Block) ∉ L'.blocks ∧ Valid A ⟨m', s.live⟩ L' fl' owned := by
  obtain ⟨ha, hp⟩ := hp
  rw [hV.holds.control.final_eq, hV.holds.control.start_eq] at hp
  by_cases he : a = L.final + 8
  · obtain ⟨h4, h16, hfit', hout⟩ := hp he
    obtain ⟨m', L', fl', hext, hH, hs, hf, hS, hg⟩ := extend_spec hV.holds h4 h16
      ⟨by omega, by omega⟩
    refine Or.inr ⟨m', L', fl', he, by rw [he, hext], hf, hS, hg, hH, hs.trans hV.start_eq, hV.live_eq,
      hV.owns_congr (fun _ h => h) (fun hc => ?_) hS, hV.nodup⟩
    obtain ⟨o, ho, hoc⟩ := List.mem_map.mp hc
    have hb := L.le_final (hV.owns o ho).1
    rw [hoc] at hb
    simp only at hb
    omega
  · -- every other area is refused before anything is written
    have hne : a ≥ L.start → ¬ a ≤ L.final → subWord a overhead ≠ L.final := by
      unfold subWord overhead; omega
    unfold Heap.extend
    rw [hV.holds.control.final_eq, hV.holds.control.start_eq]
    split
    · simp
    · split
      · simp
      · rw [if_pos (hne (by omega) (by omega))]
        simp

theorem Valid.extend {a n} (hp : Permitted A.control s (.extend a n)) :
    ∃ s' L' fl' owned', perform A.control s (.extend a n) = some s' ∧ Valid A s' L' fl' owned' := by
  rcases hV.extend_cases hp with ⟨hm, -⟩ | ⟨m', L', fl', -, he, -, -, -, hV'⟩
  · exact ⟨s, L, fl, owned, by simp only [perform, hm], hV⟩
  · exact ⟨_, L', fl', owned, by simp only [perform, he], hV'⟩

end

end Step

theorem Valid.step {A s L fl} {owned r} (hV : Valid A s L fl owned)
    (hp : Permitted A.control s r) (hS : Sound A s r) :
    ∃ s' L' fl' owned', perform A.control s r = some s' ∧ Valid A s' L' fl' owned' ∧
      (L'.final = L.final ∨ ∃ a n, r = .extend a n) := by
  cases r with
  | allocate n =>
    obtain ⟨s', L', fl', owned', he, hV', hf⟩ := hV.allocate hS
    exact ⟨s', L', fl', owned', he, hV', Or.inl hf⟩
  | free p =>
    obtain ⟨s', L', fl', owned', he, hV', hf⟩ := hV.free hp
    exact ⟨s', L', fl', owned', he, hV', Or.inl hf⟩
  | extend a n =>
    obtain ⟨s', L', fl', owned', he, hV'⟩ := hV.extend hp
    exact ⟨s', L', fl', owned', he, hV', Or.inr ⟨a, n, rfl⟩⟩
  | write a v =>
    obtain ⟨s', L', fl', owned', he, hV', hf⟩ := hV.write hp
    exact ⟨s', L', fl', owned', he, hV', Or.inl hf⟩

theorem Reachable.valid {A P s} (hs : Reachable A P s) (hP : ∀ s r, P s r → Sound A s r) :
    ∃ L fl owned, Valid A s L fl owned ∧
      ((∀ s a n, ¬ P s (.extend a n)) → L.final = A.start + (A.size - 8)) := by
  induction hs with
  | initialized m => exact ⟨_, _, _, initialized_valid A m, fun _ => rfl⟩
  | step r _ hp hr he ih =>
    obtain ⟨L, fl, owned, hV, hf⟩ := ih
    obtain ⟨s', L', fl', owned', he', hV', hf'⟩ := hV.step hp (hP _ _ hr)
    rw [he, Option.some.injEq] at he'
    subst he'
    refine ⟨L', fl', owned', hV', fun hne => ?_⟩
    rcases hf' with hf' | ⟨a, n, rfl⟩
    · exact hf'.trans (hf hne)
    · exact absurd hr (hne _ a n)

end Rtems.Heap
