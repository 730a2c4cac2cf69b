import Rtems.Thread.Lemmas
import Rtems.ThreadQueue.Links

/-! # The chains of the queues as groups of threads -/

namespace Rtems.ThreadQueue

open Function Intrusive Thread

variable {Q T : Type*}

/-! ## The order of service -/

def group (fol : T → List T) (u : T) : List T := u :: fol u

def groups (fol : T → List T) (l : List T) : List T := l.flatMap (group fol)

def service (lead : Fin 4 → List T) (fol : T → List T) : List T :=
  (List.finRange 4).flatMap fun i => groups fol (lead i)

def ahead (lead : Fin 4 → List T) (fol : T → List T) (i : Fin 4) (l1 : List T) : List T :=
  (((List.finRange 4).filter (· < i)).flatMap fun j => groups fol (lead j)) ++ groups fol l1

def behind (lead : Fin 4 → List T) (fol : T → List T) (i : Fin 4) (l2 : List T) : List T :=
  groups fol l2 ++ ((List.finRange 4).filter (i < ·)).flatMap fun j => groups fol (lead j)

section Service

variable {lead lead' : Fin 4 → List T} {fol fol' : T → List T} {i j : Fin 4} {l l1 l2 m : List T} {t u : T}

@[simp] theorem groups_nil : groups fol [] = [] := rfl

@[simp] theorem groups_cons : groups fol (u :: l) = u :: fol u ++ groups fol l := rfl

@[simp] theorem groups_append : groups fol (l1 ++ l2) = groups fol l1 ++ groups fol l2 := by
  simp [groups]

theorem mem_groups : t ∈ groups fol l ↔ ∃ u ∈ l, t = u ∨ t ∈ fol u := by simp [groups, group]

theorem groups_congr (h : ∀ u ∈ l, fol' u = fol u) : groups fol' l = groups fol l := by
  induction l with
  | nil => rfl
  | cons u l ih => rw [groups_cons, groups_cons, h u (by simp), ih fun v hv => h v (by simp [hv])]

theorem mem_service : t ∈ service lead fol ↔ ∃ i, ∃ u ∈ lead i, t = u ∨ t ∈ fol u := by
  simp [service, mem_groups]

theorem service_congr (hl : ∀ i, lead' i = lead i) (hf : ∀ i, ∀ u ∈ lead i, fol' u = fol u) :
    service lead' fol' = service lead fol := by
  obtain rfl : lead' = lead := funext hl
  exact List.flatMap_congr fun i _ => groups_congr (hf i)

theorem finRange_split : ∀ i : Fin 4, List.finRange 4 =
    (List.finRange 4).filter (· < i) ++ i :: (List.finRange 4).filter (i < ·) := by decide

theorem service_eq (hi : lead i = l1 ++ m ++ l2) :
    service lead fol = ahead lead fol i l1 ++ groups fol m ++ behind lead fol i l2 := by
  unfold service
  rw [finRange_split i]
  simp only [List.flatMap_append, List.flatMap_cons, hi, groups_append, ahead, behind, List.append_assoc]

theorem ahead_congr (hl : ∀ j < i, lead' j = lead j) (hf : ∀ j < i, ∀ u ∈ lead j, fol' u = fol u)
    (hf' : ∀ u ∈ l1, fol' u = fol u) : ahead lead' fol' i l1 = ahead lead fol i l1 := by
  unfold ahead
  rw [groups_congr hf']
  congr 1
  refine List.flatMap_congr fun j hj => ?_
  have hj : j < i := by simpa using hj
  rw [hl j hj, groups_congr (hf j hj)]

theorem behind_congr (hl : ∀ j > i, lead' j = lead j) (hf : ∀ j > i, ∀ u ∈ lead j, fol' u = fol u)
    (hf' : ∀ u ∈ l2, fol' u = fol u) : behind lead' fol' i l2 = behind lead fol i l2 := by
  unfold behind
  rw [groups_congr hf']
  congr 1
  refine List.flatMap_congr fun j hj => ?_
  have hj : i < j := by simpa using hj
  rw [hl j hj, groups_congr (hf j hj)]

theorem mem_ahead : t ∈ ahead lead fol i l1 ↔
    (∃ j < i, ∃ u ∈ lead j, t = u ∨ t ∈ fol u) ∨ ∃ u ∈ l1, t = u ∨ t ∈ fol u := by
  simp [ahead, mem_groups]

theorem mem_behind : t ∈ behind lead fol i l2 ↔
    (∃ u ∈ l2, t = u ∨ t ∈ fol u) ∨ ∃ j, i < j ∧ ∃ u ∈ lead j, t = u ∨ t ∈ fol u := by
  simp [behind, mem_groups]

end Service

/-! ## How the chains hold the groups -/

structure Grouped (disc : Q → Discipline) (oc : Members Q T)
    (lead : Q → Fin 4 → List T) (fol : T → List T) : Prop where
  header : ∀ {q i}, disc q = .priority ∨ i = 0 → oc (.queue q i) = some (lead q i)
  unused : ∀ {q i}, disc q = .fifo → i ≠ 0 → oc (.queue q i) = none ∧ lead q i = []
  leader : ∀ {q i u}, disc q = .priority → u ∈ lead q i → oc (.block2n u) = some (fol u)
  block : ∀ {u l}, oc (.block2n u) = some l → l = fol u
  follower : ∀ {u f}, f ∈ fol u →
    oc (.block2n f) = some [] ∧ ∃ q i, disc q = .priority ∧ u ∈ lead q i

section Grouped

variable {disc : Q → Discipline} {rd : Priority → List T} {oc : Members Q T}
  {lead : Q → Fin 4 → List T} {fol : T → List T} {L : Links (QueueName Q T) T}
  {q r : Q} {i j : Fin 4} {l1 l2 fs : List T} {t u v f : T}

namespace Grouped

theorem used (hG : Grouped disc oc lead fol) (h : oc (.queue q i) ≠ none ∨ lead q i ≠ []) :
    disc q = .priority ∨ i = 0 := by
  by_contra hc
  push Not at hc
  cases hd : disc q with
  | fifo => exact h.elim (· (hG.unused hd hc.2).1) (· (hG.unused hd hc.2).2)
  | priority => exact hc.1 hd

theorem header_of_mem (hG : Grouped disc oc lead fol) (hu : u ∈ lead q i) :
    oc (.queue q i) = some (lead q i) := hG.header (hG.used (Or.inr (List.ne_nil_of_mem hu)))

theorem off (hG : Grouped disc oc lead fol) (ht : ∀ q, t ∉ service (lead q) fol) : Off oc t := by
  rintro (⟨q, i⟩ | u) l hl hm
  · rw [hG.header (hG.used (Or.inl (by simp [hl])))] at hl
    exact ht q (mem_service.mpr ⟨i, t, Option.some.inj hl ▸ hm, Or.inl rfl⟩)
  · rw [hG.block hl] at hm
    obtain ⟨-, q, i, -, hu⟩ := hG.follower hm
    exact ht q (mem_service.mpr ⟨i, u, hu, Or.inr hm⟩)

theorem block_follower (hG : Grouped disc oc lead fol) (hf : f ∈ fol u) :
    oc (.block2n u) = some (fol u) := by
  obtain ⟨-, q, i, hd, hu⟩ := hG.follower hf
  exact hG.leader hd hu

section

variable (hR : Represents L (chains rd oc)) (hG : Grouped disc oc lead fol)

include hR hG

theorem nodup_lead (q : Q) (i : Fin 4) : (lead q i).Nodup := by
  cases h : lead q i with
  | nil => exact List.nodup_nil
  | cons u l =>
    have hu : u ∈ lead q i := by rw [h]; simp
    exact h ▸ hR.nodup (show chains rd oc (.other (.queue q i)) = _ from hG.header_of_mem hu)

theorem lead_unique (hu : u ∈ lead q i) (hu' : u ∈ lead r j) : q = r ∧ i = j := by
  have := hR.disjoint (show chains rd oc (.other (.queue q i)) = _ from hG.header_of_mem hu)
    (show chains rd oc (.other (.queue r j)) = _ from hG.header_of_mem hu') hu hu'
  simpa using this

theorem leader_not_follower (hu : u ∈ lead q i) : u ∉ fol v := by
  intro hm
  have := hR.disjoint (show chains rd oc (.other (.queue q i)) = _ from hG.header_of_mem hu)
    (show chains rd oc (.other (.block2n v)) = _ from hG.block_follower hm) hu hm
  simp at this

theorem follower_unique (hu : f ∈ fol u) (hv : f ∈ fol v) : u = v := by
  have := hR.disjoint (show chains rd oc (.other (.block2n u)) = _ from hG.block_follower hu)
    (show chains rd oc (.other (.block2n v)) = _ from hG.block_follower hv) hu hv
  simpa using this

theorem nodup_group (hf : f ∈ fol u) : (group fol u).Nodup := by
  obtain ⟨-, q, i, -, hu⟩ := hG.follower hf
  exact List.nodup_cons.mpr ⟨leader_not_follower hR hG hu,
    hR.nodup (show chains rd oc (.other (.block2n u)) = _ from hG.block_follower hf)⟩

theorem service_unique (hq : t ∈ service (lead q) fol) (hr : t ∈ service (lead r) fol) : q = r := by
  obtain ⟨i, u, hu, htu⟩ := mem_service.mp hq
  obtain ⟨j, v, hv, htv⟩ := mem_service.mp hr
  rcases htu with rfl | htu <;> rcases htv with rfl | htv
  · exact (lead_unique hR hG hu hv).1
  · exact absurd htv (leader_not_follower hR hG hu)
  · exact absurd htu (leader_not_follower hR hG hv)
  · obtain rfl := follower_unique hR hG htu htv
    exact (lead_unique hR hG hu hv).1

end

end Grouped

/-! ## Edits -/

section Edits

variable [DecidableEq Q]

def setLead (lead : Q → Fin 4 → List T) (q : Q) (i : Fin 4) (l : List T) : Q → Fin 4 → List T :=
  update lead q (update (lead q) i l)

@[simp] theorem setLead_self {l} : setLead lead q i l q i = l := by simp [setLead]

theorem setLead_ne {l} (h : ¬ (r = q ∧ j = i)) : setLead lead q i l r j = lead r j := by
  unfold setLead
  by_cases hr : r = q
  · subst hr
    rw [update_self, update_of_ne fun hj => h ⟨rfl, hj⟩]
  · rw [update_of_ne hr]

theorem setLead_queue_ne {l} (h : r ≠ q) : setLead lead q i l r = lead r :=
  update_of_ne h _ _

theorem mem_setLead {l} :
    u ∈ setLead lead q i l r j ↔ (r = q ∧ j = i) ∧ u ∈ l ∨ ¬ (r = q ∧ j = i) ∧ u ∈ lead r j := by
  by_cases h : r = q ∧ j = i
  · obtain ⟨rfl, rfl⟩ := h
    simp
  · rw [setLead_ne h]
    simp [h]

namespace Grouped

theorem header_setLead (hG : Grouped disc oc lead fol) (oc' : Members Q T)
    {l} (hq : disc q = .priority ∨ i = 0) (ho : oc' (.queue q i) = some l)
    (hne : ∀ r j, ¬ (r = q ∧ j = i) → oc' (.queue r j) = oc (.queue r j)) :
    (∀ {r j}, disc r = .priority ∨ j = 0 → oc' (.queue r j) = some (setLead lead q i l r j)) ∧
      ∀ {r j}, disc r = .fifo → j ≠ 0 → oc' (.queue r j) = none ∧ setLead lead q i l r j = [] := by
  refine ⟨fun {r j} h => ?_, fun {r j} hd hj => ?_⟩
  · by_cases hrj : r = q ∧ j = i
    · obtain ⟨rfl, rfl⟩ := hrj
      rw [ho, setLead_self]
    · rw [hne r j hrj, setLead_ne hrj, hG.header h]
  · have hrj : ¬ (r = q ∧ j = i) := by
      rintro ⟨rfl, rfl⟩
      rcases hq with hq | hq
      · simp [hd] at hq
      · exact hj hq
    rw [hne r j hrj, setLead_ne hrj]
    exact hG.unused hd hj

variable [DecidableEq T]

theorem setLeaders (hG : Grouped disc oc lead fol) (hq : disc q = .priority ∨ i = 0) {l}
    (hl : disc q = .priority → ∀ u ∈ l, oc (.block2n u) = some (fol u))
    (hk : ∀ u ∈ lead q i, fol u ≠ [] → u ∈ l) :
    Grouped disc (update oc (.queue q i) (some l)) (setLead lead q i l) fol := by
  obtain ⟨h1, h2⟩ := hG.header_setLead (update oc (.queue q i) (some l)) hq (update_self _ _ _)
    fun r j h => update_of_ne (by simpa using h) _ _
  refine ⟨h1, h2, fun {r j u} hd hu => ?_, fun {u l} hl => ?_, fun {u f} hf => ?_⟩
  · rcases mem_setLead.mp hu with ⟨⟨rfl, rfl⟩, hul⟩ | ⟨-, hul⟩
    · exact hl hd u hul
    · exact hG.leader hd hul
  · exact hG.block hl
  · obtain ⟨hf', r, j, hd, hu⟩ := hG.follower hf
    refine ⟨hf', r, j, hd, mem_setLead.mpr ?_⟩
    by_cases hrj : r = q ∧ j = i
    · obtain ⟨rfl, rfl⟩ := hrj
      exact Or.inl ⟨⟨rfl, rfl⟩, hk u hu (List.ne_nil_of_mem hf)⟩
    · exact Or.inr ⟨hrj, hu⟩

theorem insertLeader (hG : Grouped disc oc lead fol) (hq : disc q = .priority ∨ i = 0)
    (hi : lead q i = l1 ++ l2) (hb : disc q = .priority → oc (.block2n t) = some []) :
    Grouped disc (update oc (.queue q i) (some (l1 ++ t :: l2)))
      (setLead lead q i (l1 ++ t :: l2)) fol := by
  refine hG.setLeaders hq (fun hd u hu => ?_) fun u hu _ => ?_
  · by_cases hut : u = t
    · subst hut
      rw [hb hd, ← hG.block (hb hd)]
    · exact hG.leader hd (show u ∈ lead q i by rw [hi]; simp at hu ⊢; tauto)
  · rw [hi] at hu
    simp at hu ⊢
    tauto

theorem setFollowers (hR : Represents L (chains rd oc)) (hG : Grouped disc oc lead fol)
    (hd : disc q = .priority) (hu : u ∈ lead q i) {l} (hl : ∀ f ∈ l, oc (.block2n f) = some [] ∧ f ≠ u) :
    Grouped disc (update oc (.block2n u) (some l)) lead (update fol u l) := by
  refine ⟨fun {r j} h => ?_, fun {r j} hr hj => ?_, fun {r j v} hr hv => ?_, fun {v l} hl => ?_,
    fun {v f} hf => ?_⟩
  · rw [update_of_ne (by simp), hG.header h]
  · exact hG.unused hr hj
  · by_cases hvu : v = u
    · subst hvu
      simp
    · rw [update_of_ne (by simpa using hvu), update_of_ne hvu, hG.leader hr hv]
  · by_cases hvu : v = u
    · subst hvu
      simpa using hl.symm
    · rw [update_of_ne (by simpa using hvu)] at hl
      rw [update_of_ne hvu, hG.block hl]
  · by_cases hvu : v = u
    · subst hvu
      rw [update_self] at hf
      exact ⟨by rw [update_of_ne (by simpa using (hl f hf).2), (hl f hf).1], q, i, hd, hu⟩
    · rw [update_of_ne hvu] at hf
      have hfu : f ≠ u := fun he => leader_not_follower hR hG hu (he ▸ hf)
      exact ⟨by rw [update_of_ne (by simpa using hfu), (hG.follower hf).1], (hG.follower hf).2⟩

theorem insertFollower (hR : Represents L (chains rd oc)) (hG : Grouped disc oc lead fol)
    (hd : disc q = .priority) (hu : u ∈ lead q i) (hb : oc (.block2n t) = some []) (htu : t ≠ u) :
    Grouped disc (update oc (.block2n u) (some (fol u ++ [t]))) lead
      (update fol u (fol u ++ [t])) := by
  refine setFollowers hR hG hd hu fun f hf => ?_
  rcases List.mem_append.mp hf with hf | hf
  · exact ⟨(hG.follower hf).1, fun he => leader_not_follower hR hG hu (he ▸ hf)⟩
  · rw [List.mem_singleton.mp hf]
    exact ⟨hb, htu⟩

theorem removeLeader (hG : Grouped disc oc lead fol) (hi : lead q i = l1 ++ t :: l2) (hf : fol t = []) :
    Grouped disc (update oc (.queue q i) (some (l1 ++ l2))) (setLead lead q i (l1 ++ l2)) fol := by
  refine hG.setLeaders (hG.used (Or.inr (by simp [hi]))) (fun hd u hu => ?_) fun u hu hfu => ?_
  · exact hG.leader hd (show u ∈ lead q i by rw [hi]; simp at hu ⊢; tauto)
  · have hut : u ≠ t := by
      rintro rfl
      exact hfu hf
    rw [hi] at hu
    simpa [hut] using hu

theorem removeFollower (hR : Represents L (chains rd oc)) (hG : Grouped disc oc lead fol)
    (hu : fol u = l1 ++ t :: l2) :
    Grouped disc (update oc (.block2n u) (some (l1 ++ l2))) lead
      (update fol u (l1 ++ l2)) := by
  obtain ⟨-, q, i, hd, hlu⟩ := hG.follower (show t ∈ fol u by simp [hu])
  refine setFollowers hR hG hd hlu fun f hf => ?_
  have hf : f ∈ fol u := by
    rw [hu]
    simp at hf ⊢
    tauto
  exact ⟨(hG.follower hf).1, fun he => leader_not_follower hR hG hlu (he ▸ hf)⟩

theorem promoteFollower (hR : Represents L (chains rd oc)) (hG : Grouped disc oc lead fol)
    (hd : disc q = .priority) (hi : lead q i = l1 ++ t :: l2) (hf : fol t = f :: fs) :
    Grouped disc (handOver oc (.queue q i) (.block2n t) (.block2n f) (l1 ++ f :: l2) fs)
      (setLead lead q i (l1 ++ f :: l2)) (update (update fol f fs) t []) := by
  have ht : t ∈ lead q i := by rw [hi]; simp
  have hft : f ∈ fol t := by rw [hf]; simp
  have hne : f ≠ t := fun he => leader_not_follower hR hG ht (he ▸ hft)
  have hnd := nodup_lead hR hG q i
  rw [hi] at hnd
  -- the leaders are those from before, but for `t` and `f`
  have hlead : ∀ {r j u}, u ∈ setLead lead q i (l1 ++ f :: l2) r j → u = f ∨ u ≠ t ∧ u ∈ lead r j := by
    intro r j u hu
    rcases mem_setLead.mp hu with ⟨⟨rfl, rfl⟩, hu⟩ | ⟨hrj, hu⟩
    · by_cases huf : u = f
      · exact Or.inl huf
      · have hu : u ∈ l1 ++ l2 := by simpa [huf] using hu
        obtain ⟨h, hut⟩ := (Linked.mem_without hnd).mp hu
        exact Or.inr ⟨hut, hi ▸ h⟩
    · refine Or.inr ⟨?_, hu⟩
      rintro rfl
      exact hrj (lead_unique hR hG hu ht)
  have hstay : ∀ {r j u}, u ≠ t → u ∈ lead r j → u ∈ setLead lead q i (l1 ++ f :: l2) r j := by
    intro r j u hut hu
    refine mem_setLead.mpr ?_
    by_cases hrj : r = q ∧ j = i
    · obtain ⟨rfl, rfl⟩ := hrj
      rw [hi] at hu
      exact Or.inl ⟨⟨rfl, rfl⟩, by simp [hut] at hu ⊢; tauto⟩
    · exact Or.inr ⟨hrj, hu⟩
  have hblock : ∀ {u}, u ≠ t → u ≠ f →
      handOver oc (.queue q i) (.block2n t) (.block2n f) (l1 ++ f :: l2) fs (.block2n u) =
        oc (.block2n u) := fun hut huf => by simp [handOver, hut, huf]
  have hself : handOver oc (.queue q i) (.block2n t) (.block2n f) (l1 ++ f :: l2) fs (.block2n f) =
      some fs := by simp [handOver, hne]
  obtain ⟨h1, h2⟩ := hG.header_setLead
    (handOver oc (.queue q i) (.block2n t) (.block2n f) (l1 ++ f :: l2) fs) (i := i) (l := l1 ++ f :: l2)
    (Or.inl hd) (by simp [handOver]) fun r j h => by
      simp only [handOver]
      rw [update_of_ne (by simp), update_of_ne (by simp),
        update_of_ne (by simpa using h)]
  refine ⟨h1, h2, fun {r j u} hr hu => ?_, fun {u l} hl => ?_, fun {u g} hg => ?_⟩
  · rcases hlead hu with rfl | ⟨hut, hu⟩
    · rw [hself, update_of_ne hne, update_self]
    · have huf : u ≠ f := fun he => leader_not_follower hR hG hu (he ▸ hft)
      rw [hblock hut huf, update_of_ne hut, update_of_ne huf, hG.leader hr hu]
  · have hut : u ≠ t := by
      rintro rfl
      simp [handOver] at hl
    rw [update_of_ne hut]
    by_cases huf : u = f
    · subst huf
      rw [hself] at hl
      rw [update_self, Option.some.inj hl]
    · rw [hblock hut huf] at hl
      rw [update_of_ne huf, hG.block hl]
  · have hut : u ≠ t := by
      rintro rfl
      simp at hg
    rw [update_of_ne hut] at hg
    by_cases huf : u = f
    · subst huf
      rw [update_self] at hg
      have hgt : g ∈ fol t := by rw [hf]; simp [hg]
      have hgu : g ≠ u := by
        rintro rfl
        have := nodup_group hR hG hft
        simp [group, hf, hg] at this
      have hgt' : g ≠ t := fun he => leader_not_follower hR hG ht (he ▸ hgt)
      exact ⟨(hblock hgt' hgu).trans (hG.follower hgt).1, q, i, hd, by simp⟩
    · rw [update_of_ne huf] at hg
      have hgf : g ≠ f := fun he => hut (follower_unique hR hG (he ▸ hg) hft)
      have hgt : g ≠ t := fun he => leader_not_follower hR hG ht (he ▸ hg)
      obtain ⟨hg', r, j, hr, hu⟩ := hG.follower hg
      exact ⟨(hblock hgt hgf).trans hg', r, j, hr, hstay hut hu⟩

omit [DecidableEq Q] [DecidableEq T] in
theorem fol_nil (hG : Grouped disc oc lead fol) (ht : ∀ q, t ∉ service (lead q) fol) : fol t = [] := by
  rw [List.eq_nil_iff_forall_not_mem]
  intro f hf
  obtain ⟨-, q, i, -, hu⟩ := hG.follower hf
  exact ht q (mem_service.mpr ⟨i, t, hu, Or.inl rfl⟩)

theorem initializeBlock (hG : Grouped disc oc lead fol) (ht : ∀ q, t ∉ service (lead q) fol) :
    Grouped disc (update oc (.block2n t) (some [])) lead fol := by
  refine ⟨fun {r j} h => ?_, fun {r j} hr hj => ?_, fun {r j v} hr hv => ?_, fun {v l} hl => ?_,
    fun {v f} hf => ?_⟩
  · rw [update_of_ne (by simp), hG.header h]
  · exact hG.unused hr hj
  · have hvt : v ≠ t := by
      rintro rfl
      exact ht r (mem_service.mpr ⟨j, v, hv, Or.inl rfl⟩)
    rw [update_of_ne (by simpa using hvt), hG.leader hr hv]
  · by_cases hvt : v = t
    · subst hvt
      rw [update_self] at hl
      rw [hG.fol_nil ht, Option.some.inj hl]
    · rw [update_of_ne (by simpa using hvt)] at hl
      exact hG.block hl
  · obtain ⟨hf', hv⟩ := hG.follower hf
    refine ⟨?_, hv⟩
    by_cases hft : f = t
    · subst hft
      simp
    · rw [update_of_ne (by simpa using hft), hf']

end Grouped

end Edits

end Grouped

end Rtems.ThreadQueue
