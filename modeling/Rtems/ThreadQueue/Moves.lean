import Rtems.ThreadQueue.Groups

/-! # Threads leave the queues and join them -/

namespace Rtems.ThreadQueue

open Intrusive Thread
open Function (update update_self update_of_ne)

variable {Q T : Type*} {disc : Q → Discipline} {rd : Priority → List T}
  {oc oc' : Members Q T} {lead lead' : Q → Fin 4 → List T} {fol fol' : T → List T}
  {L L' : Links (QueueName Q T) T} {prio : T → Priority} {q r : Q} {i j : Fin 4}
  {l l1 l2 fs : List T} {t u v f : T}

structure Ordered (disc : Q → Discipline) (prio : T → Priority) (lead : Q → Fin 4 → List T)
    (fol : T → List T) : Prop where
  header : ∀ {q i u}, disc q = .priority → u ∈ lead q i → headerNumber (prio u) = i
  sorted : ∀ {q i}, disc q = .priority → (lead q i).Pairwise fun u v => prio u < prio v
  follower : ∀ {u f}, f ∈ fol u → prio f = prio u

namespace Grouped

variable (hR : Represents L (chains rd oc)) (hG : Grouped disc oc lead fol)

include hR hG

theorem group_disjoint (hu : u ∈ lead q i) (hv : v ∈ lead r j) (hne : u ≠ v) :
    List.Disjoint (group fol u) (group fol v) := by
  intro x hxu hxv
  simp only [group, List.mem_cons] at hxu hxv
  rcases hxu with rfl | hxu <;> rcases hxv with rfl | hxv
  · exact hne rfl
  · exact leader_not_follower hR hG hu hxv
  · exact leader_not_follower hR hG hv hxu
  · exact hne (follower_unique hR hG hxu hxv)

theorem nodup_groups (q : Q) (i : Fin 4) : (groups fol (lead q i)).Nodup := by
  refine List.nodup_flatMap.mpr ⟨fun u _ => ?_, ?_⟩
  · cases hf : fol u with
    | nil => simp [group, hf]
    | cons f fs => exact nodup_group hR hG (show f ∈ fol u by simp [hf])
  · exact (nodup_lead hR hG q i).imp_of_mem fun hu hv hne => group_disjoint hR hG hu hv hne

theorem nodup_service (q : Q) : (service (lead q) fol).Nodup := by
  refine List.nodup_flatMap.mpr ⟨fun i _ => nodup_groups hR hG q i, ?_⟩
  refine (List.nodup_finRange 4).imp fun {i j} hij => ?_
  intro x hi hj
  obtain ⟨u, hu, hxu⟩ := List.mem_flatMap.mp hi
  obtain ⟨v, hv, hxv⟩ := List.mem_flatMap.mp hj
  refine group_disjoint hR hG hu hv ?_ hxu hxv
  rintro rfl
  exact hij (lead_unique hR hG hu hv).2

theorem fol_fifo (hd : disc q = .fifo) (hu : u ∈ lead q i) : fol u = [] := by
  rw [List.eq_nil_iff_forall_not_mem]
  intro f hf
  obtain ⟨-, r, j, hr, hu'⟩ := hG.follower hf
  obtain rfl := (lead_unique hR hG hu hu').1
  simp [hd] at hr

end Grouped

/-! ## Leaving -/

structure Left (disc : Q → Discipline) (rd : Priority → List T)
    (L' : Links (QueueName Q T) T) (oc oc' : Members Q T)
    (lead lead' : Q → Fin 4 → List T) (fol fol' : T → List T) (q : Q) (t : T) : Prop where
  on : Represents L' (chains rd oc')
  grouped : Grouped disc oc' lead' fol'
  self : ∃ l1 l2, service (lead q) fol = l1 ++ t :: l2 ∧ service (lead' q) fol' = l1 ++ l2
  other : ∀ r ≠ q, service (lead' r) fol' = service (lead r) fol
  leads : ∀ {r i u}, u ∈ lead r i → u ≠ t → u ∈ lead' r i
  block : ∀ {u}, (∀ r, u ∉ service (lead r) fol) → oc' (.block2n u) = oc (.block2n u)
  ordered : ∀ {prio}, Ordered disc prio lead fol → Ordered disc prio lead' fol'

namespace Left

variable (hM : Left disc rd L' oc oc' lead lead' fol fol' q t)

include hM

theorem mem_self : t ∈ service (lead q) fol := by
  obtain ⟨l1, l2, hl, -⟩ := hM.self
  rw [hl]
  simp

theorem mem_iff (hR : Represents L (chains rd oc)) (hG : Grouped disc oc lead fol) :
    u ∈ service (lead' r) fol' ↔ u ∈ service (lead r) fol ∧ u ≠ t := by
  by_cases hr : r = q
  · subst hr
    obtain ⟨l1, l2, hl, hl'⟩ := hM.self
    rw [hl', hl]
    exact Linked.mem_without (hl ▸ Grouped.nodup_service hR hG r)
  · rw [hM.other r hr]
    refine ⟨fun hu => ⟨hu, ?_⟩, And.left⟩
    rintro rfl
    exact hr (Grouped.service_unique hR hG hu hM.mem_self)

end Left

section

variable [DecidableEq Q] [DecidableEq T]

section

variable (hR : Represents L (chains rd oc))

include hR

section

variable (hG : Grouped disc oc lead fol)

include hG

omit [DecidableEq T] in
theorem service_setLead (hi : lead q i = l1 ++ l ++ l2) (k : List T) (fol' : T → List T)
    (hf : ∀ j, ∀ u ∈ lead q j, u ∉ l → fol' u = fol u) :
    service (setLead lead q i (l1 ++ k ++ l2) q) fol' =
      ahead (lead q) fol i l1 ++ groups fol' k ++ behind (lead q) fol i l2 := by
  have hne : ∀ j, j ≠ i → setLead lead q i (l1 ++ k ++ l2) q j = lead q j := fun j hj =>
    setLead_ne fun h => hj h.2
  have hother : ∀ j, j ≠ i → ∀ u ∈ lead q j, fol' u = fol u := by
    refine fun j hj u hu => hf j u hu fun hul => hj ?_
    exact (Grouped.lead_unique hR hG hu (show u ∈ lead q i by rw [hi]; simp [hul])).2
  have hsame : ∀ u ∈ l1 ++ l2, fol' u = fol u := by
    intro u hu
    have hnd := Grouped.nodup_lead hR hG q i
    refine hf i u ?_ ?_
    · rw [hi]
      simp only [List.mem_append] at hu ⊢
      tauto
    · grind
  have hs : setLead lead q i (l1 ++ k ++ l2) q i = l1 ++ k ++ l2 := setLead_self
  rw [service_eq hs,
    ahead_congr (fun j h => hne j (ne_of_lt h)) (fun j h => hother j (ne_of_lt h))
      fun u hu => hsame u (by simp [hu]),
    behind_congr (fun j h => hne j (ne_of_gt h)) (fun j h => hother j (ne_of_gt h))
      fun u hu => hsame u (by simp [hu])]

theorem service_follow (hi : lead q i = l1 ++ [u] ++ l2) (k : List T) :
    service (lead q) (update fol u k) = ahead (lead q) fol i l1 ++ u :: k ++ behind (lead q) fol i l2 ∧
      ∀ r ≠ q, service (lead r) (update fol u k) = service (lead r) fol := by
  constructor
  · have h := service_setLead hR hG hi [u] (update fol u k) fun j v _ hv => update_of_ne (by simpa using hv) _ _
    rw [show setLead lead q i (l1 ++ [u] ++ l2) = lead by simp [← hi, setLead]] at h
    simpa using h
  · refine fun r hr => service_congr (fun _ => rfl) fun j v hv => update_of_ne ?_ _ _
    rintro rfl
    exact hr (Grouped.lead_unique hR hG hv (show v ∈ lead q i by simp [hi])).1

omit [DecidableEq Q] hR hG in
theorem Ordered.setFol (hO : Ordered disc prio lead fol) (hl : ∀ f ∈ l, prio f = prio u) :
    Ordered disc prio lead (update fol u l) := by
  refine ⟨hO.header, hO.sorted, fun {v g} hg => ?_⟩
  by_cases hvu : v = u
  · subst hvu
    rw [update_self] at hg
    exact hl g hg
  · rw [update_of_ne hvu] at hg
    exact hO.follower hg

omit [DecidableEq T] hR hG in
theorem Ordered.setLead (hO : Ordered disc prio lead fol)
    (hh : disc q = .priority → ∀ u ∈ l, headerNumber (prio u) = i)
    (hs : disc q = .priority → l.Pairwise fun u v => prio u < prio v)
    (hf : ∀ {u f}, f ∈ fol' u → prio f = prio u) : Ordered disc prio (setLead lead q i l) fol' := by
  refine ⟨fun {r j u} hd hu => ?_, fun {r j} hd => ?_, hf⟩
  · rcases mem_setLead.mp hu with ⟨⟨rfl, rfl⟩, hul⟩ | ⟨-, hul⟩
    · exact hh hd u hul
    · exact hO.header hd hul
  · by_cases hrj : r = q ∧ j = i
    · obtain ⟨rfl, rfl⟩ := hrj
      rw [setLead_self]
      exact hs hd
    · rw [setLead_ne hrj]
      exact hO.sorted hd

theorem left_alone (hi : lead q i = l1 ++ t :: l2) (hf : fol t = [])
    (hL : Represents L' (chains rd (update oc (.queue q i) (some (l1 ++ l2))))) :
    Left disc rd L' oc (update oc (.queue q i) (some (l1 ++ l2))) lead
      (setLead lead q i (l1 ++ l2)) fol fol q t := by
  have hnd := Grouped.nodup_lead hR hG q i
  rw [hi] at hnd
  have hi' : lead q i = l1 ++ [t] ++ l2 := by simpa using hi
  refine ⟨hL, hG.removeLeader hi hf, ?_, fun r hr => by rw [setLead_queue_ne hr], fun {r j u} hu hut => ?_,
    fun {u} _ => update_of_ne (by simp) _ _, fun {prio} hO => ?_⟩
  · refine ⟨ahead (lead q) fol i l1, behind (lead q) fol i l2, ?_, ?_⟩
    · rw [service_eq hi']
      simp [hf]
    · simpa using service_setLead hR hG hi' [] fol fun _ _ _ _ => rfl
  · by_cases hrj : r = q ∧ j = i
    · obtain ⟨rfl, rfl⟩ := hrj
      rw [setLead_self]
      exact (Linked.mem_without hnd).mpr ⟨hi ▸ hu, hut⟩
    · rwa [setLead_ne hrj]
  · refine hO.setLead (fun hd u hu => hO.header hd (hi ▸ ((Linked.mem_without hnd).mp hu).1))
      (fun hd => (hO.sorted (i := i) hd).sublist ?_) hO.follower
    rw [hi]
    exact (List.Sublist.refl l1).append (List.sublist_cons_self t l2)

theorem left_promote (hd : disc q = .priority) (hi : lead q i = l1 ++ t :: l2) (hf : fol t = f :: fs)
    (hL : Represents L' (chains rd
      (handOver oc (.queue q i) (.block2n t) (.block2n f) (l1 ++ f :: l2) fs))) :
    Left disc rd L' oc (handOver oc (.queue q i) (.block2n t) (.block2n f) (l1 ++ f :: l2) fs) lead
      (setLead lead q i (l1 ++ f :: l2)) fol (update (update fol f fs) t []) q t := by
  have ht : t ∈ lead q i := by rw [hi]; simp
  have hft : f ∈ fol t := by rw [hf]; simp
  have hne : f ≠ t := fun he => Grouped.leader_not_follower hR hG ht (he ▸ hft)
  have hi' : lead q i = l1 ++ [t] ++ l2 := by simpa using hi
  have hfol : ∀ {r j u}, u ∈ lead r j → u ≠ t →
      update (update fol f fs) t [] u = fol u := by
    intro r j u hu hut
    have huf : u ≠ f := fun he => Grouped.leader_not_follower hR hG hu (he ▸ hft)
    rw [update_of_ne hut, update_of_ne huf]
  refine ⟨hL, hG.promoteFollower hR hd hi hf, ?_, fun r hr => ?_, fun {r j u} hu hut => ?_,
    fun {u} hu => ?_, fun {prio} hO => ?_⟩
  · refine ⟨ahead (lead q) fol i l1, f :: fs ++ behind (lead q) fol i l2, ?_, ?_⟩
    · rw [service_eq hi']
      simp [hf]
    · have := service_setLead hR hG hi' [f] (update (update fol f fs) t [])
        fun j u hu hut => hfol hu (by simpa using hut)
      simpa [hne] using this
  · rw [setLead_queue_ne hr]
    refine service_congr (fun _ => rfl) fun j u hu => hfol hu ?_
    rintro rfl
    exact hr (Grouped.lead_unique hR hG hu ht).1
  · by_cases hrj : r = q ∧ j = i
    · obtain ⟨rfl, rfl⟩ := hrj
      rw [setLead_self]
      rw [hi] at hu
      simp only [List.mem_append, List.mem_cons] at hu ⊢
      tauto
    · rwa [setLead_ne hrj]
  · have hut : u ≠ t := by
      rintro rfl
      exact hu q (mem_service.mpr ⟨i, u, ht, Or.inl rfl⟩)
    have huf : u ≠ f := by
      rintro rfl
      exact hu q (mem_service.mpr ⟨i, t, ht, Or.inr hft⟩)
    simp [handOver, hut, huf]
  · have hpf : prio f = prio t := hO.follower hft
    have hsort := hO.sorted (i := i) hd
    rw [hi] at hsort
    refine hO.setLead (fun _ u hu => ?_) (fun _ => ?_) fun {u g} hg => ?_
    · by_cases huf : u = f
      · rw [huf, hpf]
        exact hO.header hd ht
      · refine hO.header hd (q := q) ?_
        rw [hi]
        simp [huf] at hu ⊢
        tauto
    · -- the follower has the priority of its leader
      simp only [List.pairwise_append, List.pairwise_cons, List.mem_cons, forall_eq_or_imp, hpf] at hsort ⊢
      exact hsort
    · have hut : u ≠ t := by
        rintro rfl
        simp at hg
      rw [update_of_ne hut] at hg
      by_cases huf : u = f
      · subst huf
        rw [update_self] at hg
        rw [hpf]
        exact hO.follower (show g ∈ fol t by rw [hf]; simp [hg])
      · rw [update_of_ne huf] at hg
        exact hO.follower hg

theorem left_follower (hu : u ∈ lead q i) (hf : fol u = l1 ++ t :: l2)
    (hL : Represents L' (chains rd (update oc (.block2n u) (some (l1 ++ l2))))) :
    Left disc rd L' oc (update oc (.block2n u) (some (l1 ++ l2))) lead lead fol
      (update fol u (l1 ++ l2)) q t := by
  obtain ⟨m1, m2, hm⟩ := List.append_of_mem hu
  have hi : lead q i = m1 ++ [u] ++ m2 := by simpa using hm
  obtain ⟨hs, ho⟩ := service_follow hR hG hi (l1 ++ l2)
  refine ⟨hL, hG.removeFollower hR hf, ?_, ho, fun hv _ => hv, fun {v} hv => ?_,
    fun {prio} hO => hO.setFol fun g hg => hO.follower ?_⟩
  · refine ⟨ahead (lead q) fol i m1 ++ u :: l1, l2 ++ behind (lead q) fol i m2, ?_, by simp [hs]⟩
    rw [service_eq hi]
    simp [hf]
  · refine update_of_ne ?_ _ _
    rintro ⟨⟩
    exact hv q (mem_service.mpr ⟨i, _, hu, Or.inl rfl⟩)
  · rw [hf]
    simp at hg ⊢
    tauto

def unlink (d : Discipline) (L : Links (QueueName Q T) T) (t : T) :
    Links (QueueName Q T) T :=
  match d with
  | .fifo => Chain.extract L (.obj t)
  | .priority => unlinkPriority L t

omit hR hG in
theorem handOver_chains {c d e} :
    handOver (chains rd oc) (.other c) (.other d) (.other e) l fs = chains rd (handOver oc c d e l fs) := by
  simp only [handOver, update_chains_other]

theorem unlink_left (ht : t ∈ service (lead q) fol) : ∃ oc' lead' fol',
      Left disc rd (unlink (disc q) L t) oc oc' lead lead' fol fol' q t := by
  obtain ⟨i, u, hu, rfl | hf⟩ := mem_service.mp ht
  · obtain ⟨l1, l2, hi⟩ := List.append_of_mem hu
    have hc : chains rd oc (header q i) = some (l1 ++ t :: l2) := by
      rw [← hi]
      exact hG.header_of_mem hu
    cases hd : disc q with
    | fifo =>
      have hE := Chain.extract_represents hR hc
      rw [update_chains_other] at hE
      exact ⟨_, _, _, left_alone hR hG hi (Grouped.fol_fifo hR hG hd hu) hE⟩
    | priority =>
      have hb : chains rd oc (block2n t) = some (fol t) := hG.leader hd hu
      cases hf : fol t with
      | nil =>
        have hE := unlinkPriority_alone hR hc (hb.trans (congrArg some hf))
        rw [update_chains_other] at hE
        exact ⟨_, _, _, left_alone hR hG hi hf hE⟩
      | cons f fs =>
        have hE := unlinkPriority_leader hR hc (hb.trans (congrArg some hf))
          (hG.follower (show f ∈ fol t by simp [hf])).1 (by simp)
        rw [handOver_chains] at hE
        exact ⟨_, _, _, left_promote hR hG hd hi hf hE⟩
  · obtain ⟨hb, r, j, hr, hu'⟩ := hG.follower hf
    obtain ⟨rfl, rfl⟩ := Grouped.lead_unique hR hG hu hu'
    obtain ⟨l1, l2, hl⟩ := List.append_of_mem hf
    have hc : chains rd oc (block2n u) = some (l1 ++ t :: l2) := by
      rw [← hl]
      exact hG.block_follower hf
    have hE := unlinkPriority_alone hR hc hb
    rw [update_chains_other] at hE
    rw [hr]
    exact ⟨_, _, _, left_follower hR hG hu hl hE⟩

section

omit [DecidableEq Q] [DecidableEq T] hR hG

theorem head?_groups : (groups fol l).head? = l.head? := by
  cases l <;> rfl

theorem head?_service (lead : Fin 4 → List T) :
    (service lead fol).head? = (List.finRange 4).findSome? fun i => (lead i).head? := by
  rw [service, List.head?_flatMap]
  simp only [head?_groups]

end

theorem firstPriority_eq
    (hd : disc q = .priority) : firstPriority L q = (service (lead q) fol).head? := by
  unfold firstPriority
  rw [head?_service]
  congr 1
  funext i
  have hH := hR.holds (show chains rd oc (header q i) = some (lead q i) from hG.header (Or.inl hd))
  have he := Chain.isEmpty_iff hH
  rw [Chain.first_eq hH]
  cases hl : lead q i with
  | nil => simp [he, hl]
  | cons t l => simp [he, hl]

omit [DecidableEq Q] [DecidableEq T] in
theorem Grouped.service_fifo (hd : disc q = .fifo) : service (lead q) fol = lead q 0 := by
  have hg : groups fol (lead q 0) = lead q 0 := by
    have : ∀ k : List T, (∀ u ∈ k, fol u = []) → groups fol k = k := by
      intro k hk
      induction k with
      | nil => rfl
      | cons a k ih => simp [hk a (by simp), ih fun u hu => hk u (by simp [hu])]
    exact this _ fun u hu => Grouped.fol_fifo hR hG hd hu
  have he : ∀ i, i ≠ 0 → groups fol (lead q i) = [] := fun i hi => by rw [(hG.unused hd hi).2]; rfl
  simp only [service, List.finRange_succ, List.finRange_zero, List.map_cons, List.map_nil,
    List.flatMap_cons, List.flatMap_nil, hg]
  simp [he]

end

end

end

/-! ## Joining -/

structure Arrives (disc : Q → Discipline) (prio : T → Priority) (lead lead' : Q → Fin 4 → List T)
    (fol fol' : T → List T) (q : Q) (t : T) : Prop where
  self : ∃ l1 l2, service (lead q) fol = l1 ++ l2 ∧ service (lead' q) fol' = l1 ++ t :: l2 ∧
    (disc q = .fifo → l2 = []) ∧ (disc q = .priority → Ordered disc prio lead fol →
      (∀ x ∈ l1, prio x ≤ prio t) ∧ ∀ x ∈ l2, prio t < prio x)
  other : ∀ r ≠ q, service (lead' r) fol' = service (lead r) fol
  ordered : Ordered disc prio lead fol → Ordered disc prio lead' fol'

structure Joined (disc : Q → Discipline) (prio : T → Priority) (rd : Priority → List T)
    (L' : Links (QueueName Q T) T) (oc' : Members Q T)
    (lead lead' : Q → Fin 4 → List T) (fol fol' : T → List T) (q : Q) (t : T) : Prop
    extends Arrives disc prio lead lead' fol fol' q t where
  on : Represents L' (chains rd oc')
  grouped : Grouped disc oc' lead' fol'

theorem Arrives.mem (hM : Arrives disc prio lead lead' fol fol' q t) :
    u ∈ service (lead' r) fol' ↔ u ∈ service (lead r) fol ∨ r = q ∧ u = t := by
  by_cases hr : r = q
  · subst hr
    obtain ⟨l1, l2, hl, hl', -⟩ := hM.self
    rw [hl, hl']
    simp only [List.mem_append, List.mem_cons]
    tauto
  · rw [hM.other r hr]
    simp [hr]

theorem lt_of_headerNumber {p p'} (h : headerNumber p < headerNumber p') : p < p' := by
  simp only [headerNumber, Fin.lt_def] at h ⊢
  omega

theorem Ordered.eq_leader (hO : Ordered disc prio lead fol) (hx : t = u ∨ t ∈ fol u) :
    prio t = prio u := by
  rcases hx with rfl | hx
  · rfl
  · exact hO.follower hx

section

variable (hO : Ordered disc prio lead fol) (hd : disc q = .priority) {p : Priority}

include hO hd

theorem Ordered.ahead_le (hl : ∀ x ∈ l1, prio x ≤ p) :
    ∀ x ∈ ahead (lead q) fol (headerNumber p) l1, prio x ≤ p := by
  intro x hx
  rcases mem_ahead.mp hx with ⟨j, hj, u, hu, hxu⟩ | ⟨u, hu, hxu⟩
  · rw [hO.eq_leader hxu]
    rw [← hO.header hd hu] at hj
    exact (lt_of_headerNumber hj).le
  · rw [hO.eq_leader hxu]
    exact hl u hu

theorem Ordered.lt_behind (hl : ∀ x ∈ l2, p < prio x) :
    ∀ x ∈ behind (lead q) fol (headerNumber p) l2, p < prio x := by
  intro x hx
  rcases mem_behind.mp hx with ⟨u, hu, hxu⟩ | ⟨j, hj, u, hu, hxu⟩
  · rw [hO.eq_leader hxu]
    exact hl u hu
  · rw [hO.eq_leader hxu]
    rw [← hO.header hd hu] at hj
    exact lt_of_headerNumber hj

theorem Ordered.around (hi : lead q i = l1 ++ l2) (h1 : ∀ x ∈ l1.getLast?, prio x < p)
    (h2 : ∀ x ∈ l2.head?, p < prio x) : (∀ x ∈ l1, prio x < p) ∧ ∀ x ∈ l2, p < prio x := by
  have hs := hO.sorted (i := i) hd
  rw [hi, List.pairwise_append] at hs
  constructor
  · intro x hx
    rcases List.eq_nil_or_concat' l1 with rfl | ⟨k, a, rfl⟩
    · cases hx
    · have ha := h1 a (by simp)
      rcases List.mem_append.mp hx with hx | hx
      · exact lt_trans ((List.pairwise_append.mp hs.1).2.2 x hx a (by simp)) ha
      · rwa [List.mem_singleton.mp hx]
  · intro x hx
    cases l2 with
    | nil => cases hx
    | cons a k =>
      have ha := h2 a (by simp)
      rcases List.mem_cons.mp hx with rfl | hx
      · exact ha
      · exact lt_trans ha ((List.pairwise_cons.mp hs.2.1).1 x hx)

end

section

variable [DecidableEq Q] [DecidableEq T]

theorem joined_leader (hR : Represents L (chains rd oc)) (hG : Grouped disc oc lead fol)
    (hq : disc q = .priority ∨ i = 0) (ht : ∀ r, t ∉ service (lead r) fol)
    (hb : disc q = .priority → oc (.block2n t) = some []) (hi : lead q i = l1 ++ l2)
    (hfifo : disc q = .fifo → l2 = [])
    (hord : disc q = .priority → headerNumber (prio t) = i ∧ (∀ x ∈ l1.getLast?, prio x < prio t) ∧
      ∀ x ∈ l2.head?, prio t < prio x)
    (hL : Represents L' (chains rd (update oc (.queue q i) (some (l1 ++ t :: l2))))) :
    Joined disc prio rd L' (update oc (.queue q i) (some (l1 ++ t :: l2))) lead
      (setLead lead q i (l1 ++ t :: l2)) fol fol q t := by
  have hi' : lead q i = l1 ++ [] ++ l2 := by simpa using hi
  refine ⟨⟨?_, fun r hr => by rw [setLead_queue_ne hr], fun hO => ?_⟩, hL, hG.insertLeader hq hi hb⟩
  · refine ⟨ahead (lead q) fol i l1, behind (lead q) fol i l2, ?_, ?_, fun hd => ?_, fun hd hO => ?_⟩
    · rw [service_eq hi']
      simp
    · have := service_setLead hR hG hi' [t] fol fun _ _ _ _ => rfl
      simpa [hG.fol_nil ht] using this
    · rw [hfifo hd, List.eq_nil_iff_forall_not_mem]
      intro x hx
      rcases mem_behind.mp hx with ⟨u, hu, -⟩ | ⟨j, hj, u, hu, -⟩
      · cases hu
      · rw [(hG.unused hd (Fin.ne_zero_of_lt hj)).2] at hu
        cases hu
    · obtain ⟨rfl, h1, h2⟩ := hord hd
      obtain ⟨h1, h2⟩ := hO.around hd hi h1 h2
      exact ⟨hO.ahead_le hd fun x hx => (h1 x hx).le, hO.lt_behind hd h2⟩
  · refine hO.setLead (fun hd u hu => ?_) (fun hd => ?_) hO.follower
    · by_cases hut : u = t
      · rw [hut]
        exact (hord hd).1
      · refine hO.header hd (q := q) ?_
        rw [hi]
        simp [hut] at hu ⊢
        exact hu
    · obtain ⟨rfl, h1, h2⟩ := hord hd
      obtain ⟨h1, h2⟩ := hO.around hd hi h1 h2
      have hs := hO.sorted (i := headerNumber (prio t)) hd
      rw [hi, List.pairwise_append] at hs
      refine List.pairwise_append.mpr ⟨hs.1, List.pairwise_cons.mpr ⟨h2, hs.2.1⟩, fun x hx y hy => ?_⟩
      rcases List.mem_cons.mp hy with rfl | hy
      · exact h1 x hx
      · exact hs.2.2 x hx y hy

theorem joined_follower (hR : Represents L (chains rd oc)) (hG : Grouped disc oc lead fol)
    (hd : disc q = .priority) (ht : ∀ r, t ∉ service (lead r) fol) (hb : oc (.block2n t) = some [])
    (hu : u ∈ lead q i) (hp : prio u = prio t)
    (hL : Represents L' (chains rd (update oc (.block2n u) (some (fol u ++ [t]))))) :
    Joined disc prio rd L' (update oc (.block2n u) (some (fol u ++ [t]))) lead lead fol
      (update fol u (fol u ++ [t])) q t := by
  have htu : t ≠ u := by
    rintro rfl
    exact ht q (mem_service.mpr ⟨i, t, hu, Or.inl rfl⟩)
  obtain ⟨m1, m2, hm⟩ := List.append_of_mem hu
  have hi : lead q i = m1 ++ [u] ++ m2 := by simpa using hm
  obtain ⟨hserv, ho⟩ := service_follow hR hG hi (fol u ++ [t])
  refine ⟨⟨?_, ho, fun hO => hO.setFol fun g hg => ?_⟩, hL, hG.insertFollower hR hd hu hb htu⟩
  · refine ⟨ahead (lead q) fol i m1 ++ u :: fol u, behind (lead q) fol i m2, ?_, by simp [hserv], fun hf => ?_,
      fun _ hO => ?_⟩
    · rw [service_eq hi]
      simp
    · simp [hd] at hf
    · have hs := hO.sorted (i := i) hd
      rw [hm, List.pairwise_append, List.pairwise_cons] at hs
      obtain rfl := hO.header hd hu
      rw [hp] at hs ⊢
      constructor
      · intro x hx
        rcases List.mem_append.mp hx with hx | hx
        · exact hO.ahead_le hd (fun x hx => hp ▸ (hs.2.2 x hx u (by simp)).le) x hx
        · rw [← hp]
          exact (hO.eq_leader (List.mem_cons.mp hx)).le
      · exact hO.lt_behind hd hs.2.1.1
  · rcases List.mem_append.mp hg with hg | hg
    · exact hO.follower hg
    · rw [List.mem_singleton.mp hg, hp]

end

structure Departs [DecidableEq T] (disc : Q → Discipline) (lead lead' : Q → Fin 4 → List T)
    (fol fol' : T → List T) (q : Q) (t : T) : Prop where
  waits : t ∈ service (lead q) fol
  erased : service (lead' q) fol' = (service (lead q) fol).erase t
  other : ∀ r ≠ q, service (lead' r) fol' = service (lead r) fol
  mem : ∀ {r u}, u ∈ service (lead' r) fol' ↔ u ∈ service (lead r) fol ∧ u ≠ t
  ordered : ∀ {prio}, Ordered disc prio lead fol → Ordered disc prio lead' fol'

theorem Left.departs [DecidableEq T] (hM : Left disc rd L' oc oc' lead lead' fol fol' q t)
    (hR : Represents L (chains rd oc)) (hG : Grouped disc oc lead fol) :
    Departs disc lead lead' fol fol' q t := by
  refine ⟨hM.mem_self, ?_, hM.other, hM.mem_iff hR hG, hM.ordered⟩
  obtain ⟨l1, l2, h, h'⟩ := hM.self
  have ht : t ∉ l1 := by
    have hn := hG.nodup_service hR q
    rw [h] at hn
    exact fun ht => (List.disjoint_of_nodup_append hn) ht List.mem_cons_self
  rw [h, h', List.erase_append_right _ ht, List.erase_cons_head]

end Rtems.ThreadQueue
