import Rtems.Heap.Invariant

/-! # Edits of the free list -/

namespace Rtems.Heap

open List (cons_append mem_append mem_cons nodup_append nodup_cons not_mem_nil)
open Memory (store_ne)

variable {m : Memory} {h page x y v : Nat} {L : Layout}

def Starts (L : Layout) (x : Nat) : Prop := ∃ b ∈ L.blocks, b.addr = x

theorem Starts.site (hx : Starts L x) : Site h L x := Or.inr (Or.inr hx)

theorem Starts.bounds (hx : Starts L x) (hp : Placed h L.start L.final) :
    L.start ≤ x ∧ x + 16 ≤ L.final ∧ (x + 16 ≤ h ∨ h + 28 ≤ x) := by
  obtain ⟨b, hb, rfl⟩ := hx
  have := L.start_le hb
  have := L.le_final hb
  have := L.size_ge b hb
  have := hp.outside
  omega

theorem Starts.apart (hx : Starts L x) (hy : Starts L y) :
    x = y ∨ x + 16 ≤ y ∨ y + 16 ≤ x := by
  obtain ⟨b, hb, rfl⟩ := hx
  obtain ⟨c, hc, rfl⟩ := hy
  have := L.size_ge b hb
  have := L.size_ge c hc
  rcases L.apart hb hc with rfl | h | h <;> omega

def NextSite (h : Nat) (L : Layout) (x : Nat) : Prop := x = head h ∨ Starts L x

def PreviousSite (h : Nat) (L : Layout) (x : Nat) : Prop := x = tail h ∨ Starts L x

theorem NextSite.site (hx : NextSite h L x) : Site h L x :=
  hx.elim Or.inl fun h => Or.inr (Or.inr h)

theorem PreviousSite.site (hx : PreviousSite h L x) : Site h L x :=
  hx.elim (fun h => Or.inr (Or.inl h)) fun h => Or.inr (Or.inr h)

theorem next_setNext_ne (hne : y ≠ x) : next (setNext m x v) y = next m y := m.store_ne v (by omega)

theorem previous_setPrevious_ne (hne : y ≠ x) : previous (setPrevious m x v) y = previous m y :=
  m.store_ne v (by omega)

@[simp] theorem next_setNext (x v : Nat) : next (setNext m x v) x = v := m.store_same _ _

@[simp] theorem previous_setPrevious (x v : Nat) : previous (setPrevious m x v) x = v :=
  m.store_same _ _

def Inside (b : Block) (x : Nat) : Prop := b.addr + 8 ≤ x ∧ x + 4 ≤ b.addr + b.size

section Placed

variable (hp : Placed h L.start L.final)

include hp

theorem Site.link_ne (hx : Site h L x) :
    (PreviousSite h L y → x + 8 ≠ y + 12) ∧ (NextSite h L y → x + 12 ≠ y + 8) := by
  unfold Site PreviousSite NextSite head tail at *
  constructor <;> intro hy <;> rcases hx with hx | hx | hx <;> rcases hy with hy | hy
  all_goals first
    | omega
    | have := Starts.apart hx hy; omega
    | have := hy.bounds hp; omega
    | have := Starts.bounds hx hp; omega

theorem next_setPrevious (hx : Site h L x) (hy : PreviousSite h L y) :
    next (setPrevious m y v) x = next m x :=
  m.store_ne v ((hx.link_ne hp).1 hy)

theorem previous_setNext (hx : NextSite h L x) (hy : Site h L y) :
    previous (setNext m x v) y = previous m y :=
  m.store_ne v ((hy.link_ne hp).2 hx)

theorem Control.store_link {k} (hc : Control m h page L)
    (hx : NextSite h L x ∧ k = 8 ∨ PreviousSite h L x ∧ k = 12) :
    Control (m.store (x + k) v) h page L := by
  have hne : h ≠ x + k ∧ h + 4 ≠ x + k ∧ h + 20 ≠ x + k := by
    unfold NextSite PreviousSite head tail at hx
    rcases hx with ⟨rfl | hx, rfl⟩ | ⟨rfl | hx, rfl⟩
    · omega
    · have := hx.bounds hp; omega
    · omega
    · have := hx.bounds hp; omega
  exact hc.congr (m.store_ne v hne.1) (m.store_ne v hne.2.1) (m.store_ne v hne.2.2) rfl rfl

theorem Control.setNext (hc : Control m h page L) (hx : NextSite h L x) :
    Control (setNext m x v) h page L :=
  hc.store_link hp (Or.inl ⟨hx, rfl⟩)

theorem Control.setPrevious (hc : Control m h page L) (hx : PreviousSite h L x) :
    Control (setPrevious m x v) h page L :=
  hc.store_link hp (Or.inr ⟨hx, rfl⟩)

theorem Inside.ne_link {d w k} (hw : Inside d w) (hd : d ∈ L.blocks) (hx : Site h L x)
    (hxd : x ≠ d.addr) (hk : k = 8 ∨ k = 12) : w ≠ x + k := by
  obtain ⟨hw1, hw2⟩ := hw
  have := L.start_le hd
  have := L.le_final hd
  have := hp.outside
  unfold Site head tail at hx
  rcases hx with hx | hx | ⟨e, he, rfl⟩
  · omega
  · omega
  · have := L.size_ge e he
    rcases L.apart he hd with rfl | h | h
    · exact absurd rfl hxd
    · omega
    · omega

end Placed

def NoLink (h : Nat) (L : Layout) (w : Nat) : Prop := ∀ x, Site h L x → w ≠ x + 8 ∧ w ≠ x + 12

/-! ## Unlinking -/

def unlink (m : Memory) (x : Nat) : Memory :=
  let m := setPrevious m (next m x) (previous m x)
  setNext m (previous m x) (next m x)

theorem unlink_sites {l1 l2} (hs : ∀ y ∈ l1 ++ l2, Starts L y)
    (hl : Linked (next m) (previous m) (head h :: (l1 ++ x :: (l2 ++ [tail h])))) :
    PreviousSite h L (next m x) ∧ NextSite h L (previous m x) := by
  obtain ⟨k1, y, z, k2, h1, h2, hn, hp⟩ := hl.neighbours
  simp only [mem_append] at hs
  constructor
  · have hz : z ∈ l2 ++ [tail h] := by rw [h2]; simp
    rw [hn]
    rcases mem_append.mp hz with hz | hz
    · exact Or.inr (hs z (Or.inr hz))
    · exact Or.inl (List.mem_singleton.mp hz)
  · have hy : y ∈ head h :: l1 := by rw [h1]; simp
    rw [hp]
    rcases mem_cons.mp hy with hy | hy
    · exact Or.inl hy
    · exact Or.inr (hs y (Or.inl hy))

theorem nodes_nodup {l} (hp : Placed h L.start L.final) (hs : ∀ y ∈ l, Starts L y)
    (hnd : l.Nodup) : (head h :: (l ++ [tail h])).Nodup := by
  have hne : ∀ y ∈ l, y ≠ head h ∧ y ≠ tail h := by
    intro y hy; have := (hs y hy).bounds hp; unfold head tail; omega
  have hht : head h ≠ tail h := by unfold head tail; omega
  simp only [nodup_cons, mem_append, List.mem_singleton, not_or, nodup_append, hnd,
    true_and]
  refine ⟨⟨fun hh => (hne _ hh).1 rfl, hht⟩, by simp, ?_⟩
  intro a ha b hb
  rw [hb]
  exact (hne a ha).2

theorem nodes_site {l} (hs : ∀ y ∈ l, Starts L y) :
    ∀ y ∈ head h :: (l ++ [tail h]), Site h L y := by
  intro y hy
  simp only [mem_cons, mem_append, not_mem_nil, or_false] at hy
  rcases hy with hy | hy | hy
  · exact Or.inl hy
  · exact (hs y hy).site
  · exact Or.inr (Or.inl hy)

theorem Starts.without {l1 l2} (hs : ∀ y ∈ l1 ++ x :: l2, Starts L y) :
    ∀ y ∈ l1 ++ l2, Starts L y :=
  fun y hy => hs y (((List.sublist_cons_self x l2).append_left l1).subset hy)

section Unlink

variable {l1 l2 : List Nat} {w : Nat} {d : Block} (hp : Placed h L.start L.final)

include hp

theorem neighbours_ne (hl : Linked (next m) (previous m) (head h :: (l1 ++ x :: (l2 ++ [tail h]))))
    (hd : d ∈ L.blocks) (hdl : d.addr ∉ l1 ++ x :: l2) :
    next m x ≠ d.addr ∧ previous m x ≠ d.addr := by
  have hdb := Starts.bounds ⟨d, hd, rfl⟩ hp
  obtain ⟨k1, y, z, k2, h1, h2, hn, hpv⟩ := hl.neighbours
  have hdl' : d.addr ∉ head h :: l1 ∧ d.addr ∉ l2 ++ [tail h] := by
    simp only [mem_append, mem_cons, not_or, not_mem_nil, or_false] at hdl ⊢
    refine ⟨⟨?_, hdl.1⟩, hdl.2.2, ?_⟩
    · unfold head; omega
    · unfold tail; omega
  rw [hn, hpv]
  refine ⟨?_, ?_⟩
  · rintro rfl; rw [h2] at hdl'; simp at hdl'
  · rintro rfl; rw [h1] at hdl'; simp at hdl'

variable (hs : ∀ y ∈ l1 ++ x :: l2, Starts L y) (hnd : (l1 ++ x :: l2).Nodup)
  (hl : Linked (next m) (previous m) (head h :: (l1 ++ x :: (l2 ++ [tail h]))))

include hs hnd hl

theorem unlink_eq :
    unlink m x = setNext (setPrevious m (next m x) (previous m x)) (previous m x) (next m x) := by
  have hall : (head h :: (l1 ++ x :: (l2 ++ [tail h]))).Nodup := by
    simpa using nodes_nodup hp hs hnd
  have hne : next m x ≠ x := by
    obtain ⟨k1, y, z, k2, h1, h2, hn, -⟩ := hl.neighbours
    rw [hn]
    rintro rfl
    rw [← cons_append, h2, nodup_append] at hall
    simp at hall
  unfold unlink
  simp only [previous_setPrevious_ne hne.symm,
    next_setPrevious hp (hs x (by simp)).site (unlink_sites (Starts.without hs) hl).1]

theorem unlink_linked :
    Linked (next (unlink m x)) (previous (unlink m x)) (head h :: (l1 ++ l2 ++ [tail h])) := by
  obtain ⟨hns, hps⟩ := unlink_sites (Starts.without hs) hl
  have hsite := nodes_site (h := h) (Starts.without hs)
  rw [unlink_eq hp hs hnd hl]
  refine hl.remove_node (by simpa using nodes_nodup hp hs hnd) (fun a ha hax => ?_) (fun a ha hax => ?_)
    (by simp) ?_
  · rw [next_setNext_ne hax, next_setPrevious hp (hsite a ha) hns]
  · rw [previous_setNext hp hps (hsite a ha), previous_setPrevious_ne hax]
  · rw [previous_setNext hp hps hns.site, previous_setPrevious]

theorem unlink_inside (hd : d ∈ L.blocks) (hdl : d.addr ∉ l1 ++ x :: l2) (hw : Inside d w) :
    unlink m x w = m w := by
  obtain ⟨hns, hps⟩ := unlink_sites (Starts.without hs) hl
  have hne := neighbours_ne hp hl hd hdl
  rw [unlink_eq hp hs hnd hl]
  refine (store_ne _ _ ?_).trans (store_ne _ _ ?_)
  · exact hw.ne_link hp hd hps.site hne.2 (Or.inl rfl)
  · exact hw.ne_link hp hd hns.site hne.1 (Or.inr rfl)

theorem unlink_same (hw : NoLink h L w) : unlink m x w = m w := by
  obtain ⟨hns, hps⟩ := unlink_sites (Starts.without hs) hl
  rw [unlink_eq hp hs hnd hl]
  exact (store_ne _ _ (hw _ hps.site).1).trans (store_ne _ _ (hw _ hns.site).2)

theorem unlink_tags {L'} (ht : Tags m L') (hc : Control m h page L')
    (hp' : Placed h L'.start L'.final) (hs' : ∀ y ∈ l1 ++ l2, Starts L' y) :
    Tags (unlink m x) L' ∧ Control (unlink m x) h page L' := by
  obtain ⟨hns, hps⟩ := unlink_sites hs' hl
  rw [unlink_eq hp hs hnd hl]
  exact ⟨(ht.setPrevious hp' hns.site).setNext hp' hps.site,
    (hc.setPrevious hp' hns).setNext hp' hps⟩

end Unlink

/-! ## Linking in at the front -/

def push (m : Memory) (h x : Nat) : Memory :=
  let m := setPrevious m x (head h)
  let m := setNext m x (first m h)
  let m := setFirst m h x
  setPrevious m (next m x) x

section Push

variable {l : List Nat} {w : Nat}

theorem push_site (hs : ∀ y ∈ l, Starts L y)
    (hl : Linked (next m) (previous m) (head h :: (l ++ [tail h]))) :
    PreviousSite h L (next m (head h)) ∧ next m (head h) ∈ l ++ [tail h] := by
  obtain ⟨z, k, hk⟩ := List.exists_cons_of_ne_nil (l := l ++ [tail h]) (by simp)
  rw [hk] at hl ⊢
  have hz : next m (head h) = z := (Linked.cons_cons_iff.mp hl).1.1
  rw [hz]
  refine ⟨?_, by simp⟩
  have hmem : z ∈ l ++ [tail h] := by rw [hk]; simp
  rcases mem_append.mp hmem with hm | hm
  · exact Or.inr (hs z hm)
  · exact Or.inl (List.mem_singleton.mp hm)

variable (hp : Placed h L.start L.final)

include hp

theorem push_eq (hx : Starts L x) :
    push m h x = setPrevious (setNext (setNext (setPrevious m x (head h)) x (next m (head h)))
      (head h) x) (next m (head h)) x := by
  have hxh : x ≠ head h := by have := hx.bounds hp; unfold head; omega
  have hf : first (setPrevious m x (head h)) h = next m (head h) :=
    next_setPrevious hp (Or.inl rfl) (Or.inr hx)
  have hn : ∀ v, next (setFirst (setNext (setPrevious m x (head h)) x v) h x) x = v := fun v =>
    (next_setNext_ne hxh).trans (next_setNext _ _)
  unfold push
  simp only [hf, hn]
  rfl

variable (hs : ∀ y ∈ x :: l, Starts L y)

include hs

theorem push_linked (hnd : (x :: l).Nodup)
    (hl : Linked (next m) (previous m) (head h :: (l ++ [tail h]))) :
    Linked (next (push m h x)) (previous (push m h x)) (head h :: (x :: l ++ [tail h])) := by
  have hx := hs x (by simp)
  have hs' : ∀ y ∈ l, Starts L y := fun y hy => hs y (by simp [hy])
  obtain ⟨hzs, hzm⟩ := push_site hs' hl
  have hall := nodes_nodup hp hs' (nodup_cons.mp hnd).2
  have hsite := nodes_site (h := h) hs'
  have hxh : x ≠ head h := by have := hx.bounds hp; unfold head; omega
  have hxl : ∀ a ∈ head h :: (l ++ [tail h]), a ≠ x := by
    intro a ha
    simp only [mem_cons, mem_append, not_mem_nil, or_false] at ha
    rcases ha with rfl | ha | rfl
    · exact hxh.symm
    · rintro rfl; exact (nodup_cons.mp hnd).1 ha
    · have := hx.bounds hp; unfold tail; omega
  have hzx : x ≠ next m (head h) := (hxl _ (List.mem_cons_of_mem _ hzm)).symm
  obtain ⟨z, k, hk⟩ := List.exists_cons_of_ne_nil (l := l ++ [tail h]) (by simp)
  rw [cons_append, hk]
  rw [hk] at hl hall hsite hxl
  have hz : next m (head h) = z := (Linked.cons_cons_iff.mp hl).1.1
  rw [hz] at hzs hzx
  rw [push_eq hp hx, hz]
  refine Linked.insert_after (show Linked _ _ ([] ++ head h :: z :: k) from hl) hall ?_ ?_ ?_ (by simp)
    (fun a ha hax => ?_) fun a ha hax => ?_
  · rw [next_setPrevious hp (Or.inl rfl) hzs, next_setNext]
  · rw [previous_setPrevious_ne hzx, previous_setNext hp (Or.inl rfl) hx.site,
      previous_setNext hp (Or.inr hx) hx.site, previous_setPrevious]
  · rw [next_setPrevious hp hx.site hzs, next_setNext_ne hxh, next_setNext]
  · rw [next_setPrevious hp (hsite a ha) hzs, next_setNext_ne hax, next_setNext_ne (hxl a ha),
      next_setPrevious hp (hsite a ha) (Or.inr hx)]
  · rw [previous_setPrevious_ne hax, previous_setNext hp (Or.inl rfl) (hsite a ha),
      previous_setNext hp (Or.inr hx) (hsite a ha), previous_setPrevious_ne (hxl a ha)]

variable (hl : Linked (next m) (previous m) (head h :: (l ++ [tail h])))

include hl

theorem push_tags (ht : Tags m L) (hc : Control m h page L) :
    Tags (push m h x) L ∧ Control (push m h x) h page L := by
  have hx := hs x (by simp)
  obtain ⟨hzs, -⟩ := push_site (fun y hy => hs y (by simp [hy])) hl
  rw [push_eq hp hx]
  exact ⟨(((ht.setPrevious hp hx.site).setNext hp hx.site).setNext hp (Or.inl rfl)).setPrevious hp
      hzs.site,
    (((hc.setPrevious hp (Or.inr hx)).setNext hp (Or.inr hx)).setNext hp (Or.inl rfl)).setPrevious hp
      hzs⟩

theorem push_inside {d} (hd : d ∈ L.blocks) (hdl : d.addr ∉ x :: l) (hw : Inside d w) : push m h x w = m w := by
  have hx := hs x (by simp)
  obtain ⟨hzs, hzm⟩ := push_site (fun y hy => hs y (by simp [hy])) hl
  have hdb := Starts.bounds ⟨d, hd, rfl⟩ hp
  have hdx : x ≠ d.addr := by rintro rfl; simp at hdl
  have hdh : head h ≠ d.addr := by unfold head; omega
  have hdz : next m (head h) ≠ d.addr := by
    intro he
    rw [he] at hzm
    simp only [mem_append, mem_cons, not_mem_nil, or_false, not_or] at hzm hdl
    rcases hzm with hzm | hzm
    · exact hdl.2 hzm
    · unfold tail at hzm; omega
  rw [push_eq hp hx]
  refine (store_ne _ _ ?_).trans ((store_ne _ _ ?_).trans
    ((store_ne _ _ ?_).trans (store_ne _ _ ?_)))
  · exact hw.ne_link hp hd hzs.site hdz (Or.inr rfl)
  · exact hw.ne_link hp hd (Or.inl rfl) hdh (Or.inl rfl)
  · exact hw.ne_link hp hd hx.site hdx (Or.inl rfl)
  · exact hw.ne_link hp hd hx.site hdx (Or.inr rfl)

theorem push_same (hw : NoLink h L w) : push m h x w = m w := by
  have hx := hs x (by simp)
  obtain ⟨hzs, -⟩ := push_site (fun y hy => hs y (by simp [hy])) hl
  rw [push_eq hp hx]
  exact (store_ne _ _ (hw _ hzs.site).2).trans ((store_ne _ _ (hw _ (Or.inl rfl)).1).trans
    ((store_ne _ _ (hw _ hx.site).1).trans (store_ne _ _ (hw _ hx.site).2)))

end Push

/-! ## Putting one block in the place of another -/

/-- Links that `_Heap_Free` writes to put `x` in the place of `y`. -/
def relink (m : Memory) (h x y : Nat) : Memory :=
  let m := setNext m x (next m y)
  let m := setPrevious m x (previous m y)
  let m := setNext m (previous m y) x
  let m := setPrevious m (next m y) x
  if first m h = y then setFirst m h x else m

section Relink

variable {l1 l2 : List Nat} {w : Nat}

def relinkMemory (m : Memory) (x y : Nat) : Memory :=
  setPrevious (setNext (setPrevious (setNext m x (next m y)) x (previous m y)) (previous m y) x)
    (next m y) x

theorem relink_tags {L'} (ht : Tags m L') (hc : Control m h page L')
    (hp' : Placed h L'.start L'.final) (hx' : Starts L' x) (hs' : ∀ z ∈ l1 ++ l2, Starts L' z)
    (hl : Linked (next m) (previous m) (head h :: (l1 ++ y :: (l2 ++ [tail h])))) :
    Tags (relinkMemory m x y) L' ∧ Control (relinkMemory m x y) h page L' := by
  obtain ⟨hns, hps⟩ := unlink_sites hs' hl
  exact ⟨(((ht.setNext hp' hx'.site).setPrevious hp' hx'.site).setNext hp' hps.site).setPrevious hp'
      hns.site,
    (((hc.setNext hp' (Or.inr hx')).setPrevious hp' (Or.inr hx')).setNext hp' hps).setPrevious hp'
      hns⟩

variable (hp : Placed h L.start L.final) (hx : Starts L x) (hs : ∀ z ∈ l1 ++ y :: l2, Starts L z)
  (hnd : (l1 ++ y :: l2).Nodup) (hxl : x ∉ l1 ++ y :: l2)
  (hl : Linked (next m) (previous m) (head h :: (l1 ++ y :: (l2 ++ [tail h]))))

include hx hs hl

theorem relink_same (hw : NoLink h L w) : relinkMemory m x y w = m w := by
  obtain ⟨hns, hps⟩ := unlink_sites (Starts.without hs) hl
  exact (store_ne _ _ (hw _ hns.site).2).trans ((store_ne _ _ (hw _ hps.site).1).trans
    ((store_ne _ _ (hw _ hx.site).2).trans (store_ne _ _ (hw _ hx.site).1)))

include hp

theorem relink_inside {d} (hd : d ∈ L.blocks) (hdx : x ≠ d.addr) (hdl : d.addr ∉ l1 ++ y :: l2)
    (hw : Inside d w) : relinkMemory m x y w = m w := by
  obtain ⟨hns, hps⟩ := unlink_sites (Starts.without hs) hl
  obtain ⟨hnd', hpd⟩ := neighbours_ne hp hl hd hdl
  refine (store_ne _ _ ?_).trans ((store_ne _ _ ?_).trans
    ((store_ne _ _ ?_).trans (store_ne _ _ ?_)))
  · exact hw.ne_link hp hd hns.site hnd' (Or.inr rfl)
  · exact hw.ne_link hp hd hps.site hpd (Or.inl rfl)
  · exact hw.ne_link hp hd hx.site hdx (Or.inr rfl)
  · exact hw.ne_link hp hd hx.site hdx (Or.inl rfl)

include hnd hxl

theorem relinkMemory_linked :
    Linked (next (relinkMemory m x y)) (previous (relinkMemory m x y))
      (head h :: (l1 ++ x :: (l2 ++ [tail h]))) := by
  obtain ⟨hns, hps⟩ := unlink_sites (Starts.without hs) hl
  have hsite := nodes_site (h := h) (Starts.without hs)
  have hxa : ∀ a ∈ head h :: (l1 ++ l2 ++ [tail h]), a ≠ x := by
    rintro a ha rfl
    have hb := hx.bounds hp
    simp only [mem_append, mem_cons, not_mem_nil, or_false, not_or] at ha hxl
    unfold head tail at ha
    rcases ha with ha | (ha | ha) | ha
    · omega
    · exact hxl.1 ha
    · exact hxl.2.2 ha
    · omega
  obtain ⟨k1, v, z, k2, h1, h2, hn, hpv⟩ := hl.neighbours
  have hvx : previous m y ≠ x := by
    refine hxa _ ?_
    rw [hpv, ← cons_append, ← cons_append, h1]
    simp
  have hzx : next m y ≠ x := by
    refine hxa _ ?_
    rw [hn, List.append_assoc, h2]
    simp
  unfold relinkMemory
  refine hl.replace_node (by simpa using nodes_nodup hp hs hnd) (fun a ha hax => ?_) (fun a ha hax => ?_)
    ?_ ?_ ?_ (by simp)
  · rw [next_setPrevious hp (hsite a ha) hns, next_setNext_ne hax,
      next_setPrevious hp (hsite a ha) (Or.inr hx), next_setNext_ne (hxa a ha)]
  · rw [previous_setPrevious_ne hax, previous_setNext hp hps (hsite a ha),
      previous_setPrevious_ne (hxa a ha), previous_setNext hp (Or.inr hx) (hsite a ha)]
  · rw [next_setPrevious hp hps.site hns, next_setNext]
  · rw [previous_setPrevious_ne hzx.symm, previous_setNext hp hps hx.site, previous_setPrevious]
  · rw [next_setPrevious hp hx.site hns, next_setNext_ne hvx.symm,
      next_setPrevious hp hx.site (Or.inr hx), next_setNext]

theorem relink_eq : relink m h x y = relinkMemory m x y := by
  have hy := hs y (by simp)
  have hyx : y ≠ x := by rintro rfl; simp at hxl
  have hall : (head h :: (l1 ++ y :: (l2 ++ [tail h]))).Nodup := by
    simpa using nodes_nodup hp hs hnd
  have hvy : y ≠ previous m y := by
    obtain ⟨k1, v, z, k2, h₁, -, -, hpv⟩ := hl.neighbours
    rw [hpv]
    rintro rfl
    rw [← cons_append, h₁, nodup_append] at hall
    exact hall.2.2 y (by simp) y (by simp) rfl
  have h1 : previous (setNext m x (next m y)) y = previous m y :=
    previous_setNext hp (Or.inr hx) hy.site
  have h2 : ∀ v, previous (setPrevious (setNext m x (next m y)) x v) y = previous m y := fun v =>
    (previous_setPrevious_ne hyx).trans h1
  have h3 : next (setNext (setPrevious (setNext m x (next m y)) x (previous m y)) (previous m y) x)
      y = next m y := by
    rw [next_setNext_ne hvy, next_setPrevious hp hy.site (Or.inr hx), next_setNext_ne hyx]
  have hfirst : first (relinkMemory m x y) h ≠ y := by
    have hl' := relinkMemory_linked hp hx hs hnd hxl hl
    have hmem : next (relinkMemory m x y) (head h) ∈ l1 ++ x :: (l2 ++ [tail h]) := by
      obtain ⟨z, k, hk⟩ := List.exists_cons_of_ne_nil (l := l1 ++ x :: (l2 ++ [tail h])) (by simp)
      rw [hk] at hl' ⊢
      rw [(Linked.cons_cons_iff.mp hl').1.1]
      simp
    intro he
    change next (relinkMemory m x y) (head h) = y at he
    rw [he] at hmem
    simp only [nodup_cons, nodup_append, mem_append, mem_cons] at hall hmem
    rcases hmem with hmem | hmem | hmem
    · exact hall.2.2.2 y hmem y (Or.inl rfl) rfl
    · exact hyx hmem
    · exact hall.2.2.1.1 hmem
  unfold relink
  simp only [h1, h2, h3]
  exact if_neg hfirst

end Relink

end Rtems.Heap
