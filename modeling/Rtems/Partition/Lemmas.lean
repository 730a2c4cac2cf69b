import Rtems.Chain.Lemmas
import Rtems.Partition.Model

/-!
# The free chain of a partition

As long as its nodes do not overlap, it is a chain.
-/

namespace Rtems.Partition

open Function Intrusive

variable {B l : List Nat} {s s' : Store} {n v : Pointer} {a b : Nat}

/-! ## Nodes apart -/

def Apart (B : List Nat) : Prop :=
  ∀ a ∈ B, a + 4 < 2 ^ 32 ∧ ∀ b ∈ B, a ≠ b → a + 8 ≤ b ∨ b + 8 ≤ a

theorem Apart.ne (hB : Apart B) (ha : a ∈ B) (hb : b ∈ B) : addWord a 4 ≠ b := by
  rw [addWord_eq (hB a ha).1]
  by_cases hab : a = b
  · omega
  · have := (hB a ha).2 b hb hab
    omega

theorem Apart.addWord_ne (hB : Apart B) (ha : a ∈ B) (hb : b ∈ B) (h : a ≠ b) : addWord a 4 ≠ addWord b 4 := by
  rw [addWord_eq (hB a ha).1, addWord_eq (hB b hb).1]
  omega

def Store.links (s : Store) : Links Unit Nat := ⟨s.next, s.previous⟩

def Agree (B : List Nat) (s : Store) (L : Links Unit Nat) : Prop :=
  ∀ n ∈ nodes () B, s.next n = L.next n ∧ s.previous n = L.previous n

namespace Agree

variable {L : Links Unit Nat}

theorem refl (B : List Nat) (s : Store) : Agree B s s.links := fun _ _ => ⟨rfl, rfl⟩

theorem setNext (hB : Apart B) (h : Agree B s L) (hn : n ∈ nodes () B) (ht : n ≠ .tail ()) (v : Pointer) :
    Agree B (s.setNext n v) (L.setNext n v) := by
  intro k hk
  have hL := h k hk
  rw [mem_nodes] at hn hk
  rcases hn with rfl | rfl | ⟨a, ha, rfl⟩
  · rcases hk with rfl | rfl | ⟨b, -, rfl⟩
    · exact ⟨by simp [Store.setNext, Store.next], hL.2⟩
    · exact ⟨by rw [Links.next_setNext_ne (by simp)]; exact hL.1, hL.2⟩
    · exact ⟨by rw [Links.next_setNext_ne (by simp)]; exact hL.1, hL.2⟩
  · exact absurd rfl ht
  · rcases hk with rfl | rfl | ⟨b, hb, rfl⟩
    · exact ⟨by rw [Links.next_setNext_ne (by simp)]; exact hL.1, hL.2⟩
    · exact ⟨by rw [Links.next_setNext_ne (by simp)]; exact hL.1, hL.2⟩
    · refine ⟨?_, ?_⟩
      · by_cases hba : b = a
        · subst hba
          simp [Store.setNext, Store.setWord, Store.next]
        · rw [Links.next_setNext_ne (by simpa using hba), ← hL.1]
          simp [Store.setNext, Store.setWord, Store.next, hba]
      · refine Eq.trans ?_ hL.2
        simp [Store.setNext, Store.setWord, Store.previous, hB.ne hb ha]

theorem setPrevious (hB : Apart B) (h : Agree B s L) (hn : n ∈ nodes () B) (hh : n ≠ .head ())
    (v : Pointer) : Agree B (s.setPrevious n v) (L.setPrevious n v) := by
  intro k hk
  have hL := h k hk
  rw [mem_nodes] at hn hk
  rcases hn with rfl | rfl | ⟨a, ha, rfl⟩
  · exact absurd rfl hh
  · rcases hk with rfl | rfl | ⟨b, -, rfl⟩
    · exact ⟨hL.1, by rw [Links.previous_setPrevious_ne (by simp)]; exact hL.2⟩
    · exact ⟨hL.1, by simp [Store.setPrevious, Store.previous]⟩
    · exact ⟨hL.1, by rw [Links.previous_setPrevious_ne (by simp)]; exact hL.2⟩
  · rcases hk with rfl | rfl | ⟨b, hb, rfl⟩
    · exact ⟨hL.1, by rw [Links.previous_setPrevious_ne (by simp)]; exact hL.2⟩
    · exact ⟨hL.1, by rw [Links.previous_setPrevious_ne (by simp)]; exact hL.2⟩
    · refine ⟨?_, ?_⟩
      · refine Eq.trans ?_ hL.1
        simp [Store.setPrevious, Store.setWord, Store.next, (hB.ne ha hb).symm]
      · by_cases hba : b = a
        · subst hba
          simp [Store.setPrevious, Store.setWord, Store.previous]
        · rw [Links.previous_setPrevious_ne (by simpa using hba), ← hL.2]
          simp [Store.setPrevious, Store.setWord, Store.previous, hB.addWord_ne hb ha hba]

end Agree

def Chained (s : Store) (l : List Nat) : Prop := Represents s.links fun _ : Unit => some l

theorem Agree.chained {L} (h : Agree B s L) (hH : Holds L () l) (hnd : l.Nodup)
    (hl : ∀ x ∈ l, x ∈ B) : Chained s l := by
  have hm : ∀ n ∈ nodes () l, n ∈ nodes () B := by
    intro n hn
    rw [mem_nodes] at hn ⊢
    exact hn.imp id (Or.imp id fun ⟨a, ha, he⟩ => ⟨a, hl a ha, he⟩)
  have hS : Holds s.links () l :=
    hH.congr (fun n hn => (h n (hm n hn)).1) fun n hn => (h n (hm n hn)).2
  refine ⟨fun {c k} hk => ?_, fun {c k} hk => ?_, fun _ _ _ _ => rfl⟩
  · cases hk
    exact hS
  · cases hk
    exact hnd

theorem Chained.holds (h : Chained s l) : Holds s.links () l := Represents.holds h rfl

theorem Chained.setNumberOfUsedBlocks (h : Chained s l) (n : Nat) : Chained (s.setNumberOfUsedBlocks n) l := by
  have hL : (s.setNumberOfUsedBlocks n).links = s.links := by
    unfold Store.links
    congr 1
  unfold Chained
  exact h

theorem Chained.chainGet_nil (h : Chained s []) : s.chainGet = (s, none) := by
  have hf : s.control.first = .tail () := h.holds.next_head
  simp [Store.chainGet, hf]

structure Area where
  startingAddress : Nat
  length : Nat
  bufferSize : Nat
  deriving DecidableEq, Repr

def Store.area (s : Store) : Area := ⟨s.control.startingAddress, s.control.length, s.control.bufferSize⟩

@[simp] theorem Store.area_setNumberOfUsedBlocks {n} : (s.setNumberOfUsedBlocks n).area = s.area := rfl

@[simp] theorem Store.area_setNext : (s.setNext n v).area = s.area := by cases n <;> rfl

@[simp] theorem Store.area_setPrevious : (s.setPrevious n v).area = s.area := by cases n <;> rfl

theorem Chained.chainGet (hB : Apart B) (h : Chained s (a :: l)) (hl : ∀ x ∈ a :: l, x ∈ B) :
    ∃ s', s.chainGet = (s', some (.obj a)) ∧ Chained s' l ∧ s'.area = s.area := by
  have hf : s.control.first = .obj a := h.holds.next_head
  have hn : s.next (.obj a) = succ () l := (show Holds s.links () ([] ++ a :: l) from h.holds).next_obj
  obtain ⟨-, hR⟩ := Chain.getFirst_represents h rfl
  have hs : succ () l ∈ nodes () B := by
    rw [mem_nodes]
    rcases succ_eq () l with he | ⟨x, hx, he⟩
    · exact Or.inr (Or.inl he)
    · exact Or.inr (Or.inr ⟨x, hl x (List.mem_cons_of_mem a hx), he⟩)
  have hh : succ () l ≠ .head () := by rcases succ_eq () l with he | ⟨x, -, he⟩ <;> simp [he]
  have hA := ((Agree.refl B s).setNext hB (n := .head ()) (mem_nodes.mpr (Or.inl rfl)) (by simp)
    (succ () l)).setPrevious hB hs hh (.head ())
  have hL : (Chain.getFirst s.links ()).1 =
      (s.links.setNext (.head ()) (succ () l)).setPrevious (succ () l) (.head ()) := by
    have hfL : Chain.first s.links () = .obj a := hf
    have hnL : s.links.next (.obj a) = succ () l := hn
    simp only [Chain.getFirst, hfL, hnL]
  rw [hL] at hR
  refine ⟨_, ?_, hA.chained (hR.holds (update_self ..)) (hR.nodup (update_self ..))
    fun x hx => hl x (List.mem_cons_of_mem a hx), ?_⟩
  · simp [Store.chainGet, hf, hn]
  · simp

theorem Chained.chainAppend (hB : Apart B) (h : Chained s l) (hl : ∀ x ∈ l, x ∈ B) (ha : a ∈ B)
    (hal : a ∉ l) : Chained (s.chainAppend (.obj a)) (l ++ [a]) ∧ (s.chainAppend (.obj a)).area = s.area := by
  have hp : s.control.last = pred () l := h.holds.previous_tail
  have ho : (.obj a : Pointer) ∈ nodes () B := mem_nodes.mpr (Or.inr (Or.inr ⟨a, ha, rfl⟩))
  have hm : pred () l ∈ nodes () B := by
    rw [mem_nodes]
    rcases pred_eq () l with he | ⟨x, hx, he⟩
    · exact Or.inl he
    · exact Or.inr (Or.inr ⟨x, hl x hx, he⟩)
  have hA := ((((Agree.refl B s).setNext hB ho (by simp) (.tail ())).setPrevious hB
    (mem_nodes.mpr (Or.inr (Or.inl rfl))) (by simp) (.obj a)).setNext hB hm (tail_ne_pred () l).symm
      (.obj a)).setPrevious hB ho (by simp) (pred () l)
  have hR := Chain.append_represents (c := ()) h rfl fun d k hk => by
    cases hk
    exact hal
  have hL : Chain.append s.links () (.obj a) = (((s.links.setNext (.obj a) (.tail ())).setPrevious (.tail ())
      (.obj a)).setNext (pred () l) (.obj a)).setPrevious (.obj a) (pred () l) := by
    have hpL : Chain.last (s.links.setNext (.obj a) (.tail ())) () = pred () l := hp
    simp only [Chain.append, hpL]
  have hS : s.chainAppend (.obj a) = (((s.setNext (.obj a) (.tail ())).setPrevious (.tail ())
      (.obj a)).setNext (pred () l) (.obj a)).setPrevious (.obj a) (pred () l) := by
    have hpS : (s.setNext (.obj a) (.tail ())).control.last = pred () l := hp
    simp only [Store.chainAppend, hpS]
  rw [hL] at hR
  rw [hS]
  refine ⟨hA.chained (hR.holds (update_self ..)) (hR.nodup (update_self ..)) fun x hx => ?_,
    by simp⟩
  rcases List.mem_append.mp hx with hx | hx
  · exact hl x hx
  · rwa [List.mem_singleton.mp hx]

/-! ## `_Chain_Initialize` -/

def addresses (nodeSize : Nat) : Nat → Nat → List Nat
  | 0, _ => []
  | count + 1, a => a :: addresses nodeSize count (addWord a nodeSize)

theorem addresses_eq_map {size n a} (ha : a + n * size < 2 ^ 32) :
    addresses size n a = (List.range n).map fun k => a + k * size := by
  induction n generalizing a with
  | zero => rfl
  | succ n ih =>
    rw [Nat.succ_mul] at ha
    rw [addresses, addWord_eq (by omega), ih (by omega), List.range_succ_eq_map, List.map_cons, List.map_map]
    refine congrArg₂ _ (by simp) (List.map_congr_left fun k _ => ?_)
    simp only [comp_apply, Nat.succ_mul]
    omega

theorem initializeNodes_linked {size count : Nat} {current : Pointer} (hB : Apart B)
    (hc : current ∈ nodes () B) (ht : current ≠ .tail ()) (hl : ∀ x ∈ addresses size count a, x ∈ B)
    (hnd : (current :: (addresses size count a).map Node.obj).Nodup) :
    let r := Store.initializeNodes size count s current a
    Linked r.1.next r.1.previous (current :: (addresses size count a).map Node.obj) ∧
    (∃ k, current :: (addresses size count a).map Node.obj = k ++ [r.2]) ∧
    (∀ n ∈ nodes () B, n ∉ current :: (addresses size count a).map Node.obj → r.1.next n = s.next n) ∧
    (∀ n ∈ nodes () B, n ∉ (addresses size count a).map Node.obj → r.1.previous n = s.previous n) ∧
    r.1.area = s.area := by
  induction count generalizing s current a with
  | zero => exact ⟨Linked.singleton _, ⟨[], rfl⟩, fun _ _ _ => rfl, fun _ _ _ => rfl, rfl⟩
  | succ count ih =>
    have ha : a ∈ B := hl a (by simp [addresses])
    have ho : (.obj a : Pointer) ∈ nodes () B := mem_nodes.mpr (Or.inr (Or.inr ⟨a, ha, rfl⟩))
    simp only [addresses, List.map_cons] at hl hnd ⊢
    have hA := ((Agree.refl B s).setNext hB hc ht (.obj a)).setPrevious hB ho (by simp) current
    obtain ⟨hne, hnd'⟩ := List.nodup_cons.mp hnd
    have hca : current ≠ .obj a := fun h => hne (by simp [h])
    obtain ⟨h1, ⟨k, hk⟩, h3, h4, h5⟩ := ih
      ho (by simp) (fun x hx => hl x (List.mem_cons_of_mem a hx)) hnd'
    simp only [Store.initializeNodes]
    refine ⟨Linked.cons_cons_iff.mpr ⟨⟨?_, ?_⟩, h1⟩, ⟨current :: k, by rw [hk]; rfl⟩, fun n hn hm => ?_,
      fun n hn hm => ?_, ?_⟩
    · rw [h3 current hc hne, (hA current hc).1]
      simp
    · rw [h4 _ ho (fun h => (List.nodup_cons.mp hnd').1 h), (hA _ ho).2]
      simp
    · obtain ⟨hm1, hm2⟩ := not_or.mp (List.mem_cons.not.mp hm)
      rw [h3 n hn hm2, (hA n hn).1]
      exact Links.next_setNext_ne hm1
    · obtain ⟨hm1, hm2⟩ := not_or.mp (List.mem_cons.not.mp hm)
      rw [h4 n hn hm2, (hA n hn).2]
      exact Links.previous_setPrevious_ne hm1
    · rw [h5]
      simp

theorem initializeChain_chained {size count} (hB : Apart B) (hl : ∀ x ∈ addresses size count a, x ∈ B)
    (hnd : (addresses size count a).Nodup) :
    Chained (s.initializeChain a count size) (addresses size count a) ∧
      (s.initializeChain a count size).area = s.area := by
  have hh : (.head () : Pointer) ∈ nodes () B := mem_nodes.mpr (Or.inl rfl)
  have htl : (.tail () : Pointer) ∈ nodes () B := mem_nodes.mpr (Or.inr (Or.inl rfl))
  have hnd' : ((.head () : Pointer) :: (addresses size count a).map Node.obj).Nodup :=
    List.nodup_cons.mpr ⟨by simp, hnd.map fun _ _ h => Node.obj.inj h⟩
  obtain ⟨h1, ⟨k, hk⟩, h3, -, h5⟩ := initializeNodes_linked (s := { s with control.permanentNull := .null }) hB hh
    (by simp) hl hnd'
  generalize hr : Store.initializeNodes size count { s with control.permanentNull := .null } (.head ()) a = r at *
  obtain ⟨r, x⟩ := r
  have hxm : x ∈ (.head () : Pointer) :: (addresses size count a).map Node.obj := by simp [hk]
  have hm : ∀ n ∈ (.head () : Pointer) :: (addresses size count a).map Node.obj,
      n ∈ nodes () B ∧ n ≠ .tail () := by
    intro n hn
    rcases List.mem_cons.mp hn with rfl | hn
    · exact ⟨hh, by simp⟩
    · obtain ⟨b, hb, rfl⟩ := List.mem_map.mp hn
      exact ⟨mem_nodes.mpr (Or.inr (Or.inr ⟨b, hl b hb, rfl⟩)), by simp⟩
  have hA := ((Agree.refl B r).setNext hB (hm x hxm).1 (hm x hxm).2 (.tail ())).setPrevious hB htl (by simp) x
  have hS : s.initializeChain a count size = (r.setNext x (.tail ())).setPrevious (.tail ()) x := by
    simp only [Store.initializeChain, hr]
  rw [hS]
  have hH : Holds ((r.links.setNext x (.tail ())).setPrevious (.tail ()) x) () (addresses size count a) := by
    refine ⟨?_, ?_⟩
    · have hN : nodes () (addresses size count a) = k ++ x :: [.tail ()] := by
        rw [nodes, ← List.cons_append, hk, List.append_assoc]
        rfl
      rw [hN]
      rw [hk] at h1 hnd' hm
      have hxk : x ∉ k := fun hx => List.disjoint_of_nodup_append hnd' hx (by simp)
      refine Linked.append_iff.mpr ⟨h1.congr_left (fun n hn => ?_) fun n hn => ?_,
        Linked.cons_cons_iff.mpr ⟨⟨by simp, by simp⟩, Linked.singleton _⟩⟩
      · refine Links.next_setNext_ne ?_
        rintro rfl
        exact hxk hn
      · exact Links.previous_setPrevious_ne (hm n hn).2
    · refine (Links.next_setNext_ne (hm x hxm).2.symm).trans ?_
      exact h3 _ htl (by simp)
  refine ⟨hA.chained hH hnd hl, ?_⟩
  simp only [Store.area_setPrevious, Store.area_setNext, h5]
  rfl

end Rtems.Partition
