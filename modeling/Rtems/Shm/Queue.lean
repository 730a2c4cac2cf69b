import Rtems.Shm.Model

/-! # The queues in the shared memory -/

namespace Rtems.Shm

variable {A P : Type*} {c : Configuration A P} {n : Nat} {m m' : Memory P} {q r e z : Nat} {l k : List Nat}
  {w : Word}

def linkTo (e : Nat) : Word := BitVec.ofNat 32 e

def endWord : Word := 0xffffffff#32

theorem toNat_link (h : e < 2 ^ 32) : (linkTo e).toNat = e := by
  rw [linkTo, BitVec.toNat_ofNat, Nat.mod_eq_of_lt h]

theorem link_ne_end (h : e < c.maximumEnvelopes) : linkTo e ≠ endWord := by
  intro he
  have hc := c.envelopes_lt
  have ht := congrArg BitVec.toNat he
  rw [toNat_link (by omega)] at ht
  have hw : endWord.toNat = 2 ^ 32 - 1 := by decide
  omega

namespace Configuration

variable (c n)

@[simp]
theorem convert_convert (w : Word) : c.convert n (c.convert n w) = w := c.involutive n w

@[simp]
theorem endOfList_eq : c.endOfList n = endWord := c.end_fixed n

@[simp]
theorem convert_end : c.convert n endWord = endWord := c.end_fixed n

theorem convert_eq_end (w : Word) : c.convert n w = endWord ↔ w = endWord := by
  constructor
  · intro h
    rw [← c.convert_convert n w, h, convert_end]
  · rintro rfl
    exact c.convert_end n

end Configuration

namespace Memory

section

@[simp]
theorem envelopes_setRear : (m.setRear c n q w).envelopes = m.envelopes := rfl

theorem next_setNext_self : ((m.setNext c n e w).envelopes e).next = c.convert n w := by
  simp [setNext, modifyEnvelope]

theorem envelopes_modify_ne {f} (h : z ≠ e) :
    (m.modifyEnvelope e f).envelopes z = m.envelopes z := Function.update_of_ne h ..

theorem queues_modify_ne {f} (h : r ≠ q) :
    (m.modifyQueue q f).lockedQueues r = m.lockedQueues r := Function.update_of_ne h ..

theorem field_modify {γ : Type*} (g : Envelope P → γ) {f} (h : ∀ v, g (f v) = g v)
    (z : Nat) : g ((m.modifyEnvelope e f).envelopes z) = g (m.envelopes z) := by
  by_cases hz : z = e
  · subst hz
    simp [modifyEnvelope, h]
  · rw [envelopes_modify_ne hz]

theorem packet_setNext : ((m.setNext c n e w).envelopes z).packet = (m.envelopes z).packet :=
  field_modify Envelope.packet (f := fun v => { v with next := c.convert n w }) (fun _ => rfl) z

theorem next_setQueue : ((m.setQueue c n e w).envelopes z).next = (m.envelopes z).next :=
  field_modify Envelope.next (f := fun v => { v with queue := c.convert n w }) (fun _ => rfl) z

theorem next_setIndex : ((m.setIndex c n e w).envelopes z).next = (m.envelopes z).next :=
  field_modify Envelope.next (f := fun v => { v with index := c.convert n w }) (fun _ => rfl) z

theorem packet_setEndian : ((m.setEndian c n e w).envelopes z).packet = (m.envelopes z).packet :=
  field_modify Envelope.packet (f := fun v => { v with endian := c.convert n w }) (fun _ => rfl) z

end

def Lists (m : Memory P) (q : Nat) (l : List Nat) : Prop :=
  Segment linkTo (fun e => (m.envelopes e).next) (m.lockedQueues q).front l endWord

structure Holds (m : Memory P) (q : Nat) (l : List Nat) : Prop where
  list : m.Lists q l
  rear : (m.lockedQueues q).rear = (l.getLast?.map linkTo).getD endWord

theorem Lists.congr (h : m.Lists q l) (hn : ∀ e ∈ l, (m'.envelopes e).next = (m.envelopes e).next)
    (hf : (m'.lockedQueues q).front = (m.lockedQueues q).front) : m'.Lists q l := by
  unfold Lists
  rw [hf]
  exact Segment.congr h hn

theorem Holds.congr (h : m.Holds q l) (hn : ∀ e ∈ l, (m'.envelopes e).next = (m.envelopes e).next)
    (hq : m'.lockedQueues q = m.lockedQueues q) : m'.Holds q l :=
  ⟨h.list.congr hn (by rw [hq]), by rw [hq]; exact h.rear⟩

theorem Lists.front_eq_end (h : m.Lists q l) (hl : ∀ e ∈ l, e < c.maximumEnvelopes) :
    (m.lockedQueues q).front = endWord ↔ l = [] := by
  cases l with
  | nil => exact iff_of_true h rfl
  | cons e l =>
    have hf : (m.lockedQueues q).front = linkTo e := h.1
    exact iff_of_false (fun he => link_ne_end (hl e List.mem_cons_self) (hf.symm.trans he)) (by simp)

theorem Lists.isEmpty_iff (h : m.Lists q l) (hl : ∀ e ∈ l, e < c.maximumEnvelopes) :
    m.isEmpty c n q = true ↔ l = [] := by
  rw [← h.front_eq_end hl]
  simp [isEmpty, front]

theorem Holds.rear_eq (h : m.Holds q l) (hl : l ≠ []) (hr : ∀ e ∈ l, e < c.maximumEnvelopes) :
    ∃ k z, l = k ++ [z] ∧ ∀ w, m.linkRear c n q w = m.setNext c n z w := by
  refine ⟨l.dropLast, l.getLast hl, (List.dropLast_append_getLast hl).symm, fun w => ?_⟩
  have hz : (c.convert n (m.rear c n q)).toNat = l.getLast hl := by
    have hlt := hr _ (List.getLast_mem hl)
    have hc := c.envelopes_lt
    rw [Memory.rear, c.convert_convert, h.rear, List.getLast?_eq_some_getLast hl]
    exact toNat_link (by omega)
  rw [linkRear, hz]

theorem Holds.linkRear (h : m.Holds q l) (hl : l ≠ []) (hr : ∀ e ∈ l, e < c.maximumEnvelopes)
    (hnd : (l ++ [e]).Nodup) (he : (m.envelopes e).next = endWord) :
    (m.linkRear c n q (c.convert n (linkTo e))).Lists q (l ++ [e]) := by
  obtain ⟨k, z, rfl, hz⟩ := h.rear_eq (n := n) hl hr
  obtain ⟨hk, -⟩ := Segment.concat_iff.mp h.list
  rw [List.nodup_append] at hnd
  obtain ⟨hkz, -, hd⟩ := hnd
  rw [List.nodup_append] at hkz
  have hze : e ≠ z := fun he => hd z (by simp) e (by simp) he.symm
  rw [hz]
  refine Segment.concat_iff.mpr ⟨Segment.concat_iff.mpr ⟨hk.congr fun x hx => ?_, ?_⟩, ?_⟩
  · have hx : x ≠ z := fun h => hkz.2.2 x hx z (by simp) h
    rw [setNext, envelopes_modify_ne hx]
  · rw [next_setNext_self, c.convert_convert]
  · rw [setNext, envelopes_modify_ne hze]
    exact he

theorem lists_setFront (he : (m.envelopes e).next = endWord) :
    (m.setFront c n q (c.convert n (linkTo e))).Lists q [e] := by
  refine ⟨?_, he⟩
  simp [setFront, modifyQueue]

theorem Lists.setRear (h : m.Lists q (l ++ [e])) : (m.setRear c n q (c.convert n (linkTo e))).Holds q (l ++ [e]) := by
  refine ⟨h.congr (fun _ _ => rfl) ?_, ?_⟩
  · simp [Memory.setRear, modifyQueue]
  · simp [Memory.setRear, modifyQueue]

theorem Lists.front_toNat (h : m.Lists q (e :: l)) (he : e < c.maximumEnvelopes) :
    (c.convert n (m.front c n q)).toNat = e := by
  have hc := c.envelopes_lt
  rw [front, c.convert_convert, h.1]
  exact toNat_link (by omega)

theorem Lists.setFront (h : m.Lists q (e :: l)) : (m.setFront c n q (m.next c n e)).Lists q l := by
  have hf : ((m.setFront c n q (m.next c n e)).lockedQueues q).front = (m.envelopes e).next := by
    simp [Memory.setFront, modifyQueue, next]
  rw [Lists, hf]
  exact h.2.congr fun _ _ => rfl

theorem Holds.setRear (h : m.Lists q []) : (m.setRear c n q endWord).Holds q [] := by
  refine ⟨h.congr (fun _ _ => rfl) ?_, ?_⟩
  · simp [Memory.setRear, modifyQueue]
  · simp [Memory.setRear, modifyQueue]

theorem Holds.lockedQueueAdd (h : m.Holds q l) (hr : ∀ e ∈ l, e < c.maximumEnvelopes) (hnd : (l ++ [e]).Nodup)
    (hi : (m.envelopes e).index = linkTo e) : (m.lockedQueueAdd c n q e).Holds q (l ++ [e]) := by
  have hne : ∀ x ∈ l, x ≠ e := by
    rintro x hx rfl
    exact (List.nodup_append.mp hnd).2.2 x hx x (by simp) rfl
  -- the envelope before the queue is touched
  let m1 := (m.setNext c n e (c.endOfList n)).setQueue c n e ((m.setNext c n e (c.endOfList n)).owner c n q)
  have hH : m1.Holds q l :=
    h.congr (fun x hx => next_setQueue.trans (congrArg _ (envelopes_modify_ne (hne x hx)))) rfl
  have he : (m1.envelopes e).next = endWord := next_setQueue.trans (next_setNext_self.trans (by simp))
  have hi1 : m1.index c n e = c.convert n (linkTo e) := by
    rw [← hi]
    simp [m1, Memory.index, setQueue, setNext, modifyEnvelope]
  have hem := hH.list.isEmpty_iff (n := n) hr
  change ((if ¬ m1.isEmpty c n q then m1.linkRear c n q (m1.index c n e)
    else m1.setFront c n q (m1.index c n e)).setRear c n q (m1.index c n e)).Holds q (l ++ [e])
  rw [hi1]
  refine Lists.setRear ?_
  split <;> rename_i hc
  · exact hH.linkRear (fun hl => hc (hem.mpr hl)) hr hnd he
  · rw [hem.mp (not_not.mp hc)]
    exact lists_setFront he

theorem queues_lockedQueueAdd (h : r ≠ q) : (m.lockedQueueAdd c n q e).lockedQueues r = m.lockedQueues r := by
  simp only [Memory.lockedQueueAdd]
  rw [Memory.setRear, queues_modify_ne h]
  split
  · rfl
  · exact queues_modify_ne h

theorem index_lockedQueueAdd : ((m.lockedQueueAdd c n q e).envelopes z).index = (m.envelopes z).index := by
  have hN {m : Memory P} {e : Nat} {w : Word} : ((m.setNext c n e w).envelopes z).index = (m.envelopes z).index :=
    field_modify Envelope.index (f := fun v => { v with next := c.convert n w }) (fun _ => rfl) z
  have hQ {m : Memory P} {e : Nat} {w : Word} : ((m.setQueue c n e w).envelopes z).index = (m.envelopes z).index :=
    field_modify Envelope.index (f := fun v => { v with queue := c.convert n w }) (fun _ => rfl) z
  simp only [Memory.lockedQueueAdd, envelopes_setRear]
  split
  · exact hN.trans (hQ.trans hN)
  · exact hQ.trans hN

/-! ## `Shm_Initialization` -/

theorem holds_lockedQueueInit {owner} : (m.lockedQueueInit c n q owner).Holds q [] := by
  refine ⟨?_, ?_⟩
  · simp [Lists, lockedQueueInit, setFront, Memory.setRear, setOwner, modifyQueue]
  · simp [lockedQueueInit, setFront, Memory.setRear, setOwner, modifyQueue]

theorem Holds.lockedQueueInit {owner} (h : m.Holds r []) : (m.lockedQueueInit c n q owner).Holds r [] := by
  by_cases hrq : r = q
  · subst hrq
    exact holds_lockedQueueInit
  · refine h.congr (by simp) ?_
    simp [Memory.lockedQueueInit, setFront, Memory.setRear, setOwner, modifyQueue, hrq]

theorem holds_initQueues (hq : q ≤ c.maximumNodes) : (m.initQueues c n).Holds q [] := by
  suffices h : ∀ (is : List Nat) (m : Memory P), q ∈ is ∨ m.Holds q [] →
      (is.foldl (fun m i => m.lockedQueueInit c n i i) m).Holds q [] by
    refine h _ _ ?_
    cases q with
    | zero => exact Or.inr holds_lockedQueueInit
    | succ q => exact Or.inl (List.mem_range'_1.mpr ⟨Nat.succ_pos q, by omega⟩)
  intro is
  induction is with
  | nil => exact fun m h => h.resolve_left List.not_mem_nil
  | cons i is ih =>
    intro m h
    refine ih _ ?_
    rcases h with h | h
    · rcases List.mem_cons.mp h with rfl | h
      · exact Or.inr holds_lockedQueueInit
      · exact Or.inl h
    · exact Or.inr h.lockedQueueInit

theorem initEnvelopes_free (h : ∀ q ≤ c.maximumNodes, m.Holds q []) {k} (hk : k ≤ c.maximumEnvelopes) :
    (m.initEnvelopes c n k).Holds freeEnvPool (List.range k) ∧
      (∀ q ≤ c.maximumNodes, q ≠ freeEnvPool → (m.initEnvelopes c n k).Holds q []) ∧
      ∀ e < k, ((m.initEnvelopes c n k).envelopes e).index = linkTo e := by
  induction k with
  | zero => exact ⟨h _ (Nat.zero_le _), fun q hq _ => h q hq, by simp⟩
  | succ k ih =>
    obtain ⟨hF, hO, hI⟩ := ih (Nat.le_of_succ_le hk)
    have hs : m.initEnvelopes c n (k + 1) = ((m.initEnvelopes c n k).setIndex c n k
        (c.convert n (BitVec.ofNat 32 k))).lockedQueueAdd c n freeEnvPool k := by
      simp only [initEnvelopes, List.range_succ, List.foldl_append, List.foldl_cons, List.foldl_nil]
    have hk' : (((m.initEnvelopes c n k).setIndex c n k (c.convert n (BitVec.ofNat 32 k))).envelopes k).index =
        linkTo k := by
      simp [setIndex, modifyEnvelope, linkTo]
    rw [hs]
    refine ⟨?_, fun q hq hne => ?_, fun e he => ?_⟩
    · rw [List.range_succ]
      refine (hF.congr (fun _ _ => next_setIndex) rfl).lockedQueueAdd (fun e he => ?_) ?_ hk'
      · have := List.mem_range.mp he
        omega
      · rw [← List.range_succ]
        exact List.nodup_range
    · exact (hO q hq hne).congr (by simp) (queues_lockedQueueAdd hne)
    · rw [index_lockedQueueAdd]
      by_cases hek : e = k
      · rw [hek]
        exact hk'
      · exact (congrArg _ (envelopes_modify_ne hek)).trans (hI e (by omega))

end Memory

end Rtems.Shm
