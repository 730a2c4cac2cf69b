import Rtems.Partition.Theorems

/-! # Buffers and the links of the free ones -/

namespace Rtems.Partition

open Intrusive Transition

def Clear (l : List Nat) (w : Nat) : Prop := ∀ x ∈ l, w ≠ x ∧ w ≠ addWord x 4

variable {s : Store} {n v : Pointer} {l : List Nat} {a w : Nat}

theorem words_setNumberOfUsedBlocks (k : Nat) : (s.setNumberOfUsedBlocks k).words = s.words := rfl

theorem words_setNext (hn : n ≠ .null) (hw : ∀ x, n = .obj x → w ≠ x) :
    (s.setNext n v).words w = s.words w := by
  cases n with
  | head c => rfl
  | tail c => rfl
  | obj x => exact Function.update_of_ne (hw x rfl) ..
  | null => exact absurd rfl hn

theorem words_setPrevious (hn : n ≠ .null) (hw : ∀ x, n = .obj x → w ≠ addWord x 4) :
    (s.setPrevious n v).words w = s.words w := by
  cases n with
  | head c => rfl
  | tail c => rfl
  | obj x => exact Function.update_of_ne (hw x rfl) ..
  | null => exact absurd rfl hn

theorem Chained.words_chainGet (h : Chained s (a :: l)) (hw : Clear l w) :
    s.chainGet.1.words w = s.words w := by
  have hf : s.control.first = .obj a := h.holds.next_head
  have hn : s.next (.obj a) = succ () l := (show Holds s.links () ([] ++ a :: l) from h.holds).next_obj
  simp only [Store.chainGet, hf, hn, reduceCtorEq, if_false]
  refine (words_setPrevious ?_ fun x hx => ?_).trans rfl
  · rcases succ_eq () l with he | ⟨y, -, he⟩
    · simp [he]
    · simp [he]
  · rcases succ_eq () l with he | ⟨y, hy, he⟩
    · rw [he] at hx
      cases hx
    · rw [he] at hx
      exact Node.obj.inj hx ▸ (hw y hy).2

theorem Chained.words_chainAppend (h : Chained s l) (hw : Clear (a :: l) w) :
    (s.chainAppend (.obj a)).words w = s.words w := by
  have ha := hw a List.mem_cons_self
  have hp : (s.setNext (.obj a) (.tail ())).control.last = pred () l := h.holds.previous_tail
  simp only [Store.chainAppend, hp]
  rw [words_setPrevious (by simp) fun x hx => Node.obj.inj hx ▸ ha.2, words_setNext, words_setPrevious (by simp),
    words_setNext (by simp) fun x hx => Node.obj.inj hx ▸ ha.1]
  · rintro x ⟨⟩
  · rcases pred_eq () l with he | ⟨y, -, he⟩
    · simp [he]
    · simp [he]
  · intro x hx
    rcases pred_eq () l with he | ⟨y, hy, he⟩
    · rw [he] at hx
      cases hx
    · rw [he] at hx
      exact Node.obj.inj hx ▸ (hw y (List.mem_cons_of_mem a hy)).1

namespace System.Sound

variable {A : Area} {s s' : System} {free : List Nat} {m : Move}

theorem clear (h : s.Sound A free) (hA : A.Roomy) {b} (hb : b ∈ s.handedOut) (hbw : b ≤ w)
    (hwb : w < b + A.bufferSize) {l} (hl : ∀ x ∈ l, x ∈ A.buffers ∧ x ≠ b) : Clear l w := by
  intro x hx
  obtain ⟨hxA, hxb⟩ := hl x hx
  have hd := Area.disjoint hxA (h.mem_handedOut hb) hxb
  have h8 : 8 ≤ A.bufferSize := hA.node
  rw [addWord_eq (hA.apart x hxA).1]
  omega

theorem words_eq (h : s.Sound A free) (hA : A.Roomy) (hm : s.Allowed m) (hw : ∀ a v, m ≠ .write a v)
    (he : s.step m = some s') {b} (hb : b ∈ s.handedOut) (hb' : b ∈ s'.handedOut) (hbw : b ≤ w)
    (hwb : w < b + A.bufferSize) : s'.store.words w = s.store.words w := by
  have hn := h.nodup hA
  have hne : ∀ x ∈ free, x ∈ A.buffers ∧ x ≠ b := fun x hx =>
    ⟨h.mem_free hx, fun hxb => List.disjoint_of_nodup_append hn (hxb ▸ hx) hb⟩
  cases m with
  | get =>
    cases he
    cases free with
    | nil => simp only [getBuffer, h.chained.chainGet_nil]
    | cons a free =>
      obtain ⟨S, hS, -⟩ := h.chained.chainGet hA.apart fun x hx => h.mem_free hx
      have := h.chained.words_chainGet
        (h.clear hA hb hbw hwb fun x hx => hne x (List.mem_cons_of_mem a hx))
      simp only [getBuffer, hS] at this ⊢
      split <;> exact this
  | giveBack a =>
    cases he
    by_cases hv : isBufferValid a s.store.control = true
    · have ha : a ∈ s.handedOut := by
        rcases (hA.isBufferValid_iff h.area).mp hv with ha | ha
        · exact hm.1 (h.area ▸ ha)
        · exact absurd (h.area ▸ ha) hm.2
      simp only [returnBuffer, if_pos hv, if_true, words_setNumberOfUsedBlocks] at hb' ⊢
      have hab : a ≠ b := fun hab => hn.of_append_right.not_mem_erase (hab ▸ hb')
      refine h.chained.words_chainAppend (h.clear hA hb hbw hwb fun x hx => ?_)
      rcases List.mem_cons.mp hx with rfl | hx
      · exact ⟨h.mem_handedOut ha, hab⟩
      · exact hne x hx
    · simp only [returnBuffer, if_neg hv]
  | write a v => exact absurd rfl (hw a v)

end System.Sound

/-- Buffers handed out do not overlap, and others do not write to them. -/
theorem handedOut_disjoint {words : Nat → Pointer} {start length size : Nat} {S : Store} {s : System}
    (hc : create words start length size = .ok S) (hA : Area.Roomy ⟨start, length, size⟩)
    (h : Steps System.step System.Allowed ⟨S, []⟩ s) :
    (∃ free, Holds S.links () free ∧ free.Nodup ∧ free.length = length / size) ∧
    (∀ a ∈ s.handedOut, ∃ k < length / size, a = start + k * size) ∧
    s.handedOut.Pairwise (fun a b => a + size ≤ b ∨ b + size ≤ a) ∧
    ∀ m s', s.Allowed m → (∀ a v, m ≠ .write a v) → s.step m = some s' →
      ∀ b ∈ s.handedOut, b ∈ s'.handedOut → ∀ w, b ≤ w → w < b + size → s'.store.words w = s.store.words w := by
  obtain ⟨free, hs⟩ := sound_steps hc hA h
  have hn := (hs.nodup hA).of_append_right
  refine ⟨⟨_, (create_sound hc hA).chained.holds, hA.nodup, by simp [Area.buffers, Area.count]⟩,
    fun a ha => Area.mem_buffers.mp (hs.mem_handedOut ha), ?_, fun m s' hm hw he b hb hb' w hbw hwb => ?_⟩
  · refine hn.imp_of_mem fun ha hb hab => ?_
    exact Area.disjoint (hs.mem_handedOut ha) (hs.mem_handedOut hb) hab
  · exact hs.words_eq hA hm hw he hb hb' hbw hwb

theorem handedOut_disjoint_threeBuffers :
    ∃ S s, create (fun _ => .null) 4096 24 8 = .ok S ∧
      run (checked System.step System.Allowed) [.get, .get] ⟨S, []⟩ = some s ∧
      s.handedOut.Pairwise (fun a b => a + 8 ≤ b ∨ b + 8 ≤ a) := by
  obtain ⟨S, hS⟩ : ∃ S, create (fun _ => .null) 4096 24 8 = .ok S := ⟨_, rfl⟩
  have h : (run (checked System.step System.Allowed) [.get, .get] ⟨S, []⟩).isSome = true := by
    obtain rfl := Except.ok.inj hS
    decide +kernel
  obtain ⟨s, hs⟩ := Option.isSome_iff_exists.mp h
  exact ⟨S, s, hS, hs, (handedOut_disjoint hS ⟨by decide, by decide⟩ (.run_checked .refl hs)).2.2.1⟩

/-- Of two buffers of 4 bytes the second is handed out twice. -/
theorem handedOut_overlapping :
    ((create (fun _ => .null) 4096 8 4).toOption.bind fun S =>
      run (checked System.step System.Allowed) [.get, .giveBack 4096, .get, .get] ⟨S, []⟩).map
        System.handedOut = some [4100, 4100] := by
  decide +kernel

end Rtems.Partition
