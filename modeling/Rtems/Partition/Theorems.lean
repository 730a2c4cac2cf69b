import Mathlib.Data.List.Perm.Subperm
import Rtems.Library.Transition
import Rtems.Partition.Lemmas

/-! # Which buffers can be returned -/

namespace Rtems.Partition

open Intrusive Transition

/-! ## Buffers -/

namespace Area

def count (A : Area) : Nat := A.length / A.bufferSize

def buffers (A : Area) : List Nat := (List.range A.count).map fun k => A.startingAddress + k * A.bufferSize

def boundary (A : Area) : Nat := A.startingAddress + A.count * A.bufferSize

structure Roomy (A : Area) : Prop where
  node : sizeofNode ≤ A.bufferSize
  top : A.startingAddress + A.length < 2 ^ 32

variable {A : Area} {a b k : Nat}

theorem mem_buffers : a ∈ A.buffers ↔ ∃ k < A.count, a = A.startingAddress + k * A.bufferSize := by
  simp [buffers, eq_comm]

theorem count_mul_le : A.count * A.bufferSize ≤ A.length := Nat.div_mul_le_self ..

theorem le_of_mem (ha : a ∈ A.buffers) :
    A.startingAddress ≤ a ∧ a + A.bufferSize ≤ A.startingAddress + A.length := by
  obtain ⟨k, hk, rfl⟩ := mem_buffers.mp ha
  have h := Nat.mul_le_mul_right A.bufferSize (Nat.succ_le_of_lt hk)
  have h' := A.count_mul_le
  rw [Nat.succ_mul] at h
  omega

theorem disjoint (ha : a ∈ A.buffers) (hb : b ∈ A.buffers) (hab : a ≠ b) :
    a + A.bufferSize ≤ b ∨ b + A.bufferSize ≤ a := by
  obtain ⟨k, -, rfl⟩ := mem_buffers.mp ha
  obtain ⟨j, -, rfl⟩ := mem_buffers.mp hb
  rcases Nat.lt_trichotomy k j with h | rfl | h
  · have := Nat.mul_le_mul_right A.bufferSize (Nat.succ_le_of_lt h)
    rw [Nat.succ_mul] at this
    omega
  · exact absurd rfl hab
  · have := Nat.mul_le_mul_right A.bufferSize (Nat.succ_le_of_lt h)
    rw [Nat.succ_mul] at this
    omega

namespace Roomy

variable (hA : A.Roomy)

include hA

theorem pos : 0 < A.bufferSize := Nat.lt_of_lt_of_le (by decide) hA.node

theorem apart : Apart A.buffers := by
  have h8 : 8 ≤ A.bufferSize := hA.node
  have ht := hA.top
  intro a ha
  have := le_of_mem ha
  refine ⟨by omega, fun b hb hab => ?_⟩
  have := disjoint ha hb hab
  omega

theorem nodup : A.buffers.Nodup := by
  refine List.nodup_range.map fun j k h => ?_
  have h' : j * A.bufferSize = k * A.bufferSize := Nat.add_left_cancel h
  exact Nat.eq_of_mul_eq_mul_right hA.pos h'

theorem addresses_eq : addresses A.bufferSize A.count A.startingAddress = A.buffers := by
  have ht := hA.top
  have := A.count_mul_le
  exact addresses_eq_map (by omega)

theorem isBufferValid_iff {s : Store} (hs : s.area = A) :
    isBufferValid a s.control = true ↔ a ∈ A.buffers ∨ a = A.boundary := by
  obtain ⟨rfl⟩ : s.area = A := hs
  have hp := hA.pos
  have ht := hA.top
  simp only [Store.area] at hp ht
  simp only [isBufferValid, isInRange, isBufferOnBoundary, addWord_eq ht, Bool.and_eq_true, decide_eq_true_eq,
    mem_buffers, boundary, count, Store.area]
  constructor
  · rintro ⟨⟨h1, h2⟩, h3⟩
    rw [subWord_eq h1 (by omega)] at h3
    obtain ⟨k, hk⟩ := Nat.dvd_of_mod_eq_zero h3
    rw [Nat.mul_comm] at hk
    have hle : k ≤ s.control.length / s.control.bufferSize := (Nat.le_div_iff_mul_le hp).mpr (by omega)
    have ha : a = s.control.startingAddress + k * s.control.bufferSize := by omega
    rcases Nat.lt_or_eq_of_le hle with h | rfl
    · exact Or.inl ⟨k, h, ha⟩
    · exact Or.inr ha
  · intro h
    obtain ⟨k, hk, rfl⟩ : ∃ k ≤ s.control.length / s.control.bufferSize,
        a = s.control.startingAddress + k * s.control.bufferSize := by
      rcases h with ⟨k, hk, ha⟩ | ha
      · exact ⟨k, hk.le, ha⟩
      · exact ⟨_, le_rfl, ha⟩
    have hkl : k * s.control.bufferSize ≤ s.control.length := (Nat.le_div_iff_mul_le hp).mp hk
    refine ⟨⟨by omega, by omega⟩, ?_⟩
    rw [subWord_eq (by omega) (by omega), Nat.add_sub_cancel_left, Nat.mul_mod_left]

end Roomy

end Area

/-! ## Runs -/

/-- Only what is handed out is returned or written to. -/
def System.Allowed (s : System) : Move → Prop
  | .get => True
  | .giveBack a => (a ∈ s.store.area.buffers → a ∈ s.handedOut) ∧ a ≠ s.store.area.boundary
  | .write a _ => ∃ b ∈ s.handedOut, b ≤ a ∧ a < b + s.store.area.bufferSize

instance (s : System) (m : Move) : Decidable (s.Allowed m) := by
  cases m <;> unfold System.Allowed <;> infer_instance

structure System.Sound (A : Area) (s : System) (free : List Nat) : Prop where
  area : s.store.area = A
  chained : Chained s.store free
  perm : (free ++ s.handedOut).Subperm A.buffers

variable {A : Area} {s s' : System} {free : List Nat} {m : Move}

namespace System.Sound

variable (h : s.Sound A free)

include h

theorem mem_free {a} (ha : a ∈ free) : a ∈ A.buffers := h.perm.subset (List.mem_append_left _ ha)

theorem mem_handedOut {a} (ha : a ∈ s.handedOut) : a ∈ A.buffers :=
  h.perm.subset (List.mem_append_right _ ha)

theorem nodup (hA : A.Roomy) : (free ++ s.handedOut).Nodup := by
  obtain ⟨l, hl, hs⟩ := h.perm
  exact hl.nodup_iff.mp (hA.nodup.sublist hs)

theorem get (hA : A.Roomy) (he : s.step .get = some s') : ∃ free', s'.Sound A free' := by
  cases he
  cases free with
  | nil =>
    refine ⟨[], ?_⟩
    simp only [getBuffer, h.chained.chainGet_nil]
    exact h
  | cons a free =>
    obtain ⟨S, hS, hC, hAr⟩ := h.chained.chainGet hA.apart fun x hx => h.mem_free hx
    refine ⟨free, ?_⟩
    simp only [getBuffer, hS]
    split
    · exact ⟨hAr.trans h.area, hC, (List.sublist_cons_self ..).subperm.trans h.perm⟩
    · exact ⟨hAr.trans h.area, hC.setNumberOfUsedBlocks _, List.perm_middle.subperm.trans h.perm⟩

theorem giveBack (hA : A.Roomy) {a} (ha : s.Allowed (.giveBack a))
    (he : s.step (.giveBack a) = some s') : ∃ free', s'.Sound A free' := by
  cases he
  by_cases hv : isBufferValid a s.store.control = true
  · have ho : a ∈ s.handedOut := by
      rcases (hA.isBufferValid_iff h.area).mp hv with hb | hb
      · exact ha.1 (h.area ▸ hb)
      · exact absurd (h.area ▸ hb) ha.2
    have hf : a ∉ free := fun hf => List.disjoint_of_nodup_append (h.nodup hA) hf ho
    obtain ⟨hC, hAr⟩ := h.chained.chainAppend hA.apart (fun x hx => h.mem_free hx) (h.mem_handedOut ho) hf
    refine ⟨free ++ [a], ?_⟩
    simp only [returnBuffer, if_pos hv, if_true]
    refine ⟨(Store.area_setNumberOfUsedBlocks).trans (hAr.trans h.area), hC.setNumberOfUsedBlocks _, ?_⟩
    rw [List.append_assoc]
    exact ((List.perm_cons_erase ho).symm.append_left free).subperm.trans h.perm
  · refine ⟨free, ?_⟩
    simp only [returnBuffer, if_neg hv]
    exact h

theorem write (hA : A.Roomy) {a v} (ha : s.Allowed (.write a v)) :
    Sound A ⟨s.store.setWord a v, s.handedOut⟩ free := by
  refine ⟨h.area, ?_, h.perm⟩
  obtain ⟨b, hb, h1, h2⟩ := ha
  rw [h.area] at h2
  -- a free buffer does not overlap with the one that is written
  have hne : ∀ x ∈ free, x ≠ a ∧ addWord x 4 ≠ a := by
    intro x hx
    have hxb : x ≠ b := fun he => List.disjoint_of_nodup_append (h.nodup hA) (he ▸ hx) hb
    have hd := Area.disjoint (h.mem_free hx) (h.mem_handedOut hb) hxb
    have h8 : 8 ≤ A.bufferSize := hA.node
    rw [addWord_eq (hA.apart x (h.mem_free hx)).1]
    omega
  have hag : Agree free (s.store.setWord a v) s.store.links := by
    intro n hn
    rcases mem_nodes.mp hn with rfl | rfl | ⟨x, hx, rfl⟩
    · exact ⟨rfl, rfl⟩
    · exact ⟨rfl, rfl⟩
    · exact ⟨Function.update_of_ne (hne x hx).1 _ _, Function.update_of_ne (hne x hx).2 _ _⟩
  exact hag.chained h.chained.holds (Represents.nodup h.chained (c := ()) rfl) fun _ hx => hx

theorem step (hA : A.Roomy) (hm : s.Allowed m) (he : s.step m = some s') : ∃ free', s'.Sound A free' := by
  cases m with
  | get => exact h.get hA he
  | giveBack a => exact h.giveBack hA hm he
  | write a v =>
    cases he
    exact ⟨free, h.write hA hm⟩

end System.Sound

theorem create_sound {words start length size S}
    (hc : create words start length size = .ok S) (hA : Area.Roomy ⟨start, length, size⟩) :
    System.Sound ⟨start, length, size⟩ ⟨S, []⟩ (Area.buffers ⟨start, length, size⟩) := by
  unfold create at hc
  split at hc
  · cases hc
  split at hc
  · cases hc
  obtain rfl := Except.ok.inj hc
  have ha : addresses size (length / size) start = Area.buffers ⟨start, length, size⟩ := hA.addresses_eq
  obtain ⟨hC, hAr⟩ := initializeChain_chained (s := ⟨⟨start, length, size, 0, .null, .null, .null⟩, words⟩)
    hA.apart (fun x hx => ha ▸ hx) (ha ▸ hA.nodup)
  refine ⟨hAr, ?_, by simp [List.Subperm.refl]⟩
  rw [← ha]
  exact hC

theorem sound_steps {words start length size S}
    (hc : create words start length size = .ok S) (hA : Area.Roomy ⟨start, length, size⟩)
    (h : Steps System.step System.Allowed ⟨S, []⟩ s) : ∃ free, s.Sound ⟨start, length, size⟩ free := by
  refine h.invariant (I := fun s => ∃ free, s.Sound ⟨start, length, size⟩ free) ?_ ⟨_, create_sound hc hA⟩
  rintro s m s' ⟨free, hs⟩ hm he
  exact hs.step hA hm he

/-- A buffer can be returned just when it is handed out, which none is twice. -/
theorem returns_handedOut {words : Nat → Pointer} {start length size : Nat} {S : Store}
    (hc : create words start length size = .ok S) (hA : Area.Roomy ⟨start, length, size⟩)
    (h : Steps System.step System.Allowed ⟨S, []⟩ s) :
    (∀ a, s.Allowed (.giveBack a) → ((returnBuffer s.store a).2 = .successful ↔
      a ∈ s.handedOut ∧ ∃ k < length / size, a = start + k * size)) ∧
    s.handedOut.Nodup ∧
    (∀ b ∈ s.handedOut, start ≤ b ∧ b + size ≤ start + length) ∧
    ∀ b, (getBuffer s.store).2 = .ok b → ∃ k < length / size, b = .obj (start + k * size) ∧
      start + k * size ∉ s.handedOut := by
  obtain ⟨free, hs⟩ := sound_steps hc hA h
  have hn := hs.nodup hA
  refine ⟨fun a ha => ?_, hn.of_append_right, fun b hb => Area.le_of_mem (hs.mem_handedOut hb), fun b hb => ?_⟩
  · have hv := hA.isBufferValid_iff hs.area (a := a)
    by_cases hva : isBufferValid a s.store.control = true
    · simp only [returnBuffer, if_pos hva, true_iff]
      rcases hv.mp hva with hb | hb
      · exact ⟨ha.1 (hs.area ▸ hb), Area.mem_buffers.mp hb⟩
      · exact absurd (hs.area ▸ hb) ha.2
    · simp only [returnBuffer, if_neg hva]
      refine iff_of_false (by simp) fun h => hva (hv.mpr (Or.inl ?_))
      exact hs.mem_handedOut h.1
  · cases free with
    | nil => simp [getBuffer, hs.chained.chainGet_nil] at hb
    | cons a free =>
      obtain ⟨S', hS, -⟩ := hs.chained.chainGet hA.apart fun x hx => hs.mem_free hx
      simp only [getBuffer, hS] at hb
      split at hb
      · cases hb
      rw [Except.ok.injEq] at hb
      obtain ⟨k, hk, rfl⟩ := Area.mem_buffers.mp (hs.mem_free (List.mem_cons_self ..))
      exact ⟨k, hk, hb.symm, fun ho => List.disjoint_of_nodup_append hn (List.mem_cons_self ..) ho⟩

theorem returns_handedOut_twoBuffers :
    ∃ S s, create (fun _ => .null) 4096 40 16 = .ok S ∧
      run (checked System.step System.Allowed) [.get, .get, .write 4116 .null, .giveBack 4096] ⟨S, []⟩ =
        some s ∧ s.handedOut = [4112] ∧ (returnBuffer s.store 4112).2 = .successful := by
  obtain ⟨S, hS⟩ : ∃ S, create (fun _ => .null) 4096 40 16 = .ok S := ⟨_, rfl⟩
  have h : (run (checked System.step System.Allowed)
      [.get, .get, .write 4116 .null, .giveBack 4096] ⟨S, []⟩).map (fun s =>
        (s.handedOut, s.store.area)) = some ([4112], ⟨4096, 40, 16⟩) := by
    obtain rfl := Except.ok.inj hS
    decide +kernel
  obtain ⟨s, hs, he⟩ := Option.map_eq_some_iff.mp h
  obtain ⟨ho, ha⟩ := Prod.mk.inj he
  have hr := (returns_handedOut hS ⟨by decide, by decide⟩ (.run_checked .refl hs)).1 4112
    ⟨fun _ => by rw [ho]; decide, by rw [ha]; decide⟩
  exact ⟨S, s, hS, hs, ho, hr.mpr ⟨by rw [ho]; decide, 1, by decide, rfl⟩⟩

/-- A buffer that is not handed out is taken back. -/
theorem returned_twice :
    ((create (fun _ => .null) 4096 32 16).toOption.bind fun S =>
      run System.step [.get, .giveBack 4096] ⟨S, []⟩).map (fun s =>
        (s.handedOut, (returnBuffer s.store 4096).2, (returnBuffer s.store 4128).2)) =
      some ([], .successful, .successful) ∧
    ((create (fun _ => .null) 4096 32 16).toOption.bind fun S =>
      run System.step [.get, .giveBack 4096, .giveBack 4096, .get, .get, .get] ⟨S, []⟩).map
        System.handedOut = some [4096, 4096, 4112] := by
  decide +kernel

end Rtems.Partition
