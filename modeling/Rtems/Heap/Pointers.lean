import Mathlib.Algebra.Order.Ring.Nat
import Rtems.Heap.Theorems

/-! # The pointers that a heap hands out -/

namespace Rtems.Heap

open Option

variable {A : Area} {s : State} {m m' : Memory} {h page n p : Nat} {L : Layout} {fl : List Nat} {c : Block}

/-! ## Page boundaries -/

theorem bump_dvd (ptr : Nat) (hp : (pageSize m h).isPowerOfTwo) (hlt : pageSize m h < 2 ^ 32) :
    pageSize m h ∣ (bump m h ptr).2 := by
  obtain ⟨k, hk⟩ := hp
  have hk32 : k ≤ 32 := by
    rw [hk] at hlt
    exact Nat.le_of_lt ((Nat.pow_lt_pow_iff_right (by decide)).mp hlt)
  unfold bump addWord
  rw [hk, Nat.and_two_pow_sub_one_eq_mod, subWord_eq (by omega) (hk ▸ hlt)]
  refine (Nat.dvd_mod_iff (pow_dvd_pow 2 hk32)).mpr ?_
  have hsum : ptr + (2 ^ k - ptr % 2 ^ k) = 2 ^ k * (ptr / 2 ^ k) + 2 ^ k := by
    have := Nat.div_add_mod ptr (2 ^ k)
    omega
  rw [hsum]
  exact Nat.dvd_add (Nat.dvd_mul_right _ _) (Nat.dvd_refl _)

theorem allocate_bump (he : allocate m h n = some (m', p)) (hp : p ≠ 0) :
    ∃ m1 ptr, bump m1 h ptr = (m', p) := by
  unfold allocate at he
  simp only at he
  split at he
  · cases he
  · obtain ⟨-, rfl⟩ := Prod.mk.inj (some.inj he)
    exact absurd rfl hp
  · exact ⟨_, _, some.inj he⟩

theorem Allocated.dvd {L' fl'} (hA : Allocated m m' h page L L' fl' c p n)
    (he : allocate m h n = some (m', p)) (hp : p ≠ 0) (hpow : page.isPowerOfTwo) : page ∣ p := by
  obtain ⟨m1, ptr, hb⟩ := allocate_bump he hp
  have hst := L'.start_le hA.mem
  have hfi := L'.le_final hA.mem
  have hout := hA.holds.placed.outside
  obtain ⟨hi1, hi2⟩ := hA.area.inside
  have hpage : pageSize m1 h = page := by
    rw [← hA.holds.control.page_eq]
    unfold bump at hb
    obtain ⟨hm, hp'⟩ := Prod.mk.inj hb
    rw [← hm, hp']
    exact (Memory.store_ne m1 _ (by omega : h + 20 ≠ p - 4)).symm
  have hd := bump_dvd ptr (hpage ▸ hpow) (hpage ▸ hA.holds.control.page_lt)
  rwa [hb, hpage] at hd

def twelveArea : Area := { smallArea with page := 12, page_valid := by decide, page_lt := by decide }

/-- Pages of 12 bytes are accepted, and the mask misses the pointer. -/
theorem allocate_off_page :
    ∃ s, Reachable twelveArea (Sound twelveArea) s ∧ Permitted 0 s (.allocate 30) ∧
      ∃ m' p, allocate s.mem 0 30 = some (m', p) ∧ p ≠ 0 ∧ p % 12 ≠ 0 := by
  refine ⟨⟨twelveArea.memory fun _ => 0, []⟩, .initialized _, by unfold Permitted; decide, ?_⟩
  have hr : (allocate (twelveArea.memory fun _ => 0) 0 30).map Prod.snd = some 268 := by decide +kernel
  obtain ⟨⟨m', p⟩, he, rfl⟩ := map_eq_some_iff.mp hr
  exact ⟨m', 268, he, by decide, by decide⟩

/-- On pages of a power of two `_Heap_Free` finds the block. -/
theorem allocate_on_page (A : Area) {s : State} {m' : Memory} {n p : Nat} (hs : Reachable A (Sound A) s)
    (hS : Sound A s (.allocate n)) (he : allocate s.mem A.control n = some (m', p)) (hp : p ≠ 0) :
    (A.page.isPowerOfTwo → A.page ∣ p) ∧
      (∃ bs fl bs' fl' b f, Describes s.mem A.control bs fl ∧ Describes m' A.control bs' fl' ∧
        b ∈ bs' ∧ b.used = true ∧ f ∈ bs ∧ f.used = false ∧
        f.addr ≤ b.addr ∧ b.addr + b.size = f.addr + f.size ∧
        b.addr + 8 < p ∧ p + n ≤ b.addr + b.size ∧ userBlockAt m' p = b.addr) ∧
      (free m' A.control p).2 = true := by
  obtain ⟨L, fl, owned, hV, -⟩ := hs.valid fun _ _ h => h
  have hw : Unwrapped A.page n := by
    refine hS.resolve_right fun hn => hp ?_
    have hnull := hV.holds.allocate_null_of_list (hn fl hV.holds.list.links)
    exact congrArg Prod.snd (some.inj (he.symm.trans hnull))
  rcases allocate_spec hV.holds hw with ⟨hn, -⟩ | ⟨m₁, p₁, L', fl', c, he₁, -, hA⟩
  · rw [he] at hn
    exact absurd (congrArg Prod.snd (some.inj hn)) hp
  · obtain ⟨rfl, rfl⟩ := Prod.mk.inj (some.inj (he.symm.trans he₁))
    obtain ⟨f, hf, hfu, hle, hend⟩ := hA.origin
    have hst := hA.area.start
    have hof := hA.area.offset_ge
    obtain ⟨m'', L'', fl'', hfree, -⟩ := free_spec hA.holds hA.mem hA.used hA.area
    refine ⟨hA.dvd he hp, ⟨L.blocks, fl, L'.blocks, fl', c, f, hV.holds.describes, hA.holds.describes,
      hA.mem, hA.used, hf, hfu, hle, hend, by omega, hA.area.room,
      hA.area.userBlockAt_eq hA.mem hA.holds.placed⟩, ?_⟩
    rw [hfree]

theorem allocate_on_page_smallArea :
    ∃ m', allocate (smallArea.memory fun _ => 0) 0 10 = some (m', 296) ∧ 8 ∣ 296 ∧
      (free m' 0 296).2 = true := by
  have hr : (allocate (smallArea.memory fun _ => 0) 0 10).map Prod.snd = some 296 := by
    decide +kernel
  obtain ⟨⟨m', p⟩, he, rfl⟩ := map_eq_some_iff.mp hr
  obtain ⟨h1, -, h2⟩ := allocate_on_page smallArea (.initialized fun _ => 0) (Or.inl (by decide)) he
    (by decide)
  exact ⟨m', he, h1 ⟨3, rfl⟩, h2⟩

end Rtems.Heap
