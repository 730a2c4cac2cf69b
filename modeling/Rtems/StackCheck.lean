import Mathlib.Logic.Function.Basic
import Rtems.Words

/-!
# The stack checker

For stacks that grow downwards. The scan skips the size of the pattern once more than the start of the
usable stack does, and it ends as much behind the stack.
-/

namespace Rtems.StackCheck

abbrev Memory := Nat → UInt8

/-- `Stack_Control`; the area ends inside the address space. -/
structure Stack where
  area : Nat
  size : Nat
  fits : area + size < 2 ^ 32

/-- `PATTERN_SIZE_WORDS`, with or without `CPU_STACK_CHECK_SIZE`. -/
def patternSizeWords : Option Nat → Nat
  | none => 4
  | some stackCheckSize => (stackCheckSize / 4 + 3) / 4 * 4

def bytePattern : UInt8 := 0xA5

def isPattern (m : Memory) (a : Nat) : Bool := (List.range 4).all fun k => m (a + k) = bytePattern

theorem isPattern_iff {m a} : isPattern m a = true ↔ ∀ k < 4, m (a + k) = bytePattern := by
  simp [isPattern]

def dopeStack (s : Stack) (m : Memory) : Memory :=
  fun a => if s.area ≤ a ∧ a < s.area + s.size then bytePattern else m a

def patternArea (s : Stack) : Nat := s.area + 8

variable (words : Nat)

/-- `Stack_check_Begin_extension`, with the bytes of the pattern. -/
def beginExtension (pattern : Nat → UInt8) (s : Stack) (m : Memory) : Memory :=
  fun a => if patternArea s ≤ a ∧ a < patternArea s + 4 * words then pattern (a - patternArea s) else m a

def usableStackStart (s : Stack) : Nat := s.area + 4 * words

def usableStackSize (s : Stack) : Nat := subWord s.size (4 * words)

/-- The loop of `Stack_check_find_high_water_mark`. -/
def scan (m : Memory) : Nat → Nat → Option Nat
  | 0, _ => none
  | length + 1, base => if isPattern m base then scan m length (base + 4) else some base

def findHighWaterMark (m : Memory) (start n : Nat) : Option Nat :=
  scan m (n / 4) (start + 4 * words)

/-- What `Stack_check_Dump_threads_usage` prints as used. -/
def used (m : Memory) (s : Stack) : Nat :=
  let low := usableStackStart words s
  let size := usableStackSize words s
  match findHighWaterMark words m low size with
  | some highWaterMark => subWord (addWord low size) highWaterMark
  | none => 0

theorem scan_eq {m length base k} (hk : k < length) (hp : ∀ j < k, isPattern m (base + 4 * j) = true)
    (hm : isPattern m (base + 4 * k) = false) : scan m length base = some (base + 4 * k) := by
  induction length generalizing base k with
  | zero => omega
  | succ length ih =>
    cases k with
    | zero =>
      rw [Nat.mul_zero, Nat.add_zero] at hm ⊢
      simp [scan, hm]
    | succ k =>
      have h0 : isPattern m base = true := hp 0 (by omega)
      have he : base + 4 * (k + 1) = base + 4 + 4 * k := by omega
      rw [he] at hm ⊢
      rw [scan, if_pos h0]
      refine ih (by omega) (fun j hj => ?_) hm
      have h := hp (j + 1) (by omega)
      rwa [show base + 4 * (j + 1) = base + 4 + 4 * j by omega] at h

theorem scan_bounds {m length base a} (h : scan m length base = some a) : base ≤ a ∧ a < base + 4 * length := by
  induction length generalizing base with
  | zero => cases h
  | succ length ih =>
    unfold scan at h
    split at h
    · have := ih h
      omega
    · cases h
      omega

theorem scan_eq_none {m length base} (h : ∀ j < length, isPattern m (base + 4 * j) = true) :
    scan m length base = none := by
  induction length generalizing base with
  | zero => rfl
  | succ length ih =>
    have h0 : isPattern m base = true := h 0 (by omega)
    rw [scan, if_pos h0]
    refine ih fun j hj => ?_
    rw [show base + 4 + 4 * j = base + 4 * (j + 1) by omega]
    exact h (j + 1) (by omega)

def started (pattern : Nat → UInt8) (s : Stack) (m : Memory) : Memory :=
  beginExtension words pattern s (dopeStack s m)

theorem started_eq {words pattern m a} {s : Stack} (hw : words = 0 ∨ 4 ≤ words)
    (ha : s.area + 8 * words ≤ a) (hs : a < s.area + s.size) :
    started words pattern s m a = bytePattern := by
  unfold started beginExtension dopeStack patternArea
  rw [if_neg (by omega), if_pos (by omega)]

theorem used_eq {words m} {s : Stack} (hw : 4 * words ≤ s.size) :
    used words m s = (scan m ((s.size - 4 * words) / 4) (s.area + 8 * words)).elim 0 (subWord (s.area + s.size)) := by
  have hf := s.fits
  simp only [used, findHighWaterMark, usableStackStart, usableStackSize]
  rw [subWord_eq (by omega) (by omega), addWord_eq (by omega), show s.area + 4 * words + 4 * words =
    s.area + 8 * words by omega, show s.area + 4 * words + (s.size - 4 * words) = s.area + s.size by omega]
  cases scan m _ _ <;> rfl

section

variable {words : Nat} {pattern : Nat → UInt8} {m₀ m : Memory} {s : Stack} (hw : words = 0 ∨ 4 ≤ words)

include hw

theorem used_of_lowest {i : Nat} (hi : 2 * words ≤ i) (hs : 4 * i + 4 ≤ s.size)
    (hlow : ∀ a, s.area ≤ a → a < s.area + 4 * i → m a = started words pattern s m₀ a)
    (hmod : ∃ k < 4, m (s.area + 4 * i + k) ≠ started words pattern s m₀ (s.area + 4 * i + k)) :
    used words m s = s.size - 4 * i := by
  have hf := s.fits
  have he : s.area + 4 * i = s.area + 8 * words + 4 * (i - 2 * words) := by omega
  rw [used_eq (by omega), scan_eq (k := i - 2 * words) (by omega)
    (fun j hj => isPattern_iff.mpr fun k hk => ?_) (Bool.eq_false_iff.mpr fun h => ?_)]
  · rw [Option.elim_some, ← he, subWord_eq (by omega) (by omega)]
    omega
  · rw [hlow _ (by omega) (by omega), started_eq hw (by omega) (by omega)]
  · obtain ⟨k, hk, hne⟩ := hmod
    have h := isPattern_iff.mp h k hk
    rw [← he] at h
    exact hne (h.trans (started_eq hw (by omega) (by omega)).symm)

theorem used_of_unmodified (hs : 8 + 4 * words ≤ s.size)
    (hm : ∀ a, s.area ≤ a → a < s.area + s.size → m a = started words pattern s m₀ a) :
    (∀ m' : Memory, (∀ a, s.area ≤ a → a < s.area + s.size → m' a = m a) → used words m' s = 0) ↔ words = 0 := by
  have hf := s.fits
  have hp {a} (ha : s.area + 8 * words ≤ a) (hs : a < s.area + s.size) : m a = bytePattern :=
    (hm a (by omega) hs).trans (started_eq hw ha hs)
  refine ⟨fun h => ?_, fun h0 m' hm' => ?_⟩
  · by_contra h0
    -- the second word behind the stack, or behind the start of the scan, is the first without the pattern
    let k := (s.size - 8 * words) / 4 + 1
    let m' : Memory := fun a => if a < s.area + s.size then m a else
      if a < s.area + 8 * words + 4 * k then bytePattern else 0
    have hu := h m' fun a _ ha => if_pos ha
    rw [used_eq (by omega), scan_eq (k := k) (by omega) (fun j hj => isPattern_iff.mpr fun x hx => ?_)] at hu
    · simp only [Option.elim_some, subWord] at hu
      omega
    · refine Bool.eq_false_iff.mpr fun hb => ?_
      have hb := isPattern_iff.mp hb 0 (by omega)
      simp only [m'] at hb
      rw [if_neg (by omega), if_neg (by omega)] at hb
      cases hb
    · simp only [m']
      split
      · exact hp (by omega) ‹_›
      · exact if_pos (by omega)
  · subst h0
    rw [used_eq (by omega), scan_eq_none fun j hj => isPattern_iff.mpr fun k hk => ?_, Option.elim_none]
    rw [hm' _ (by omega) (by omega)]
    exact hp (by omega) (by omega)

end

def smallStack : Stack := ⟨64, 64, by decide⟩

def smallStarted : Memory := started 4 (fun _ => 0) smallStack fun _ => bytePattern

end Rtems.StackCheck
