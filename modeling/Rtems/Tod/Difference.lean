import Mathlib.Algebra.Group.Int.Defs
import Mathlib.Tactic.Common

/-! # Differences of POSIX times -/

namespace Rtems.Tod

/-- The value a 32-bit `long` or `int` takes. -/
def toLong (x : Int) : Int := (x + 2 ^ 31) % 2 ^ 32 - 2 ^ 31

/-- The value a 32-bit `unsigned int` or `unsigned long` takes. -/
def toUnsigned (x : Int) : Int := x % 2 ^ 32

/-- `struct timespec` with both members signed. -/
structure SignedTimespec where
  sec : Int
  nsec : Int
  deriving DecidableEq, Repr

namespace SignedTimespec

/-- The first correction of `start`, when its nanoseconds are behind those of `end`. -/
def borrow (start stop : SignedTimespec) : SignedTimespec :=
  if stop.nsec < start.nsec then
    let seconds := toLong (toUnsigned (toUnsigned (toLong (start.nsec - stop.nsec)) / 1000000000 + 1))
    ⟨toLong (start.sec + seconds), toLong (toUnsigned (start.nsec - toUnsigned (1000000000 * seconds)))⟩
  else start

/-- The second correction: the difference divided is the negative one. -/
def carry (start stop : SignedTimespec) : SignedTimespec :=
  if toUnsigned (toLong (stop.nsec - start.nsec)) > 1000000000 then
    let seconds := toLong (toUnsigned (toLong (start.nsec - stop.nsec)) / 1000000000)
    ⟨toLong (start.sec - seconds), toLong (toUnsigned (start.nsec + toUnsigned (1000000000 * seconds)))⟩
  else start

/-- `_POSIX_Timespec_subtract`. -/
def subtract (theStart stop : SignedTimespec) : SignedTimespec :=
  let start := (theStart.borrow stop).carry stop
  ⟨toLong (stop.sec - start.sec), toLong (stop.nsec - start.nsec)⟩

def nanoseconds (t : SignedTimespec) : Int := t.sec * 1000000000 + t.nsec

/-- Both members are values of a `long`. -/
def Fits (t : SignedTimespec) : Prop := toLong t.sec = t.sec ∧ toLong t.nsec = t.nsec

def Normal (t : SignedTimespec) : Prop := 0 ≤ t.nsec ∧ t.nsec < 1000000000

instance (t : SignedTimespec) : Decidable t.Normal := inferInstanceAs (Decidable (_ ∧ _))

variable {start stop : SignedTimespec}

/-- The corrections are the whole seconds of the difference. A second correction is by two seconds, since
`2 ^ 32` less two seconds still holds two of them. -/
theorem carry_borrow (hs : start.Normal) (hsf : start.Fits) (hef : stop.Fits) (h0 : 0 ≤ stop.nsec)
    (hd : (stop.nsec - start.nsec) / 1000000000 ≠ 1) :
    (start.borrow stop).carry stop = ⟨toLong (start.sec - (stop.nsec - start.nsec) / 1000000000),
      start.nsec + (stop.nsec - start.nsec) / 1000000000 * 1000000000⟩ := by
  unfold Normal at hs
  unfold Fits toLong at hsf hef
  rcases Int.lt_or_le stop.nsec start.nsec with h | h
  · have hb : start.borrow stop = ⟨toLong (start.sec + 1), start.nsec - 1000000000⟩ := by
      simp only [borrow, if_pos h, toLong, toUnsigned, mk.injEq]
      omega
    rw [hb, carry, if_neg (by simp only [toLong, toUnsigned]; omega)]
    simp only [toLong, mk.injEq]
    omega
  · rw [borrow, if_neg (by omega)]
    by_cases hlt : stop.nsec - start.nsec < 1000000000
    · rw [carry, if_neg (by simp only [toLong, toUnsigned]; omega), Int.ediv_eq_zero_of_lt (by omega) hlt]
      rw [toLong, Int.sub_zero, hsf.1, Int.zero_mul, Int.add_zero]
    · have h2 : (stop.nsec - start.nsec) / 1000000000 = 2 := by omega
      have h2' : toUnsigned (toLong (start.nsec - stop.nsec)) / 1000000000 = 2 := by
        unfold toUnsigned toLong
        omega
      rw [carry, if_pos (by simp only [toLong, toUnsigned]; omega), h2, h2']
      simp only [toLong, toUnsigned, mk.injEq]
      omega

/-- One whole second ahead: the quotient of the negative difference is two or three. -/
theorem not_normal_subtract (hd : (stop.nsec - start.nsec) / 1000000000 = 1) :
    ¬ (start.subtract stop).Normal := by
  have hb : start.borrow stop = start := if_neg (by omega)
  rw [Normal, subtract, hb, carry]
  by_cases hg : toUnsigned (toLong (stop.nsec - start.nsec)) > 1000000000
  · obtain hq | hq : toUnsigned (toLong (start.nsec - stop.nsec)) / 1000000000 = 2 ∨
        toUnsigned (toLong (start.nsec - stop.nsec)) / 1000000000 = 3 := by
      unfold toLong toUnsigned
      omega
    all_goals
      rw [if_pos hg, hq]
      simp only [toLong, toUnsigned]
      omega
  · rw [if_neg hg]
    simp only [toLong, toUnsigned] at hg ⊢
    omega

/-- The difference is exact unless the nanoseconds of `end` are just one whole second ahead. -/
theorem nanoseconds_subtract (hs : start.Normal) (hsf : start.Fits) (hef : stop.Fits) (h0 : 0 ≤ stop.nsec)
    (hfit : toLong ((stop.nanoseconds - start.nanoseconds) / 1000000000) =
      (stop.nanoseconds - start.nanoseconds) / 1000000000) :
    (start.nanoseconds + (start.subtract stop).nanoseconds = stop.nanoseconds ∧
      (start.subtract stop).Normal ∧
      ((start.subtract stop).sec < 0 ↔ stop.nanoseconds < start.nanoseconds)) ↔
    (stop.nsec - start.nsec) / 1000000000 ≠ 1 := by
  refine ⟨fun h hd => not_normal_subtract hd h.2.1, fun hd => ?_⟩
  unfold subtract
  rw [carry_borrow hs hsf hef h0 hd]
  unfold nanoseconds at hfit ⊢
  unfold Normal toLong at *
  dsimp only
  omega

theorem nanoseconds_subtract_halfSeconds :
    (SignedTimespec.mk 5 500000000).nanoseconds +
        ((SignedTimespec.mk 5 500000000).subtract ⟨3, 250000000⟩).nanoseconds = 3250000000 ∧
      ((SignedTimespec.mk 5 500000000).subtract ⟨3, 250000000⟩).Normal ∧
      (((SignedTimespec.mk 5 500000000).subtract ⟨3, 250000000⟩).sec < 0 ↔ (3250000000 : Int) < 5500000000) :=
  (nanoseconds_subtract (by decide)
    ⟨by decide, by decide⟩ ⟨by decide, by decide⟩ (by decide) (by decide)).mpr (by decide)

/-- An end half a second before the start is taken for the start, with nanoseconds below zero. -/
theorem subtract_unnormalised : (SignedTimespec.mk 2 0).Normal ∧
    (SignedTimespec.mk 0 1500000000).nanoseconds < (SignedTimespec.mk 2 0).nanoseconds ∧
    (SignedTimespec.mk 2 0).subtract ⟨0, 1500000000⟩ = ⟨0, -500000000⟩ ∧
    (SignedTimespec.mk 0 0).subtract ⟨0, 1000000000⟩ = ⟨0, 1000000000⟩ := by
  decide

end SignedTimespec

end Rtems.Tod
