import Mathlib.Tactic.IntervalCases
import Rtems.Tod.Model

/-! # The calendar against the count of seconds -/

namespace Rtems.Tod

open UInt32 (le_refl lt_iff_toNat_lt not_le not_lt toNat_add toNat_inj toNat_mul)

theorem toNat_succ {a n : UInt32} (h : a < n) : (a + 1).toNat = a.toNat + 1 := by
  have hn := n.toNat_lt
  have ha := lt_iff_toNat_lt.mp h
  exact Nat.mod_eq_of_lt (by change a.toNat + 1 < _; omega)

theorem lt_or_eq_of_lt {a n : UInt32} (h : a < n) : a + 1 < n ∨ a + 1 = n := by
  rw [lt_iff_toNat_lt, ← toNat_inj, toNat_succ h]
  have := lt_iff_toNat_lt.mp h
  omega

theorem succ_le_of_lt {a n : UInt32} (h : a < n) : a + 1 ≤ n := by
  rw [UInt32.le_iff_toNat_le, toNat_succ h]
  exact lt_iff_toNat_lt.mp h

theorem lt_succ_of_lt {a n : UInt32} (h : a < n) : a < a + 1 := by
  rw [lt_iff_toNat_lt, toNat_succ h]
  exact Nat.lt_succ_self _

theorem succ_ne_zero_of_lt {a n : UInt32} (h : a < n) : a + 1 ≠ 0 := by
  intro h0
  have := lt_succ_of_lt h
  rw [h0] at this
  exact UInt32.not_lt_zero this

theorem toNat_and_three (y : UInt32) : (y &&& 3).toNat = y.toNat % 4 := by
  exact Nat.and_two_pow_sub_one_eq_mod y.toNat 2

theorem mod_four_eq_zero_iff (y : UInt32) : y % 4 = 0 ↔ y &&& 3 = 0 := by
  rw [← toNat_inj, ← toNat_inj, toNat_and_three, UInt32.toNat_mod]
  rfl

theorem forall_month {P : UInt32 → Prop} (h : ∀ k ∈ List.range 12, P (UInt32.ofNat (k + 1)))
    {m} (h0 : m ≠ 0) (h1 : m ≤ 12) : P m := by
  have hm : m.toNat ≠ 0 := fun he => h0 (toNat_inj.mp he)
  have hm' : m.toNat ≤ 12 := UInt32.le_iff_toNat_le.mp h1
  have := h (m.toNat - 1) (List.mem_range.mpr (by omega))
  rwa [Nat.sub_add_cancel (by omega), UInt32.ofNat_toNat] at this

theorem daysToDate_succ (leap : Bool) {m : UInt32} (h0 : m ≠ 0) (h1 : m ≤ 12) :
    m < 12 → daysToDate leap (m + 1) = daysToDate leap m + daysPerMonth leap m := by
  refine forall_month
    (P := fun m => m < 12 → daysToDate leap (m + 1) = daysToDate leap m + daysPerMonth leap m) ?_ h0 h1
  cases leap <;> decide

theorem daysPerMonth_bounds (leap : Bool) {m : UInt32} (h0 : m ≠ 0) (h1 : m ≤ 12) :
    0 < daysPerMonth leap m ∧ daysPerMonth leap m ≤ 31 := by
  refine forall_month (P := fun m => 0 < daysPerMonth leap m ∧ daysPerMonth leap m ≤ 31) ?_ h0 h1
  cases leap <;> decide

def daysToYear (y : UInt32) : UInt32 :=
  (y - 1988) / 4 * (365 * 4 + 1) + daysSinceLastLeapYear (y &&& 3)

theorem toNat_daysToYear (y : UInt32) :
    (daysToYear y).toNat =
      ((y.toNat + (2 ^ 32 - 1988)) % 2 ^ 32 / 4 * 1461 +
        [0, 366, 731, 1096].getD (y.toNat % 4) 0) % 2 ^ 32 := by
  have hd : (daysSinceLastLeapYear (y &&& 3)).toNat = [0, 366, 731, 1096].getD (y.toNat % 4) 0 := by
    rw [daysSinceLastLeapYear, toNat_and_three]
    have := Nat.mod_lt y.toNat (by decide : 4 > 0)
    interval_cases y.toNat % 4 <;> rfl
  rw [daysToYear, toNat_add, toNat_mul, UInt32.toNat_div, UInt32.toNat_sub, hd,
    Nat.mod_add_mod, Nat.add_comm y.toNat]
  rfl

/-- Also where the year wraps: 2³² divides the seconds of a cycle. -/
theorem daysToYear_succ (y : UInt32) :
    daysToYear (y + 1) * 86400 =
      (daysToYear y + (daysToDate (y &&& 3 = 0) 12 + 31)) * 86400 := by
  have hl : (daysToDate (y &&& 3 = 0) 12 + 31).toNat = if y.toNat % 4 = 0 then 366 else 365 := by
    have : y &&& 3 = 0 ↔ y.toNat % 4 = 0 := by rw [← toNat_inj, toNat_and_three]; rfl
    by_cases h : y.toNat % 4 = 0
    · simp only [this, h, decide_true]; rfl
    · simp only [this, h, decide_false]; rfl
  have hs : (y + 1).toNat = (y.toNat + 1) % 2 ^ 32 := toNat_add y 1
  rw [← toNat_inj, toNat_mul, toNat_mul, toNat_add, toNat_daysToYear,
    toNat_daysToYear, hl, hs]
  generalize y.toNat = n at *
  change _ * 86400 % _ = _ * 86400 % _
  have hm : (n + 1) % 2 ^ 32 % 4 = (n + 1) % 4 := by omega
  rw [hm]
  rcases (by omega : n % 4 = 0 ∨ n % 4 = 1 ∨ n % 4 = 2 ∨ n % 4 = 3) with h | h | h | h
  · simp only [h, show (n + 1) % 4 = 1 by omega, List.getD_cons_zero, List.getD_cons_succ, ↓reduceIte]
    omega
  · simp only [h, show (n + 1) % 4 = 2 by omega, List.getD_cons_zero, List.getD_cons_succ,
      Nat.reduceEqDiff, ↓reduceIte]
    omega
  · simp only [h, show (n + 1) % 4 = 3 by omega, List.getD_cons_zero, List.getD_cons_succ,
      Nat.reduceEqDiff, ↓reduceIte]
    omega
  · simp only [h, show (n + 1) % 4 = 0 by omega, List.getD_cons_zero, List.getD_cons_succ,
      Nat.reduceEqDiff, ↓reduceIte]
    omega

/-! ## One second -/

structure Control.Dated (tod : Control) : Prop where
  second : tod.second < 60
  minute : tod.minute < 60
  hour : tod.hour < 24
  month : tod.month ≠ 0
  month_le : tod.month ≤ 12
  day : tod.day ≠ 0
  day_le : tod.day ≤ daysPerMonth (tod.year &&& 3 = 0) tod.month

inductive Carried (tod : Control) : Control → Prop
  | second (hs : tod.second + 1 < 60) : Carried tod { tod with second := tod.second + 1 }
  | minute (hs : tod.second + 1 = 60) (hm : tod.minute + 1 < 60) :
      Carried tod { tod with second := 0, minute := tod.minute + 1 }
  | hour (hs : tod.second + 1 = 60) (hm : tod.minute + 1 = 60) (hh : tod.hour + 1 < 24) :
      Carried tod { tod with second := 0, minute := 0, hour := tod.hour + 1 }
  | day (hs : tod.second + 1 = 60) (hm : tod.minute + 1 = 60) (hh : tod.hour + 1 = 24)
      (hd : tod.day < daysPerMonth (tod.year &&& 3 = 0) tod.month) :
      Carried tod { tod with second := 0, minute := 0, hour := 0, day := tod.day + 1 }
  | month (hs : tod.second + 1 = 60) (hm : tod.minute + 1 = 60) (hh : tod.hour + 1 = 24)
      (hd : tod.day = daysPerMonth (tod.year &&& 3 = 0) tod.month) (hmo : tod.month < 12) :
      Carried tod { tod with second := 0, minute := 0, hour := 0, day := 1, month := tod.month + 1 }
  | year (hs : tod.second + 1 = 60) (hm : tod.minute + 1 = 60) (hh : tod.hour + 1 = 24)
      (hd : tod.day = daysPerMonth (tod.year &&& 3 = 0) tod.month) (hmo : tod.month = 12) :
      Carried tod { tod with
        second := 0, minute := 0, hour := 0, day := 1, month := 1, year := tod.year + 1 }

theorem Control.Dated.carried {tod : Control} (h : tod.Dated) : Carried tod (Calendar.carry tod) := by
  unfold Calendar.carry
  rcases lt_or_eq_of_lt h.second with hs | hs
  · rw [if_neg (not_le.mpr hs)]
    exact .second hs
  rw [if_pos (show tod.second + 1 ≥ 60 from hs ▸ le_refl _)]
  rcases lt_or_eq_of_lt h.minute with hm | hm
  · rw [if_neg (not_le.mpr hm)]
    exact .minute hs hm
  rw [if_pos (show tod.minute + 1 ≥ 60 from hm ▸ le_refl _)]
  rcases lt_or_eq_of_lt h.hour with hh | hh
  · rw [if_neg (not_le.mpr hh)]
    exact .hour hs hm hh
  rw [if_pos (show tod.hour + 1 ≥ 24 from hh ▸ le_refl _)]
  have h31 := (daysPerMonth_bounds (tod.year &&& 3 = 0) h.month h.month_le).2
  rcases UInt32.lt_or_eq_of_le h.day_le with hd | hd
  · rw [if_neg (not_lt.mpr (succ_le_of_lt hd))]
    exact .day hs hm hh hd
  have h32 : tod.day < 32 := hd ▸ UInt32.lt_of_le_of_lt h31 (by decide)
  have hover : daysPerMonth (tod.year &&& 3 = 0) tod.month < tod.day + 1 := hd ▸ lt_succ_of_lt h32
  rw [if_pos hover]
  rcases UInt32.lt_or_eq_of_le h.month_le with hmo | hmo
  · rw [if_neg (not_lt.mpr (succ_le_of_lt hmo))]
    exact .month hs hm hh hd hmo
  · rw [if_pos (show tod.month + 1 > 12 by rw [hmo]; decide)]
    exact .year hs hm hh hd hmo

theorem Control.Dated.carry {tod : Control} (h : tod.Dated) : (Calendar.carry tod).Dated := by
  have hc := h.carried
  generalize Calendar.carry tod = tod' at hc
  have h60 : (0 : UInt32) < 60 := by decide
  have h24 : (0 : UInt32) < 24 := by decide
  have h1 : (1 : UInt32) ≠ 0 := by decide
  cases hc with
  | second hs => exact ⟨hs, h.minute, h.hour, h.month, h.month_le, h.day, h.day_le⟩
  | minute hs hm => exact ⟨h60, hm, h.hour, h.month, h.month_le, h.day, h.day_le⟩
  | hour hs hm hh => exact ⟨h60, h60, hh, h.month, h.month_le, h.day, h.day_le⟩
  | day hs hm hh hd =>
    exact ⟨h60, h60, h24, h.month, h.month_le, succ_ne_zero_of_lt hd, succ_le_of_lt hd⟩
  | month hs hm hh hd hmo =>
    have hmo0 := succ_ne_zero_of_lt hmo
    have hmo' := succ_le_of_lt hmo
    have hpos := (daysPerMonth_bounds (tod.year &&& 3 = 0) hmo0 hmo').1
    exact ⟨h60, h60, h24, hmo0, hmo', h1, succ_le_of_lt hpos⟩
  | year hs hm hh hd hmo =>
    have h12 : (1 : UInt32) ≤ 12 := by decide
    have hpos := (daysPerMonth_bounds ((tod.year + 1) &&& 3 = 0) h1 h12).1
    exact ⟨h60, h60, h24, h1, h12, h1, succ_le_of_lt hpos⟩

theorem toSeconds_eq (tod : Control) :
    toSeconds tod = (tod.day - 1 + daysToDate (tod.year &&& 3 = 0) tod.month) * 86400 +
      daysToYear tod.year * 86400 + (tod.hour * 60 + tod.minute) * 60 + tod.second := by
  simp only [toSeconds, daysToYear]
  grind

theorem Control.Dated.toSeconds_carry {tod} (h : tod.Dated) :
    toSeconds (Calendar.carry tod) = toSeconds tod + 1 := by
  have hc := h.carried
  generalize Calendar.carry tod = tod' at hc
  rw [toSeconds_eq, toSeconds_eq]
  cases hc with
  | second hs => grind
  | minute hs hm => grind
  | hour hs hm hh => grind
  | day hs hm hh hd => grind
  | month hs hm hh hd hmo =>
    have := daysToDate_succ (tod.year &&& 3 = 0) h.month h.month_le hmo
    grind
  | year hs hm hh hd hmo =>
    have h31 : daysPerMonth (tod.year &&& 3 = 0) 12 = 31 := by
      cases decide (tod.year &&& 3 = 0) <;> rfl
    have h1 : daysToDate ((tod.year + 1) &&& 3 = 0) 1 = 0 := by
      cases decide ((tod.year + 1) &&& 3 = 0) <;> rfl
    have hy := daysToYear_succ tod.year
    grind

/-! ## Runs -/

namespace Calendar

theorem validate_iff {c : Calendar} {tod} :
    c.validate tod = true ↔ tod.Dated ∧ tod.ticks < c.ticksPerSecond ∧ 1988 ≤ tod.year := by
  unfold validate
  simp only [mod_four_eq_zero_iff]
  constructor
  · intro h
    split at h
    · cases h
    · rename_i hr
      simp only [not_or, ge_iff_le, gt_iff_lt, not_le, not_lt] at hr
      obtain ⟨ht, hs, hm, hh, hmo, hmo', hy, hd⟩ := hr
      split at h
      · cases h
      · rename_i hle
        exact ⟨⟨hs, hm, hh, hmo, hmo', hd, not_lt.mp hle⟩, ht, hy⟩
  · rintro ⟨h, ht, hy⟩
    rw [if_neg, if_neg (not_lt.mpr h.day_le)]
    simp only [not_or, ge_iff_le, gt_iff_lt, not_le, not_lt]
    exact ⟨ht, h.second, h.minute, h.hour, h.month, h.month_le, hy, h.day⟩

inductive Reachable (microsecondsPerTick : UInt32) : Calendar → Prop
  | start : Reachable microsecondsPerTick (handlerInitialization microsecondsPerTick)
  | tickle {c : Calendar} (h : Reachable microsecondsPerTick c) :
      Reachable microsecondsPerTick c.tickle
  | set {c : Calendar} {tod : Control} (h : Reachable microsecondsPerTick c)
      (hv : c.validate tod = true) : Reachable microsecondsPerTick (c.set tod (toSeconds tod))

structure Agrees (c : Calendar) : Prop where
  dated : c.current.Dated
  seconds : c.secondsSinceEpoch = toSeconds c.current

theorem agrees_handlerInitialization (n : UInt32) : (handlerInitialization n).Agrees where
  dated := show Control.Dated ⟨1988, 1, 1, 0, 0, 0, 0⟩ by constructor <;> decide
  seconds := show 0 = toSeconds ⟨1988, 1, 1, 0, 0, 0, 0⟩ by decide

theorem Agrees.tickle {c : Calendar} (h : c.Agrees) : c.tickle.Agrees := by
  have hd : Control.Dated { c.current with ticks := 0 } :=
    ⟨h.dated.second, h.dated.minute, h.dated.hour, h.dated.month, h.dated.month_le, h.dated.day,
      h.dated.day_le⟩
  refine ⟨hd.carry, ?_⟩
  change c.secondsSinceEpoch + 1 = toSeconds (carry { c.current with ticks := 0 })
  rw [hd.toSeconds_carry, h.seconds]
  rfl

theorem Reachable.agrees {n : UInt32} {c} (h : Reachable n c) : c.Agrees := by
  induction h with
  | start => exact agrees_handlerInitialization n
  | tickle _ ih => exact ih.tickle
  | set _ hv _ => exact ⟨(validate_iff.mp hv).1, rfl⟩

/-- The counter is what `_TOD_To_seconds` makes of the calendar. -/
theorem Reachable.secondsSinceEpoch_eq {n : UInt32} {c : Calendar} (h : Reachable n c) :
    c.secondsSinceEpoch = toSeconds c.current := h.agrees.seconds

theorem secondsSinceEpoch_eq_march :
    let c := ((handlerInitialization 10000).set ⟨1992, 2, 29, 23, 59, 59, 7⟩
      (toSeconds ⟨1992, 2, 29, 23, 59, 59, 7⟩)).tickle
    c.current = ⟨1992, 3, 1, 0, 0, 0, 0⟩ ∧ c.secondsSinceEpoch = toSeconds c.current :=
  ⟨by decide, Reachable.secondsSinceEpoch_eq (.tickle (.set .start (by decide)))⟩

end Calendar

end Rtems.Tod
