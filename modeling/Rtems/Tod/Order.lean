import Rtems.Tod.Calendar

/-! # The order of the times of day -/

namespace Rtems.Tod

open UInt32 (le_iff_toNat_le lt_iff_toNat_lt ofNat toNat_inj)

def Control.Precedes (a b : Control) : Prop :=
  a.year < b.year ∨ a.year = b.year ∧ (a.month < b.month ∨ a.month = b.month ∧ (a.day < b.day ∨
    a.day = b.day ∧ (a.hour < b.hour ∨ a.hour = b.hour ∧ (a.minute < b.minute ∨
      a.minute = b.minute ∧ a.second < b.second))))

instance (a b : Control) : Decidable (a.Precedes b) :=
  inferInstanceAs (Decidable (_ ∨ _ ∧ (_ ∨ _ ∧ (_ ∨ _ ∧ (_ ∨ _ ∧ (_ ∨ _ ∧ _))))))

/-! ## Seconds without a limit -/

def Control.isLeap (a : Control) : Bool := a.year &&& 3 = 0

def daysBefore (year : Nat) : Nat := 365 * (year - 1988) + (year - 1988 + 3) / 4

def Control.dayOfYear (a : Control) : Nat := a.day.toNat - 1 + (daysToDate a.isLeap a.month).toNat

def Control.secondOfDay (a : Control) : Nat := (a.hour.toNat * 60 + a.minute.toNat) * 60 + a.second.toNat

def Control.seconds (a : Control) : Nat :=
  (a.dayOfYear + daysBefore a.year.toNat) * 86400 + a.secondOfDay

theorem daysToDate_lt (leap : Bool) {m n} (h0 : m ≠ 0) (hmn : m < n) (hn : n ≤ 12) :
    (daysToDate leap m).toNat + (daysPerMonth leap m).toNat ≤ (daysToDate leap n).toNat := by
  have hn0 : n ≠ 0 := fun h => UInt32.not_lt_zero (h ▸ hmn)
  have hm : m ≤ 12 := UInt32.le_trans (UInt32.le_of_lt hmn) hn
  refine forall_month (P := fun m => m < n →
    (daysToDate leap m).toNat + (daysPerMonth leap m).toNat ≤ (daysToDate leap n).toNat) ?_ h0 hm hmn
  refine forall_month (P := fun n => ∀ k ∈ List.range 12, ofNat (k + 1) < n →
    (daysToDate leap (ofNat (k + 1))).toNat + (daysPerMonth leap (ofNat (k + 1))).toNat ≤
      (daysToDate leap n).toNat) ?_ hn0 hn
  cases leap <;> decide

theorem daysToDate_le (leap : Bool) {m} (h0 : m ≠ 0) (h1 : m ≤ 12) :
    (daysToDate leap m).toNat + (daysPerMonth leap m).toNat ≤ 365 + leap.toNat := by
  refine forall_month (P := fun m =>
    (daysToDate leap m).toNat + (daysPerMonth leap m).toNat ≤ 365 + leap.toNat) ?_ h0 h1
  cases leap <;> decide

theorem Control.isLeap_toNat (a : Control) : a.isLeap.toNat = if a.year.toNat % 4 = 0 then 1 else 0 := by
  have : a.year &&& 3 = 0 ↔ a.year.toNat % 4 = 0 := by
    rw [← toNat_inj, toNat_and_three]
    rfl
  by_cases h : a.year.toNat % 4 = 0
  · simp [isLeap, this, h]
  · simp [isLeap, this, h]

section

variable {a b : Control} (ha : a.Dated)

include ha

theorem Control.Dated.secondOfDay_lt : a.secondOfDay < 86400 := by
  have h1 := lt_iff_toNat_lt.mp ha.second
  have h2 := lt_iff_toNat_lt.mp ha.minute
  have h3 := lt_iff_toNat_lt.mp ha.hour
  change a.second.toNat < 60 at h1
  change a.minute.toNat < 60 at h2
  change a.hour.toNat < 24 at h3
  unfold Control.secondOfDay
  omega

theorem Control.Dated.day_bounds :
    1 ≤ a.day.toNat ∧ a.day.toNat ≤ (daysPerMonth a.isLeap a.month).toNat := by
  refine ⟨Nat.one_le_iff_ne_zero.mpr fun h => ha.day (toNat_inj.mp h), ?_⟩
  exact le_iff_toNat_le.mp ha.day_le

theorem Control.Dated.dayOfYear_lt : a.dayOfYear < 365 + a.isLeap.toNat := by
  have h := ha.day_bounds
  have := daysToDate_le a.isLeap ha.month ha.month_le
  unfold Control.dayOfYear
  omega

theorem Control.Dated.secondOfDay_lt_of (h : a.hour < b.hour ∨ a.hour = b.hour ∧
    (a.minute < b.minute ∨ a.minute = b.minute ∧ a.second < b.second)) :
    a.secondOfDay < b.secondOfDay := by
  have h1 := lt_iff_toNat_lt.mp ha.second
  have h2 := lt_iff_toNat_lt.mp ha.minute
  change a.second.toNat < 60 at h1
  change a.minute.toNat < 60 at h2
  simp only [lt_iff_toNat_lt, ← toNat_inj] at h
  unfold Control.secondOfDay
  omega

theorem Control.Dated.seconds_lt (hb : b.Dated) (hy : 1988 ≤ a.year) (h : a.Precedes b) :
    a.seconds < b.seconds := by
  have hsec := ha.secondOfDay_lt
  have hday := ha.dayOfYear_lt
  have hleap (hye : a.year = b.year) : a.isLeap = b.isLeap := by rw [Control.isLeap, hye, Control.isLeap]
  unfold Control.seconds
  rcases h with hlt | ⟨hye, hm | ⟨hme, hd | ⟨hde, hrest⟩⟩⟩
  · have hlt := lt_iff_toNat_lt.mp hlt
    have hy : 1988 ≤ a.year.toNat := le_iff_toNat_le.mp hy
    have hD : daysBefore a.year.toNat + 365 + a.isLeap.toNat ≤ daysBefore b.year.toNat := by
      rw [a.isLeap_toNat]
      unfold daysBefore
      split <;> omega
    omega
  · have hl := hleap hye
    have hdays := daysToDate_lt a.isLeap ha.month hm hb.month_le
    have hbounds := ha.day_bounds
    have : a.dayOfYear < b.dayOfYear := by
      unfold Control.dayOfYear
      rw [← hl]
      omega
    rw [hye]
    omega
  · have hl := hleap hye
    have hbounds := ha.day_bounds
    have hd := lt_iff_toNat_lt.mp hd
    have : a.dayOfYear < b.dayOfYear := by
      unfold Control.dayOfYear
      rw [← hl, hme]
      omega
    rw [hye]
    omega
  · have hl := hleap hye
    have : a.dayOfYear = b.dayOfYear := by
      unfold Control.dayOfYear
      rw [← hl, hme, hde]
    have := ha.secondOfDay_lt_of hrest
    rw [hye]
    omega

theorem Control.Dated.toNat_toSeconds (hy : 1988 ≤ a.year) :
    (toSeconds a).toNat = a.seconds % 2 ^ 32 := by
  have hy : 1988 ≤ a.year.toNat := le_iff_toNat_le.mp hy
  have hlt := a.year.toNat_lt
  have hd : (a.day - 1).toNat = a.day.toNat - 1 := by
    refine UInt32.toNat_sub_of_le a.day 1 ?_
    exact le_iff_toNat_le.mpr ha.day_bounds.1
  have hD : (daysToYear a.year).toNat = daysBefore a.year.toNat % 2 ^ 32 := by
    have hy' : (a.year.toNat + (2 ^ 32 - 1988)) % 2 ^ 32 = a.year.toNat - 1988 := by omega
    have hE : (a.year.toNat - 1988) / 4 * 1461 + [0, 366, 731, 1096].getD (a.year.toNat % 4) 0 =
        daysBefore a.year.toNat := by
      unfold daysBefore
      rcases (by omega : a.year.toNat % 4 = 0 ∨ a.year.toNat % 4 = 1 ∨ a.year.toNat % 4 = 2 ∨
        a.year.toNat % 4 = 3) with h | h | h | h
      all_goals
        simp only [h, List.getD_cons_zero, List.getD_cons_succ]
        omega
    rw [toNat_daysToYear, hy', hE]
  rw [toSeconds_eq]
  simp only [UInt32.toNat_add, UInt32.toNat_mul, hd, hD]
  unfold Control.seconds Control.dayOfYear Control.secondOfDay Control.isLeap
  change (((_ % _ * 86400 % _ + _ % _ * 86400 % _) % _ + (_ * 60 % _ + _) % _ * 60 % _) % _ + _) % _ = _
  omega

end

def lastSecond : Control := ⟨2124, 2, 6, 6, 28, 15, 0⟩

theorem Control.precedes_or (a b : Control) : a.Precedes b ∨ a.seconds = b.seconds ∨ b.Precedes a := by
  by_cases hab : a.Precedes b
  · exact Or.inl hab
  by_cases hba : b.Precedes a
  · exact Or.inr (Or.inr hba)
  · refine Or.inr (Or.inl ?_)
    simp only [Precedes, lt_iff_toNat_lt, ← toNat_inj] at hab hba
    obtain ⟨hy, hmo, hd, hh, hmi, hs⟩ : a.year.toNat = b.year.toNat ∧ a.month.toNat = b.month.toNat ∧
        a.day.toNat = b.day.toNat ∧ a.hour.toNat = b.hour.toNat ∧ a.minute.toNat = b.minute.toNat ∧
        a.second.toNat = b.second.toNat := by omega
    simp only [seconds, dayOfYear, secondOfDay, isLeap, toNat_inj.mp hy, toNat_inj.mp hmo,
      hd, hh, hmi, hs]

theorem Control.Dated.seconds_lt_of_not {a} (ha : a.Dated) (hy : 1988 ≤ a.year)
    (h : ¬ lastSecond.Precedes a) : a.seconds < 2 ^ 32 := by
  have hl : lastSecond.seconds = 2 ^ 32 - 1 := by decide
  have hlast : lastSecond.Dated := by
    constructor <;> decide
  rcases a.precedes_or lastSecond with hp | he | hp
  · have := ha.seconds_lt hlast hy hp
    omega
  · omega
  · exact absurd hp h

theorem Control.Dated.precedes_iff {a b : Control} (ha : a.Dated) (hb : b.Dated) (hya : 1988 ≤ a.year)
    (hyb : 1988 ≤ b.year) : a.Precedes b ↔ a.seconds < b.seconds := by
  refine ⟨ha.seconds_lt hb hya, fun h => ?_⟩
  rcases a.precedes_or b with hp | he | hp
  · exact hp
  · omega
  · have := hb.seconds_lt ha hyb hp
    omega

/-- Valid times are ordered as their seconds if the count has wrapped equally often for both, as it has up
to February 2124, and else only if the wrapped counts happen to be in the order of the wraps. -/
theorem precedes_iff_toSeconds_lt {c : Calendar} {a b : Control} (ha : c.validate a = true)
    (hb : c.validate b = true) :
    ((a.Precedes b ↔ toSeconds a < toSeconds b) ↔ a.seconds / 2 ^ 32 = b.seconds / 2 ^ 32 ∨
      (a.seconds / 2 ^ 32 < b.seconds / 2 ^ 32 ↔ a.seconds % 2 ^ 32 < b.seconds % 2 ^ 32)) ∧
    (¬ lastSecond.Precedes a → ¬ lastSecond.Precedes b → (a.Precedes b ↔ toSeconds a < toSeconds b)) := by
  obtain ⟨hda, -, hya⟩ := Calendar.validate_iff.mp ha
  obtain ⟨hdb, -, hyb⟩ := Calendar.validate_iff.mp hb
  rw [UInt32.lt_iff_toNat_lt, hda.toNat_toSeconds hya, hdb.toNat_toSeconds hyb, hda.precedes_iff hdb hya hyb]
  refine ⟨by omega, fun ha' hb' => ?_⟩
  have := hda.seconds_lt_of_not hya ha'
  have := hdb.seconds_lt_of_not hyb hb'
  omega

theorem precedes_iff_toSeconds_lt_leapDay :
    (⟨2000, 2, 29, 23, 59, 59, 0⟩ : Control).Precedes ⟨2000, 3, 1, 0, 0, 0, 0⟩ ∧
      toSeconds ⟨2000, 2, 29, 23, 59, 59, 0⟩ < toSeconds ⟨2000, 3, 1, 0, 0, 0, 0⟩ :=
  have h : (⟨2000, 2, 29, 23, 59, 59, 0⟩ : Control).Precedes ⟨2000, 3, 1, 0, 0, 0, 0⟩ := by decide
  have ha : (Calendar.handlerInitialization 10000).validate ⟨2000, 2, 29, 23, 59, 59, 0⟩ = true := by decide
  have hb : (Calendar.handlerInitialization 10000).validate ⟨2000, 3, 1, 0, 0, 0, 0⟩ = true := by decide
  ⟨h, ((precedes_iff_toSeconds_lt ha hb).2 (by decide) (by decide)).mp h⟩

/-- The next second is the first one again. -/
theorem toSeconds_wraps :
    (Calendar.handlerInitialization 10000).validate lastSecond = true ∧
      (Calendar.handlerInitialization 10000).validate ⟨2124, 2, 6, 6, 28, 16, 0⟩ = true ∧
      lastSecond.Precedes ⟨2124, 2, 6, 6, 28, 16, 0⟩ ∧
      toSeconds ⟨2124, 2, 6, 6, 28, 16, 0⟩ = 0 ∧ toSeconds lastSecond = 0xffffffff := by
  decide

end Rtems.Tod
