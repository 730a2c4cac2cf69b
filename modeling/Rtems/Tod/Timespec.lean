import Rtems.Tod.Order

/-! # The POSIX clock -/

namespace Rtems.Tod

/-- `struct timespec`, where `tv_sec` is not negative. -/
structure Timespec where
  sec : Nat
  nsec : Nat
  deriving DecidableEq, Repr

/-! ## Ticks -/

def timespecToInterval (microsecondsPerTick : UInt32) (time : Timespec) : UInt32 :=
  let ticks := UInt32.ofNat (time.sec * 1000000) / microsecondsPerTick
  let ticks := ticks + UInt32.ofNat (time.nsec / 1000) / microsecondsPerTick
  if ticks ≠ 0 then ticks else 1

def intervalToTimespec (microsecondsPerTick ticks : UInt32) : Timespec :=
  let usecs := ticks * microsecondsPerTick
  ⟨(usecs / 1000000).toNat, (usecs % 1000000).toNat * 1000⟩

def Timespec.microseconds (t : Timespec) : Nat := t.sec * 1000000 + t.nsec / 1000

/-- `tv_sec * 1000000` does not wrap, and no whole tick is lost between the two quotients. -/
def Timespec.Exact (u : UInt32) (t : Timespec) : Prop :=
  t.sec * 1000000 < 2 ^ 32 ∧
    (t.sec * 1000000 % u.toNat + t.nsec / 1000 % u.toNat < u.toNat ∨
      t.sec * 1000000 / u.toNat + t.nsec / 1000 / u.toNat = 0)

theorem toNat_ofNat {n} (h : n < 2 ^ 32) : (UInt32.ofNat n).toNat = n := UInt32.toNat_ofNat_of_lt' h

variable {u : UInt32} {t : Timespec}

theorem toNat_timespecToInterval (hn : t.nsec < 1000000000)
    (hs : t.microseconds / u.toNat < 2 ^ 32) : (timespecToInterval u t).toNat =
      max 1 (t.sec * 1000000 % 2 ^ 32 / u.toNat + t.nsec / 1000 / u.toNat) := by
  have hle : t.sec * 1000000 % 2 ^ 32 / u.toNat + t.nsec / 1000 / u.toNat ≤ t.microseconds / u.toNat :=
    (Nat.add_le_add_right (Nat.div_le_div_right (Nat.mod_le ..)) _).trans (Nat.div_add_div_le_add_div)
  have he : (UInt32.ofNat (t.sec * 1000000) / u + UInt32.ofNat (t.nsec / 1000) / u).toNat =
      t.sec * 1000000 % 2 ^ 32 / u.toNat + t.nsec / 1000 / u.toNat := by
    rw [UInt32.toNat_add, UInt32.toNat_div, UInt32.toNat_div, toNat_ofNat (n := t.nsec / 1000) (by omega),
      UInt32.toNat_ofNat']
    exact Nat.mod_eq_of_lt (by omega)
  unfold timespecToInterval
  dsimp only
  rw [← he]
  split <;> rename_i hz
  · exact (max_eq_right (Nat.pos_of_ne_zero fun h => hz (UInt32.toNat_inj.mp h))).symm
  · rw [not_not.mp hz]
    rfl

theorem timespecToInterval_iff (h0 : 0 < u.toNat) (hu : u.toNat ≤ 1000000) (hn : t.nsec < 1000000000)
    (hs : t.microseconds / u.toNat < 2 ^ 32) :
    (timespecToInterval u t).toNat = max 1 (t.microseconds / u.toNat) ↔ t.Exact u := by
  rw [toNat_timespecToInterval hn hs, Timespec.Exact]
  by_cases hw : t.sec * 1000000 < 2 ^ 32
  · have hd : t.microseconds / u.toNat = _ := Nat.add_div h0
    rw [Nat.mod_eq_of_lt hw, hd]
    generalize t.sec * 1000000 / u.toNat = q, t.nsec / 1000 / u.toNat = r
    split <;> omega
  · have h1 : t.sec * 1000000 % 2 ^ 32 / u.toNat + 2 ^ 32 / u.toNat ≤ t.sec * 1000000 / u.toNat :=
      (Nat.div_add_div_le_add_div).trans (Nat.div_le_div_right (by omega))
    have h2 : 2 ^ 32 / 1000000 ≤ 2 ^ 32 / u.toNat := Nat.div_le_div_left hu h0
    have h3 : t.sec * 1000000 / u.toNat + t.nsec / 1000 / u.toNat ≤ t.microseconds / u.toNat :=
      Nat.div_add_div_le_add_div
    have h4 := Nat.zero_le (t.sec * 1000000 % 2 ^ 32 / u.toNat + t.nsec / 1000 / u.toNat)
    exact iff_of_false (by omega) fun h => hw h.1

theorem microseconds_intervalToTimespec {n} (hs : n.toNat * u.toNat < 2 ^ 32) :
    (intervalToTimespec u n).nsec < 1000000000 ∧ (intervalToTimespec u n).microseconds = n.toNat * u.toNat := by
  have hm : (n * u).toNat = n.toNat * u.toNat := by
    rw [UInt32.toNat_mul]
    omega
  have hd : (n * u / 1000000).toNat = n.toNat * u.toNat / 1000000 := by rw [UInt32.toNat_div, hm]; rfl
  have hr : (n * u % 1000000).toNat = n.toNat * u.toNat % 1000000 := by rw [UInt32.toNat_mod, hm]; rfl
  unfold Timespec.microseconds intervalToTimespec
  dsimp only
  omega

/-- An interval is the whole ticks, at least one, just when no tick is lost. -/
theorem timespecToInterval_eq (h0 : 0 < u.toNat) (hu : u.toNat ≤ 1000000) :
    (∀ t : Timespec, t.nsec < 1000000000 → t.microseconds / u.toNat < 2 ^ 32 →
      ((timespecToInterval u t).toNat = max 1 (t.microseconds / u.toNat) ↔ t.Exact u)) ∧
    (∀ t t' : Timespec, t.nsec < 1000000000 → t'.nsec < 1000000000 → t'.microseconds / u.toNat < 2 ^ 32 →
      t.Exact u → t'.Exact u → t.microseconds ≤ t'.microseconds →
        timespecToInterval u t ≤ timespecToInterval u t') ∧
    ∀ n : UInt32, 1 ≤ n.toNat → n.toNat * u.toNat < 2 ^ 32 →
      (timespecToInterval u (intervalToTimespec u n) = n ↔ (intervalToTimespec u n).Exact u) := by
  refine ⟨fun t hn hs => timespecToInterval_iff h0 hu hn hs, fun t t' hn hn' hs' ht ht' hle => ?_,
    fun n hn hs => ?_⟩
  · have hd := Nat.div_le_div_right (c := u.toNat) hle
    rw [UInt32.le_iff_toNat_le, (timespecToInterval_iff h0 hu hn (hd.trans_lt hs')).mpr ht,
      (timespecToInterval_iff h0 hu hn' hs').mpr ht']
    exact max_le_max (le_refl 1) hd
  · obtain ⟨hsec, hm⟩ := microseconds_intervalToTimespec hs
    have hq : (intervalToTimespec u n).microseconds / u.toNat = n.toNat := by
      rw [hm, Nat.mul_div_cancel _ h0]
    rw [← timespecToInterval_iff h0 hu hsec (hq ▸ n.toNat_lt), hq, max_eq_right hn, UInt32.toNat_inj]

theorem timespecToInterval_eq_hundred :
    timespecToInterval 10000 (intervalToTimespec 10000 100) = 100 ∧
      (timespecToInterval 10000 ⟨1, 500000000⟩).toNat = 150 := by
  have h := timespecToInterval_eq (u := 10000) (by decide) (by decide)
  exact ⟨(h.2.2 100 (by decide) (by decide)).mpr ⟨by decide, by decide⟩,
    (h.1 ⟨1, 500000000⟩ (by decide) (by decide)).mpr ⟨by decide, by decide⟩⟩

/-- 5000 s overflow, and the rest of a second is lost. -/
theorem timespecToInterval_short : timespecToInterval 1000 ⟨5000, 0⟩ = 705032 ∧
    timespecToInterval 3 ⟨1, 200000000⟩ = 399999 ∧
    timespecToInterval 3 (intervalToTimespec 3 400000) = 399999 := by
  decide

/-! ## The time of day -/

structure Tm where
  sec : Nat
  min : Nat
  hour : Nat
  mday : Nat
  mon : Nat
  year : Nat
  deriving DecidableEq, Repr

def isLeapYear (year : Nat) : Bool := year % 4 = 0 ∧ (year % 100 ≠ 0 ∨ year % 400 = 0)

def monthLengths (leap : Bool) : List Nat := [31, 28 + leap.toNat, 31, 30, 31, 30, 31, 31, 30, 31, 30, 31]

def daysSince1970 (year : Nat) : Nat :=
  ((List.range' 1970 (year - 1970)).map fun y => 365 + (isLeapYear y).toNat).sum

def Tm.seconds (tm : Tm) : Nat :=
  (daysSince1970 (tm.year + 1900) + ((monthLengths (isLeapYear (tm.year + 1900))).take tm.mon).sum +
    (tm.mday - 1)) * 86400 + tm.hour * 3600 + tm.min * 60 + tm.sec

/-- What `gmtime_r` makes of a time. -/
structure Tm.Converts (tm : Tm) (time : Nat) : Prop where
  seconds : tm.seconds = time
  sec : tm.sec < 60
  min : tm.min < 60
  hour : tm.hour < 24
  mon : tm.mon < 12
  mday : 1 ≤ tm.mday ∧ tm.mday ≤ (monthLengths (isLeapYear (tm.year + 1900))).getD tm.mon 0

def Tm.toTod (tm : Tm) (ticks : UInt32) : Control :=
  ⟨.ofNat (tm.year + 1900), .ofNat (tm.mon + 1), .ofNat tm.mday, .ofNat tm.hour, .ofNat tm.min, .ofNat tm.sec, ticks⟩

/-- `clock_settime`; `none` is for `EINVAL`. -/
def clockSettime (c : Calendar) (tp : Timespec) (splitTime : Tm) : Option Calendar :=
  let tod := splitTime.toTod (.ofNat (tp.nsec / 1000) / c.microsecondsPerTick)
  if c.validate tod then some (c.set tod (toSeconds tod)) else none

/-- `POSIX_TIME_SECONDS_1970_THROUGH_1988`. -/
def secondsThrough1988 : Nat := (1987 - 1970 + 1) * (365 * 86400) + 4 * 86400

/-- `clock_gettime` for `CLOCK_REALTIME`. -/
def clockGettime (c : Calendar) : Timespec :=
  ⟨c.secondsSinceEpoch.toNat + secondsThrough1988, (c.current.ticks * c.microsecondsPerTick * 1000).toNat⟩

theorem daysSince1970_eq {year} (hy : 1988 ≤ year) (hy' : year ≤ 2099) :
    daysSince1970 year = daysBefore year + 6574 ∧ (isLeapYear year = true ↔ year % 4 = 0) := by
  have h : ∀ k ∈ List.range 112, daysSince1970 (1988 + k) = daysBefore (1988 + k) + 6574 ∧
      (isLeapYear (1988 + k) = true ↔ (1988 + k) % 4 = 0) := by decide +kernel
  have := h (year - 1988) (List.mem_range.mpr (by omega))
  rwa [Nat.add_sub_cancel' hy] at this

theorem months_eq (leap : Bool) {mon} (hm : mon < 12) :
    ((monthLengths leap).take mon).sum = (daysToDate leap (.ofNat (mon + 1))).toNat ∧
      (monthLengths leap).getD mon 0 = (daysPerMonth leap (.ofNat (mon + 1))).toNat ∧
      (daysToDate leap (.ofNat (mon + 1))).toNat ≤ 335 ∧ (daysPerMonth leap (.ofNat (mon + 1))).toNat ≤ 31 := by
  interval_cases mon <;> cases leap <;> decide

section

variable {tm : Tm} {time : Nat} (ticks : UInt32) (hy : 88 ≤ tm.year ∧ tm.year ≤ 199)

include hy

theorem Tm.isLeap_toTod : (tm.toTod ticks).isLeap = isLeapYear (tm.year + 1900) := by
  rw [Bool.eq_iff_iff, (daysSince1970_eq (by omega) (by omega)).2, Control.isLeap, decide_eq_true_iff,
    ← UInt32.toNat_inj, toNat_and_three]
  unfold Tm.toTod
  rw [toNat_ofNat (by omega)]
  rfl

variable (h : tm.Converts time)

include h

theorem Tm.Converts.dated : (tm.toTod ticks).Dated := by
  obtain ⟨-, hlen, -, h31⟩ := months_eq (isLeapYear (tm.year + 1900)) h.mon
  have hday := hlen ▸ h.mday.2
  have hmd : (UInt32.ofNat tm.mday).toNat = tm.mday := toNat_ofNat (by omega)
  have hmo : (UInt32.ofNat (tm.mon + 1)).toNat = tm.mon + 1 := toNat_ofNat (by have := h.mon; omega)
  refine ⟨?_, ?_, ?_, fun h0 => ?_, ?_, fun h0 => ?_, ?_⟩
  · exact UInt32.lt_iff_toNat_lt.mpr ((toNat_ofNat (by have := h.sec; omega)).trans_lt h.sec)
  · exact UInt32.lt_iff_toNat_lt.mpr ((toNat_ofNat (by have := h.min; omega)).trans_lt h.min)
  · exact UInt32.lt_iff_toNat_lt.mpr ((toNat_ofNat (by have := h.hour; omega)).trans_lt h.hour)
  · cases hmo.symm.trans (congrArg UInt32.toNat h0)
  · exact UInt32.le_iff_toNat_le.mpr (hmo.trans_le h.mon)
  · have := hmd.symm.trans (congrArg UInt32.toNat h0)
    exact absurd h.mday.1 (by rw [this]; decide)
  · refine hmd.trans_le ?_
    rw [show decide ((tm.toTod ticks).year &&& 3 = 0) = isLeapYear (tm.year + 1900) from isLeap_toTod ticks hy]
    exact hday

theorem Tm.Converts.seconds_toTod : (tm.toTod ticks).seconds + secondsThrough1988 = time ∧
    (tm.toTod ticks).seconds < 2 ^ 32 := by
  obtain ⟨hdate, hlen, h335, h31⟩ := months_eq (isLeapYear (tm.year + 1900)) h.mon
  obtain ⟨hs, hsec, hmin, hhour, hmon, hday⟩ := h
  have hl := isLeap_toTod ticks hy
  unfold Tm.seconds at hs
  rw [(daysSince1970_eq (by omega) (by omega)).1, hdate] at hs
  unfold Control.seconds Control.dayOfYear Control.secondOfDay
  rw [hl]
  unfold Tm.toTod
  dsimp only
  rw [toNat_ofNat (by omega), toNat_ofNat (by omega), toNat_ofNat (by omega), toNat_ofNat (by omega),
    toNat_ofNat (by omega)]
  unfold daysBefore at hs ⊢
  unfold secondsThrough1988
  omega

end

/-- The time set is the time read, up to the last whole tick. -/
theorem clockGettime_clockSettime {c : Calendar} {tp : Timespec} {tm : Tm}
    (hc : c.microsecondsPerTick = u ∧ c.ticksPerSecond = 1000000 / u)
    (hm : tm.Converts tp.sec) (hy : 88 ≤ tm.year ∧ tm.year ≤ 199) (hn : tp.nsec < 1000000000)
    (h0 : 0 < u.toNat) :
    (∃ c', clockSettime c tp tm = some c' ∧
      clockGettime c' = ⟨tp.sec, tp.nsec / (1000 * u.toNat) * (1000 * u.toNat)⟩) ↔
    tp.nsec < 1000000 / u.toNat * (1000 * u.toNat) := by
  have hd := hm.dated (.ofNat (tp.nsec / 1000) / u) hy
  obtain ⟨hs, hlt⟩ := hm.seconds_toTod (.ofNat (tp.nsec / 1000) / u) hy
  have hticks : (UInt32.ofNat (tp.nsec / 1000) / u).toNat = tp.nsec / (1000 * u.toNat) := by
    rw [UInt32.toNat_div, toNat_ofNat (by omega), Nat.div_div_eq_div_mul]
  have hyear : 1988 ≤ (tm.toTod (.ofNat (tp.nsec / 1000) / u)).year := by
    rw [UInt32.le_iff_toNat_le]
    unfold Tm.toTod
    rw [toNat_ofNat (by omega)]
    change 1988 ≤ _
    omega
  have hval : c.validate (tm.toTod (.ofNat (tp.nsec / 1000) / u)) = true ↔
      tp.nsec < 1000000 / u.toNat * (1000 * u.toNat) := by
    rw [Calendar.validate_iff, and_iff_right hd, and_iff_left hyear, hc.2, UInt32.lt_iff_toNat_lt,
      ← Nat.div_lt_iff_lt_mul (by omega), ← hticks]
    rfl
  unfold clockSettime
  rw [hc.1, ← hval]
  refine ⟨fun ⟨_, h, _⟩ => by_contra fun hv => ?_, fun hv => ⟨_, if_pos hv, ?_⟩⟩
  · cases (if_neg hv).symm.trans h
  have hle := Nat.div_mul_le_self tp.nsec (1000 * u.toNat)
  have hmul : tp.nsec / (1000 * u.toNat) * (1000 * u.toNat) = tp.nsec / (1000 * u.toNat) * u.toNat * 1000 := by
    rw [Nat.mul_comm 1000, ← Nat.mul_assoc]
  unfold clockGettime Calendar.set
  rw [hd.toNat_toSeconds hyear, Nat.mod_eq_of_lt hlt, hs, hc.1]
  unfold Tm.toTod
  rw [UInt32.toNat_mul, UInt32.toNat_mul, hticks]
  change Timespec.mk _ (_ * 1000 % _) = _
  rw [Nat.mod_eq_of_lt (by omega), Nat.mod_eq_of_lt (by omega), hmul]

def tenthsOfSecond : Calendar := .handlerInitialization 100000

theorem clockGettime_clockSettime_leapDay :
    ∃ c', clockSettime tenthsOfSecond ⟨951782400, 950000000⟩ ⟨0, 0, 0, 29, 1, 100⟩ = some c' ∧
      clockGettime c' = ⟨951782400, 900000000⟩ :=
  (clockGettime_clockSettime (u := 100000) ⟨rfl, rfl⟩
    ⟨by decide +kernel, by decide, by decide, by decide, by decide, by decide⟩ (by decide) (by decide)
    (by decide)).mpr (by decide)

/-- Three ticks of 300 ms are all ticks of a second. -/
theorem clockSettime_refused :
    clockSettime (.handlerInitialization 300000) ⟨951782400, 950000000⟩ ⟨0, 0, 0, 29, 1, 100⟩ = none := by
  decide

end Rtems.Tod
