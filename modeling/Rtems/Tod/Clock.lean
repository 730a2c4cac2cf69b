import Rtems.Tod.Calendar
import Rtems.Watchdog.Invariant

/-! # The clock and the timer of its seconds -/

namespace Rtems.Tod

open Function Watchdog Option

variable {α : Type*} [DecidableEq α] {w : α} {n : Nat}

namespace Clock

variable {c : Clock α}

def Stopped (c : Clock α) : Prop := Good c.timers fun _ => []

structure Running (w : α) (n : Nat) (c : Clock α) : Prop where
  good : Good c.timers (update (fun _ => []) .ticks [w])
  active : c.timers.state w = .active
  delta : c.timers.delta w = n

variable {fuel : Nat} {ticks : UInt32}

theorem Stopped.activate (hs : c.Stopped) (w : α) (ticks : UInt32) (fuel : Nat) :
    ∃ c', activate w (fuel + 4) ticks c = some c' ∧ c'.calendar = c.calendar ∧
      Running w ticks.toNat c' := by
  have hw : ∀ k : ChainName, w ∉ (fun _ => [] : ChainName → List α) k := by simp
  obtain ⟨T', he⟩ := insert_nil hs hw (h := .ticks) rfl ticks.toNat_lt fuel
  obtain ⟨d, l1, l2, hI⟩ := Inserted.of_insert hs.on hw hs.delta_lt ticks.toNat_lt he
  obtain ⟨rfl, rfl⟩ := List.nil_eq_append_iff.mp hI.place.split
  have hd : d = ticks.toNat := by simpa [DeltaList.total] using hI.place.total
  refine ⟨c.setTimers T', by rw [Clock.activate, he]; rfl, rfl, ?_, ?_, ?_⟩
  · exact hI.toEntered.good hs hI.place hw ticks.toNat_lt
  · change T'.state w = _
    rw [hI.state, update_self]
  · change T'.delta w = _
    rw [hI.delta, DeltaList.place_self, hd]

theorem Running.good_remove (hr : Running w n c) :
    Good (Watchdog.remove c.timers w).1 fun _ => [] := by
  have hc : update (fun _ => []) ChainName.ticks [w] .ticks = [] ++ w :: [] := rfl
  have hR := remove_linked hr.good.on (Or.inl hr.active) hc (by simp)
  have := hR.good hc hr.good (by simp)
  rwa [update_idem, List.append_nil, update_eq_self] at this

theorem Running.stopped (hr : Running w n c) : (deactivate w c).Stopped := hr.good_remove

/-! ## The routines -/

variable (others : α → Clock α → Clock α)

def tickled (d : Calendar) : Calendar :=
  { d with current := { d.current with ticks := d.current.ticks + 1 } }

theorem Stopped.tickle (hs : c.Stopped) (w : α) (fuel : Nat) :
    ∃ c', tickle others w (fuel + 4) c = some c' ∧ c'.calendar = c.calendar.tickle ∧
      Running w c.calendar.ticksPerSecond.toNat c' := by
  have hst : tickleStart (host.timers (c.setCalendar c.calendar.tickle)) .seconds = (c.timers, none) :=
    Good.tickleStart_nil hs rfl
  have ht : Watchdog.tickle host others .seconds (fuel + 4) (c.setCalendar c.calendar.tickle) =
      some (c.setCalendar c.calendar.tickle) := tickle_of_none hst
  obtain ⟨c', he, hcal, hr⟩ := Stopped.activate (c := c.setCalendar c.calendar.tickle) hs w
    c.calendar.ticksPerSecond fuel
  exact ⟨c', by rw [Clock.tickle, ht]; exact he, hcal, hr⟩

theorem Running.clockTick_within (hr : Running w n c) (hn : 1 < n) (fuel : Nat) :
    ∃ c', clockTick others w (fuel + 4) c = some c' ∧ c'.calendar = tickled c.calendar ∧
      Running w (n - 1) c' := by
  have hd : (tickleTicks c).timers.delta w = n := hr.delta
  have hG : Good (tickleTicks c).timers _ := ⟨hr.good.on, hr.good.linked_iff, hr.good.delta_lt⟩
  have hs := hG.tickleStart_cons (h := .ticks) rfl (by omega : 0 < (tickleTicks c).timers.delta w)
  rw [hd, if_pos (by omega)] at hs
  refine ⟨(tickleTicks c).setTimers ((tickleTicks c).timers.setDelta w (n - 1)), ?_, rfl, ?_, ?_, ?_⟩
  · exact tickle_of_none (s := tickleTicks c) hs
  · have := hr.good.delta_lt w
    exact hG.setDelta (by rw [hr.delta] at this; omega) w
  · exact (congrFun Timers.state_setDelta w).trans hr.active
  · exact (congrFun Timers.delta_setDelta w).trans (update_self _ _ _)

theorem Running.clockTick_last (hr : Running w 1 c) (ht : c.calendar.ticksPerSecond ≠ 0) (fuel : Nat) :
    ∃ c', clockTick others w (fuel + 4) c = some c' ∧ c'.calendar = (tickled c.calendar).tickle ∧
      Running w c.calendar.ticksPerSecond.toNat c' := by
  have hd : (tickleTicks c).timers.delta w = 1 := hr.delta
  have hG : Good (tickleTicks c).timers _ := ⟨hr.good.on, hr.good.linked_iff, hr.good.delta_lt⟩
  have hs := hG.tickleStart_cons (h := .ticks) rfl (by omega : 0 < (tickleTicks c).timers.delta w)
  rw [hd, if_neg (by omega)] at hs
  -- the state in which the loop finds the timer without time
  let d := (tickleTicks c).setTimers ((tickleTicks c).timers.setDelta w (1 - 1))
  have hrd : Running w 0 d :=
    ⟨hG.setDelta (by decide) w, (congrFun Timers.state_setDelta w).trans hr.active,
      (congrFun Timers.delta_setDelta w).trans (update_self _ _ _)⟩
  obtain ⟨c', he, hcal, hr'⟩ := Stopped.tickle others (c := deactivate w d) hrd.stopped w fuel
  refine ⟨c', ?_, hcal, hr'⟩
  have hnext : tickleNext c'.timers .ticks = none := by
    rcases hr'.good.tickleNext_eq .ticks with ⟨v, l, hv, hz, -⟩ | ⟨-, hn⟩
    · obtain ⟨rfl, -⟩ := List.cons.inj hv
      rw [hr'.delta] at hz
      exact absurd (UInt32.toNat_inj.mp hz) ht
    · exact hn
  have hro : routine others w (fuel + 4) w (deactivate w d) = c' := by
    rw [routine, if_pos rfl, he, getD_some]
  have hlast : tickleLoop host (routine others w (fuel + 4)) .ticks (fuel + 4) d w =
      some (routine others w (fuel + 4) w (deactivate w d)) :=
    tickleLoop_last (s := d) hrd.active (by
      change tickleNext (routine others w (fuel + 4) w (deactivate w d)).timers .ticks = none
      rw [hro, hnext])
  rw [← hro, ← hlast]
  exact tickle_of_some (s := tickleTicks c) hs

theorem Running.set (hr : Running w n c) (tod : Control) (seconds : UInt32)
    (ht : c.calendar.current.ticks < c.calendar.ticksPerSecond) (fuel : Nat) :
    ∃ c', set others w (fuel + 4) tod seconds c = some c' ∧
      c'.calendar = c.calendar.set tod seconds ∧
      Running w (c.calendar.ticksPerSecond - c.calendar.current.ticks).toNat c' := by
  have hem : Chain.isEmpty (deactivate w c).timers.links .seconds = true :=
    (Chain.isEmpty_iff (hr.stopped.on.holds (c := .seconds) rfl)).mpr rfl
  have hadj : ∀ dir units, adjust host others .seconds dir units (fuel + 4) (deactivate w c) =
      some (deactivate w c) := fun _ _ => if_pos hem
  obtain ⟨c', he, hcal, hr'⟩ := Stopped.activate
    (c := (deactivate w c).setCalendar (c.calendar.set tod seconds)) hr.stopped w
    (c.calendar.ticksPerSecond - c.calendar.current.ticks) fuel
  refine ⟨c', ?_, hcal, hr'⟩
  unfold Clock.set
  simp only [hadj, ite_self, bind_some]
  rw [if_pos (show (deactivate w c).calendar.ticksPerSecond >
    (deactivate w c).calendar.current.ticks from ht)]
  exact he

/-! ## Runs -/

inductive Directive
  | clockTick
  | clockSet (tod : Control)
  deriving DecidableEq, Repr

def execute (w : α) (fuel : Nat) : Directive → Clock α → Option (Clock α)
  | .clockTick, c => clockTick others w fuel c
  | .clockSet tod, c => (clockSet others w fuel tod c).map Prod.fst

def LastSecond (tod : Control) : Prop :=
  tod.year + 1 = 0 ∧ tod.month = 12 ∧ tod.day = 31 ∧ tod.hour = 23 ∧ tod.minute = 59 ∧ tod.second = 59

/-- The clock is set to the same tick of a second; no year wraps. -/
def Steady (c : Clock α) : Directive → Prop
  | .clockTick =>
    ¬ (LastSecond c.calendar.current ∧ c.calendar.current.ticks + 1 = c.calendar.ticksPerSecond)
  | .clockSet tod => c.calendar.validate tod = true → tod.ticks = c.calendar.current.ticks

inductive Reachable (w : α) (fuel : Nat) (P : Clock α → Directive → Prop) (n : UInt32)
    (T : Timers ChainName α) : Clock α → Prop
  | start {c : Clock α} (he : handlerInitialization w fuel n T = some c) : Reachable w fuel P n T c
  | step {c c' : Clock α} {d : Directive} (h : Reachable w fuel P n T c) (hP : P c d)
      (he : execute others w fuel d c = some c') : Reachable w fuel P n T c'

def clockTicks (w : α) (fuel : Nat) : Nat → Clock α → Option (Clock α)
  | 0, c => some c
  | k + 1, c => (clockTick others w fuel c).bind (clockTicks w fuel k)

def SecondLasts (w : α) (fuel n : Nat) (c : Clock α) : Prop :=
  (∀ k < n, ∃ c', clockTicks others w fuel k c = some c' ∧
      c'.calendar.secondsSinceEpoch = c.calendar.secondsSinceEpoch) ∧
    ∃ c', clockTicks others w fuel n c = some c' ∧
      c'.calendar.secondsSinceEpoch = c.calendar.secondsSinceEpoch + 1

theorem Running.secondLasts (hr : Running w n c) (hn : 0 < n) (ht : c.calendar.ticksPerSecond ≠ 0)
    (fuel : Nat) : SecondLasts others w (fuel + 4) n c := by
  induction n using Nat.strongRecOn generalizing c with
  | ind n ih =>
    by_cases h1 : n = 1
    · subst h1
      obtain ⟨c', he, hcal, -⟩ := hr.clockTick_last others ht fuel
      refine ⟨fun k hk => ⟨c, ?_, rfl⟩, c', ?_, ?_⟩
      · rw [Nat.lt_one_iff.mp hk]; rfl
      · rw [clockTicks, he]; rfl
      · rw [hcal]; rfl
    · obtain ⟨c', he, hcal, hr'⟩ := hr.clockTick_within others (by omega) fuel
      obtain ⟨hbefore, c'', he', hsec⟩ := ih (n - 1) (by omega) hr' (by omega) (by rw [hcal]; exact ht)
      have hs : c'.calendar.secondsSinceEpoch = c.calendar.secondsSinceEpoch := by rw [hcal]; rfl
      refine ⟨fun k hk => ?_, c'', ?_, hsec.trans (by rw [hs])⟩
      · cases k with
        | zero => exact ⟨c, rfl, rfl⟩
        | succ k =>
          obtain ⟨c1, he1, hs1⟩ := hbefore k (by omega)
          exact ⟨c1, by rw [clockTicks, he]; exact he1, hs1.trans hs⟩
      · obtain ⟨m, rfl⟩ : ∃ m, n = m + 1 := ⟨n - 1, by omega⟩
        rw [clockTicks, he]
        exact he'

structure InPhase (w : α) (c : Clock α) : Prop where
  running : Running w (c.calendar.ticksPerSecond.toNat - c.calendar.current.ticks.toNat) c
  ticks : c.calendar.current.ticks < c.calendar.ticksPerSecond
  dated : c.calendar.current.Dated
  year : 1988 ≤ c.calendar.current.year

section

omit [DecidableEq α]

theorem InPhase.validate (h : InPhase w c) : c.calendar.validate c.calendar.current = true :=
  Calendar.validate_iff.mpr ⟨h.dated, h.ticks, h.year⟩

theorem year_carry {tod} (hd : tod.Dated) (hy : 1988 ≤ tod.year) (hl : ¬ LastSecond tod) :
    1988 ≤ (Calendar.carry tod).year := by
  have hc := hd.carried
  generalize Calendar.carry tod = tod' at hc
  cases hc with
  | second | minute | hour | day | month => exact hy
  | year hs hm hh hday hmo =>
    have h31 : tod.day = 31 := by
      rw [hday, hmo]
      cases decide (tod.year &&& 3 = 0) <;> rfl
    have hw : tod.year + 1 ≠ 0 := fun hz => hl ⟨hz, hmo, h31, by grind, by grind, by grind⟩
    change 1988 ≤ tod.year + 1
    have h1 := UInt32.le_iff_toNat_le.mp hy
    have h2 : (tod.year + 1).toNat = (tod.year.toNat + 1) % 2 ^ 32 := UInt32.toNat_add _ _
    have h3 : (tod.year + 1).toNat ≠ 0 := fun hz => hw (UInt32.toNat_inj.mp hz)
    have h4 := tod.year.toNat_lt
    rw [UInt32.le_iff_toNat_le]
    omega

theorem ticks_carry {tod} (hd : tod.Dated) : (Calendar.carry tod).ticks = tod.ticks := by
  have hc := hd.carried
  generalize Calendar.carry tod = tod' at hc
  cases hc <;> rfl

end

theorem dated_withTicks {tod : Control} (h : tod.Dated) (t : UInt32) :
    Control.Dated { tod with ticks := t } :=
  ⟨h.second, h.minute, h.hour, h.month, h.month_le, h.day, h.day_le⟩

theorem InPhase.clockTick (h : InPhase w c)
    (hs : ¬ (LastSecond c.calendar.current ∧
      c.calendar.current.ticks + 1 = c.calendar.ticksPerSecond)) (fuel : Nat) :
    ∃ c', Clock.clockTick others w (fuel + 4) c = some c' ∧ InPhase w c' ∧
      c'.calendar.ticksPerSecond = c.calendar.ticksPerSecond := by
  have hsucc := toNat_succ h.ticks
  have ht : c.calendar.ticksPerSecond ≠ 0 := fun hz => UInt32.not_lt_zero (hz ▸ h.ticks)
  rcases lt_or_eq_of_lt h.ticks with hw | hw
  · have hw' := UInt32.lt_iff_toNat_lt.mp hw
    obtain ⟨c', he, hcal, hr⟩ := h.running.clockTick_within others (by omega) fuel
    refine ⟨c', he, ⟨?_, ?_, ?_, ?_⟩, by rw [hcal]; rfl⟩ <;> rw [hcal]
    · change Running w (_ - (c.calendar.current.ticks + 1).toNat) c'
      rwa [hsucc, Nat.sub_add_eq]
    · exact hw
    · exact dated_withTicks h.dated _
    · exact h.year
  · have hone : c.calendar.ticksPerSecond.toNat - c.calendar.current.ticks.toNat = 1 := by
      rw [← hw, hsucc]; omega
    obtain ⟨c', he, hcal, hr⟩ := Running.clockTick_last others (hone ▸ h.running) ht fuel
    have hd := dated_withTicks h.dated 0
    have hzero : c'.calendar.current.ticks = 0 := by rw [hcal]; exact ticks_carry hd
    have htps : c'.calendar.ticksPerSecond = c.calendar.ticksPerSecond := by rw [hcal]; rfl
    refine ⟨c', he, ⟨?_, ?_, ?_, ?_⟩, htps⟩
    · rw [hzero, htps]; exact hr
    · rw [hzero, htps]; exact UInt32.pos_iff_ne_zero.mpr ht
    · rw [hcal]; exact hd.carry
    · rw [hcal]; exact year_carry hd h.year fun hl => hs ⟨hl, hw⟩

theorem InPhase.clockSet (h : InPhase w c) {tod} (hv : c.calendar.validate tod = true)
    (ht : tod.ticks = c.calendar.current.ticks) (fuel : Nat) :
    ∃ c', Clock.clockSet others w (fuel + 4) tod c = some (c', .successful) ∧ InPhase w c' ∧
      c'.calendar = c.calendar.set tod (toSeconds tod) := by
  obtain ⟨c', he, hcal, hr⟩ := h.running.set others tod (toSeconds tod) h.ticks fuel
  obtain ⟨hd, hlt, hy⟩ := Calendar.validate_iff.mp hv
  refine ⟨c', by rw [Clock.clockSet, if_pos hv, he]; rfl, ⟨?_, ?_, ?_, ?_⟩, hcal⟩ <;> rw [hcal]
  · change Running w (c.calendar.ticksPerSecond.toNat - tod.ticks.toNat) c'
    rw [ht, ← UInt32.toNat_sub_of_le _ _ (UInt32.le_of_lt h.ticks)]
    exact hr
  · exact hlt
  · exact hd
  · exact hy

theorem Steady.execute {d c'} (hs : Steady c d) (h : InPhase w c)
    (he : Clock.execute others w (fuel + 4) d c = some c') : InPhase w c' := by
  cases d with
  | clockTick =>
    obtain ⟨c1, he1, h1, -⟩ := h.clockTick others hs fuel
    exact some.inj (he1.symm.trans he) ▸ h1
  | clockSet tod =>
    by_cases hv : c.calendar.validate tod = true
    · obtain ⟨c1, he1, h1, -⟩ := h.clockSet others hv (hs hv) fuel
      rw [Clock.execute, he1] at he
      exact some.inj he ▸ h1
    · rw [Clock.execute, Clock.clockSet, if_neg hv] at he
      exact some.inj he ▸ h

theorem ticksPerSecond_pos {n} (hn : 1 ≤ n) (hn' : n ≤ 1000000) :
    0 < (Calendar.handlerInitialization n).ticksPerSecond := by
  have h1 : 1 ≤ n.toNat := UInt32.le_iff_toNat_le.mp hn
  have h2 : n.toNat ≤ 1000000 := UInt32.le_iff_toNat_le.mp hn'
  have hz : n ≠ 0 := by rintro rfl; exact absurd hn (by decide)
  change 0 < if n = 0 then 0 else 1000000 / n
  rw [if_neg hz, UInt32.lt_iff_toNat_lt, UInt32.toNat_div]
  exact Nat.div_pos h2 h1

theorem inPhase_handlerInitialization {n T} (hn : 1 ≤ n)
    (hn' : n ≤ 1000000) (hT : Good T fun _ => []) (w : α) (fuel : Nat) :
    ∃ c, handlerInitialization w (fuel + 4) n T = some c ∧ InPhase w c := by
  have hp := ticksPerSecond_pos hn hn'
  have hd := Calendar.agrees_handlerInitialization n
  obtain ⟨c, he, hcal, hr⟩ := Stopped.activate (c := ⟨Calendar.handlerInitialization n, _⟩) (hT.initializeTimer w) w
    (Calendar.handlerInitialization n).ticksPerSecond fuel
  refine ⟨c, he, ⟨?_, ?_, ?_, ?_⟩⟩ <;> rw [hcal]
  · exact hr
  · exact hp
  · exact hd.dated
  · exact UInt32.le_refl _

/-- If the clock is set in phase, the time of day is valid. -/
theorem reachable_validate {n : UInt32} {T : Timers ChainName α} {fuel : Nat} (hn : 1 ≤ n)
    (hn' : n ≤ 1000000) (hf : 4 ≤ fuel) (hT : Good T fun _ => [])
    (h : Reachable others w fuel Steady n T c) :
    c.calendar.validate c.calendar.current = true ∧
      c.calendar.current.ticks < c.calendar.ticksPerSecond ∧
      (∃ c', clockTick others w fuel c = some c') ∧
      ∀ tod, c.calendar.validate tod = true → tod.ticks = c.calendar.current.ticks →
        ∃ c', clockSet others w fuel tod c = some (c', .successful) ∧ c'.calendar.current = tod ∧
          SecondLasts others w fuel (c.calendar.ticksPerSecond.toNat - tod.ticks.toNat) c' := by
  obtain ⟨fuel, rfl⟩ : ∃ k, fuel = k + 4 := ⟨fuel - 4, by omega⟩
  have hi : InPhase w c := by
    induction h with
    | start he =>
      obtain ⟨c, he', hi⟩ := inPhase_handlerInitialization hn hn' hT w fuel
      exact some.inj (he'.symm.trans he) ▸ hi
    | step _ hs he ih => exact hs.execute others ih he
  have hlt := UInt32.lt_iff_toNat_lt.mp hi.ticks
  have hz : ∀ {m : UInt32}, c.calendar.current.ticks < m → m ≠ 0 := fun hm he =>
    UInt32.not_lt_zero (he ▸ hm)
  refine ⟨hi.validate, hi.ticks, ?_, fun tod hv ht => ?_⟩
  · obtain ⟨-, c', he, -⟩ := hi.running.secondLasts others (by omega) (hz hi.ticks) fuel
    cases hk : c.calendar.ticksPerSecond.toNat - c.calendar.current.ticks.toNat with
    | zero => omega
    | succ k =>
      rw [hk, clockTicks, bind_eq_some_iff] at he
      exact ⟨_, he.choose_spec.1⟩
  · obtain ⟨c', he, hi', hcal⟩ := hi.clockSet others hv ht fuel
    have hcur : c'.calendar.current = tod := by rw [hcal]; rfl
    have htps : c'.calendar.ticksPerSecond = c.calendar.ticksPerSecond := by rw [hcal]; rfl
    have hr := hi'.running
    rw [htps, hcur] at hr
    exact ⟨c', he, hcur, hr.secondLasts others (by rw [ht]; omega) (htps ▸ hz hi.ticks) fuel⟩

def atEpoch : Clock Unit := (handlerInitialization () 4 500000 .idle).get (by decide +kernel)

theorem atEpoch_reachable {P} :
    Reachable (fun _ c => c) () 4 P 500000 .idle atEpoch := .start (some_get _).symm

theorem reachable_validate_atEpoch :
    atEpoch.calendar.validate ⟨2000, 2, 29, 12, 0, 0, 0⟩ = true ∧
      ∃ c, clockSet (fun _ c => c) () 4 ⟨2000, 2, 29, 12, 0, 0, 0⟩ atEpoch = some (c, .successful) ∧
        c.calendar.current = ⟨2000, 2, 29, 12, 0, 0, 0⟩ ∧
        SecondLasts (fun _ c => c) () 4 (atEpoch.calendar.ticksPerSecond.toNat - 0) c := by
  have hv : atEpoch.calendar.validate ⟨2000, 2, 29, 12, 0, 0, 0⟩ = true := by decide +kernel
  exact ⟨hv, (reachable_validate (fun _ c => c) (by decide) (by decide) (Nat.le_refl 4) .idle
    atEpoch_reachable).2.2.2 _ hv (by decide +kernel)⟩

def atMiddle : Clock Unit :=
  (execute (fun _ c => c) () 4 (.clockSet ⟨1988, 1, 1, 0, 0, 0, 1⟩) atEpoch).get (by decide +kernel)

def afterTick : Clock Unit :=
  (execute (fun _ c => c) () 4 .clockTick atMiddle).get (by decide +kernel)

/-- The clock was set to the middle of a second. -/
theorem clockSet_out_of_phase :
    Reachable (fun _ c => c) () 4 (fun _ _ => True) 500000 .idle afterTick ∧
      atEpoch.calendar.validate ⟨1988, 1, 1, 0, 0, 0, 1⟩ = true ∧
      afterTick.calendar.validate afterTick.calendar.current = false ∧
      afterTick.calendar.secondsSinceEpoch = atMiddle.calendar.secondsSinceEpoch := by
  refine ⟨.step (.step atEpoch_reachable trivial (some_get _).symm) trivial
    (some_get _).symm, ?_, ?_, ?_⟩ <;> decide +kernel

end Clock

end Rtems.Tod
