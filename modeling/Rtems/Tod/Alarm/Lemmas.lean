import Rtems.Tod.Alarm.Model
import Rtems.Watchdog.Invariant

/-! # When the alarms are due -/

namespace Rtems.Tod

open Function Watchdog DeltaList Option

namespace Bearer

variable {σ α : Type*} [DecidableEq α] {B : Bearer σ α} {others : α → σ → σ} {w0 : α} {fuel : Nat} {s s' : σ}

theorem activate_mono {ticks} (k : Nat) (he : B.activate w0 fuel ticks s = some s') :
    B.activate w0 (fuel + k) ticks s = some s' := by
  obtain ⟨c, hc, rfl⟩ := map_eq_some_iff.mp he
  obtain ⟨T, hT, rfl⟩ := map_eq_some_iff.mp hc
  refine map_eq_some_iff.mpr ⟨_, map_eq_some_iff.mpr ⟨T, insertFrom_mono k hT, rfl⟩, rfl⟩

theorem tickle_mono (k : Nat) (he : B.tickle others w0 fuel s = some s') :
    B.tickle others w0 (fuel + k) s = some s' := by
  obtain ⟨s1, h1, he⟩ := bind_eq_some_iff.mp he
  exact bind_eq_some_iff.mpr ⟨s1, Watchdog.tickle_mono k h1, activate_mono k he⟩

theorem adjusted_mono {c : Prop} [Decidable c] {m n} (k : Nat)
    (he : (if c then adjust B.host others .seconds .backward m fuel s
      else adjust B.host others .seconds .forward n fuel s) = some s') :
    (if c then adjust B.host others .seconds .backward m (fuel + k) s
      else adjust B.host others .seconds .forward n (fuel + k) s) = some s' := by
  split at he <;> rename_i hc
  · rw [if_pos hc]
    exact adjust_mono k he
  · rw [if_neg hc]
    exact adjust_mono k he

theorem set_mono {tod seconds} (k : Nat)
    (he : B.set others w0 fuel tod seconds s = some s') : B.set others w0 (fuel + k) tod seconds s = some s' := by
  obtain ⟨s1, h1, he⟩ := bind_eq_some_iff.mp he
  exact bind_eq_some_iff.mpr ⟨s1, adjusted_mono k h1, activate_mono k he⟩

theorem clockSet_mono {tod r} (k : Nat)
    (he : B.clockSet others w0 fuel tod s = some r) : B.clockSet others w0 (fuel + k) tod s = some r := by
  unfold clockSet at he ⊢
  split at he <;> rename_i hv
  · rw [if_pos hv]
    obtain ⟨s1, h1, rfl⟩ := map_eq_some_iff.mp he
    exact map_eq_some_iff.mpr ⟨s1, set_mono k h1, rfl⟩
  · rw [if_neg hv]
    exact he

end Bearer

namespace Alarms

variable {α : Type*} [DecidableEq α] {w0 v w : α} {s s' s'' : Alarms α} {ch ch' ch'' : ChainName → List α}
  {now goal : Nat}

def left (s : Alarms α) (ch : ChainName → List α) (w : α) : Nat :=
  due s.clock.timers.delta (ch .seconds) w

structure Kept (w0 : α) (s : Alarms α) (ch : ChainName → List α) (now goal : Nat) : Prop where
  good : Good s.clock.timers ch
  ticks : ∀ w ∈ ch .ticks, w = w0
  spare : s.alarm w0 = none
  active : ∀ w ∈ ch .seconds, s.clock.timers.state w = .active
  pending : ∀ w ∈ ch .seconds, ∃ t : UInt32, s.alarm w = some ⟨t, 0, false⟩ ∧ t.toNat = now + s.left ch w
  rung : ∀ w a, w ∉ ch .seconds → s.alarm w = some a → a.calls = 1 ∧ (a.passed = true ∨ a.time.toNat < goal)

namespace Kept

variable (hK : Kept w0 s ch now goal)

include hK

theorem mono {goal'} (hg : goal ≤ goal') : Kept w0 s ch now goal' :=
  ⟨hK.good, hK.ticks, hK.spare, hK.active, hK.pending, fun w a hw ha =>
    ⟨(hK.rung w a hw ha).1, (hK.rung w a hw ha).2.imp id fun h => Nat.lt_of_lt_of_le h hg⟩⟩

theorem notMem : w0 ∉ ch .seconds := by
  intro hm
  obtain ⟨t, ht, -⟩ := hK.pending w0 hm
  rw [hK.spare] at ht
  cases ht

theorem due_lt (k : ChainName) (hv : v ∈ ch k) : due s.clock.timers.delta (ch k) v < 2 ^ 32 := by
  cases k with
  | seconds =>
    obtain ⟨t, -, ht⟩ := hK.pending v hv
    have hlt := t.toNat_lt
    unfold left at ht
    omega
  | ticks =>
    -- the timer of the seconds is the only one
    cases hc : ch .ticks with
    | nil =>
      rw [hc] at hv
      cases hv
    | cons a l =>
      have hall := hK.ticks
      rw [hc] at hv hall
      obtain rfl : v = a := (hall v hv).trans (hall a (List.mem_cons_self ..)).symm
      rw [due_cons_self]
      exact hK.good.delta_lt v

theorem drop (w : α) :
    ∃ ch', Dropped s.clock.timers (remove s.clock.timers w).1 ch ch' w :=
  hK.good.drop fun hs v hn => hK.good.no_overflow (fun k _ hv => hK.due_lt k hv) hs v hn

end Kept

/-! ## Actions -/

structure Effect (w0 : α) (s s' : Alarms α) (ch ch' : ChainName → List α) (now goal : Nat) : Prop where
  kept : Kept w0 s' ch' now goal
  zero : ∀ {v}, v ∈ ch' .seconds → s'.left ch' v = 0 → v ∈ ch .seconds ∧ s.left ch v = 0
  ticks : w0 ∈ ch' .ticks ↔ w0 ∈ ch .ticks
  calendar : s'.clock.calendar = s.clock.calendar

section

variable (hK : Kept w0 s ch now goal)

include hK

theorem Effect.refl : Effect w0 s s ch ch now goal :=
  ⟨hK, fun hv hz => ⟨hv, hz⟩, Iff.rfl, rfl⟩

omit hK in
theorem Effect.trans (h : Effect w0 s s' ch ch' now goal) (h' : Effect w0 s' s'' ch' ch'' now goal) :
    Effect w0 s s'' ch ch'' now goal := by
  refine ⟨h'.kept, fun hv hz => ?_, h'.ticks.trans h.ticks, h'.calendar.trans h.calendar⟩
  obtain ⟨hv, hz⟩ := h'.zero hv hz
  exact h.zero hv hz

theorem Kept.dropped {T a} (hD : Dropped s.clock.timers T ch ch' w) (hw : w = w0 → a = none)
    (ha : ∀ b, a = some b → b.calls = 1 ∧ (b.passed = true ∨ b.time.toNat < goal)) :
    Kept w0 ⟨s.clock.setTimers T, update s.alarm w a⟩ ch' now goal := by
  refine ⟨hD.good, fun v hv => hK.ticks v (hD.mem_iff.mp hv).1, ?_, fun v hv => ?_, fun v hv => ?_,
    fun v b hv hb => ?_⟩
  · change update s.alarm w a w0 = none
    by_cases h : w = w0
    · rw [← h, update_self, hw h]
    · rw [update_of_ne (Ne.symm h)]
      exact hK.spare
  · obtain ⟨hv, hne⟩ := hD.mem_iff.mp hv
    change T.state v = _
    rw [hD.state, update_of_ne hne]
    exact hK.active v hv
  · obtain ⟨hv, hne⟩ := hD.mem_iff.mp hv
    obtain ⟨t, ht, he⟩ := hK.pending v hv
    exact ⟨t, (update_of_ne hne ..).trans ht, he.trans (congrArg (now + ·) (hD.due_eq hv hne).symm)⟩
  · by_cases hvw : v = w
    · subst hvw
      have hb : update s.alarm v a v = some b := hb
      rw [update_self] at hb
      exact ha b hb
    · have hv' : v ∉ ch .seconds := fun hm => hv (hD.mem_iff.mpr ⟨hm, hvw⟩)
      exact hK.rung v b hv' ((update_of_ne hvw ..).symm.trans hb)

theorem Kept.effect_dropped {T a} (hD : Dropped s.clock.timers T ch ch' w) (hw : w ≠ w0)
    (ha : ∀ b, a = some b → b.calls = 1 ∧ (b.passed = true ∨ b.time.toNat < goal)) :
    Effect w0 s ⟨s.clock.setTimers T, update s.alarm w a⟩ ch ch' now goal := by
  refine ⟨hK.dropped hD (fun h => absurd h hw) ha, fun {v} hv hz => ?_, ?_, rfl⟩
  · obtain ⟨hv, hne⟩ := hD.mem_iff.mp hv
    exact ⟨hv, (hD.due_eq hv hne).symm.trans hz⟩
  · rw [hD.mem_iff]
    exact and_iff_left hw.symm

theorem Kept.cancelled (hw : w ≠ w0) :
    ∃ ch', Effect w0 s (s.cancelled w) ch ch' now goal ∧ w ∉ ch' .seconds ∧ w ∉ ch' .ticks := by
  obtain ⟨ch', hD⟩ := hK.drop w
  exact ⟨ch', hK.effect_dropped hD hw (by simp), fun hm => (hD.mem_iff.mp hm).2 rfl,
    fun hm => (hD.mem_iff.mp hm).2 rfl⟩

theorem Kept.join {T t fuel} (hw : w ≠ w0) (hoff : ∀ k, w ∉ ch k) (ht : now < t.toNat)
    (he : insert s.clock.timers .seconds w (t.toNat - now) fuel = some T) :
    ∃ ch', Effect w0 s ⟨s.clock.setTimers T, update s.alarm w (some ⟨t, 0, false⟩)⟩ ch ch' now
      goal := by
  have hlt := t.toNat_lt
  obtain ⟨ch', hJ⟩ := hK.good.join hoff (by omega) he
  have hne : ∀ {k v}, v ∈ ch k → v ≠ w := fun hv => by rintro rfl; exact hoff _ hv
  refine ⟨ch', ⟨hJ.good, fun v hv => ?_, ?_, fun v hv => ?_, fun v hv => ?_, fun v b hv hb => ?_⟩,
    fun {v} hv hz => ?_, ?_, rfl⟩
  · rcases hJ.mem_iff.mp hv with hv | ⟨-, hk⟩
    · exact hK.ticks v hv
    · cases hk
  · exact (update_of_ne hw.symm ..).trans hK.spare
  · change T.state v = _
    rw [hJ.state]
    rcases hJ.mem_iff.mp hv with hv | ⟨rfl, -⟩
    · rw [update_of_ne (hne hv)]
      exact hK.active v hv
    · rw [update_self]
  · rcases hJ.mem_iff.mp hv with hv | ⟨rfl, -⟩
    · obtain ⟨u, hu, hd⟩ := hK.pending v hv
      refine ⟨u, (update_of_ne (hne hv) ..).trans hu, hd.trans ?_⟩
      exact congrArg (now + ·) (hJ.due_eq hv).symm
    · refine ⟨t, update_self .., ?_⟩
      have hd : left ⟨s.clock.setTimers T, update s.alarm v (some ⟨t, 0, false⟩)⟩ ch' v =
          t.toNat - now := hJ.due_self
      omega
  · by_cases hvw : v = w
    · subst hvw
      exact absurd (hJ.mem_iff.mpr (Or.inr ⟨rfl, rfl⟩)) hv
    · exact hK.rung v b (fun hm => hv (hJ.mem_iff.mpr (Or.inl hm)))
        ((update_of_ne hvw ..).symm.trans hb)
  · rcases hJ.mem_iff.mp hv with hv | ⟨rfl, -⟩
    · exact ⟨hv, (hJ.due_eq hv).symm.trans hz⟩
    · have : t.toNat - now = 0 := hJ.due_self.symm.trans hz
      omega
  · rw [hJ.mem_iff]
    exact or_iff_left fun hm => hw hm.1.symm

end

theorem alarmAt_cases {fuel prepare tod c} {r : Clock α × Status} (he : c.alarmAt fuel w prepare tod = some r) :
    r.1 = c ∧ r.2 ≠ .successful ∨
    ∃ T, c.calendar.secondsSinceEpoch < toSeconds tod ∧ r = (c.setTimers T, .successful) ∧
      insert (initializeTimer (prepare c.timers) w) .seconds w
        (toSeconds tod - c.calendar.secondsSinceEpoch).toNat fuel = some T := by
  unfold Clock.alarmAt at he
  split at he
  · cases he
    exact Or.inl ⟨rfl, by simp⟩
  · split at he
    · cases he
      exact Or.inl ⟨rfl, by simp⟩
    · dsimp only at he
      split at he
      · cases he
        exact Or.inl ⟨rfl, by simp⟩
      · rename_i hlt
        obtain ⟨T, hT, rfl⟩ := map_eq_some_iff.mp he
        exact Or.inr ⟨T, UInt32.not_le.mp hlt, rfl, hT⟩

def IsCancel : Action α → Prop
  | .cancel _ => True
  | .fireWhen .. | .wakeWhen .. => False

theorem Kept.armed {s1 prepare fuel tod} {r : Clock α × Status} (hK : Kept w0 s1 ch now goal) (hw : w ≠ w0)
    (hn : now = s.seconds.toNat) (hoff : ∀ k, w ∉ ch k)
    (hc : s1.clock = s.clock.setTimers (initializeTimer (prepare s.clock.timers) w))
    (ha : ∀ a, update s1.alarm w (some a) = update s.alarm w (some a))
    (he : s.clock.alarmAt fuel w prepare tod = some r) (hr : r.2 = .successful) :
    ∃ ch', Effect w0 s1 (s.armed w tod r) ch ch' now goal := by
  rcases alarmAt_cases he with ⟨-, hr'⟩ | ⟨T, hlt, rfl, hT⟩
  · exact absurd hr hr'
  · have hlt' := UInt32.lt_iff_toNat_lt.mp hlt
    rw [UInt32.toNat_sub_of_le _ _ (UInt32.le_of_lt hlt)] at hT
    have hT : insert s1.clock.timers .seconds w ((toSeconds tod).toNat - now) fuel = some T := by
      rw [hc, hn]
      exact hT
    obtain ⟨ch', hE⟩ := hK.join hw hoff (hn ▸ hlt') hT
    refine ⟨ch', ?_⟩
    rw [ha] at hE
    have hs : s.armed w tod (s.clock.setTimers T, .successful) =
        ⟨s1.clock.setTimers T, update s.alarm w (some ⟨toSeconds tod, 0, false⟩)⟩ := by
      rw [hc]
      rfl
    rw [hs]
    exact hE

theorem armed_failed {tod r} (hc : r.1 = s.clock) (hr : r.2 ≠ .successful) :
    s.armed w tod r = s := by
  unfold Alarms.armed
  rw [hc, if_neg hr]

theorem Performs.effect {a : Action α} (hp : Performs w0 s a s') (hK : Kept w0 s ch now goal)
    (hn : IsCancel a ∨ now = s.seconds.toNat) : ∃ ch', Effect w0 s s' ch ch' now goal := by
  cases hp with
  | cancel hw =>
    obtain ⟨ch', hE, -⟩ := hK.cancelled hw
    exact ⟨ch', hE⟩
  | @fireWhen w wallTime fuel r hw he =>
    have hn := hn.resolve_left id
    by_cases hr : r.2 = .successful
    · -- the timer is taken off its chain first
      obtain ⟨ch1, hE1, hs, ht⟩ := hK.cancelled hw
      have hoff : ∀ k, w ∉ ch1 k := by
        intro k
        cases k
        · exact ht
        · exact hs
      have hi : (remove s.clock.timers w).1.state w = .inactive := by
        obtain ⟨_, hD⟩ := hK.drop w
        rw [hD.state, update_self]
      obtain ⟨ch2, hE2⟩ := hE1.kept.armed hw hn hoff
        (by rw [initializeTimer_eq hi]; rfl) (fun a => update_idem ..) he hr
      exact ⟨ch2, hE1.trans hE2⟩
    · rcases alarmAt_cases he with ⟨hc, -⟩ | ⟨T, -, rfl, -⟩
      · rw [armed_failed hc hr]
        exact ⟨ch, .refl hK⟩
      · exact absurd rfl hr
  | @wakeWhen w timeBuffer fuel r hw hs he =>
    have hn := hn.resolve_left id
    by_cases hr : r.2 = .successful
    · have hi : s.clock = s.clock.setTimers (initializeTimer (id s.clock.timers) w) := by
        rw [id, initializeTimer_eq hs]
        rfl
      have hE := hK.armed hw hn (hK.good.notMem (Or.inl hs)) hi (fun _ => rfl) he hr
      exact hE
    · rcases alarmAt_cases he with ⟨hc, -⟩ | ⟨T, -, rfl, -⟩
      · rw [armed_failed hc hr]
        exact ⟨ch, .refl hK⟩
      · exact absurd rfl hr

theorem Acts.effect {P} (hA : Acts w0 P s s') (hK : Kept w0 s ch now goal)
    (hP : (∀ a, P a → IsCancel a) ∨ now = s.seconds.toNat) : ∃ ch', Effect w0 s s' ch ch' now goal := by
  induction hA with
  | refl => exact ⟨ch, .refl hK⟩
  | tail _ hstep ih =>
    obtain ⟨ch1, hE⟩ := ih
    obtain ⟨a, ha, hp⟩ := hstep
    obtain ⟨ch2, hE'⟩ := hp.effect hE.kept (hP.imp (fun h => h a ha) fun h => by
      rw [h, seconds, seconds, hE.calendar])
    exact ⟨ch2, hE.trans hE'⟩

/-! ## A tick of the seconds -/

section Tick

variable {routine : α → Alarms α → Alarms α} {P : Action α → Prop} {l : List α} {fuel : Nat}

def Serves (w0 : α) (routine : α → Alarms α → Alarms α) (calendar : Calendar) (now : Nat) : Prop :=
  ∃ P : Action α → Prop, (∀ w s, Acts w0 P s (routine w s)) ∧
    ((∀ a, P a → IsCancel a) ∨ now = calendar.secondsSinceEpoch.toNat)

theorem Kept.round (hK : Kept w0 s ch now goal) (hr : Serves w0 routine s.clock.calendar now)
    (hg : now < goal) (hc : ch .seconds = w :: l) (hz : s.clock.timers.delta w = 0) :
    ∃ ch', Effect w0 s (tickleRound bearer.host (fire routine) s w) ch ch' now goal ∧
      ∀ {v}, v ∈ ch' .seconds → (tickleRound bearer.host (fire routine) s w).left ch' v = 0 → v ≠ w := by
  have hw : w ∈ ch .seconds := by rw [hc]; simp
  have hne : w ≠ w0 := by
    rintro rfl
    exact hK.notMem hw
  obtain ⟨t, ht, htime⟩ := hK.pending w hw
  have hleft : s.left ch w = 0 := by
    unfold left
    rw [hc, due_cons_self, hz]
  obtain ⟨ch1, hD⟩ := hK.drop w
  obtain ⟨P, hA, hP⟩ := hr
  have hE1 := hK.effect_dropped (a := some ⟨t, 1, false⟩) hD hne (by
    rintro b hb
    cases hb
    exact ⟨rfl, Or.inr (by simpa using by omega)⟩)
  have hring : ring (bearer.host.setTimers s (remove s.clock.timers w).1) w =
      ⟨s.clock.setTimers (remove s.clock.timers w).1, update s.alarm w (some ⟨t, 1, false⟩)⟩ := by
    change (⟨_, update s.alarm w ((s.alarm w).map _)⟩ : Alarms α) = _
    rw [ht]
    rfl
  have hround : tickleRound bearer.host (fire routine) s w =
      routine w ⟨s.clock.setTimers (remove s.clock.timers w).1,
        update s.alarm w (some ⟨t, 1, false⟩)⟩ := by
    unfold tickleRound
    rw [if_pos (show (remove (bearer.host.timers s) w).2 = .active from hK.active w hw), ← hring]
    rfl
  obtain ⟨ch2, hE2⟩ := (hA w _).effect hE1.kept hP
  rw [hround]
  refine ⟨ch2, hE1.trans hE2, fun hv hz => ?_⟩
  exact (hD.mem_iff.mp (hE2.zero hv hz).1).2

def dueNow (s : Alarms α) (ch : ChainName → List α) : List α := (ch .seconds).filter fun v => s.left ch v = 0

theorem mem_dueNow : v ∈ s.dueNow ch ↔ v ∈ ch .seconds ∧ s.left ch v = 0 := by simp [dueNow]

theorem Effect.dueNow_lt (hE : Effect w0 s s' ch ch' now goal) (hw : w ∈ s.dueNow ch)
    (hne : ∀ {v}, v ∈ ch' .seconds → s'.left ch' v = 0 → v ≠ w) :
    (s'.dueNow ch').length < (s.dueNow ch).length := by
  have hnd : (s'.dueNow ch').Nodup := (hE.kept.good.on.nodup .seconds).filter _
  have hsub : w :: s'.dueNow ch' ⊆ s.dueNow ch := by
    intro v hv
    rcases List.mem_cons.mp hv with rfl | hv
    · exact hw
    · obtain ⟨hv, hz⟩ := mem_dueNow.mp hv
      exact mem_dueNow.mpr (hE.zero hv hz)
  have hw' : w ∉ s'.dueNow ch' := fun hm => hne (mem_dueNow.mp hm).1 (mem_dueNow.mp hm).2 rfl
  exact (List.subperm_of_subset (List.nodup_cons.mpr ⟨hw', hnd⟩) hsub).length_le

def Ahead (s : Alarms α) (ch : ChainName → List α) : Prop := ∀ v ∈ ch .seconds, 0 < s.left ch v

theorem Kept.tickleLoop (hK : Kept w0 s ch now goal) (hr : Serves w0 routine s.clock.calendar now)
    (hg : now < goal) (hc : ch .seconds = w :: l) (hz : s.clock.timers.delta w = 0) :
    ∃ fuel s' ch', Watchdog.tickleLoop bearer.host (fire routine) .seconds fuel s w = some s' ∧
      Effect w0 s s' ch ch' now goal ∧ s'.Ahead ch' := by
  induction hn : (s.dueNow ch).length using Nat.strong_induction_on generalizing s ch w l with
  | _ n ih =>
    obtain ⟨ch1, hE, hne⟩ := hK.round hr hg hc hz
    have hw : w ∈ s.dueNow ch := mem_dueNow.mpr ⟨by rw [hc]; simp, by rw [left, hc, due_cons_self, hz]⟩
    have hr1 : Serves w0 routine (tickleRound bearer.host (fire routine) s w).clock.calendar now := by
      rw [hE.calendar]
      exact hr
    rcases hE.kept.good.tickleNext_eq .seconds with ⟨v, l1, hc1, hz1, hn1⟩ | ⟨hpos, hn1⟩
    · obtain ⟨fuel, s', ch', he, hE', hA⟩ := ih _ (hn ▸ hE.dueNow_lt hw hne) hE.kept hr1 hc1 hz1 rfl
      exact ⟨fuel + 1, s', ch', (tickleLoop_some hn1).trans he, hE.trans hE', hA⟩
    · exact ⟨1, _, ch1, tickleLoop_none hn1, hE, hpos⟩

structure Lands (w0 : α) (s s' : Alarms α) (ch : ChainName → List α) (now goal : Nat) : Prop where
  lands : ∃ ch', Kept w0 s' ch' now goal ∧ s'.Ahead ch' ∧ (w0 ∈ ch' .ticks ↔ w0 ∈ ch .ticks)
  calendar : s'.clock.calendar = s.clock.calendar

theorem Kept.tickle (hK : Kept w0 s ch now goal) (hA : s.Ahead ch)
    (hr : Serves w0 routine s.clock.calendar (now + 1)) (hg : now + 1 < goal) :
    ∃ fuel s', Watchdog.tickle bearer.host (fire routine) .seconds fuel s = some s' ∧
      Lands w0 s s' ch (now + 1) goal := by
  obtain ⟨T, next, hs, hT, hnext⟩ := hK.good.tickleStart_spec hA
  have hK1 : Kept w0 (s.setClock (s.clock.setTimers T)) ch (now + 1) goal := by
    refine ⟨hT.good, hK.ticks, hK.spare, fun v hv => ?_, fun v hv => ?_, hK.rung⟩
    · change T.state v = _
      rw [hT.state]
      exact hK.active v hv
    · obtain ⟨t, ht, he⟩ := hK.pending v hv
      have hd : (s.setClock (s.clock.setTimers T)).left ch v + 1 = s.left ch v := hT.due_self hv
      exact ⟨t, ht, by omega⟩
  rcases hnext with ⟨rfl, hpos⟩ | ⟨w, l, rfl, hc, hz⟩
  · exact ⟨0, _, tickle_of_none hs, ⟨ch, hK1, hpos, Iff.rfl⟩, rfl⟩
  · obtain ⟨fuel, s', ch', he, hE, hpos⟩ := hK1.tickleLoop hr hg hc hz
    exact ⟨fuel, s', (tickle_of_some hs).trans he, ⟨ch', hE.kept, hpos, hE.ticks⟩, hE.calendar⟩

end Tick

/-! ## Adjusting the chain -/

theorem Kept.shift {l x now'} (hK : Kept w0 s ch now goal) (hc : ch .seconds = w :: l)
    (hx : now' + x = now + s.clock.timers.delta w) :
    Kept w0 (s.setClock (s.clock.setTimers (s.clock.timers.setDelta w x))) ch now' goal := by
  have hw : w ∈ ch .seconds := by rw [hc]; simp
  have hself : s.left ch w = s.clock.timers.delta w := by rw [left, hc, due_cons_self]
  have hx' : x < 2 ^ 32 := by
    obtain ⟨t, -, ht⟩ := hK.pending w hw
    have := t.toNat_lt
    omega
  refine ⟨hK.good.setDelta hx' w, hK.ticks, hK.spare, fun v hv => ?_, fun v hv => ?_, hK.rung⟩
  · change (s.clock.timers.setDelta w x).state v = _
    rw [Timers.state_setDelta]
    exact hK.active v hv
  · obtain ⟨t, ht, he⟩ := hK.pending v hv
    have hd : (s.setClock (s.clock.setTimers (s.clock.timers.setDelta w x))).left ch v +
        s.clock.timers.delta w = s.left ch v + x := (hK.good.on.due_head hc x hv).1 rfl
    exact ⟨t, ht, by omega⟩

theorem Kept.of_nil {now'} (hK : Kept w0 s ch now goal) (hc : ch .seconds = []) :
    Kept w0 s ch now' goal :=
  ⟨hK.good, hK.ticks, hK.spare, hK.active, by simp [hc], hK.rung⟩

section Adjust

variable {routine : α → Alarms α → Alarms α} {units : Nat}

section

variable (hK : Kept w0 s ch now goal)

include hK

theorem Kept.first {l} (hc : ch .seconds = w :: l) :
    Chain.first s.clock.timers.links .seconds = .obj w := by
  rw [Chain.first_eq (hK.good.on.holds (c := .seconds) rfl), hc]
  rfl

theorem Kept.isEmpty_iff :
    Chain.isEmpty s.clock.timers.links .seconds = true ↔ ch .seconds = [] :=
  Chain.isEmpty_iff (hK.good.on.holds (c := .seconds) rfl)

theorem Kept.adjustForward_due {P l}
    (hA : s.Ahead ch) (hr : ∀ w s, Acts w0 P s (routine w s)) (hP : ∀ a, P a → IsCancel a)
    (hc : ch .seconds = w :: l) (hw : now + s.clock.timers.delta w < goal) :
    ∃ fuel s', Watchdog.tickle bearer.host (fire routine) .seconds fuel
        (s.setClock (s.clock.setTimers (s.clock.timers.setDelta w 1))) = some s' ∧
      Lands w0 s s' ch (now + s.clock.timers.delta w) goal := by
  have hself : s.left ch w = s.clock.timers.delta w := by rw [left, hc, due_cons_self]
  have hpos : 0 < s.clock.timers.delta w := hself ▸ hA w (by rw [hc]; simp)
  have hK1 : Kept w0 _ ch (now + s.clock.timers.delta w - 1) goal := hK.shift (x := 1) hc (by omega)
  have hA1 : (s.setClock (s.clock.setTimers (s.clock.timers.setDelta w 1))).Ahead ch := by
    intro v hv
    have hd : (s.setClock (s.clock.setTimers (s.clock.timers.setDelta w 1))).left ch v +
        s.clock.timers.delta w = s.left ch v + 1 := (hK.good.on.due_head hc 1 hv).1 rfl
    have hle : s.clock.timers.delta w ≤ s.left ch v := by
      rw [left, hc]
      exact le_due_cons
    omega
  have hn : now + s.clock.timers.delta w - 1 + 1 = now + s.clock.timers.delta w := by omega
  obtain ⟨fuel, s', he, hL⟩ := hK1.tickle hA1 ⟨P, hr, Or.inl hP⟩ (by omega)
  rw [hn] at hL
  exact ⟨fuel, s', he, hL.lands, hL.calendar⟩

theorem Kept.adjustForward_within {l} (hc : ch .seconds = w :: l)
    (h0 : units ≠ 0) (hu : units < s.clock.timers.delta w) :
    ∃ s', Watchdog.adjustForward bearer.host (fire routine) .seconds 1 s units = some s' ∧
      Lands w0 s s' ch (now + units) goal := by
  have hsub : subWord ((bearer.host.timers s).delta w) units = s.clock.timers.delta w - units :=
    subWord_eq (Nat.le_of_lt hu) (hK.good.delta_lt w)
  have he : Watchdog.adjustForward bearer.host (fire routine) .seconds (0 + 1) s units = _ :=
    Watchdog.adjustForward_within h0 (hK.first hc) hu
  rw [hsub] at he
  refine ⟨_, he, ⟨ch, hK.shift hc (by omega), fun v hv => ?_, Iff.rfl⟩, rfl⟩
  have hd := (hK.good.on.due_head hc (s.clock.timers.delta w - units) hv).1 rfl
  have hle : s.clock.timers.delta w ≤ s.left ch v := by
    rw [left, hc]
    exact le_due_cons
  change 0 < due (s.clock.timers.setDelta w (s.clock.timers.delta w - units)).delta (ch .seconds) v
  unfold left at hle
  omega

theorem Kept.adjustForward {P aim} (hA : s.Ahead ch)
    (hr : ∀ w s, Acts w0 P s (routine w s)) (hP : ∀ a, P a → IsCancel a) (ha : now + units = aim)
    (hg : aim < goal) (hlt : aim < 2 ^ 32) (hne : ch .seconds ≠ []) :
    ∃ fuel s', Watchdog.adjustForward bearer.host (fire routine) .seconds fuel s units = some s' ∧
      Lands w0 s s' ch aim goal := by
  induction units using Nat.strong_induction_on generalizing s ch now with
  | _ units ih =>
    by_cases h0 : units = 0
    · subst h0
      obtain rfl : now = aim := ha
      exact ⟨1, s, rfl, ⟨ch, hK, hA, Iff.rfl⟩, rfl⟩
    obtain ⟨w, l, hc⟩ := List.exists_cons_of_ne_nil hne
    have hf := hK.first hc
    have hpos := hA w (by rw [hc]; simp)
    rw [left, hc, due_cons_self] at hpos
    by_cases hu : units < s.clock.timers.delta w
    · obtain ⟨s', he, hL⟩ := hK.adjustForward_within hc h0 hu
      rw [ha] at hL
      exact ⟨1, s', he, hL⟩
    · obtain ⟨fuel, s1, he, ⟨ch1, hK1, hA1, ht1⟩, hcal⟩ := hK.adjustForward_due hA hr hP hc (by omega)
      have hsub : subWord units (s.clock.timers.delta w) = units - s.clock.timers.delta w :=
        subWord_eq (Nat.not_lt.mp hu) (by omega)
      have hem : Chain.isEmpty (bearer.host.timers s1).links .seconds = true ↔ _ := hK1.isEmpty_iff
      by_cases hn : ch1 .seconds = []
      · refine ⟨fuel + 1, s1, ?_, ⟨ch1, hK1.of_nil hn, hA1, ht1⟩, hcal⟩
        rw [Watchdog.adjustForward_due h0 hf (Nat.not_lt.mp hu) he, if_pos (hem.mpr hn)]
      · obtain ⟨fuel', s', he', ⟨ch', hK', hA', ht'⟩, hcal'⟩ :=
          ih (units - s.clock.timers.delta w) (by omega) hK1 hA1 (by omega) hn
        refine ⟨fuel + fuel' + 1, s', ?_, ⟨ch', hK', hA', ht'.trans ht1⟩, hcal'.trans hcal⟩
        rw [Watchdog.adjustForward_due h0 hf (Nat.not_lt.mp hu) (tickle_mono fuel' he),
          if_neg fun h => hn (hem.mp h), Nat.add_comm fuel]
        change Watchdog.adjustForward _ _ _ _ _ (subWord units (s.clock.timers.delta w)) = _
        rw [hsub]
        exact adjustForward_mono fuel he'

end

end Adjust

end Alarms

end Rtems.Tod
