import Rtems.Tod.Alarm.Lemmas

/-! # Alarms and clock changes -/

namespace Rtems.Tod.Alarms

open Function Watchdog DeltaList Option

variable {α : Type*} [DecidableEq α] {w₀ : α} {s s' : Alarms α} {ch ch' : ChainName → List α}
  {now goal : Nat} {routine : α → Alarms α → Alarms α} {P : Action α → Prop}

structure Settled (w₀ : α) (s : Alarms α) (ch : ChainName → List α) : Prop where
  kept : Kept w₀ s ch s.seconds.toNat 0
  ahead : s.Ahead ch

section

variable (h : Settled w₀ s ch)

include h

theorem Settled.passed {w a} (hw : w ∉ ch .seconds)
    (ha : s.alarm w = some a) : a.calls = 1 ∧ a.passed = true :=
  ⟨(h.kept.rung w a hw ha).1, (h.kept.rung w a hw ha).2.resolve_right (Nat.not_lt_zero _)⟩

omit h in
theorem Kept.settle (hK : Kept w₀ s ch s.seconds.toNat (s.seconds.toNat + 1)) (hA : s.Ahead ch) :
    Settled w₀ s.settle ch := by
  refine ⟨⟨hK.good, hK.ticks, ?_, hK.active, fun v hv => ?_, fun v a hv ha => ?_⟩, hA⟩
  · simp [Alarms.settle, hK.spare]
  · obtain ⟨t, ht, he⟩ := hK.pending v hv
    have hpos := hA v hv
    have hn : ¬ t ≤ s.seconds := by
      rw [UInt32.le_iff_toNat_le]
      omega
    exact ⟨t, by simp [Alarms.settle, ht, hn], he⟩
  · obtain ⟨b, hb, rfl⟩ := map_eq_some_iff.mp ha
    obtain ⟨hc, hp⟩ := hK.rung v b hv hb
    refine ⟨hc, Or.inl ?_⟩
    rcases hp with hp | hp
    · simp [hp]
    · simp [UInt32.le_iff_toNat_le.mpr (Nat.le_of_lt_succ hp)]

theorem Settled.performs {a} (hp : Performs w₀ s a s') :
    ∃ ch', Settled w₀ s' ch' := by
  obtain ⟨ch', hE⟩ := hp.effect h.kept (Or.inr rfl)
  have hs : s'.seconds = s.seconds := by rw [seconds, seconds, hE.calendar]
  refine ⟨ch', by rw [hs]; exact hE.kept, fun v hv => Nat.pos_of_ne_zero fun hz => ?_⟩
  obtain ⟨hv, hz⟩ := hE.zero hv hz
  exact Nat.ne_of_gt (h.ahead v hv) hz

theorem Settled.deactivate : ∃ ch',
    Settled w₀ (s.setClock (s.clock.deactivate w₀)) ch' ∧ w₀ ∉ ch' .ticks := by
  obtain ⟨ch', hD⟩ := h.kept.drop w₀
  have hK := h.kept.dropped (a := none) hD (fun _ => rfl) (by simp)
  have ha : update s.alarm w₀ none = s.alarm := by
    rw [← h.kept.spare, update_eq_self]
  rw [ha] at hK
  refine ⟨ch', ⟨hK, fun v hv => ?_⟩, fun hm => (hD.mem_iff.mp hm).2 rfl⟩
  obtain ⟨hv, hne⟩ := hD.mem_iff.mp hv
  have hd : (s.setClock (s.clock.deactivate w₀)).left ch' v = s.left ch v := hD.due_eq hv hne
  rw [hd]
  exact h.ahead v hv

omit h in
theorem Kept.activate (hK : Kept w₀ s ch now goal) (hA : s.Ahead ch) (hw : w₀ ∉ ch .ticks) (u : UInt32) :
    ∃ fuel s' ch', bearer.activate w₀ fuel u s = some s' ∧ Kept w₀ s' ch' now goal ∧ s'.Ahead ch' ∧
      s'.clock.calendar = s.clock.calendar := by
  have hoff : ∀ k, w₀ ∉ ch k := by
    intro k
    cases k
    · exact hw
    · exact hK.notMem
  obtain ⟨fuel, T, he, -⟩ := insert_spec hK.good.on hoff hK.good.delta_lt u.toNat_lt .ticks
  obtain ⟨ch', hJ⟩ := hK.good.join hoff u.toNat_lt he
  have hm : ∀ {v}, v ∈ ch' .seconds ↔ v ∈ ch .seconds := by
    intro v
    rw [hJ.mem_iff]
    simp
  have hleft : ∀ {v}, v ∈ ch .seconds → (s.setClock (s.clock.setTimers T)).left ch' v = s.left ch v :=
    fun hv => hJ.due_eq hv
  refine ⟨fuel, s.setClock (s.clock.setTimers T), ch', ?_, ⟨hJ.good, fun v hv => ?_, hK.spare, fun v hv => ?_,
    fun v hv => ?_, fun v a hv ha => hK.rung v a (fun h => hv (hm.mpr h)) ha⟩, fun v hv => ?_, rfl⟩
  · simp only [Bearer.activate, Clock.activate, map_map]
    exact map_eq_some_iff.mpr ⟨T, he, rfl⟩
  · rcases hJ.mem_iff.mp hv with hv | ⟨rfl, -⟩
    · exact hK.ticks v hv
    · rfl
  · have hv := hm.mp hv
    change T.state v = _
    rw [hJ.state, update_of_ne (by rintro rfl; exact hK.notMem hv)]
    exact hK.active v hv
  · obtain ⟨t, ht, hd⟩ := hK.pending v (hm.mp hv)
    exact ⟨t, ht, by rw [hleft (hm.mp hv)]; exact hd⟩
  · rw [hleft (hm.mp hv)]
    exact hA v (hm.mp hv)

theorem Settled.tickle (hr : ∀ w s, Acts w₀ (fun _ => True) s (routine w s)) :
    ∃ fuel s', Watchdog.tickle bearer.host (fire routine) .seconds fuel
        (bearer.setCalendar s.clock.calendar.tickle s) = some s' ∧
      Lands w₀ (bearer.setCalendar s.clock.calendar.tickle s) s' ch (s.seconds + 1).toNat
        ((s.seconds + 1).toNat + 1) := by
  have hK : Kept w₀ (bearer.setCalendar s.clock.calendar.tickle s) ch s.seconds.toNat 0 :=
    ⟨h.kept.good, h.kept.ticks, h.kept.spare, h.kept.active, h.kept.pending, h.kept.rung⟩
  have hadd : (s.seconds + 1).toNat = (s.seconds.toNat + 1) % 2 ^ 32 := UInt32.toNat_add _ _
  by_cases hlt : s.seconds.toNat + 1 < 2 ^ 32
  · rw [Nat.mod_eq_of_lt hlt] at hadd
    have hS : Serves w₀ routine (bearer.setCalendar s.clock.calendar.tickle s).clock.calendar
        (s.seconds.toNat + 1) := ⟨_, hr, Or.inr hadd.symm⟩
    rw [hadd]
    exact (hK.mono (Nat.zero_le _)).tickle h.ahead hS (Nat.lt_succ_self _)
  · -- the second wraps, and there is no later one that a timer could be armed for
    have hn : ch .seconds = [] := by
      rw [List.eq_nil_iff_forall_not_mem]
      intro v hv
      obtain ⟨t, -, ht⟩ := h.kept.pending v hv
      have := h.ahead v hv
      have := t.toNat_lt
      omega
    exact ⟨0, _, tickle_of_none (hK.good.tickleStart_nil hn), ⟨ch, (hK.of_nil hn).mono (Nat.zero_le _),
      h.ahead, Iff.rfl⟩, rfl⟩

omit h in
theorem Kept.conclude (hK : Kept w₀ s ch s.seconds.toNat (s.seconds.toNat + 1)) (hA : s.Ahead ch)
    (hw : w₀ ∉ ch .ticks) (u : UInt32) :
    ∃ fuel s' ch', bearer.activate w₀ fuel u s = some s' ∧ Settled w₀ s'.settle ch' := by
  obtain ⟨fuel, s', ch', he, hK', hA', hcal⟩ := hK.activate hA hw u
  have hs : s'.seconds = s.seconds := by rw [seconds, seconds, hcal]
  exact ⟨fuel, s', ch', he, Kept.settle (by rw [hs]; exact hK') hA'⟩

theorem Settled.second (hr : ∀ w s, Acts w₀ (fun _ => True) s (routine w s)) :
    ∃ fuel s' ch', s.second routine w₀ fuel = some s' ∧ Settled w₀ s' ch' := by
  obtain ⟨ch1, h1, hw⟩ := h.deactivate
  obtain ⟨f1, s2, he2, ⟨ch2, hK2, hA2, ht2⟩, hcal⟩ := h1.tickle hr
  have hs : s2.seconds = (s.setClock (s.clock.deactivate w₀)).seconds + 1 := by
    rw [seconds, hcal]
    rfl
  rw [← hs] at hK2
  obtain ⟨f2, s3, ch3, he3, h3⟩ := hK2.conclude hA2 (fun hm => hw (ht2.mp hm))
    s2.clock.calendar.ticksPerSecond
  refine ⟨f1 + f2, s3.settle, ch3, ?_, h3⟩
  refine map_eq_some_iff.mpr ⟨s3, ?_, rfl⟩
  refine bind_eq_some_iff.mpr ⟨s2, tickle_mono f2 he2, ?_⟩
  rw [Nat.add_comm]
  exact Bearer.activate_mono f1 he3

/-! ## Setting the clock -/

omit h in
theorem Kept.adjustBackward {units} (hK : Kept w₀ s ch (now + units) goal) (hA : s.Ahead ch)
    (hn : ch .seconds ≠ []) :
    ∃ s', Watchdog.adjust bearer.host (fire routine) .seconds .backward units 0 s = some s' ∧
      Lands w₀ s s' ch now goal := by
  obtain ⟨w, l, hc⟩ := List.exists_cons_of_ne_nil hn
  have hf : Chain.first (bearer.host.timers s).links .seconds = .obj w := hK.first hc
  have hem : ¬ Chain.isEmpty (bearer.host.timers s).links .seconds = true :=
    fun he => hn (hK.isEmpty_iff.mp he)
  have hlt : s.clock.timers.delta w + units < 2 ^ 32 := by
    obtain ⟨t, -, ht⟩ := hK.pending w (by rw [hc]; simp)
    rw [left, hc, due_cons_self] at ht
    have := t.toNat_lt
    omega
  have hadd : addWord ((bearer.host.timers s).control w).deltaInterval units =
      s.clock.timers.delta w + units := addWord_eq hlt
  refine ⟨s.setClock (s.clock.setTimers (s.clock.timers.setDelta w (s.clock.timers.delta w + units))), ?_,
    ⟨ch, hK.shift hc (by omega), fun v hv => ?_, Iff.rfl⟩, rfl⟩
  · simp only [Watchdog.adjust, if_neg hem, hf, hadd]
    rfl
  · have hd := (hK.good.on.due_head hc (s.clock.timers.delta w + units) hv).1 rfl
    have hpos := hA v hv
    change 0 < due (s.clock.timers.setDelta w (s.clock.timers.delta w + units)).delta (ch .seconds) v
    unfold left at hpos
    omega

section

variable (hr : ∀ w s, Acts w₀ P s (routine w s))

include hr

theorem Settled.adjust (hP : ∀ a, P a → IsCancel a) (seconds : UInt32) :
    ∃ fuel s', (if seconds < s.seconds then
        Watchdog.adjust bearer.host (fire routine) .seconds .backward (s.seconds - seconds).toNat fuel s
      else Watchdog.adjust bearer.host (fire routine) .seconds .forward (seconds - s.seconds).toNat fuel s) =
        some s' ∧ Lands w₀ s s' ch seconds.toNat (seconds.toNat + 1) := by
  have hK := h.kept.mono (Nat.zero_le (seconds.toNat + 1))
  have hem : Chain.isEmpty (bearer.host.timers s).links .seconds = true ↔ _ := hK.isEmpty_iff
  by_cases hn : ch .seconds = []
  · have hadj : ∀ dir units, Watchdog.adjust bearer.host (fire routine) .seconds dir units 0 s = some s :=
      fun _ _ => if_pos (hem.mpr hn)
    refine ⟨0, s, ?_, ⟨ch, hK.of_nil hn, h.ahead, Iff.rfl⟩, rfl⟩
    simp only [hadj, ite_self]
  · by_cases hlt : seconds < s.seconds
    · have hle := UInt32.le_of_lt hlt
      have hle' := UInt32.le_iff_toNat_le.mp hle
      simp only [if_pos hlt, UInt32.toNat_sub_of_le _ _ hle]
      rw [show s.seconds.toNat = seconds.toNat + (s.seconds.toNat - seconds.toNat) by omega] at hK
      obtain ⟨s', he, hL⟩ := hK.adjustBackward h.ahead hn
      exact ⟨0, s', he, hL⟩
    · have hle := UInt32.not_lt.mp hlt
      have hle' := UInt32.le_iff_toNat_le.mp hle
      simp only [if_neg hlt, UInt32.toNat_sub_of_le _ _ hle]
      obtain ⟨fuel, s', he, hL⟩ := hK.adjustForward h.ahead hr hP
        (show s.seconds.toNat + (seconds.toNat - s.seconds.toNat) = seconds.toNat by omega)
        (Nat.lt_succ_self _) seconds.toNat_lt hn
      exact ⟨fuel, s', (if_neg fun he => hn (hem.mp he)).trans he, hL⟩

theorem Settled.clockSet (hP : ∀ a, P a → IsCancel a) (tod : Control) :
    ∃ fuel s' status ch', s.clockSet routine w₀ fuel tod = some (s', status) ∧ Settled w₀ s' ch' := by
  by_cases hv : s.clock.calendar.validate tod
  · obtain ⟨ch1, h1, hw⟩ := h.deactivate
    obtain ⟨f1, s2, he2, ⟨ch2, hK2, hA2, ht2⟩, hcal⟩ := h1.adjust hr hP (toSeconds tod)
    -- the calendar is set when the chain stands at the new second
    have hK3 : Kept w₀ (bearer.setCalendar (s2.clock.calendar.set tod (toSeconds tod)) s2) ch2
        (toSeconds tod).toNat ((toSeconds tod).toNat + 1) :=
      ⟨hK2.good, hK2.ticks, hK2.spare, hK2.active, hK2.pending, hK2.rung⟩
    obtain ⟨f2, s3, ch3, he3, h3⟩ := hK3.conclude hA2 (fun hm => hw (ht2.mp hm))
      (if s2.clock.calendar.ticksPerSecond > s2.clock.calendar.current.ticks then
        s2.clock.calendar.ticksPerSecond - s2.clock.calendar.current.ticks
      else s2.clock.calendar.ticksPerSecond)
    refine ⟨f1 + f2, s3.settle, .successful, ch3, ?_, h3⟩
    refine map_eq_some_iff.mpr ⟨(s3, .successful), ?_, rfl⟩
    refine (if_pos hv).trans (map_eq_some_iff.mpr ⟨s3, ?_, rfl⟩)
    refine bind_eq_some_iff.mpr ⟨s2, Bearer.adjusted_mono f2 he2, ?_⟩
    rw [Nat.add_comm]
    exact Bearer.activate_mono f1 he3
  · refine ⟨0, s.settle, .invalidClock, ch, ?_, (h.kept.mono (Nat.zero_le _)).settle h.ahead⟩
    refine map_eq_some_iff.mpr ⟨(s, .invalidClock), if_neg hv, rfl⟩

/-! ## Runs -/

omit hr in
theorem Settled.of_second {fuel}
    (hr : ∀ w s, Acts w₀ (fun _ => True) s (routine w s)) (he : s.second routine w₀ fuel = some s') :
    ∃ ch', Settled w₀ s' ch' := by
  obtain ⟨k, s1, ch1, he1, h1⟩ := h.second hr
  obtain ⟨t, ht, rfl⟩ := map_eq_some_iff.mp he
  obtain ⟨t1, ht1, rfl⟩ := map_eq_some_iff.mp he1
  have hm := Bearer.tickle_mono k ht
  rw [Nat.add_comm, Bearer.tickle_mono fuel ht1] at hm
  exact ⟨ch1, some.inj hm ▸ h1⟩

theorem Settled.of_clockSet {fuel tod status} (hP : ∀ a, P a → IsCancel a)
    (he : s.clockSet routine w₀ fuel tod = some (s', status)) : ∃ ch', Settled w₀ s' ch' := by
  obtain ⟨k, s1, status1, ch1, he1, h1⟩ := h.clockSet hr hP tod
  obtain ⟨t, ht, hs⟩ := map_eq_some_iff.mp he
  obtain ⟨t1, ht1, hs1⟩ := map_eq_some_iff.mp he1
  have hm := Bearer.clockSet_mono k ht
  rw [Nat.add_comm, Bearer.clockSet_mono fuel ht1] at hm
  rw [some.inj hm] at hs1
  obtain rfl := (Prod.mk.inj (hs1.symm.trans hs)).1
  exact ⟨ch1, h1⟩

end

end

theorem settled_start {c T fuel n}
    (hT : Good T fun _ => []) (he : Clock.handlerInitialization w₀ fuel n T = some c) :
    ∃ ch, Settled w₀ ⟨c, fun _ => none⟩ ch := by
  have hK : Kept w₀ ⟨⟨Calendar.handlerInitialization n, initializeTimer T w₀⟩, fun _ => none⟩ (fun _ => []) 0 0 :=
    ⟨hT.initializeTimer w₀, by simp, rfl, by simp, by simp, by simp⟩
  obtain ⟨k, s, ch, hs, hK', hA, hcal⟩ := hK.activate (by simp [Ahead]) (by simp)
    (Calendar.handlerInitialization n).ticksPerSecond
  have he : bearer.activate w₀ fuel (Calendar.handlerInitialization n).ticksPerSecond
      ⟨⟨Calendar.handlerInitialization n, initializeTimer T w₀⟩, fun _ => none⟩ =
        some ⟨c, fun _ => none⟩ := map_eq_some_iff.mpr ⟨c, he, rfl⟩
  have hm := Bearer.activate_mono k he
  rw [Nat.add_comm, Bearer.activate_mono fuel hs] at hm
  cases hm
  have hz : (⟨c, fun _ => none⟩ : Alarms α).seconds = 0 := by
    rw [seconds, hcal]
    rfl
  refine ⟨ch, ?_, hA⟩
  rw [hz]
  exact hK'

theorem Reachable.settled {n T} (hT : Good T fun _ => [])
    (h : Reachable w₀ IsCancel n T s) : ∃ ch, Settled w₀ s ch := by
  induction h with
  | start he => exact settled_start hT he
  | act _ hp ih =>
    obtain ⟨ch, h⟩ := ih
    exact h.performs hp
  | second _ hr he ih =>
    obtain ⟨ch, h⟩ := ih
    exact h.of_second hr he
  | clockSet _ hr he ih =>
    obtain ⟨ch, h⟩ := ih
    exact h.of_clockSet hr (fun _ => id) he

/-- If clock changes arm no timer, a routine is called once, in time. -/
theorem alarm_rings_once {n : UInt32} {T : Timers ChainName α} (hT : Good T fun _ => [])
    (h : Reachable w₀ IsCancel n T s) :
    (∀ w a, s.alarm w = some a → a.calls = if a.passed then 1 else 0) ∧
    (∀ routine, (∀ w s, Acts w₀ (fun _ => True) s (routine w s)) →
      ∃ fuel s', s.second routine w₀ fuel = some s') ∧
    ∀ routine tod, (∀ w s, Acts w₀ IsCancel s (routine w s)) →
      ∃ fuel r, s.clockSet routine w₀ fuel tod = some r := by
  obtain ⟨ch, h⟩ := h.settled hT
  refine ⟨fun w a ha => ?_, fun routine hr => ?_, fun routine tod hr => ?_⟩
  · by_cases hw : w ∈ ch .seconds
    · obtain ⟨t, ht, -⟩ := h.kept.pending w hw
      obtain rfl := some.inj (ha.symm.trans ht)
      rfl
    · obtain ⟨hc, hp⟩ := h.passed hw ha
      rw [hc, hp]
      rfl
  · obtain ⟨fuel, s', -, he, -⟩ := h.second hr
    exact ⟨fuel, s', he⟩
  · obtain ⟨fuel, s', status, -, he, -⟩ := h.clockSet hr (fun _ => id) tod
    exact ⟨fuel, _, he⟩

/-! ## Two alarms -/

def atSecond (n : UInt32) : Control := ⟨1988, 1, 1, 0, 0, n, 0⟩

def idleRoutine (_ : Option Bool) (s : Alarms (Option Bool)) : Alarms (Option Bool) := s

def armsSecond (w : Option Bool) (s : Alarms (Option Bool)) : Alarms (Option Bool) :=
  if w = some false then
    ((s.clock.fireWhen 9 (some true) (atSecond 16)).map (s.armed (some true) (atSecond 16))).getD s
  else s

theorem armsSecond_acts (w : Option Bool) (s : Alarms (Option Bool)) :
    Acts none (fun _ => True) s (armsSecond w s) := by
  unfold armsSecond
  split
  · cases he : s.clock.fireWhen 9 (some true) (atSecond 16) with
    | none => exact .refl
    | some r => exact .single ⟨_, trivial, .fireWhen (by simp) he⟩
  · exact .refl

def firstArmed : Option (Alarms (Option Bool)) :=
  (Clock.handlerInitialization none 9 1000000 .idle).bind fun c =>
    (Alarms.clockSet idleRoutine none 9 (atSecond 1) ⟨c, fun _ => none⟩).bind fun r =>
      (r.1.clock.fireWhen 9 (some false) (atSecond 11)).map (r.1.armed (some false) (atSecond 11))

theorem firstArmed_reachable {s} (P : Action (Option Bool) → Prop)
    (h : firstArmed = some s) : Reachable none P 1000000 .idle s := by
  obtain ⟨c, hc, h⟩ := bind_eq_some_iff.mp h
  obtain ⟨r, hr, h⟩ := bind_eq_some_iff.mp h
  obtain ⟨q, hq, rfl⟩ := map_eq_some_iff.mp h
  have h1 : Reachable none P 1000000 .idle r.1 := .clockSet (.start hc) (fun _ _ => .refl) hr
  exact h1.act (.fireWhen (by simp) hq)

def setForward (routine : Option Bool → Alarms (Option Bool) → Alarms (Option Bool)) :
    Option (Alarms (Option Bool) × Status) :=
  firstArmed.bind fun s => s.clockSet routine none 9 (atSecond 21)

theorem alarm_rings_once_firstArmed : ∃ s a, Reachable none IsCancel 1000000 .idle s ∧
    s.alarm (some false) = some a ∧ a.passed = true ∧ a.calls = 1 := by
  have hv : (setForward idleRoutine).map (fun r => r.1.alarm (some false)) = some (some ⟨11, 1, true⟩) := by
    decide +kernel
  obtain ⟨r, hr, ha⟩ := map_eq_some_iff.mp hv
  obtain ⟨s, hs, hr⟩ := bind_eq_some_iff.mp hr
  have h : Reachable none IsCancel 1000000 .idle r.1 :=
    .clockSet (firstArmed_reachable _ hs) (fun _ _ => .refl) hr
  exact ⟨r.1, _, h, ha, rfl, (alarm_rings_once .idle h).1 _ _ ha⟩

/-- A timer armed by a routine is called too late. -/
theorem clock_change_delays_alarm : ∃ s a, Reachable none (fun _ => True) 1000000 .idle s ∧
    s.alarm (some true) = some a ∧ s.seconds = 21 ∧ a.time = 16 ∧ a.passed = true ∧ a.calls = 0 := by
  have hv : (setForward armsSecond).map (fun r => (r.1.alarm (some true), r.1.seconds)) =
      some (some ⟨16, 0, true⟩, 21) := by decide +kernel
  obtain ⟨r, hr, hv⟩ := map_eq_some_iff.mp hv
  obtain ⟨s, hs, hr⟩ := bind_eq_some_iff.mp hr
  obtain ⟨ha, hn⟩ := Prod.mk.inj hv
  exact ⟨r.1, _, .clockSet (firstArmed_reachable _ hs) armsSecond_acts hr, ha, hn, rfl, rfl, rfl⟩

end Rtems.Tod.Alarms
