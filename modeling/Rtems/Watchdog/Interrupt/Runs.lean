import Rtems.Watchdog.Interrupt.Theorems

/-! # Timers with calls in progress -/

namespace Rtems.Watchdog

open Function Intrusive DeltaList

variable {H α : Type*} [DecidableEq H] [DecidableEq α] {T T' : Timers H α} {ch : H → List α}
  {clock : H → Nat} {c : Call H α} {f : Frame H α} {fs : List (Frame H α)} {l : Nat} {h : H} {w : α}

def Runs (T : Timers H α) (fs : List (Frame H α)) : Prop :=
  ∃ clock expiry ch, Sound (⟨T, fs, clock, expiry⟩ : Machine H α) ch

theorem Waiting.congr (hW : Waiting T ch clock c) (hi : T'.initial = T.initial)
    (hs : T'.state c.timer = T.state c.timer) (hd : T'.delta = T.delta) (hl : T'.syncLevel = T.syncLevel) :
    Waiting T' ch clock c :=
  ⟨hi ▸ hW.interval, hW.called_le, hs.trans hW.state, hW.entry, hW.marked, hW.restart,
    fun hp => hi ▸ hW.loaded hp, fun hp => by rw [hi, hd, hl]; exact hW.flash hp, hW.done⟩

theorem map_note (hw : ∀ c, .insert c ∈ fs → c.timer ≠ w) : fs.map (Frame.note w) = fs := by
  refine (List.map_congr_left fun f hf => ?_).trans (List.map_id fs)
  cases f with
  | body | tick => rfl
  | insert c =>
    have : (c.timer == w) = false := by simpa using hw c hf
    simp [Frame.note, this]

namespace Runs

theorem idle : Runs (Timers.idle : Timers H α) [.body 0] := by
  refine ⟨fun _ => 0, fun _ => none, fun _ => [], Machine.Initial.sound ?_⟩
  exact ⟨Good.idle.on, fun _ => rfl, Good.idle.delta_lt, rfl, rfl, fun _ => rfl⟩

theorem nest (hR : Runs T (f :: fs)) : T.isrNestLevel = f.level := by
  obtain ⟨_, _, _, hS⟩ := hR
  exact (hS.nest f rfl).symm

theorem interrupt (hR : Runs T (f :: fs)) :
    Runs { T with isrNestLevel := f.level + 1 } (.body (f.level + 1) :: f :: fs) := by
  obtain ⟨clock, expiry, ch, hS⟩ := hR
  obtain ⟨ch', hS'⟩ := hS.perform (m := .interrupt) rfl
  exact ⟨clock, expiry, ch', hS'⟩

theorem ret (hR : Runs T (.body l :: f :: fs)) : Runs { T with isrNestLevel := f.level } (f :: fs) := by
  obtain ⟨clock, expiry, ch, hS⟩ := hR
  obtain ⟨ch', hS'⟩ := hS.perform (m := .ret) rfl
  exact ⟨clock, expiry, ch', hS'⟩

theorem ret_level (hR : Runs T (.body l :: f :: fs)) (hl : f.level = l) : Runs T (f :: fs) := by
  have hn : f.level = T.isrNestLevel := hl.trans hR.nest.symm
  have hR' := hR.ret
  rw [hn] at hR'
  exact hR'

theorem state_remove (hR : Runs T fs) : (remove T w).1.state = update T.state w .inactive := by
  obtain ⟨_, _, ch, hS⟩ := hR
  obtain ⟨ch', hD⟩ := hS.good.drop (w := w) (hS.good.no_overflow hS.due_lt)
  exact hD.state

theorem remove (hR : Runs T (.body l :: fs)) (hw : ∀ c, .insert c ∈ fs → c.timer ≠ w) :
    Runs (remove T w).1 (.body l :: fs) := by
  obtain ⟨clock, expiry, ch, hS⟩ := hR
  obtain ⟨ch', hS'⟩ := hS.perform (m := .remove w) rfl
  refine ⟨clock, update expiry w none, ch', ?_⟩
  have hm : (Frame.body l :: fs).map (Frame.note w) = Frame.body l :: fs := by
    rw [List.map_cons, map_note hw]
    rfl
  rw [← hm]
  exact hS'

theorem deactivate (hR : Runs T fs) (hw : T.state w = .active) : Runs (deactivate T w) fs := by
  obtain ⟨clock, expiry, ch, hS⟩ := hR
  have hst : (Watchdog.deactivate T w).state = update T.state w .removeIt := Timers.state_setState
  have hd : (Watchdog.deactivate T w).delta = T.delta := Timers.delta_setState
  have hi : (Watchdog.deactivate T w).initial = T.initial := Timers.initial_setState
  refine ⟨clock, expiry, ch, ⟨hS.good.on, fun v => ?_, fun a => by rw [hd]; exact hS.good.delta_lt a⟩,
    by simp only [hd]; exact hS.due_lt, by simp only [hd]; exact hS.expiry, hS.unlinked,
    by simp only [hd]; exact hS.fresh, hS.nest, hS.count, hS.stacked, fun {c} hc => ?_⟩
  · rw [hS.good.linked_iff, hst]
    by_cases hv : v = w
    · subst hv
      simp [hw]
    · rw [update_of_ne hv]
  · have hW := hS.calls hc
    refine hW.congr hi ?_ hd rfl
    rw [hst]
    refine update_of_ne ?_ _ _
    rintro rfl
    have hs := hW.state
    simp only [hw] at hs
    split at hs <;> cases hs

theorem call {u} (hR : Runs T (.body l :: fs)) (h : H) (hs : T.state w = .inactive)
    (hw : ∀ f ∈ fs, f.timer ≠ some w) (h0 : 0 < u) (hu : u < 2 ^ 32) :
    ∃ c : Call H α, c.header = h ∧ c.timer = w ∧ c.point = .entry ∧ c.removed = false ∧
      Runs (T.setInitial w u) (.insert c :: .body l :: fs) := by
  obtain ⟨clock, expiry, ch, hS⟩ := hR
  have hS' := hS.call (h := h) (w := w) rfl hs
    (List.forall_mem_cons.mpr ⟨by simp [Frame.timer], hw⟩) h0 hu
  exact ⟨_, rfl, rfl, rfl, rfl, clock, expiry, ch, hS'⟩

theorem advance (hR : Runs T (.insert c :: fs)) (hr : c.removed = false) :
    (insertStep T c.header c.timer c.point).1.isrNestLevel = T.isrNestLevel ∧
    (∀ v ≠ c.timer, (insertStep T c.header c.timer c.point).1.state v = T.state v) ∧
    ((insertStep T c.header c.timer c.point).2 = .done ∧
        (insertStep T c.header c.timer c.point).1.state c.timer = .active ∧
        Runs (insertStep T c.header c.timer c.point).1 fs ∨
      (insertStep T c.header c.timer c.point).2 ≠ .done ∧ ∃ c' : Call H α, c'.header = c.header ∧
        c'.timer = c.timer ∧ c'.point = (insertStep T c.header c.timer c.point).2 ∧ c'.removed = false ∧
        Runs (insertStep T c.header c.timer c.point).1 (.insert c' :: fs)) := by
  obtain ⟨clock, expiry, ch, hS⟩ := hR
  have hW := hS.calls (c := c) (by simp)
  have hA := hW.advanced hS.good ((⟨T, .insert c :: fs, clock, expiry⟩ : Machine H α).began c) rfl
  obtain ⟨ch', hS'⟩ := hS.advance (c := c) rfl
  unfold Machine.advance at hS'
  generalize (⟨T, .insert c :: fs, clock, expiry⟩ : Machine H α).began c = b at hA hS'
  generalize insertStep T c.header c.timer c.point = r at hA hS' ⊢
  obtain ⟨T', p⟩ := r
  have hstate : T'.isrNestLevel = T.isrNestLevel ∧ (∀ v ≠ c.timer, T'.state v = T.state v) ∧
      (p = .done → T'.state c.timer = .active) := by
    cases hA with
    | enter hp hT =>
      subst hT
      exact ⟨rfl, fun v hv => by simp [hv], by simp⟩
    | count hp => exact ⟨rfl, fun v hv => rfl, by simp⟩
    | load hp => exact ⟨rfl, fun v hv => rfl, by simp⟩
    | walk => exact ⟨rfl, fun v hv => rfl, by simp⟩
    | link hp _ _ _ hL =>
      refine ⟨hL.nest, fun v hv => ?_, fun _ => ?_⟩
      · rw [hL.state, update_of_ne hv]
      · rw [hL.state, update_self]
    | again hp => exact ⟨rfl, fun v hv => rfl, by simp⟩
    | abandon hp hr' => simp [hr] at hr'
  refine ⟨hstate.1, hstate.2.1, ?_⟩
  by_cases hp : p = .done
  · subst hp
    exact Or.inl ⟨rfl, hstate.2.2 rfl, clock, _, ch', hS'⟩
  · refine Or.inr ⟨hp, { c with point := p, began := b }, rfl, rfl, rfl, hr, clock, expiry, ch', ?_⟩
    cases p with
    | done => exact absurd rfl hp
    | entry | marked | restart | loaded | flash => exact hS'

theorem state_inserting (hR : Runs T fs) (hc : .insert c ∈ fs) :
    T.state c.timer = .inactive ∨ T.state c.timer = .beingInserted := by
  obtain ⟨_, _, _, hS⟩ := hR
  have hs := (hS.calls hc).state
  split at hs
  · exact Or.inl hs
  · exact Or.inr hs

theorem not_inserting (hR : Runs T fs) (hw : T.state w = .active ∨ T.state w = .removeIt) (c : Call H α)
    (hc : .insert c ∈ fs) : c.timer ≠ w := by
  rintro rfl
  rcases hw with hw | hw <;> simpa [hw] using hR.state_inserting hc

theorem deactivate_remove (hR : Runs T (.body l :: fs)) (hw : T.state w = .active) :
    Runs (Watchdog.remove (Watchdog.deactivate T w) w).1 (.body l :: fs) ∧
      (Watchdog.remove (Watchdog.deactivate T w) w).1.state = update T.state w .inactive := by
  have hD := hR.deactivate hw
  have hst : (Watchdog.deactivate T w).state = update T.state w .removeIt := Timers.state_setState
  refine ⟨hD.remove fun c hc => hD.not_inserting (Or.inr (by simp [hst])) c (List.mem_cons_of_mem _ hc), ?_⟩
  rw [hD.state_remove, hst, update_idem]

theorem insertFrom {fuel} (hR : Runs T (.insert c :: fs)) (hr : c.removed = false)
    (he : Watchdog.insertFrom c.header c.timer fuel T c.point = some T') :
    Runs T' fs ∧ T'.state = update T.state c.timer .active := by
  induction fuel generalizing T c with
  | zero => cases he
  | succ fuel ih =>
    obtain ⟨-, hs, h⟩ := hR.advance hr
    generalize hi : insertStep T c.header c.timer c.point = r at hs h
    obtain ⟨T1, p⟩ := r
    rcases h with ⟨hp, ha, hR'⟩ | ⟨hp, c', hh, ht, hp', hr', hR'⟩
    · obtain rfl : p = .done := hp
      rw [insertFrom_done hi] at he
      cases he
      exact ⟨hR', eq_update_iff.mpr ⟨ha, hs⟩⟩
    · have hp' : c'.point = p := hp'
      rw [insertFrom_step hi hp, ← hh, ← ht, ← hp'] at he
      obtain ⟨hR'', hs'⟩ := ih hR' hr' he
      refine ⟨hR'', ?_⟩
      rw [hs', ht, update_eq_iff]
      exact ⟨by simp, fun v hv => by simp [hs v hv, hv]⟩

theorem insert {u fuel} (hR : Runs T (.body l :: fs)) (hs : T.state w = .inactive)
    (hw : ∀ f ∈ fs, f.timer ≠ some w) (h0 : 0 < u) (hu : u < 2 ^ 32)
    (he : Watchdog.insert T h w u fuel = some T') :
    Runs T' (.body l :: fs) ∧ T'.state = update T.state w .active := by
  obtain ⟨c, rfl, rfl, hp, hr, hR'⟩ := hR.call h hs hw h0 hu
  unfold Watchdog.insert at he
  rw [← hp] at he
  obtain ⟨hR'', hst⟩ := hR'.insertFrom hr he
  exact ⟨hR'', hst.trans (by rw [Timers.state_setInitial])⟩

end Runs

/-! ## A tick that no insertion interrupts -/

section Tick

variable {σ : Type*} {host : Host σ H α} {routine : α → σ → σ} {s s' : σ} {P : σ → Prop} {fuel : Nat}

structure Ticks (host : Host σ H α) (routine : α → σ → σ) (P : σ → Prop) : Prop where
  timers : ∀ s T, host.timers (host.setTimers s T) = T
  start : ∀ {s T}, P s → T.state = (host.timers s).state → T.isrNestLevel = (host.timers s).isrNestLevel →
    P (host.setTimers s T)
  quiet : ∀ {s w}, (host.timers s).state w = .inactive → host.timers (routine w s) = host.timers s
  round : ∀ {s w}, P s → (host.timers s).state w = .active ∨ (host.timers s).state w = .removeIt →
    (remove (host.timers s) w).1.state = update (host.timers s).state w .inactive →
    (remove (host.timers s) w).1.isrNestLevel = (host.timers s).isrNestLevel →
    P (tickleRound host routine s w)

theorem Ticks.runs_round (hT : Ticks host routine P)
    (hR : Runs (host.timers s) (.tick h (some w) l :: .body l :: fs))
    (hw : (host.timers s).state w = .active ∨ (host.timers s).state w = .removeIt) :
    (remove (host.timers s) w).1.isrNestLevel = (host.timers s).isrNestLevel ∧
    Runs (host.timers (tickleRound host routine s w)) (.tick h none l :: .body l :: fs) := by
  have hnote : (Frame.body l :: fs).map (Frame.note w) = Frame.body l :: fs :=
    map_note fun c hc => hR.not_inserting hw c (List.mem_cons_of_mem _ hc)
  have hst : (remove (host.timers s) w).1.state w = .inactive := by
    rw [hR.state_remove, update_self]
  have htm := timers_tickleRound hT.timers hT.quiet hst
  have hnest := hR.nest
  obtain ⟨clock, expiry, ch, hS⟩ := hR
  obtain ⟨ch', hS'⟩ := hS.tickleGo rfl
  unfold Machine.tickleGo at hS'
  simp only [hnote] at hS'
  rw [htm]
  by_cases ha : (remove (host.timers s) w).2 = .active
  · rw [if_pos ha] at hS'
    have hR' : Runs (remove (host.timers s) w).1 (.body l :: .tick h none l :: .body l :: fs) :=
      ⟨_, _, _, hS'⟩
    exact ⟨hR'.nest.trans hnest.symm, hR'.ret_level rfl⟩
  · rw [if_neg ha] at hS'
    have hR' : Runs (remove (host.timers s) w).1 (.tick h none l :: .body l :: fs) := ⟨_, _, _, hS'⟩
    exact ⟨hR'.nest.trans hnest.symm, hR'⟩

theorem Runs.tickleNext (hR : Runs T (.tick h none l :: fs)) :
    (∃ w, Watchdog.tickleNext T h = some w ∧ (T.state w = .active ∨ T.state w = .removeIt) ∧
      Runs T (.tick h (some w) l :: fs)) ∨
    Watchdog.tickleNext T h = none ∧ Runs T fs := by
  obtain ⟨clock, expiry, ch, hS⟩ := hR
  obtain ⟨ch', hS'⟩ := hS.tickleGo rfl
  unfold Machine.tickleGo at hS'
  rcases hS.good.tickleNext_eq h with ⟨w, k, hc, -, hn⟩ | ⟨-, hn⟩
  · simp only [hn] at hS'
    exact Or.inl ⟨w, hn, (hS.good.linked_iff w).mp ⟨h, by rw [hc]; simp⟩, _, _, _, hS'⟩
  · simp only [hn] at hS'
    exact Or.inr ⟨hn, _, _, _, hS'⟩

theorem Ticks.tickleLoop (hT : Ticks host routine P) (hP : P s)
    (hR : Runs (host.timers s) (.tick h (some w) l :: .body l :: fs))
    (hw : (host.timers s).state w = .active ∨ (host.timers s).state w = .removeIt)
    (he : tickleLoop host routine h fuel s w = some s') :
    P s' ∧ Runs (host.timers s') (.body l :: fs) := by
  induction fuel generalizing s w with
  | zero => cases he
  | succ fuel ih =>
    obtain ⟨hn, hR'⟩ := hT.runs_round hR hw
    have hP' := hT.round hP hw hR.state_remove hn
    rcases hR'.tickleNext with ⟨v, hv, hw', hR''⟩ | ⟨hv, hR''⟩
    · rw [tickleLoop_some hv] at he
      exact ih hP' hR'' hw' he
    · rw [tickleLoop_none hv] at he
      exact Option.some.inj he ▸ ⟨hP', hR''⟩

theorem Ticks.tickle (hT : Ticks host routine P) (hP : P s)
    (hR : Runs (host.timers s) (.body l :: fs)) (hf : ∀ f ∈ fs, f.ticks ≠ some h)
    (he : tickle host routine h fuel s = some s') : P s' ∧ Runs (host.timers s') (.body l :: fs) := by
  obtain ⟨clock, expiry, ch, hS⟩ := hR
  have hno : ∀ f ∈ (Frame.body l :: fs), f.ticks ≠ some h :=
    List.forall_mem_cons.mpr ⟨by simp [Frame.ticks], hf⟩
  obtain ⟨T', next, hs, hTk, hnext⟩ := hS.good.tickleStart_spec (hS.fresh h hno)
  have hS' := hS.tick (h := h) rfl hno
  unfold Machine.tick at hS'
  simp only [hs] at hS'
  have hP' : P (host.setTimers s T') := hT.start hP hTk.state hTk.nest
  have hR' : Runs T' ((next.map fun w => Frame.tick h (some w) l).toList ++ .body l :: fs) :=
    ⟨_, _, _, hS'⟩
  rcases hnext with ⟨rfl, -⟩ | ⟨w, k, rfl, hc, -⟩
  · rw [tickle_of_none hs] at he
    cases he
    rw [hT.timers]
    exact ⟨hP', hR'⟩
  · rw [tickle_of_some hs] at he
    refine hT.tickleLoop hP' (by rw [hT.timers]; exact hR') ?_ he
    rw [hT.timers, hTk.state]
    exact (hS.good.linked_iff w).mp ⟨h, by rw [hc]; simp⟩

end Tick

end Rtems.Watchdog
