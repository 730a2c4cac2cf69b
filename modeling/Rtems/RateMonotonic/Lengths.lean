import Rtems.RateMonotonic.Theorems

/-! # How long periods last -/

namespace Rtems.RateMonotonic

open Function Transition
open Option (ite_some_none_eq_some map_eq_some_iff)

variable {P T : Type*} [DecidableEq P]

structure Clocked (P T : Type*) where
  system : System P T
  now : Nat
  begun : P → Nat
  asked : P → Nat

namespace Clocked

def initial (owner : P → T) (executing : T) : Clocked P T :=
  ⟨.initial owner executing, 0, fun _ => 0, fun _ => 0⟩

def note (c : Clocked P T) : Move P T → Clocked P T
  | .tick expired =>
    { c with now := c.now + 1, begun := fun p => if p ∈ expired then c.now + 1 else c.begun p }
  | .advance =>
    match c.system.call with
    | some (p, .test length) =>
      if (c.system.period p).state = .active then { c with asked := update c.asked p length } else c
    | some (p, .insert length _) =>
      { c with begun := update c.begun p c.now, asked := update c.asked p length }
    | _ => c
  | _ => c

/-- A call for an active period asks for the length that it has. -/
def matching (c : Clocked P T) : Move P T → Bool
  | .advance =>
    match c.system.call with
    | some (p, .test length) => (c.system.period p).state = .active → length = (c.system.period p).initial
    | _ => true
  | _ => true

variable [DecidableEq T] [Fintype P]

def step (c : Clocked P T) (m : Move P T) : Option (Clocked P T) :=
  (c.system.step m).map fun s => { c.note m with system := s }

def Even (c : Clocked P T) (m : Move P T) : Prop := Timely c.system m ∧ c.matching m = true

instance (c : Clocked P T) (m : Move P T) : Decidable (c.Even m) := inferInstanceAs (Decidable (_ ∧ _))

end Clocked

/-! ## The timers -/

def Point.length : Point → Option Nat
  | .test length | .activate length _ | .insert length _ => some length
  | _ => none

structure Paced (c : Clocked P T) : Prop where
  timer : ∀ {p r}, (c.system.period p).remaining = some r →
    (0 < r ∧ r ≤ c.asked p) ∧ (c.system.period p).initial = c.asked p ∧ c.now + r = c.begun p + c.asked p
  length : ∀ {p pt}, c.system.call = some (p, pt) → pt.length ≠ some 0

variable {c c' : Clocked P T} {s : System P T} {p : P} {m : Move P T}

omit [DecidableEq P] in
theorem Paced.frame (h : Paced c)
    (hp : ∀ p, (s.period p).remaining = none ∨ (s.period p).initial = (c.system.period p).initial ∧
      (s.period p).remaining = (c.system.period p).remaining)
    (hc : ∀ {p pt}, s.call = some (p, pt) → pt.length ≠ some 0) : Paced { c with system := s } := by
  refine ⟨fun {p r} hr => ?_, hc⟩
  rcases hp p with hn | ⟨hi, he⟩
  · cases hn.symm.trans hr
  · obtain ⟨h0, ha, hb⟩ := h.timer (he.symm.trans hr)
    exact ⟨h0, hi.trans ha, hb⟩

theorem setPeriodState_timer (state : PeriodState) (q : P) :
    ((s.setPeriodState p state).period q).initial = (s.period q).initial ∧
      ((s.setPeriodState p state).period q).remaining = (s.period q).remaining := by
  by_cases hq : q = p
  · subst hq
    simp [System.setPeriodState, System.modifyPeriod]
  · simp [System.setPeriodState, System.modifyPeriod, hq]

theorem Paced.ask {length} (h : Paced c) (hl : length = (c.system.period p).initial) :
    Paced { c with asked := update c.asked p length } := by
  refine ⟨fun {q r} hr => ?_, h.length⟩
  have ht := h.timer hr
  have ha : update c.asked p length q = c.asked q := by
    by_cases hq : q = p
    · subst hq
      rw [update_self, hl, ht.2.1]
    · exact update_of_ne hq ..
  dsimp only
  rw [ha]
  exact ht

variable [DecidableEq T]

theorem timeouts_timer {l : List P} (hl : l.Nodup) :
    ((l.foldl System.timeout s).period p).initial = (s.period p).initial ∧
      (p ∉ l ∧ ((l.foldl System.timeout s).period p).remaining = (s.period p).remaining ∨
        p ∈ l ∧ (((l.foldl System.timeout s).period p).remaining = some (s.period p).initial ∨
          ((l.foldl System.timeout s).period p).remaining = none ∧ s.waits p = false)) := by
  induction l generalizing s with
  | nil => exact ⟨rfl, Or.inl ⟨List.not_mem_nil, rfl⟩⟩
  | cons q l ih =>
    obtain ⟨hq, hl⟩ := List.nodup_cons.mp hl
    obtain ⟨hi, hr⟩ := ih (s := s.timeout q) hl
    by_cases hqp : p = q
    · subst hqp
      have hr := (hr.resolve_right fun h => hq h.1).2
      rw [List.foldl_cons, hi, hr]
      unfold System.timeout
      split <;> rename_i hw
      · simp [System.modifyPeriod, System.modifyThread]
      · split
        · simp [System.modifyPeriod]
        · simpa [System.modifyPeriod] using hw
    · obtain ⟨hper, hw⟩ := System.timeout_other (s := s) hqp
      rw [hper] at hi hr
      refine ⟨hi, hr.imp (fun h => ⟨?_, h.2⟩) fun h => ⟨List.mem_cons_of_mem q h.1, h.2.imp id fun h => ⟨h.1, ?_⟩⟩⟩
      · exact fun hm => (List.mem_cons.mp hm).elim hqp h.1
      · exact Bool.eq_false_iff.mpr fun hx => Bool.eq_false_iff.mp h.2 (hw hx)

theorem Paced.tick {expired : List P} (h : Paced c) (hn : expired.Nodup)
    (hx : ∀ p, p ∈ expired ↔ (c.system.period p).remaining = some 1) :
    Paced { c.note (.tick expired) with system := c.system.tick expired } := by
  have hcall : (c.system.tick expired).call = c.system.call := by
    suffices ∀ (l : List P) (s : System P T), (l.foldl System.timeout s).call = s.call from this _ _
    intro l
    induction l with
    | nil => exact fun _ => rfl
    | cons p l ih =>
      intro s
      refine (ih _).trans ?_
      unfold System.timeout
      split
      · rfl
      · split <;> rfl
  refine ⟨fun {p r} hr => ?_, fun hc => h.length (hcall.symm.trans hc)⟩
  obtain ⟨hi, ht⟩ := timeouts_timer (s := c.system.count) hn
  dsimp only [Clocked.note]
  rcases ht with ⟨hp, ht⟩ | ⟨hp, ht | ⟨ht, -⟩⟩
  · obtain ⟨r0, hr0, rfl⟩ := map_eq_some_iff.mp (ht.symm.trans hr)
    obtain ⟨h0, ha, hb⟩ := h.timer hr0
    have h1 : r0 ≠ 1 := by
      rintro rfl
      exact hp ((hx p).mpr hr0)
    rw [if_neg hp]
    exact ⟨by omega, hi.trans ha, by omega⟩
  · obtain ⟨h0, ha, hb⟩ := h.timer ((hx p).mp hp)
    have hr : (c.system.period p).initial = r := Option.some.inj (ht.symm.trans hr)
    rw [if_pos hp]
    exact ⟨by omega, hi.trans ha, by omega⟩
  · cases ht.symm.trans hr

theorem Paced.advance {pt} (h : Paced c) (hc : c.system.call = some (p, pt))
    (hm : c.matching .advance = true) : Paced { c.note .advance with system := c.system.advance p pt } := by
  have h0 := h.length hc
  unfold Clocked.matching at hm
  unfold Clocked.note
  rw [hc] at hm ⊢
  cases pt with
  | test length =>
    have hm := of_decide_eq_true hm
    have goes {pt : Point} (hpt : pt.length = some length) :
        ∀ {q pt'}, (c.system.goto p pt).call = some (q, pt') → pt'.length ≠ some 0 := by
      intro q pt' he
      cases he
      rw [hpt]
      exact h0
    unfold System.advance
    dsimp only
    split <;> rename_i hs
    · rw [if_neg (by rw [hs]; simp)]
      exact h.frame (fun _ => Or.inr ⟨rfl, rfl⟩) (goes rfl)
    · rw [if_pos hs]
      refine (h.ask (hm hs)).frame (fun q => Or.inr (setPeriodState_timer _ q)) fun he => ?_
      cases he
      simp [Point.length]
    · rw [if_neg (by rw [hs]; simp)]
      exact h.frame (fun _ => Or.inr ⟨rfl, rfl⟩) (goes rfl)
    all_goals
      rw [if_neg (by rw [hs]; simp)]
      exact h.frame (fun _ => Or.inr ⟨rfl, rfl⟩) (by intro _ _ he; cases he)
  | insert length status =>
    refine ⟨fun {q r} hr => ?_, by intro _ _ he; cases he⟩
    by_cases hq : q = p
    · subst hq
      simp only [System.advance, System.finish, System.modifyPeriod, update_self, Option.some.injEq] at hr ⊢
      subst hr
      exact ⟨⟨Nat.pos_of_ne_zero fun h => h0 (congrArg some h), le_refl _⟩, trivial, rfl⟩
    · simp only [System.advance, System.finish, System.modifyPeriod, update_of_ne hq] at hr ⊢
      exact h.timer hr
  | activate length status =>
    refine h.frame (fun q => Or.inr (setPeriodState_timer _ q)) fun he => ?_
    cases he
    exact h0
  | readState =>
    refine h.frame (fun q => Or.inr (setPeriodState_timer _ q)) fun he => ?_
    cases he
    simp [Point.length]
  | clearState state =>
    refine h.frame (fun q => Or.inr ?_) (by intro _ _ he; cases he)
    unfold System.advance
    dsimp only
    split <;> exact ⟨rfl, rfl⟩
  | setWaitId | setState =>
    refine h.frame (fun _ => Or.inr ⟨rfl, rfl⟩) fun he => ?_
    cases he
    simp [Point.length]

/-! ## The owner -/

omit [DecidableEq T] in
theorem waits_goto {q pt} : (s.goto q pt).waits p = s.waits p := rfl

theorem waits_modifyThread {t f} (hw : s.waits p = true)
    (hf : s.isWaitingForPeriod t = true → States.areSet (f (s.thread t)).currentState States.waitingForPeriod = true ∧
      (f (s.thread t)).waitId = (s.thread t).waitId) : (s.modifyThread t f).waits p = true := by
  have hw := of_decide_eq_true hw
  refine decide_eq_true ?_
  by_cases ht : s.owner p = t
  · subst ht
    obtain ⟨h1, h2⟩ := hf hw.1
    simpa [System.isWaitingForPeriod, System.modifyThread, h2] using And.intro h1 hw.2
  · simpa [System.isWaitingForPeriod, System.modifyThread, ht] using hw

theorem waits_timeouts {l : List P} (hw : s.waits p = true) (hp : p ∉ l) :
    (l.foldl System.timeout s).waits p = true := by
  induction l generalizing s with
  | nil => exact hw
  | cons q l ih =>
    obtain ⟨hq, hl⟩ := not_or.mp (List.mem_cons.not.mp hp)
    exact ih ((System.timeout_other hq).2 hw) hl

variable [Fintype P]

theorem waits_step {s' : System P T} (h : Sound s) (he : s.step m = some s') (hw : s.waits p = true) :
    s'.waits p = true ∨ (∃ expired, m = .tick expired ∧ p ∈ expired) ∨
      m = .advance ∧ s.call = some (p, .clearState .expiredWhileBlocking) := by
  cases m with
  | switch t =>
    obtain ⟨-, rfl⟩ := ite_some_none_eq_some.mp he
    exact Or.inl hw
  | ratePeriod q length =>
    obtain ⟨-, rfl⟩ := ite_some_none_eq_some.mp he
    unfold System.ratePeriod
    split_ifs <;> exact Or.inl hw
  | cancel q =>
    obtain ⟨-, rfl⟩ := ite_some_none_eq_some.mp he
    unfold System.cancel
    split_ifs <;> exact Or.inl hw
  | advance =>
    obtain ⟨⟨q, pt⟩, hc, rfl⟩ := map_eq_some_iff.mp he
    cases pt with
    | test length =>
      left
      unfold System.advance
      dsimp only
      split <;> exact hw
    | activate | insert | readState => exact Or.inl hw
    | setWaitId | setState =>
      left
      unfold System.advance
      rw [waits_goto]
      exact waits_modifyThread hw fun hx => absurd hx (Bool.eq_false_iff.mp (h.awake hc rfl))
    | clearState state =>
      unfold System.advance
      dsimp only
      split <;> rename_i hs
      · subst hs
        by_cases ho : s.owner p = s.executing
        · have hi := h.identified hc rfl
          rw [← ho, (of_decide_eq_true hw).2] at hi
          cases hi
          exact Or.inr (Or.inr ⟨rfl, hc⟩)
        · refine Or.inl (decide_eq_true ?_)
          simpa [System.finish, System.isWaitingForPeriod, System.modifyThread, ho] using of_decide_eq_true hw
      · exact Or.inl hw
  | tick expired =>
    obtain ⟨-, rfl⟩ := ite_some_none_eq_some.mp he
    by_cases hp : p ∈ expired
    · exact Or.inr (Or.inl ⟨expired, rfl, hp⟩)
    · exact Or.inl (waits_timeouts (s := s.count) hw hp)
  | block state waitId =>
    obtain ⟨⟨-, hr, -⟩, rfl⟩ := ite_some_none_eq_some.mp he
    refine Or.inl (waits_modifyThread hw fun hx => ?_)
    have hr : (s.thread s.executing).currentState = States.ready := of_decide_eq_true hr
    rw [System.isWaitingForPeriod, hr] at hx
    cases hx
  | unblock t =>
    obtain ⟨hn, he⟩ := Option.ite_none_left_eq_some.mp he
    cases he
    exact Or.inl (waits_modifyThread hw fun hx => absurd hx hn)
  | suspend t =>
    cases he
    exact Or.inl (waits_modifyThread hw fun hx => ⟨(areSet_set (by decide)).trans hx, rfl⟩)
  | resume t =>
    cases he
    exact Or.inl (waits_modifyThread hw fun hx => ⟨(areSet_clear (by decide)).trans hx, rfl⟩)

/-! ## Every run -/

theorem Paced.step (h : Paced c) (hE : c.Even m) (he : c.step m = some c') : Paced c' := by
  obtain ⟨s, hs, rfl⟩ := map_eq_some_iff.mp he
  cases m with
  | advance =>
    obtain ⟨⟨q, pt⟩, hc, rfl⟩ := map_eq_some_iff.mp hs
    exact h.advance hc hE.2
  | tick expired =>
    obtain ⟨⟨hn, hx⟩, rfl⟩ := ite_some_none_eq_some.mp hs
    exact h.tick hn hx
  | ratePeriod q length =>
    obtain ⟨-, rfl⟩ := ite_some_none_eq_some.mp hs
    unfold System.ratePeriod
    split_ifs with ho hl
    · exact h.frame (fun _ => Or.inr ⟨rfl, rfl⟩) fun hc => nomatch hc
    · exact h.frame (fun _ => Or.inr ⟨rfl, rfl⟩) fun hc => nomatch hc
    · refine h.frame (fun _ => Or.inr ⟨rfl, rfl⟩) fun hc => ?_
      cases hc
      simpa [Point.length] using hl
  | cancel q =>
    obtain ⟨-, rfl⟩ := ite_some_none_eq_some.mp hs
    unfold System.cancel
    split_ifs
    · exact h.frame (fun _ => Or.inr ⟨rfl, rfl⟩) fun hc => nomatch hc
    · refine h.frame (fun p => ?_) fun hc => nomatch hc
      by_cases hp : p = q
      · simp [System.finish, System.modifyPeriod, hp]
      · simp [System.finish, System.modifyPeriod, hp]
  | switch t | block state waitId =>
    obtain ⟨-, rfl⟩ := ite_some_none_eq_some.mp hs
    exact h.frame (fun _ => Or.inr ⟨rfl, rfl⟩) h.length
  | unblock t =>
    obtain ⟨-, he⟩ := Option.ite_none_left_eq_some.mp hs
    cases he
    exact h.frame (fun _ => Or.inr ⟨rfl, rfl⟩) h.length
  | suspend t | resume t =>
    cases hs
    exact h.frame (fun _ => Or.inr ⟨rfl, rfl⟩) h.length

theorem period_lasts {owner : P → T} {executing : T}
    (h : Steps Clocked.step Clocked.Even (.initial owner executing) c) (p : P) :
    (∀ r, (c.system.period p).remaining = some r → c.now + r = c.begun p + c.asked p) ∧
      ∀ m c', c.step m = some c' → c.system.waits p = true → c'.system.waits p = true ∨
        (∃ expired, m = .tick expired ∧ p ∈ expired ∧ c'.now = c.begun p + c.asked p ∧ c'.begun p = c'.now ∧
          (c'.system.period p).remaining = some (c.asked p) ∧
          c'.system.isWaitingForPeriod (c.system.owner p) = false) ∨
        m = .advance ∧ c.system.call = some (p, .clearState .expiredWhileBlocking) := by
  obtain ⟨hS, hP⟩ := h.invariant (I := fun c => Sound c.system ∧ Paced c) (fun {c m c'} hI hE he => by
    refine ⟨?_, hI.2.step hE he⟩
    obtain ⟨s, hs, rfl⟩ := Option.map_eq_some_iff.mp he
    exact hI.1.step hE.1 hs) ⟨.initial, fun hr => (nomatch hr), fun hc => nomatch hc⟩
  refine ⟨fun r hr => (hP.timer hr).2.2, fun m c' he hw => ?_⟩
  obtain ⟨s, hs, rfl⟩ := Option.map_eq_some_iff.mp he
  rcases waits_step hS hs hw with hw | ⟨expired, rfl, hp⟩ | ha
  · exact Or.inl hw
  · obtain ⟨⟨hn, hx⟩, rfl⟩ := Option.ite_some_none_eq_some.mp hs
    have ht := hP.timer ((hx p).mp hp)
    refine Or.inr (Or.inl ⟨expired, rfl, hp, ht.2.2, if_pos hp, ?_, ?_⟩)
    · rcases (timeouts_timer (s := c.system.count) hn).2 with ⟨hn, -⟩ | ⟨-, hr | ⟨-, hn⟩⟩
      · exact absurd hp hn
      · exact hr.trans (congrArg some ht.2.1)
      · cases hn.symm.trans hw
    · exact System.timeouts_release (s := c.system.count) hp hw
  · exact Or.inr (Or.inr ha)

def waitOnce (length : Nat) : List (Move Unit Bool) :=
  [.ratePeriod () 2, .advance, .advance, .advance, .tick [], .ratePeriod () length, .advance, .advance, .advance,
    .advance, .advance, .tick [()]]

def clocked : Clocked Unit Bool := .initial (fun _ => false) false

theorem period_lasts_waitOnce : ∃ c, run (checked Clocked.step Clocked.Even) (waitOnce 2) clocked = some c ∧
    ∀ r, (c.system.period ()).remaining = some r → c.now + r = c.begun () + c.asked () := by
  have h : (run (checked Clocked.step Clocked.Even) (waitOnce 2) clocked).isSome = true := by decide +kernel
  obtain ⟨c, hc⟩ := Option.isSome_iff_exists.mp h
  exact ⟨c, hc, (period_lasts (Steps.refl.run_checked hc) ()).1⟩

theorem period_keeps_length : (run Clocked.step (waitOnce 5) clocked).map (fun c =>
    (c.asked (), c.system.waits (), (c.system.period ()).remaining)) = some (5, false, some 2) := by
  decide +kernel

end Rtems.RateMonotonic
