import Rtems.RateMonotonic.Model

/-! # Waiting for a period -/

namespace Rtems.RateMonotonic


open Function Transition Option

section

variable {x y m : States}

theorem areSet_set (h : m &&& y = 0) : States.areSet (States.set m x) y = States.areSet x y := by
  unfold States.areSet States.set
  rw [BitVec.and_or_distrib_right, h]
  simp

theorem areSet_clear (h : ~~~m &&& y = y) : States.areSet (States.clear m x) y = States.areSet x y := by
  unfold States.areSet States.clear
  rw [BitVec.and_assoc, h]

theorem areSet_clear_self (h : ~~~m &&& y = 0) : States.areSet (States.clear m x) y = false := by
  unfold States.areSet States.clear
  rw [BitVec.and_assoc, h]
  simp

end

variable {P T : Type*}

/-! ## The invariant -/

def Point.isBlocking : Point → Bool
  | .setWaitId | .setState | .readState => true
  | _ => false

def Point.mayWait : Point → Bool
  | .readState | .clearState _ => true
  | _ => false

def Point.isIdentified : Point → Bool
  | .setState | .readState | .clearState _ => true
  | _ => false

def PeriodState.isBlocking : PeriodState → Bool
  | .ownerIsBlocking | .expiredWhileBlocking => true
  | _ => false

def PeriodState.isStopped : PeriodState → Bool
  | .inactive | .expired => true
  | _ => false

variable [DecidableEq P]

structure Sound (s : System P T) : Prop where
  caller : ∀ {p pt}, s.call = some (p, pt) → s.owner p = s.executing
  awake : ∀ {p pt}, s.call = some (p, pt) → pt.mayWait = false → s.isWaitingForPeriod s.executing = false
  identified : ∀ {p pt}, s.call = some (p, pt) → pt.isIdentified = true →
    (s.thread s.executing).waitId = some p
  blocking : ∀ {p}, (s.period p).state.isBlocking = true ↔ ∃ pt, s.call = some (p, pt) ∧ pt.isBlocking = true
  timer : ∀ {p}, (s.period p).remaining = none →
    (s.period p).state.isStopped = true ∨ ∃ length status, s.call = some (p, .insert length status)
  started : ∀ {p}, s.waits p = true → (s.period p).state.isStopped = false

namespace Sound

variable {s : System P T} {p q : P}

theorem not_waits (h : s.isWaitingForPeriod (s.owner p) = false) : s.waits p = false := by
  simp [System.waits, h]

theorem remaining_ne_none (h : Sound s) (hw : s.waits p = true) : (s.period p).remaining ≠ none := by
  intro hr
  rcases h.timer hr with hs | ⟨length, status, hc⟩
  · rw [h.started hw] at hs
    cases hs
  · have ha := h.awake hc rfl
    rw [← h.caller hc] at ha
    rw [not_waits ha] at hw
    cases hw

theorem modifyPeriod {f} (h : Sound s)
    (hb : (f (s.period p)).state.isBlocking = (s.period p).state.isBlocking)
    (ht : (f (s.period p)).remaining = none → (f (s.period p)).state.isStopped = true ∨
      ∃ length status, s.call = some (p, .insert length status))
    (hs : s.waits p = true → (f (s.period p)).state.isStopped = false) : Sound (s.modifyPeriod p f) := by
  refine ⟨h.caller, h.awake, h.identified, fun {q} => ?_, fun {q} hr => ?_, fun {q} hw => ?_⟩
  · by_cases hq : q = p
    · subst hq
      simp only [System.modifyPeriod, update_self, hb]
      exact h.blocking
    · simp only [System.modifyPeriod, update_of_ne hq]
      exact h.blocking
  · by_cases hq : q = p
    · subst hq
      simp only [System.modifyPeriod, update_self] at hr ⊢
      exact ht hr
    · simp only [System.modifyPeriod, update_of_ne hq] at hr ⊢
      exact h.timer hr
  · by_cases hq : q = p
    · subst hq
      simp only [System.modifyPeriod, update_self]
      exact hs hw
    · simp only [System.modifyPeriod, update_of_ne hq]
      exact h.started hw

variable [DecidableEq T] {t : T}

theorem modifyThread {f} (h : Sound s)
    (hf : States.areSet (f (s.thread t)).currentState States.waitingForPeriod = true →
      s.isWaitingForPeriod t = true ∧ (f (s.thread t)).waitId = (s.thread t).waitId)
    (hi : s.call ≠ none → (f (s.thread t)).waitId = (s.thread t).waitId) : Sound (s.modifyThread t f) := by
  have hw {u : T} (hu : (s.modifyThread t f).isWaitingForPeriod u = true) : s.isWaitingForPeriod u = true ∧
      ((s.modifyThread t f).thread u).waitId = (s.thread u).waitId := by
    by_cases htu : u = t
    · subst htu
      simp only [System.isWaitingForPeriod, System.modifyThread, update_self] at hu ⊢
      exact hf hu
    · simp only [System.isWaitingForPeriod, System.modifyThread, update_of_ne htu] at hu ⊢
      exact ⟨hu, trivial⟩
  refine ⟨h.caller, fun hc hp => ?_, fun {p pt} hc hp => ?_, h.blocking, h.timer, fun {p} hwp => ?_⟩
  · cases hb : (s.modifyThread t f).isWaitingForPeriod s.executing with
    | false => exact hb
    | true =>
      have := (hw hb).1
      rw [h.awake hc hp] at this
      cases this
  · have hid := h.identified hc hp
    change (update s.thread t (f (s.thread t)) s.executing).waitId = some p
    by_cases hte : s.executing = t
    · subst hte
      rw [update_self, hi (by rw [show s.call = some (p, pt) from hc]; simp)]
      exact hid
    · rw [update_of_ne hte]
      exact hid
  · have hwp := of_decide_eq_true hwp
    obtain ⟨hb, hid⟩ := hw hwp.1
    exact h.started (decide_eq_true ⟨hb, hid.symm.trans hwp.2⟩)

theorem timeout (h : Sound s) (hc : (s.period p).state = .expiredWhileBlocking → s.waits p = true) :
    Sound (s.timeout p) := by
  unfold System.timeout
  split <;> rename_i hw
  · refine modifyPeriod (h.modifyThread (fun ha => ?_) fun _ => rfl) rfl (fun hr => nomatch hr) fun _ => ?_
    · rw [areSet_clear_self (by decide)] at ha
      cases ha
    · exact h.started hw
  · split <;> rename_i hs
    · exact h.modifyPeriod (by rw [hs]; rfl) (fun hr => nomatch hr) fun _ => rfl
    · refine h.modifyPeriod ?_ (fun _ => Or.inl rfl) fun hw' => absurd hw' hw
      cases he : (s.period p).state with
      | ownerIsBlocking => exact absurd he hs
      | expiredWhileBlocking => exact absurd (hc he) hw
      | _ => rfl

omit [DecidableEq T] in
theorem count (h : Sound s) : Sound s.count := by
  refine ⟨h.caller, h.awake, h.identified, h.blocking, fun {p} hr => h.timer ?_, h.started⟩
  exact map_eq_none_iff.mp hr

end Sound

/-! ## Ticks -/

namespace System

variable [DecidableEq T] {s : System P T} {p q : P} {u : T}

theorem timeout_other (hq : q ≠ p) : (s.timeout p).period q = s.period q ∧
    (s.waits q = true → (s.timeout p).waits q = true) := by
  unfold timeout
  split <;> rename_i hw
  · refine ⟨update_of_ne hq .., fun hwq => ?_⟩
    have hwp := of_decide_eq_true hw
    have hwq' := of_decide_eq_true hwq
    have ho : s.owner q ≠ s.owner p := by
      intro ho
      rw [ho, hwp.2] at hwq'
      exact hq (some.inj hwq'.2).symm
    refine decide_eq_true ?_
    simp only [isWaitingForPeriod, modifyPeriod, modifyThread, update_of_ne ho]
    exact hwq'
  · split
    · exact ⟨update_of_ne hq .., id⟩
    · exact ⟨update_of_ne hq .., id⟩

theorem timeout_awake (hu : s.isWaitingForPeriod u = false ∨ s.waits p = true ∧ u = s.owner p) :
    (s.timeout p).isWaitingForPeriod u = false := by
  unfold timeout
  split <;> rename_i hw
  · by_cases ho : u = s.owner p
    · subst ho
      simp only [isWaitingForPeriod, modifyPeriod, modifyThread, update_self]
      exact areSet_clear_self (by decide)
    · simp only [isWaitingForPeriod, modifyPeriod, modifyThread, update_of_ne ho]
      exact hu.resolve_right fun hu => ho hu.2
  · have hu := hu.resolve_right fun hu => hw hu.1
    split <;> exact hu

theorem owner_timeout : (s.timeout p).owner = s.owner := by
  unfold timeout
  split
  · rfl
  · split <;> rfl

theorem timeouts_awake {l : List P} (hu : s.isWaitingForPeriod u = false) :
    (l.foldl timeout s).isWaitingForPeriod u = false := by
  induction l generalizing s with
  | nil => exact hu
  | cons p l ih => exact ih (timeout_awake (Or.inl hu))

theorem timeouts_release {l : List P} (hp : p ∈ l) (hw : s.waits p = true) :
    (l.foldl timeout s).isWaitingForPeriod (s.owner p) = false := by
  induction l generalizing s with
  | nil => cases hp
  | cons q l ih =>
    by_cases hq : p = q
    · subst hq
      exact timeouts_awake (s := s.timeout p) (timeout_awake (Or.inr ⟨hw, rfl⟩))
    · have ho : (s.timeout q).owner p = s.owner p := congrFun owner_timeout p
      rw [← ho]
      exact ih ((List.mem_cons.mp hp).resolve_left hq) ((timeout_other hq).2 hw)

end System

namespace Sound

variable [DecidableEq T] {s s' : System P T} {p : P} {pt : Point}

theorem timeouts {l : List P} (h : Sound s) (hl : l.Nodup)
    (hc : ∀ p ∈ l, (s.period p).state = .expiredWhileBlocking → s.waits p = true) :
    Sound (l.foldl System.timeout s) := by
  induction l generalizing s with
  | nil => exact h
  | cons p l ih =>
    have hpl := (List.nodup_cons.mp hl).1
    refine ih (h.timeout (hc p List.mem_cons_self)) (List.nodup_cons.mp hl).2 fun q hq hs => ?_
    have hqp : q ≠ p := fun he => hpl (he ▸ hq)
    obtain ⟨hper, hw⟩ := System.timeout_other (s := s) hqp
    rw [hper] at hs
    exact hw (hc q (List.mem_cons_of_mem p hq) hs)

/-! ## Calls -/

omit [DecidableEq T] in
theorem goto_test {length} (h : Sound s) (hc : s.call = none) (ho : s.owner p = s.executing)
    (hr : s.isWaitingForPeriod s.executing = false) : Sound (s.goto p (.test length)) := by
  refine ⟨fun he => ?_, fun _ _ => hr, fun he hi => ?_, fun {q} => ?_, fun {q} hn => ?_, h.started⟩
  · cases he
    exact ho
  · cases he
    cases hi
  · have hq := h.blocking (p := q)
    rw [hc] at hq
    refine hq.trans (iff_of_false ?_ ?_)
    · rintro ⟨pt, he, -⟩
      cases he
    · rintro ⟨pt, he, hb⟩
      cases he
      cases hb
  · rcases h.timer hn with hs | ⟨_, _, hi⟩
    · exact Or.inl hs
    · rw [hc] at hi
      cases hi

theorem proceed {pt'} (h : Sound s) (hc : s.call = some (p, pt)) (ho : s'.owner = s.owner)
    (he : s'.executing = s.executing) (hc' : s'.call = some (p, pt'))
    (hq : ∀ q, q ≠ p → s'.period q = s.period q) (hu : ∀ u, u ≠ s.executing → s'.thread u = s.thread u)
    (ha : pt'.mayWait = false → s'.isWaitingForPeriod s.executing = false)
    (hi : pt'.isIdentified = true ∨ s'.isWaitingForPeriod s.executing = true →
      (s'.thread s.executing).waitId = some p) (hb : (s'.period p).state.isBlocking = pt'.isBlocking)
    (ht : (s'.period p).remaining = none →
      (s'.period p).state.isStopped = true ∨ ∃ length status, pt' = .insert length status)
    (hs : s'.isWaitingForPeriod s.executing = true → (s'.period p).state.isStopped = false) : Sound s' := by
  have hown := h.caller hc
  refine ⟨fun hx => ?_, fun hx hm => ?_, fun hx hm => ?_, fun {q} => ?_, fun {q} hr => ?_, fun {q} hw => ?_⟩
  · rw [hc'] at hx
    cases hx
    rw [ho, he]
    exact hown
  · rw [hc'] at hx
    cases hx
    rw [he]
    exact ha hm
  · rw [hc'] at hx
    cases hx
    rw [he]
    exact hi (Or.inl hm)
  · rw [hc']
    by_cases hqp : q = p
    · subst hqp
      rw [hb]
      exact ⟨fun hb => ⟨pt', rfl, hb⟩, fun ⟨_, hx, hb⟩ => by cases hx; exact hb⟩
    · rw [hq q hqp, h.blocking, hc]
      refine iff_of_false ?_ ?_
      · rintro ⟨_, hx, -⟩
        cases hx
        exact hqp rfl
      · rintro ⟨_, hx, -⟩
        cases hx
        exact hqp rfl
  · rw [hc']
    by_cases hqp : q = p
    · subst hqp
      refine (ht hr).imp_right fun ⟨length, status, hx⟩ => ⟨length, status, ?_⟩
      rw [hx]
    · rw [hq q hqp] at hr ⊢
      refine Or.inl ((h.timer hr).resolve_right ?_)
      rintro ⟨_, _, hx⟩
      rw [hc] at hx
      cases hx
      exact hqp rfl
  · have hw := of_decide_eq_true hw
    rw [ho] at hw
    by_cases hx : s.owner q = s.executing
    · rw [hx] at hw
      have hqp : q = p := some.inj (hw.2.symm.trans (hi (Or.inr hw.1)))
      subst hqp
      exact hs hw.1
    · have hqp : q ≠ p := by
        rintro rfl
        exact hx hown
      rw [hq q hqp]
      rw [System.isWaitingForPeriod, hu _ hx] at hw
      exact h.started (decide_eq_true hw)

omit [DecidableEq T] in
theorem finish {status} (h : Sound s) (hc : ∀ {q pt}, s.call = some (q, pt) → pt.isBlocking = false)
    (ht : ∀ {q length status}, s.call = some (q, .insert length status) → (s.period q).remaining ≠ none) :
    Sound (s.finish status) := by
  have hn {q : P} {pt : Point} : (s.finish status).call ≠ some (q, pt) := by simp [System.finish]
  refine ⟨fun he => absurd he hn, fun he => absurd he hn, fun he => absurd he hn, fun {q} => ?_, fun {q} hr => ?_,
    h.started⟩
  · refine (h.blocking).trans (iff_of_false ?_ ?_)
    · rintro ⟨pt, he, hb⟩
      rw [hc he] at hb
      cases hb
    · rintro ⟨pt, he, -⟩
      exact hn he
  · rcases h.timer hr with hs | ⟨_, _, hi⟩
    · exact Or.inl hs
    · exact absurd hr (ht hi)

theorem proceed_awake {f pt'} (h : Sound s) (hc : s.call = some (p, pt))
    (hm : pt.mayWait = false) (hi : pt'.isIdentified = false)
    (hb : (f (s.period p)).state.isBlocking = pt'.isBlocking) (ht : (f (s.period p)).remaining = none →
      (f (s.period p)).state.isStopped = true ∨ ∃ length status, pt' = .insert length status) :
    Sound ((s.modifyPeriod p f).goto p pt') := by
  have hp : ((s.modifyPeriod p f).goto p pt').period p = f (s.period p) := update_self ..
  have ha : ((s.modifyPeriod p f).goto p pt').isWaitingForPeriod s.executing = false := h.awake hc hm
  refine h.proceed hc rfl rfl rfl (fun q hq => update_of_ne hq ..) (fun _ _ => rfl) (fun _ => ha)
    (fun hx => ?_) (hp ▸ hb) (hp ▸ ht) fun hx => ?_
  · rw [hi, ha] at hx
    simp at hx
  · rw [ha] at hx
    cases hx

theorem advance (h : Sound s) (hc : s.call = some (p, pt)) : Sound (s.advance p pt) := by
  have hblock : (s.period p).state.isBlocking = pt.isBlocking := by
    rw [Bool.eq_iff_iff, h.blocking, hc]
    exact ⟨fun ⟨_, hx, hb⟩ => by cases hx; exact hb, fun hb => ⟨pt, rfl, hb⟩⟩
  have htimer (hr : (s.period p).remaining = none) : (s.period p).state.isStopped = true ∨
      ∃ length status, pt = .insert length status := by
    refine (h.timer hr).imp_right fun ⟨length, status, hx⟩ => ⟨length, status, ?_⟩
    rw [hc] at hx
    exact (Prod.mk.inj (some.inj hx)).2
  have hsame : s.modifyPeriod p id = s := by simp [System.modifyPeriod]
  cases pt with
  | test length =>
    unfold System.advance
    dsimp only
    split <;> rename_i hs
    · rw [← hsame]
      exact h.proceed_awake hc rfl rfl hblock fun _ => Or.inl (by rw [id, hs]; rfl)
    · refine h.proceed_awake hc rfl rfl rfl fun hr => ?_
      rcases htimer hr with hx | ⟨_, _, hx⟩
      · rw [hs] at hx
        cases hx
      · cases hx
    · rw [← hsame]
      exact h.proceed_awake hc rfl rfl hblock fun _ => Or.inl (by rw [id, hs]; rfl)
    · rw [hs] at hblock
      cases hblock
    · rw [hs] at hblock
      cases hblock
  | activate length status =>
    exact h.proceed_awake hc rfl rfl rfl fun _ => Or.inr ⟨length, status, rfl⟩
  | insert length status =>
    have hw : s.waits p = false := not_waits (h.caller hc ▸ h.awake hc rfl)
    refine finish (h.modifyPeriod rfl (fun hr => nomatch hr) fun hx => ?_) (fun hx => ?_) fun hx => ?_
    · rw [hw] at hx
      cases hx
    · rw [show (s.modifyPeriod p _).call = s.call from rfl, hc] at hx
      cases hx
      rfl
    · rw [show (s.modifyPeriod p _).call = s.call from rfl, hc] at hx
      cases hx
      simp [System.modifyPeriod]
  | setWaitId =>
    have ha : s.isWaitingForPeriod s.executing = false := h.awake hc rfl
    have hth : (s.advance p .setWaitId).thread s.executing = { s.thread s.executing with waitId := some p } :=
      update_self ..
    have ha' : (s.advance p .setWaitId).isWaitingForPeriod s.executing = false := by
      rw [System.isWaitingForPeriod, hth]
      exact ha
    refine h.proceed hc rfl rfl rfl (fun _ _ => rfl) (fun u hu => update_of_ne hu ..) (fun _ => ha')
      (fun _ => by rw [hth]) hblock (fun hr => ?_) fun hx => ?_
    · rcases htimer hr with hx | ⟨_, _, hx⟩
      · exact Or.inl hx
      · cases hx
    · rw [ha'] at hx
      cases hx
  | setState =>
    have hth : (s.advance p .setState).thread s.executing = { s.thread s.executing with
        currentState := States.set States.waitingForPeriod (s.thread s.executing).currentState } :=
      update_self ..
    refine h.proceed hc rfl rfl rfl (fun _ _ => rfl) (fun u hu => update_of_ne hu ..)
      (fun hx => nomatch hx) (fun _ => ?_) hblock (fun hr => ?_) fun _ => ?_
    · rw [hth]
      exact h.identified hc rfl
    · rcases htimer hr with hx | ⟨_, _, hx⟩
      · exact Or.inl hx
      · cases hx
    · cases hs : (s.period p).state with
      | inactive | expired =>
        rw [hs] at hblock
        cases hblock
      | _ => exact (congrArg PeriodState.isStopped hs).trans rfl
  | readState =>
    have hp : (s.advance p .readState).period p = { s.period p with state := .active } := update_self ..
    refine h.proceed hc rfl rfl rfl (fun q hq => update_of_ne hq ..) (fun _ _ => rfl)
      (fun hx => nomatch hx) (fun _ => h.identified hc rfl) (by rw [hp]; rfl) (fun hr => ?_) fun _ => by rw [hp]; rfl
    rw [hp] at hr
    rcases htimer hr with hx | ⟨_, _, hx⟩
    · cases hs : (s.period p).state <;> rw [hs] at hx hblock
      · cases hblock
      · cases hx
      · cases hx
      · cases hx
      · cases hblock
    · cases hx
  | clearState localState =>
    unfold System.advance
    dsimp only
    split
    · refine finish (h.modifyThread (fun hx => ?_) fun _ => rfl) (fun hx => ?_) fun hx => ?_
      · rw [areSet_clear_self (by decide)] at hx
        cases hx
      · rw [show (s.modifyThread _ _).call = s.call from rfl, hc] at hx
        cases hx
        rfl
      · rw [show (s.modifyThread _ _).call = s.call from rfl, hc] at hx
        cases hx
    · refine h.finish (fun hx => ?_) fun hx => ?_
      · rw [hc] at hx
        cases hx
        rfl
      · rw [hc] at hx
        cases hx

omit [DecidableEq T] in
theorem finish_none {status} (h : Sound s) (hc : s.call = none) : Sound (s.finish status) := by
  refine h.finish (fun hx => ?_) fun hx => ?_
  · rw [hc] at hx
    cases hx
  · rw [hc] at hx
    cases hx

end Sound

/-! ## Every run -/

theorem Sound.initial {owner : P → T} {executing} : Sound (System.initial owner executing) where
  caller := fun hx => by simp [System.initial] at hx
  awake := fun hx => by simp [System.initial] at hx
  identified := fun hx => by simp [System.initial] at hx
  blocking := by simp [System.initial, PeriodState.isBlocking]
  timer := fun _ => Or.inl rfl
  started := fun hx => by simp [System.initial, System.waits] at hx

variable [DecidableEq T] [Fintype P]

/-- No timer expires twice while the owner is about to block. -/
def Timely (s : System P T) : Move P T → Prop
  | .tick expired => ∀ p ∈ expired, (s.period p).state = .expiredWhileBlocking → s.waits p = true
  | _ => True

instance (s : System P T) (m : Move P T) : Decidable (Timely s m) := by
  cases m <;> unfold Timely <;> infer_instance

theorem Sound.step {s s'} {m : Move P T} (h : Sound s) (hP : Timely s m)
    (he : s.step m = some s') : Sound s' := by
  have hready {t : T} (hr : States.isReady (s.thread t).currentState = true) : s.isWaitingForPeriod t = false := by
    have hr : (s.thread t).currentState = States.ready := of_decide_eq_true hr
    rw [System.isWaitingForPeriod, hr]
    rfl
  cases m with
  | switch t =>
    obtain ⟨⟨hc, -⟩, rfl⟩ := ite_some_none_eq_some.mp he
    have hn {x : P × Point} : s.call ≠ some x := by simp [hc]
    exact ⟨fun hx => absurd hx hn, fun hx => absurd hx hn, fun hx => absurd hx hn, h.blocking, h.timer, h.started⟩
  | ratePeriod p length =>
    obtain ⟨⟨hc, hr⟩, rfl⟩ := ite_some_none_eq_some.mp he
    unfold System.ratePeriod
    split <;> rename_i ho
    · exact h.finish_none hc
    · split
      · exact h.finish_none hc
      · exact h.goto_test hc (not_not.mp ho) (hready hr)
  | cancel p =>
    obtain ⟨⟨hc, hr⟩, rfl⟩ := ite_some_none_eq_some.mp he
    unfold System.cancel
    split <;> rename_i ho
    · exact h.finish_none hc
    · have hw : s.waits p = false := Sound.not_waits (not_not.mp ho ▸ hready hr)
      refine finish_none (h.modifyPeriod ?_ (fun _ => Or.inl rfl) fun hx => ?_) hc
      · have hb := h.blocking (p := p)
        rw [hc] at hb
        simpa [PeriodState.isBlocking] using hb
      · rw [hw] at hx
        cases hx
  | advance =>
    obtain ⟨⟨p, pt⟩, hc, rfl⟩ := map_eq_some_iff.mp he
    exact h.advance hc
  | tick expired =>
    obtain ⟨⟨hn, -⟩, rfl⟩ := ite_some_none_eq_some.mp he
    exact h.count.timeouts hn hP
  | block state waitId =>
    obtain ⟨⟨hc, -, hb⟩, rfl⟩ := ite_some_none_eq_some.mp he
    exact h.modifyThread (fun hx => absurd hx hb) fun hx => absurd hc hx
  | unblock t =>
    obtain ⟨-, he⟩ := Option.ite_none_left_eq_some.mp he
    cases he
    refine h.modifyThread (fun hx => ?_) fun _ => rfl
    rw [areSet_clear_self (by decide)] at hx
    cases hx
  | suspend t =>
    cases he
    refine h.modifyThread (fun hx => ⟨?_, rfl⟩) fun _ => rfl
    rwa [areSet_set (by decide)] at hx
  | resume t =>
    cases he
    refine h.modifyThread (fun hx => ⟨?_, rfl⟩) fun _ => rfl
    rwa [areSet_clear (by decide)] at hx

/-- While the owner waits its timer is active, and then releases it. -/
theorem waiting_owner_released {owner : P → T} {executing : T} {s : System P T}
    (h : Steps System.step Timely (System.initial owner executing) s) {p : P} (hw : s.waits p = true) :
    (∃ n, (s.period p).remaining = some n) ∧
      ∀ expired s', p ∈ expired → s.step (.tick expired) = some s' → s'.isWaitingForPeriod (s.owner p) = false := by
  have hS : Sound s := h.invariant (I := Sound) (fun hs hP he => hs.step hP he) .initial
  refine ⟨Option.ne_none_iff_exists'.mp (hS.remaining_ne_none hw), fun expired s' hp he => ?_⟩
  obtain ⟨-, rfl⟩ := ite_some_none_eq_some.mp he
  exact System.timeouts_release (s := s.count) hp hw

def single : System Unit Bool := .initial (fun _ => false) false

theorem waiting_owner_released_single :
    ∃ s, run (checked System.step Timely) [.ratePeriod () 1, .advance, .advance, .advance, .ratePeriod () 1,
        .advance, .tick [()], .advance, .advance, .advance, .advance, .ratePeriod () 1, .advance, .advance, .advance,
        .advance, .advance] single = some s ∧
      s.call = none ∧ s.waits () = true ∧ ∃ n, (s.period ()).remaining = some n := by
  refine exists_of_map (fun s => (s.call, s.waits ())) (none, true) (by decide +kernel) fun s hs he => ?_
  obtain ⟨hc, hw⟩ := Prod.mk.inj he
  exact ⟨hc, hw, (waiting_owner_released (Steps.refl.run_checked hs) hw).1⟩

/-- The period ends twice, and its owner is left waiting. -/
theorem period_ends_twice :
    ∃ s, run System.step [.ratePeriod () 1, .advance, .advance, .advance, .ratePeriod () 1, .advance,
        .tick [()], .tick [()], .advance, .advance, .advance, .advance] single = some s ∧
      s.call = none ∧ s.waits () = true ∧ (s.period ()).remaining = none := by
  refine exists_of_map (fun s => (s.call, s.waits (), (s.period ()).remaining)) (none, true, none)
    (by decide +kernel) fun s _ he => ?_
  simpa only [Prod.mk.injEq] using he

end Rtems.RateMonotonic
