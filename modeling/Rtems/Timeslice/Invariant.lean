import Rtems.Timeslice.Tickle

/-! # The budgets are kept -/

namespace Rtems.Timeslice


open Function Intrusive Thread

variable {C T : Type*}

/-! ## The invariant -/

structure Settled (ticksPerTimeslice : Nat) (c : Nat × BudgetAlgorithm × Start × Bool) (a : Api)
    (k : Option ThreadClass) : Prop where
  exhaust : c.2.1 = .exhaustTimeslice → 1 ≤ c.1 ∧ c.1 ≤ ticksPerTimeslice
  timer : a.sporadicTimer = true → a.schedpolicy = .sporadic
  sporadic : a.schedpolicy = .sporadic → timesliced c.2.1 = false
  task : k = some .rtemsTasks → a.schedpolicy ≠ .sporadic ∧ c.2.2.1.budgetAlgorithm ≠ .exhaustTimeslice
  started : k ≠ none → k ≠ some .rtemsTasks → c.2.2.2 = false
  free : k = none → c.2.2.2 = true

theorem Settled.setBudget {ticksPerTimeslice b c a k} (h : Settled ticksPerTimeslice c a k)
    (hb : c.2.1 = .exhaustTimeslice → 1 ≤ b ∧ b ≤ ticksPerTimeslice) : Settled ticksPerTimeslice (b, c.2) a k :=
  ⟨hb, h.timer, h.sporadic, h.task, h.started, h.free⟩

def InSlice (ticksPerTimeslice ahead : Nat) (c : Nat × BudgetAlgorithm × Start × Bool) : Prop :=
  timesliced c.2.1 = true → 1 ≤ c.1 ∧ ahead + c.1 ≤ ticksPerTimeslice

structure Sound (s : System C T) : Prop where
  positive : 1 ≤ s.scheduler.ticksPerTimeslice
  word : s.scheduler.ticksPerTimeslice < 2 ^ 32
  chained : ∃ rd, Chained s.scheduler rd fun _ => none
  settled : ∀ u, Settled s.scheduler.ticksPerTimeslice (account (s.control u)) (s.api u) (s.objectClass u)
  inSlice : InSlice s.scheduler.ticksPerTimeslice s.ahead (account (s.control s.executing))

/-- Only `t` has changed, to what is given. -/
structure Changes (t : T) (s s' : System C T) (c : Nat × BudgetAlgorithm × Start × Bool) (a : Api)
    (k : Option ThreadClass) : Prop where
  executing : s'.executing = s.executing
  ticksPerTimeslice : s'.scheduler.ticksPerTimeslice = s.scheduler.ticksPerTimeslice
  ahead : s'.ahead = s.ahead
  chained : ∃ rd, Chained s'.scheduler rd fun _ => none
  other : ∀ u ≠ t, account (s'.control u) = account (s.control u) ∧ s'.api u = s.api u ∧
    s'.objectClass u = s.objectClass u
  account : account (s'.control t) = c
  api : s'.api t = a
  objectClass : s'.objectClass t = k

namespace Changes

variable {s s' : System C T} {t : T} {S : Scheduler C T} {c : Nat × BudgetAlgorithm × Start × Bool} {a : Api}
  {k : Option ThreadClass}

theorem keeps (h : Changes t s s' c a k) (hk : Keeps s'.scheduler S) (hch : ∃ rd, Chained S rd fun _ => none) :
    Changes t s { s' with scheduler := S } c a k :=
  { h with
    executing := hk.executing.trans h.executing
    ticksPerTimeslice := hk.ticksPerTimeslice.trans h.ticksPerTimeslice
    chained := hch
    other := fun u hu => ⟨(hk.account u).trans (h.other u hu).1, (h.other u hu).2⟩
    account := (hk.account t).trans h.account }

variable [DecidableEq T]

section

variable (h : Changes t s s' c a k)

include h

theorem modifyApi (f : Api → Api) : Changes t s (s'.modifyApi t f) c (f a) k :=
  { h with
    other := fun u hu => ⟨(h.other u hu).1, (update_of_ne hu _ _).trans (h.other u hu).2.1,
      (h.other u hu).2.2⟩
    api := (update_self _ _ _).trans (congrArg f h.api) }

theorem setClass (k' : Option ThreadClass) :
    Changes t s { s' with objectClass := update s'.objectClass t k' } c a k' :=
  { h with
    other := fun u hu => ⟨(h.other u hu).1, (h.other u hu).2.1,
      (update_of_ne hu _ _).trans (h.other u hu).2.2⟩
    objectClass := update_self _ _ _ }

theorem modify {f d} (hch : ∃ rd, Chained (s'.scheduler.modify t f) rd fun _ => none)
    (hd : Timeslice.account (f (s'.control t)) = d) :
    Changes t s { s' with scheduler := s'.scheduler.modify t f } d a k :=
  { h with
    chained := hch
    other := fun u hu => ⟨(congrArg Timeslice.account (Scheduler.control_modify_ne f hu)).trans (h.other u hu).1,
      (h.other u hu).2⟩
    account := (congrArg Timeslice.account (Scheduler.control_modify_self f)).trans hd }

theorem touch {f d} (hf : (f (s'.control t)).scheduling = (s'.control t).scheduling)
    (hd : Timeslice.account (f (s'.control t)) = d) :
    Changes t s { s' with scheduler := s'.scheduler.modify t f } d a k := by
  obtain ⟨rd, hch⟩ := h.chained
  exact h.modify ⟨rd, hch.touch hf⟩ hd

end

end Changes

namespace Sound

variable {s s' : System C T} {t : T} {S : Scheduler C T} {c : Nat × BudgetAlgorithm × Start × Bool} {a : Api}
  {k : Option ThreadClass}

theorem refl (h : Sound s) (t : T) : Changes t s s (account (s.control t)) (s.api t) (s.objectClass t) :=
  ⟨rfl, rfl, rfl, h.chained, fun _ _ => ⟨rfl, rfl, rfl⟩, rfl, rfl, rfl⟩

theorem change (h : Sound s) (hc : Changes t s s' c a k) (ht : Settled s.scheduler.ticksPerTimeslice c a k)
    (hs : s.executing = t → InSlice s.scheduler.ticksPerTimeslice s.ahead c) : Sound s' := by
  have hn := hc.ticksPerTimeslice
  refine ⟨hn ▸ h.positive, hn ▸ h.word, hc.chained, fun u => ?_, ?_⟩
  · by_cases hut : u = t
    · rw [hut, hc.account, hc.api, hc.objectClass, hn]
      exact ht
    · obtain ⟨h1, h2, h3⟩ := hc.other u hut
      rw [hn, h1, h2, h3]
      exact h.settled u
  · rw [hn, hc.ahead, hc.executing]
    by_cases het : s.executing = t
    · rw [het, hc.account]
      exact hs het
    · rw [(hc.other _ het).1]
      exact h.inSlice

theorem keeps (h : Sound s) (hk : Keeps s.scheduler S) (hch : ∃ rd, Chained S rd fun _ => none) :
    Sound { s with scheduler := S } :=
  h.change ((h.refl s.executing).keeps hk hch) (h.settled _) fun _ => h.inSlice

theorem not_ready (h : Sound s) (hf : s.objectClass t = none) :
    (s.scheduler.control t).currentState ≠ States.ready := by
  intro hr
  have hd : States.isDormant (s.scheduler.control t).currentState = true := (h.settled t).free hf
  rw [hr] at hd
  exact absurd hd (by decide)

end Sound

variable [DecidableEq T]

/-! ## Creation -/

section Creation

variable {s : System C T} {t : T} {S : Scheduler C T} {p : Priority} {b : Bool} {a : BudgetAlgorithm}
  {k : ThreadClass} {rd : Priority → List T}

theorem initializeThread_eq : initializeThread S t p b a = S.modify t fun c =>
    { c with
      start := ⟨p, b, a⟩, currentState := States.dormant, resourceCount := 0, realPriority := p,
      ticksExecuted := 0, currentPriority := p, ready := p,
      priorityMap := Priority.initializeInformation p } := by
  rw [initializeThread, Scheduler.setPriority_eq, Scheduler.modify_modify]
  rfl

theorem Sound.create (h : Sound s) (hf : s.objectClass t = none) :
    Changes t s (s.create t k p b a) ((s.control t).cpuTimeBudget, (s.control t).budgetAlgorithm, ⟨p, b, a⟩, true)
      { s.api t with schedpolicy := .fifo, schedparam := ⟨256 - p.val, 0, 1, 1⟩, sporadicTimer := false }
      (some k) := by
  have ht := h.not_ready hf
  obtain ⟨rd, hch⟩ := h.chained
  have hm : Changes t s { s with scheduler := initializeThread s.scheduler t p b a }
      ((s.control t).cpuTimeBudget, (s.control t).budgetAlgorithm, ⟨p, b, a⟩, true) (s.api t) (s.objectClass t) := by
    rw [initializeThread_eq]
    refine (h.refl t).modify ⟨rd, ?_⟩ ?_
    · refine hch.modify ⟨fun hr => ?_, fun hr => absurd hr ht⟩ (fun hr => absurd hr ht) ⟨rfl, rfl⟩
      exact absurd hr (show ¬ States.dormant = States.ready by decide)
    · simp only [account, show States.isDormant States.dormant = true by decide]
  exact (hm.setClass (some k)).modifyApi _

theorem Sound.taskCreate {modes} (h : Sound s) (hf : s.isFree t = true) :
    Sound (s.taskCreate t p modes) := by
  obtain ⟨hf, hte⟩ := of_decide_eq_true hf
  have hc := h.create (p := p) (b := modes &&& Scheduler.preemptMask = 0) (k := .rtemsTasks)
    (a := if modes &&& Scheduler.timesliceMask = Scheduler.timesliceMask then .resetTimeslice else .none) hf
  refine h.change (hc.touch rfl hc.account) ⟨(h.settled t).exhaust, ?_, ?_, fun _ => ⟨?_, ?_⟩, ?_, ?_⟩
    fun he => absurd he.symm hte
  · simp
  · simp
  · simp
  · split <;> simp
  · simp
  · simp

variable [DecidableEq C]

theorem start_eq (hd : States.isDormant (S.control t).currentState = true) :
    Keeps ((S.loadEnvironment t).setCurrentState t States.ready) (S.start t).1 := by
  rw [Scheduler.start, if_pos hd]
  exact Keeps.linkReady.trans .reschedule

theorem Changes.start {s' c i k} (h : Changes t s s' c i k) (hd : c.2.2.2 = true) :
    Changes t s (s'.start t) (c.1, c.2.2.1.budgetAlgorithm, c.2.2.1, false) i k := by
  have hd : States.isDormant (s'.scheduler.control t).currentState = true :=
    (congrArg (·.2.2.2) h.account).trans hd
  have hk := start_eq hd
  obtain ⟨rd, hch⟩ := h.chained
  exact {
    executing := hk.executing.trans h.executing
    ticksPerTimeslice := hk.ticksPerTimeslice.trans h.ticksPerTimeslice
    ahead := h.ahead
    chained := hch.start off_none
    other := fun u hu => ⟨(congrArg Timeslice.account (Scheduler.control_start_ne hu)).trans (h.other u hu).1,
      (h.other u hu).2⟩
    account := by
      rw [System.control, System.start, hk.account, ← h.account]
      simp only [Scheduler.loadEnvironment, Scheduler.setCurrentState, Scheduler.control_modify_self,
        Timeslice.account]
      rfl
    api := h.api
    objectClass := h.objectClass }

theorem Sound.start (h : Sound s) (hc : s.objectClass t ≠ none)
    (hd : States.isDormant (s.control t).currentState = true) (hte : t ≠ s.executing) : Sound (s.start t) := by
  have hk := h.settled t
  have ht : s.objectClass t = some .rtemsTasks := by
    by_contra hk'
    have := hk.started hc hk'
    rw [show (account (s.control t)).2.2.2 = true from hd] at this
    cases this
  obtain ⟨hpol, hst⟩ := hk.task ht
  refine h.change ((h.refl t).start hd) ?_ fun he => absurd he.symm hte
  exact ⟨fun ha => absurd ha hst, hk.timer, fun hs => absurd hs hpol, hk.task, fun _ _ => rfl,
    fun hn => absurd hn hc⟩

theorem Sound.pthreadCreate {explicit} (h : Sound s) (hf : s.isFree t = true)
    (hb : (s.inherited explicit).1 = .rr →
      1 ≤ (s.control t).cpuTimeBudget ∧ (s.control t).cpuTimeBudget ≤ s.scheduler.ticksPerTimeslice) :
    Sound (s.pthreadCreate t explicit) := by
  obtain ⟨hf, hte⟩ := of_decide_eq_true hf
  unfold System.pthreadCreate
  generalize s.inherited explicit = x at hb
  obtain ⟨policy, param⟩ := x
  dsimp only
  split
  · exact h
  have hc := (h.create (k := .posixThreads) (p := priorityToCore param.schedPriority) (b := true)
    (a := policy.budgetAlgorithm) hf).modifyApi fun a => { a with schedpolicy := policy, schedparam := param }
  have hc := (hc.touch (f := fun c => { c with
    doPostTaskSwitchExtension := true, lowPriority := priorityToCore param.ssLowPriority }) rfl hc.account).start rfl
  have hr : policy.budgetAlgorithm = .exhaustTimeslice → policy = .rr := by
    cases policy <;> simp [SchedPolicy.budgetAlgorithm]
  split <;> rename_i hp
  · refine h.change (hc.modifyApi fun a => { a with sporadicTimer := true })
      ⟨fun ha => hb (hr ha), fun _ => hp, ?_, ?_, fun _ _ => rfl, ?_⟩ fun he => absurd he.symm hte
    · intro
      rw [hp]
      rfl
    · simp
    · simp
  · refine h.change hc ⟨fun ha => hb (hr ha), ?_, fun hs => absurd hs hp, ?_, fun _ _ => rfl, ?_⟩
      fun he => absurd he.symm hte
    · simp
    · simp
    · simp

end Creation

/-! ## Policies -/

section Policies

variable [DecidableEq C] {s s' : System C T} {t : T} {c : Nat × BudgetAlgorithm × Start × Bool} {i : Api}
  {k : Option ThreadClass}

theorem Changes.sporadicBudgetTsr (h : Changes t s s' c i k) :
    ∃ b, Changes t s (s'.sporadicBudgetTsr t) (b, c.2) { i with sporadicTimer := true } k := by
  unfold System.sporadicBudgetTsr
  dsimp only
  generalize (if (s'.api t).schedparam.ssInitialBudget = 0 then 1 else (s'.api t).schedparam.ssInitialBudget) = b
  generalize priorityToCore (s'.api t).ssHighPriority = p
  have hm := h.touch (f := fun c => { c with cpuTimeBudget := b, realPriority := p }) (d := (b, c.2)) rfl
    (by rw [← h.account]; rfl)
  refine ⟨b, Changes.modifyApi ?_ fun a => { a with sporadicTimer := true }⟩
  split
  · obtain ⟨rd, hch⟩ := hm.chained
    exact hm.keeps .changePriority (hch.changePriority (fun _ => off_none) true)
  · exact hm

omit [DecidableEq C] in
theorem Sound.setPolicy (h : Sound s) (policy : SchedPolicy) (param : SchedParam) :
    Changes t s (s.setPolicy t policy param)
      ((s.control t).cpuTimeBudget, policy.budgetAlgorithm, (account (s.control t)).2.2)
      { s.api t with sporadicTimer := false, schedpolicy := policy, schedparam := param } (s.objectClass t) := by
  have hc := ((h.refl t).modifyApi fun a => { a with
    sporadicTimer := if a.schedpolicy = .sporadic then false else a.sporadicTimer
    schedpolicy := policy
    schedparam := param }).touch (f := fun c => { c with
      budgetAlgorithm := policy.budgetAlgorithm
      lowPriority := priorityToCore param.ssLowPriority })
    (d := ((s.control t).cpuTimeBudget, policy.budgetAlgorithm, (account (s.control t)).2.2)) rfl rfl
  have htimer : (if (s.api t).schedpolicy = .sporadic then false else (s.api t).sporadicTimer) = false := by
    split <;> rename_i hp
    · rfl
    · exact Bool.eq_false_iff.mpr fun ht => hp ((h.settled t).timer ht)
  rw [htimer] at hc
  exact hc

theorem Changes.setSlice {p} (h : Changes t s s' c i k) :
    Changes t s (s'.setSlice t p) (s.scheduler.ticksPerTimeslice, c.2) i k := by
  have hm := h.touch (f := fun c => { c with
      cpuTimeBudget := s'.scheduler.ticksPerTimeslice, realPriority := p })
    (d := (s.scheduler.ticksPerTimeslice, c.2)) rfl
    (by rw [← h.account, ← h.ticksPerTimeslice]; rfl)
  obtain ⟨rd, hch⟩ := hm.chained
  exact hm.keeps .changePriority (hch.changePriority (fun _ => off_none) true)

theorem Sound.setschedparam {policy param} (h : Sound s) (hk : s.objectClass t = some .posixThreads)
    (ha : t = s.executing → timesliced policy.budgetAlgorithm = true → s.ahead = 0) :
    Sound (s.setschedparam t policy param) := by
  have hS := h.settled t
  have hc := h.setPolicy (t := t) policy param
  have hslice (hp : policy ≠ .sporadic) :
      Sound ((s.setPolicy t policy param).setSlice t (priorityToCore param.schedPriority)) := by
    refine h.change hc.setSlice
      ⟨fun _ => ⟨h.positive, Nat.le_refl _⟩, ?_, fun hs => absurd hs hp, ?_, hS.started, hS.free⟩ fun he ht => ?_
    · simp
    · simp [hk]
    · rw [ha he.symm ht]
      exact ⟨h.positive, by simp⟩
  unfold System.setschedparam
  split
  · exact h
  · cases policy with
    | other => exact hslice (by simp)
    | fifo => exact hslice (by simp)
    | rr => exact hslice (by simp)
    | sporadic =>
      obtain ⟨b, hb⟩ := (hc.modifyApi fun a => { a with ssHighPriority := param.schedPriority }).sporadicBudgetTsr
      refine h.change hb ⟨?_, fun _ => rfl, fun _ => rfl, ?_, hS.started, hS.free⟩ fun _ => ?_
      · simp [SchedPolicy.budgetAlgorithm]
      · simp [hk]
      · simp [InSlice, SchedPolicy.budgetAlgorithm, timesliced]

/-! ## Ticks -/

theorem Sound.expire (h : Sound s) (ts : List T) : Sound (s.expire ts) := by
  induction ts generalizing s with
  | nil => exact h
  | cons t ts ih =>
    refine ih ?_
    split <;> rename_i ht
    · have hS := h.settled t
      have hp := hS.timer ht
      obtain ⟨b, hb⟩ := ((h.refl t).modifyApi fun a => { a with sporadicTimer := false }).sporadicBudgetTsr
      refine h.change hb ⟨fun he => ?_, fun _ => hp, hS.sporadic, hS.task, hS.started, hS.free⟩ fun _ ht => ?_
      · have := hS.sporadic hp
        rw [he] at this
        cases this
      · rw [hS.sporadic hp] at ht
        cases ht
    · exact h

theorem Sound.tickle_budget (h : Sound s) {S'} (ht : Tickled s.scheduler S')
    (hts : timesliced (s.scheduler.control s.scheduler.executing).budgetAlgorithm = true) :
    1 ≤ (S'.control s.scheduler.executing).cpuTimeBudget ∧
      (if isCounted s.scheduler ∧ leads S' then s.ahead + 1 else 0) +
        (S'.control s.scheduler.executing).cpuTimeBudget ≤ s.scheduler.ticksPerTimeslice := by
  obtain ⟨hb1, hb2⟩ : 1 ≤ (s.scheduler.control s.scheduler.executing).cpuTimeBudget ∧
      s.ahead + (s.scheduler.control s.scheduler.executing).cpuTimeBudget ≤ s.scheduler.ticksPerTimeslice :=
    h.inSlice hts
  have hw := h.word
  have hsub := subWord_eq hb1 (by omega)
  rcases ht.budget hts with ⟨hc, hb⟩ | ⟨-, hne, hb⟩ | ⟨-, hb, hl⟩
  · rw [hb, if_neg (by simp [hc])]
    omega
  · rw [hb]
    split <;> omega
  · rw [hb, if_neg (by simp [hl])]
    omega

theorem Sound.tickle (h : Sound s) : Sound s.tickle := by
  obtain ⟨rd, hch⟩ := h.chained
  obtain ⟨ht, hch'⟩ := tickleTimeslice_spec hch
  have hn := ht.ticksPerTimeslice
  have ha : account (s.scheduler.tickleTimeslice.control s.executing) =
      ((s.scheduler.tickleTimeslice.control s.executing).cpuTimeBudget, (account (s.control s.executing)).2) :=
    Prod.ext rfl ht.account_executing
  refine ⟨hn ▸ h.positive, hn ▸ h.word, hch', fun u => ?_, ?_⟩
  · by_cases hu : u = s.executing
    · subst hu
      simp only [System.tickle, System.control, hn] at ha ⊢
      rw [ha]
      refine (h.settled s.executing).setBudget fun he => ?_
      have hb := h.tickle_budget ht (show timesliced (s.control s.executing).budgetAlgorithm = true by
        rw [show (s.control s.executing).budgetAlgorithm = _ from he]
        rfl)
      exact ⟨hb.1, Nat.le_trans (Nat.le_add_left _ _) hb.2⟩
    · simp only [System.tickle, System.control, hn, ht.account_ne u hu]
      exact h.settled u
  · simp only [System.tickle, System.control, System.executing, hn, ht.executing] at ha ⊢
    rw [ha]
    exact fun hts => h.tickle_budget ht hts

/-! ## Switches -/

def System.selfSwitch (s : System C T) : Bool :=
  s.scheduler.heir = s.executing ∧
    (s.scheduler.contextSwitchNecessary ∨ ¬ States.isReady (s.control s.executing).currentState)

omit [DecidableEq C] in
theorem switched_eq {S} (he : S.executing = s.executing) :
    s.switched S = { s with scheduler := S } := by
  rw [System.switched, if_pos he]

omit [DecidableEq C] in
theorem dispatch_stay {S : Scheduler C T} (h : S.contextSwitchNecessary = false) : Keeps S S.dispatch := by
  rw [Scheduler.dispatch, h]
  exact .modify rfl

def newBudget (S : Scheduler C T) : Nat :=
  if (S.control S.heir).budgetAlgorithm = BudgetAlgorithm.resetTimeslice then S.ticksPerTimeslice
  else (S.control S.heir).cpuTimeBudget

omit [DecidableEq C] in
theorem dispatch_switch {S : Scheduler C T} (h : S.contextSwitchNecessary = true) :
    Keeps (setBudget { S with executing := S.heir } S.heir (newBudget S)) S.dispatch := by
  rw [Scheduler.dispatch, h]
  refine ⟨rfl, rfl, fun u => ?_⟩
  by_cases hu : u = S.heir
  · subst hu
    simp only [setBudget, Scheduler.modify, if_true, update_self, newBudget]
    rfl
  · simp only [setBudget, Scheduler.modify, if_true, update_of_ne hu]

theorem exhaust_of_timesliced {a} (h : timesliced a = true) (hr : a ≠ .resetTimeslice) :
    a = .exhaustTimeslice := by
  cases a <;> simp_all [timesliced]

omit [DecidableEq C] in
theorem Sound.dispatch (h : Sound s)
    (ha : s.scheduler.contextSwitchNecessary = true → s.scheduler.heir = s.executing → s.ahead = 0) :
    Sound (s.switched s.scheduler.dispatch) := by
  obtain ⟨rd, hch⟩ := h.chained
  cases hc : s.scheduler.contextSwitchNecessary with
  | false =>
    have hk := dispatch_stay hc
    rw [switched_eq hk.executing]
    exact h.keeps hk ⟨rd, hch.dispatch⟩
  | true =>
    have hk := dispatch_switch hc
    have hheir : account (s.scheduler.dispatch.control s.scheduler.heir) =
        (newBudget s.scheduler, (account (s.control s.scheduler.heir)).2) := by
      rw [hk.account, setBudget, Scheduler.control_modify_self]
      rfl
    have hS := h.settled s.scheduler.heir
    have hn : s.scheduler.dispatch.ticksPerTimeslice = s.scheduler.ticksPerTimeslice := hk.ticksPerTimeslice
    have hex : s.scheduler.dispatch.executing = s.scheduler.heir := hk.executing
    refine ⟨hn ▸ h.positive, hn ▸ h.word, ⟨rd, hch.dispatch⟩, fun u => ?_, ?_⟩
    · simp only [System.switched, System.control, hn]
      by_cases hu : u = s.scheduler.heir
      · rw [hu, hheir]
        refine hS.setBudget fun he => ?_
        have he' : (s.scheduler.control s.scheduler.heir).budgetAlgorithm = .exhaustTimeslice := he
        rw [newBudget, if_neg (by rw [he']; decide)]
        exact hS.exhaust he
      · rw [hk.account, setBudget, Scheduler.control_modify_ne _ hu]
        exact h.settled u
    · simp only [System.switched, System.control, System.executing, hn, hex]
      rw [hheir]
      intro hts
      have hpos := h.positive
      by_cases hr : (s.scheduler.control s.scheduler.heir).budgetAlgorithm = .resetTimeslice
      · have hb : newBudget s.scheduler = s.scheduler.ticksPerTimeslice := if_pos hr
        split <;> rename_i he
        · rw [ha hc he]
          omega
        · omega
      · have hb : newBudget s.scheduler = (s.scheduler.control s.scheduler.heir).cpuTimeBudget := if_neg hr
        rw [hb]
        split <;> rename_i he
        · rw [he] at hts ⊢
          exact h.inSlice hts
        · have hex := hS.exhaust (exhaust_of_timesliced hts hr)
          exact ⟨hex.1, (Nat.zero_add _).trans_le hex.2⟩

/-- The algorithm that `rtems_task_mode` leaves. -/
def modeAlgorithm (modeSet mask : BitVec 32) (a : BudgetAlgorithm) : BudgetAlgorithm :=
  if mask &&& Scheduler.timesliceMask ≠ 0 then
    if modeSet &&& Scheduler.timesliceMask = Scheduler.timesliceMask then .resetTimeslice else .none
  else a

theorem account_applyMode (modeSet mask : BitVec 32) (c : Control) :
    account (Scheduler.applyMode modeSet mask c).1 =
      ((account c).1, modeAlgorithm modeSet mask c.budgetAlgorithm, (account c).2.2) := by
  unfold Scheduler.applyMode modeAlgorithm
  dsimp only
  split_ifs <;> rfl

def turnsOn (modeSet mask : BitVec 32) : Bool :=
  mask &&& Scheduler.timesliceMask ≠ 0 ∧ modeSet &&& Scheduler.timesliceMask = Scheduler.timesliceMask

theorem modeAlgorithm_cases (modeSet mask : BitVec 32) (a : BudgetAlgorithm) :
    turnsOn modeSet mask = true ∧ modeAlgorithm modeSet mask a = .resetTimeslice ∨
      modeAlgorithm modeSet mask a = .none ∨ modeAlgorithm modeSet mask a = a := by
  unfold turnsOn modeAlgorithm
  split_ifs <;> simp_all

def System.applyMode (s : System C T) (modeSet mask : BitVec 32) : System C T :=
  { s with
    scheduler := s.scheduler.modify s.executing fun _ =>
      (Scheduler.applyMode modeSet mask (s.control s.executing)).1 }

section

omit [DecidableEq C]

theorem Sound.applyMode {modeSet mask} (h : Sound s)
    (hon : turnsOn modeSet mask = true → (s.api s.executing).schedpolicy ≠ .sporadic ∧
      1 ≤ (s.control s.executing).cpuTimeBudget ∧
        s.ahead + (s.control s.executing).cpuTimeBudget ≤ s.scheduler.ticksPerTimeslice) :
    Sound (s.applyMode modeSet mask) := by
  obtain ⟨rd, hch⟩ := h.chained
  have hS := h.settled s.executing
  have hf := Scheduler.applyMode_fst modeSet mask (s.control s.executing)
  simp only [Prod.mk.injEq] at hf
  obtain ⟨hst, hp, hr, hm⟩ := hf
  have hc := (h.refl s.executing).modify
    (f := fun _ => (Scheduler.applyMode modeSet mask (s.control s.executing)).1)
    ⟨rd, hch.modify (by rw [hst]; rfl) (fun _ => hp)
      (by simp only [Control.Placed, hp, hr, hm]; exact hch.pointers s.executing)⟩
    (account_applyMode modeSet mask _)
  rcases modeAlgorithm_cases modeSet mask (s.control s.executing).budgetAlgorithm with ⟨ho, hm⟩ | hm | hm <;>
    rw [hm] at hc
  · obtain ⟨hpol, hb⟩ := hon ho
    refine h.change hc ⟨?_, hS.timer, fun hs => absurd hs hpol, hS.task, hS.started, hS.free⟩ fun _ _ => hb
    simp
  · refine h.change hc ⟨?_, hS.timer, fun _ => rfl, hS.task, hS.started, hS.free⟩ fun _ hts => ?_
    · simp
    · cases hts
  · exact h.change hc hS fun _ => h.inSlice

theorem taskMode_cases (s : System C T) (modeSet mask : BitVec 32) :
    s.scheduler.taskMode modeSet mask = (s.applyMode modeSet mask).scheduler.evaluateMode.1.dispatch ∨
      s.scheduler.taskMode modeSet mask = (s.applyMode modeSet mask).scheduler.evaluateMode.1 := by
  unfold Scheduler.taskMode
  dsimp only
  split
  · exact Or.inl rfl
  · exact Or.inr rfl

theorem evaluateMode_spec {S : Scheduler C T} {rd} (h : Chained S rd fun _ => none) :
    Keeps S S.evaluateMode.1 ∧ Chained S.evaluateMode.1 rd (fun _ => none) ∧ S.evaluateMode.1.heir = S.heir ∧
      (S.evaluateMode.1.contextSwitchNecessary = true → S.heir = S.executing →
        S.contextSwitchNecessary = true ∨ ¬ States.isReady (S.control S.executing).currentState = true) := by
  unfold Scheduler.evaluateMode
  split <;> rename_i hc
  · refine ⟨.needSwitch, h.congr rfl rfl rfl, rfl, fun _ he => Or.inr ?_⟩
    exact hc.resolve_right fun hne => hne.1 he.symm
  · exact ⟨.refl, h, rfl, fun hs _ => Or.inl hs⟩

theorem Sound.taskMode {modeSet mask : BitVec 32} (h : Sound s)
    (hon : turnsOn modeSet mask = true → (s.api s.executing).schedpolicy ≠ .sporadic ∧
      1 ≤ (s.control s.executing).cpuTimeBudget ∧
        s.ahead + (s.control s.executing).cpuTimeBudget ≤ s.scheduler.ticksPerTimeslice)
    (ha : s.selfSwitch = true → s.ahead = 0) : Sound (s.switched (s.scheduler.taskMode modeSet mask)) := by
  have h1 := h.applyMode hon
  obtain ⟨rd, hch⟩ := h1.chained
  obtain ⟨hk, hch2, hheir, hsw⟩ := evaluateMode_spec hch
  have h2 := h1.keeps hk ⟨rd, hch2⟩
  have hst : ((s.applyMode modeSet mask).scheduler.control s.executing).currentState =
      (s.control s.executing).currentState := by
    rw [System.applyMode, Scheduler.control_modify_self]
    exact congrArg Prod.fst (Scheduler.applyMode_fst modeSet mask _)
  have hex : (s.applyMode modeSet mask).scheduler.evaluateMode.1.executing = s.executing := hk.executing
  rcases taskMode_cases s modeSet mask with he | he <;> rw [he]
  · have hd := h2.dispatch fun hc he => ha ?_
    · rw [System.switched] at hd ⊢
      simp only [System.executing, hex] at hd ⊢
      exact hd
    · have he : s.scheduler.heir = s.executing := hheir.symm.trans (he.trans hex)
      have hor := hsw hc he
      refine decide_eq_true ⟨he, hor.imp_right fun hr => ?_⟩
      rwa [← hst]
  · rw [switched_eq hex]
    exact h2

theorem Sound.startMultitasking (h : Sound s)
    (hb : timesliced (s.control s.scheduler.heir).budgetAlgorithm = true →
      1 ≤ (s.control s.scheduler.heir).cpuTimeBudget ∧
        (s.control s.scheduler.heir).cpuTimeBudget ≤ s.scheduler.ticksPerTimeslice) :
    Sound s.startMultitasking := by
  obtain ⟨rd, hch⟩ := h.chained
  refine ⟨h.positive, h.word, ⟨rd, hch.congr rfl rfl rfl⟩, h.settled, fun hts => ?_⟩
  simp only [System.startMultitasking, System.switched]
  split <;> rename_i he
  · have := h.inSlice
    rw [← he] at this
    exact this hts
  · obtain ⟨hb1, hb2⟩ := hb hts
    exact ⟨hb1, (Nat.zero_add _).trans_le hb2⟩

end

end Policies

end Rtems.Timeslice
