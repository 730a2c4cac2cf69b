import Rtems.ThreadQueue.Quiet

/-! # What the operations on mutexes do -/

namespace Rtems

open ThreadQueue Thread Option

variable {Q T : Type*} [DecidableEq Q] [DecidableEq T] {K K' : Kernel Q T} {q : Q} {t : T}
  {id : T → Nat} {m m' : CoreMutex.Control T} {wait : Bool} {timeout fuel : Nat}
  {lead : Q → Fin 4 → List T} {fol : T → List T}

namespace CoreMutex

/-! ## `_CORE_mutex_Seize` -/

theorem inherit_prepare : inherit (K.prepare q) m = (inherit K m).prepare q := by
  have hraise (u : T) (p : Priority) : (K.prepare q).raise u p = (K.raise u p).prepare q := by
    have hc : (K.prepare q).sched = K.sched := rfl
    unfold Kernel.raise
    rw [hc]
    split
    · have hx : (K.changePriority u p false).sched.executing = K.sched.executing :=
        Scheduler.executing_changePriority
      rw [Kernel.prepare, Kernel.prepare, hx]
      rfl
    · rfl
  unfold inherit
  cases m.attributes.discipline with
  | fifo | priority | priorityCeiling => rfl
  | priorityInherit =>
    cases m.holder with
    | none => rfl
    | some u => exact hraise u _

omit [DecidableEq Q] in
theorem setReturnCode_again {code code'} :
    (K.setReturnCode t code).setReturnCode t code' = K.setReturnCode t code' := by
  simp [Kernel.setReturnCode]

inductive Seized (id : T → Nat) (K : Kernel Q T) (q : Q) (m : Control T) (timeout fuel : Nat) :
    Kernel Q T → Control T → Prop
  | refused (status : Status) : status ≠ .successful →
      Seized id K q m timeout fuel (K.setReturnCode K.sched.executing status.code) m
  | acquired : m.isLocked = false → isCeilingViolated K m = false →
      Seized id K q m timeout fuel (acquire id (K.setReturnCode K.sched.executing 0) m).1
        (acquire id (K.setReturnCode K.sched.executing 0) m).2
  | nested : m.isLocked = true → id K.sched.executing = m.holderId →
      Seized id K q m timeout fuel (K.setReturnCode K.sched.executing 0)
        { m with nestCount := addWord m.nestCount 1 }
  | waits (K' : Kernel Q T) : m.isLocked = true → id K.sched.executing ≠ m.holderId →
      (inherit (K.setReturnCode K.sched.executing 0) m).block q timeout fuel = some K' →
      Seized id K q m timeout fuel (enqueued K' m) m

theorem seize_cases (he : seize id K q m wait timeout fuel = some (K', m')) :
    Seized id K q m timeout fuel K' m' := by
  unfold seize at he
  dsimp only at he
  split at he
  · obtain ⟨rfl, rfl⟩ := Prod.mk.inj (some.inj he)
    exact .refused .ceilingViolated (by decide)
  split at he
  · next hv hl =>
    obtain ⟨rfl, rfl⟩ := Prod.mk.inj (some.inj he)
    exact .acquired (Bool.not_eq_true _ ▸ hl) (Bool.not_eq_true _ ▸ hv)
  split at he
  · next hl hi =>
    unfold nest at he
    split at he
    · obtain ⟨rfl, rfl⟩ := Prod.mk.inj (some.inj he)
      exact .nested (not_not.mp hl) hi
    · obtain ⟨rfl, rfl⟩ := Prod.mk.inj (some.inj he)
      rw [show (K.setReturnCode K.sched.executing _).sched.executing = K.sched.executing from rfl,
        setReturnCode_again]
      exact .refused .nestingNotAllowed (by decide)
  split at he
  · obtain ⟨rfl, rfl⟩ := Prod.mk.inj (some.inj he)
    rw [setReturnCode_again]
    exact .refused .unsatisfiedNowait (by decide)
  · next hl hi _ =>
    obtain ⟨K1, h1, he⟩ := map_eq_some_iff.mp he
    obtain ⟨rfl, rfl⟩ := Prod.mk.inj he
    unfold await at h1
    rw [inherit_prepare] at h1
    obtain ⟨K2, h2, rfl⟩ := map_eq_some_iff.mp h1
    exact .waits K2 (not_not.mp hl) hi h2

/-! ## `_CORE_mutex_Surrender` -/

section

omit [DecidableEq T]

@[simp] theorem attributes_vacate : (vacate m).attributes = m.attributes := rfl

@[simp] theorem attributes_unnest : (unnest m).attributes = m.attributes := by
  cases m
  rfl

theorem vacate_unnest (hn : (unnest m).nestCount = 0) :
    vacate (unnest m) = { m with nestCount := 0, holder := none, holderId := 0 } := by
  unfold unnest at *
  unfold vacate
  rw [hn]

end

def unhand (K : Kernel Q T) (attributes : Attributes) : Kernel Q T :=
  restore (K.subResource K.sched.executing) attributes

inductive Surrendered (id : T → Nat) (K : Kernel Q T) (q : Q) (m : Control T) :
    Kernel Q T → Control T → Prop
  | refused : id K.sched.executing ≠ m.holderId → isOwned m.attributes = true → Surrendered id K q m K m
  | nested : id K.sched.executing = m.holderId ∨ isOwned m.attributes = false →
      (unnest m).nestCount ≠ 0 → Surrendered id K q m K (unnest m)
  | released (K' : Kernel Q T) : id K.sched.executing = m.holderId ∨ isOwned m.attributes = false →
      (unnest m).nestCount = 0 → (unhand K m.attributes).dequeue q = (K', none) →
      Surrendered id K q m K' { m with nestCount := 0, holder := none, holderId := 0, isLocked := false }
  | handedOver (K' : Kernel Q T) (t : T) :
      id K.sched.executing = m.holderId ∨ isOwned m.attributes = false → (unnest m).nestCount = 0 →
      (unhand K m.attributes).dequeue q = (K', some t) →
      Surrendered id K q m (K'.addResource t) { m with nestCount := 1, holder := some t, holderId := id t }

section

variable (ho : id K.sched.executing = m.holderId ∨ isOwned m.attributes = false)

include ho

theorem surrender_nested (hn : (unnest m).nestCount ≠ 0) :
    surrender id K q m = (K, unnest m, .successful) := by
  unfold surrender
  rw [if_neg (by rintro ⟨h1, h2⟩; rcases ho with ho | ho <;> simp_all)]
  exact if_pos hn

theorem surrender_last (hn : (unnest m).nestCount = 0) :
    surrender id K q m =
      ((handOver id (unhand K m.attributes) q { m with nestCount := 0, holder := none, holderId := 0 }).1,
        (handOver id (unhand K m.attributes) q { m with nestCount := 0, holder := none, holderId := 0 }).2,
        .successful) := by
  unfold surrender
  rw [if_neg (by rintro ⟨h1, h2⟩; rcases ho with ho | ho <;> simp_all)]
  dsimp only
  rw [if_neg (not_not.mpr hn), attributes_vacate, attributes_unnest, vacate_unnest hn, ← unhand]

end

theorem surrender_cases (id : T → Nat) (K : Kernel Q T) (q : Q) (m : Control T) :
    Surrendered id K q m (surrender id K q m).1 (surrender id K q m).2.1 := by
  by_cases ho : id K.sched.executing ≠ m.holderId ∧ isOwned m.attributes = true
  · rw [surrender, if_pos ho]
    exact .refused ho.1 ho.2
  · have hor : id K.sched.executing = m.holderId ∨ isOwned m.attributes = false := by
      by_contra hc
      push Not at hc
      exact ho ⟨hc.1, Bool.not_eq_false _ ▸ hc.2⟩
    by_cases hn : (unnest m).nestCount = 0
    · rw [surrender_last hor hn]
      unfold handOver
      generalize hd : (unhand K m.attributes).dequeue q = r
      obtain ⟨K', _ | t⟩ := r
      · exact .released K' hor hn hd
      · exact .handedOver K' t hor hn hd
    · rw [surrender_nested hor hn]
      exact .nested hor hn

/-! ## The kernel stays quiet -/

section

variable (h : Quiet K lead fol)

include h

omit [DecidableEq Q] in
theorem quiet_addResource (t : T) : Quiet (K.addResource t) lead fol ∧ Still K (K.addResource t) :=
  h.modify fun _ => ⟨rfl, rfl, rfl, rfl⟩

omit [DecidableEq Q] in
theorem quiet_subResource (t : T) : Quiet (K.subResource t) lead fol ∧ Still K (K.subResource t) :=
  h.modify fun _ => ⟨rfl, rfl, rfl, rfl⟩

theorem quiet_acquire (id : T → Nat) (m : Control T) : Quiet (acquire id K m).1 lead fol ∧ Still K (acquire id K m).1 := by
  obtain ⟨h', hs⟩ := quiet_addResource h K.sched.executing
  unfold acquire
  dsimp only
  cases m.attributes.discipline with
  | fifo | priority | priorityInherit => exact ⟨h', hs⟩
  | priorityCeiling =>
    obtain ⟨h'', hs'⟩ := h'.raise K.sched.executing m.attributes.priorityCeiling
    exact ⟨h'', hs.trans hs'⟩

theorem quiet_inherit (m : Control T) : Quiet (inherit K m) lead fol ∧ Still K (inherit K m) := by
  unfold inherit
  cases m.attributes.discipline with
  | fifo | priority | priorityCeiling => exact ⟨h, .refl K⟩
  | priorityInherit =>
    cases m.holder with
    | none => exact ⟨h, .refl K⟩
    | some u => exact h.raise ..

theorem quiet_enqueued (m : Control T) : Quiet (enqueued K m) lead fol ∧ Still K (enqueued K m) := by
  unfold enqueued
  split
  · cases m.attributes.discipline with
    | fifo | priority | priorityInherit => exact ⟨h, .refl K⟩
    | priorityCeiling => exact h.raise ..
  · exact ⟨h, .refl K⟩

theorem quiet_unhand (a : Attributes) : Quiet (unhand K a) lead fol ∧ Still K (unhand K a) := by
  obtain ⟨h', hs⟩ := quiet_subResource h K.sched.executing
  unfold unhand restore
  dsimp only
  split
  · obtain ⟨h'', hs'⟩ := h'.changePriority (K.subResource K.sched.executing).sched.executing
      ((K.subResource K.sched.executing).sched.control
        (K.subResource K.sched.executing).sched.executing).realPriority true
    exact ⟨h'', hs.trans hs'⟩
  · exact ⟨h', hs⟩

end

theorem quiet_seize (h : Quiet K lead fol) (hr : (K.sched.control K.sched.executing).currentState = States.ready)
    (hu : timeout < 2 ^ 32) (hs : Seized id K q m timeout fuel K' m') :
    ∃ lead' fol', Quiet K' lead' fol' ∧ ∀ u ≠ K.sched.executing,
      K'.timers.state u = K.timers.state u ∧ K'.isWaiting u = K.isWaiting u := by
  have hstill {K' : Kernel Q T} (hS : Still K K') (u : T) :
      K'.timers.state u = K.timers.state u ∧ K'.isWaiting u = K.isWaiting u :=
    ⟨by rw [hS.timers], hS.isWaiting u⟩
  obtain ⟨h1, hS1⟩ := h.setReturnCode K.sched.executing 0
  cases hs with
  | refused status =>
    obtain ⟨h', hS⟩ := h.setReturnCode K.sched.executing status.code
    exact ⟨lead, fol, h', fun u _ => hstill hS u⟩
  | acquired =>
    obtain ⟨h2, hS2⟩ := quiet_acquire h1 id m
    exact ⟨lead, fol, h2, fun u _ => hstill (hS1.trans hS2) u⟩
  | nested => exact ⟨lead, fol, h1, fun u _ => hstill hS1 u⟩
  | waits K3 _ _ hb =>
    obtain ⟨h2, hS2⟩ := quiet_inherit h1 m
    have hS := hS1.trans hS2
    have hx := hS.executing
    obtain ⟨lead', fol', h3, hB, hst⟩ := h2.block (by rw [hx, hS.states, hr]) hu hb
    obtain ⟨h4, hS4⟩ := quiet_enqueued h3 m
    refine ⟨lead', fol', h4, fun u hux => ⟨?_, ?_⟩⟩
    · rw [hS4.timers, hst, armedState_ne (by rw [hx]; exact hux), hS.timers]
    · rw [hS4.isWaiting, Kernel.isWaiting, hB.control u (by rw [hx]; exact hux)]
      exact hS.isWaiting u

theorem quiet_surrender (h : Quiet K lead fol) (hs : Surrendered id K q m K' m') :
    ∃ lead' fol', Quiet K' lead' fol' ∧ (Still K K' ∨ ∃ K1 K2 t, Still K K1 ∧ Took K1 K2 t ∧ Still K2 K') := by
  obtain ⟨h1, hS1⟩ := quiet_unhand h m.attributes
  cases hs with
  | refused | nested => exact ⟨lead, fol, h, Or.inl (.refl K)⟩
  | released K2 _ _ hd =>
    cases hq : service (lead q) fol with
    | nil =>
      rw [h1.toCalm.dequeue_nil hq] at hd
      obtain rfl := (Prod.mk.inj hd).1
      exact ⟨lead, fol, h1, Or.inl hS1⟩
    | cons t k =>
      obtain ⟨K', lead', fol', he, -⟩ := h1.dequeue hq
      rw [he] at hd
      cases (Prod.mk.inj hd).2
  | handedOver K2 t _ _ hd =>
    cases hq : service (lead q) fol with
    | nil =>
      rw [h1.toCalm.dequeue_nil hq] at hd
      cases (Prod.mk.inj hd).2
    | cons t' k =>
      obtain ⟨K', lead', fol', he, h2, hT⟩ := h1.dequeue hq
      rw [he] at hd
      obtain ⟨rfl, ht⟩ := Prod.mk.inj hd
      obtain rfl := some.inj ht
      obtain ⟨h3, hS3⟩ := quiet_addResource h2 t'
      exact ⟨lead', fol', h3, Or.inr ⟨_, _, t', hS1, hT, hS3⟩⟩

end CoreMutex

end Rtems
