import Rtems.Timeslice.Account

/-! # One tick for the executing thread -/

namespace Rtems.Timeslice


open Intrusive Thread

variable {C T : Type*} [DecidableEq C] [DecidableEq T] {S : Scheduler C T} {rd : Priority → List T}
  {oc : C → Option (List T)} {l1 l2 : List T} {t u : T}

theorem leads_eq (h : Chained S rd oc)
    (hp : rd (S.control S.executing).currentPriority = l1 ++ S.executing :: l2) :
    leads S = !l2.isEmpty := by
  have hn : S.links.next (.obj S.executing) = succ (.ready (S.control S.executing).ready) l2 := by
    rw [(h.pointers S.executing).1]
    exact (hp ▸ h.holds (S.control S.executing).currentPriority).next_obj
  cases l2 <;> simp [leads, hn]

theorem resetTimeslice_last (h : Chained S rd oc) (hr : (S.control S.executing).currentState = States.ready) :
    ∃ rd', Chained S.resetTimeslice rd' oc ∧ leads S.resetTimeslice = false := by
  obtain ⟨l1, l2, hp⟩ := h.split hr
  unfold Scheduler.resetTimeslice
  split <;> rename_i hone
  · -- no other thread is there
    rw [(h.pointers _).1, Chain.hasOnlyOneNode_iff (h.holds _) (h.nodup _), hp] at hone
    obtain ⟨a, ha⟩ := hone
    obtain rfl : l2 = [] := by
      have hl := congrArg List.length ha
      simp only [List.length_append, List.length_cons, List.length_nil] at hl
      exact List.length_eq_zero_iff.mp (by omega)
    exact ⟨rd, h, leads_eq h hp⟩
  · have hR := h.rotate hr hp
    have hp' : Function.update rd (S.control S.executing).currentPriority (l1 ++ l2 ++ [S.executing])
        (S.rotate.rotateFinish.control S.rotate.rotateFinish.executing).currentPriority =
        l1 ++ l2 ++ S.rotate.rotateFinish.executing :: [] := by
      rw [Scheduler.executing_rotateFinish, Scheduler.control_rotateFinish]
      exact Function.update_self _ _ _
    exact ⟨_, hR, leads_eq hR hp'⟩

/-! ## `_Thread_Tickle_timeslice` -/

structure Tickled (S S' : Scheduler C T) : Prop where
  executing : S'.executing = S.executing
  ticksPerTimeslice : S'.ticksPerTimeslice = S.ticksPerTimeslice
  account_ne : ∀ u ≠ S.executing, account (S'.control u) = account (S.control u)
  account_executing : (account (S'.control S.executing)).2 = (account (S.control S.executing)).2
  budget : timesliced (S.control S.executing).budgetAlgorithm →
    let budget := (S.control S.executing).cpuTimeBudget
    let budget' := (S'.control S.executing).cpuTimeBudget
    isCounted S = false ∧ budget' = budget ∨
      isCounted S ∧ subWord budget 1 ≠ 0 ∧ budget' = subWord budget 1 ∨
      isCounted S ∧ budget' = S.ticksPerTimeslice ∧ leads S' = false

def setBudget (S : Scheduler C T) (t : T) (b : Nat) : Scheduler C T :=
  S.modify t fun c => { c with cpuTimeBudget := b }

section

omit [DecidableEq C]

theorem setBudget_setBudget {b b'} : setBudget (setBudget S t b) t b' = setBudget S t b' :=
  Scheduler.modify_modify _ _

theorem Keeps.setBudget {S'} (h : Keeps S S') (t : T) (b : Nat) :
    Keeps (setBudget S t b) (setBudget S' t b) := by
  refine ⟨h.executing, h.ticksPerTimeslice, fun u => ?_⟩
  by_cases hut : u = t
  · subst hut
    have hu := congrArg Prod.snd (h.account u)
    simp only [Timeslice.account, Timeslice.setBudget, Scheduler.control_modify_self, Prod.mk.injEq] at hu ⊢
    exact ⟨trivial, hu⟩
  · simp only [Timeslice.setBudget, Scheduler.control_modify_ne _ hut]
    exact h.account u

theorem Keeps.override {S' b} (h : Keeps (Timeslice.setBudget S t b) S') (b' : Nat) :
    Keeps (Timeslice.setBudget S t b') (Timeslice.setBudget S' t b') := by
  have hk := h.setBudget t b'
  rwa [setBudget_setBudget] at hk

end

theorem leads_setBudget {b} : leads (setBudget S t b) = leads S := by
  unfold leads
  rw [show ((setBudget S t b).control (setBudget S t b).executing).ready = (S.control S.executing).ready from
    Scheduler.field_modify Control.ready rfl _]
  rfl

theorem Tickled.of_keeps {S'} (h : Keeps S S')
    (hc : timesliced (S.control S.executing).budgetAlgorithm → isCounted S = false) : Tickled S S' where
  executing := h.executing
  ticksPerTimeslice := h.ticksPerTimeslice
  account_ne u _ := h.account u
  account_executing := congrArg Prod.snd (h.account _)
  budget ht := Or.inl ⟨hc ht, h.cpuTimeBudget _⟩

theorem Tickled.of_setBudget {S' b} (h : Keeps (setBudget S S.executing b) S')
    (hb : timesliced (S.control S.executing).budgetAlgorithm → isCounted S ∧
      (subWord (S.control S.executing).cpuTimeBudget 1 ≠ 0 ∧ b = subWord (S.control S.executing).cpuTimeBudget 1 ∨
        b = S.ticksPerTimeslice ∧ leads S' = false)) : Tickled S S' where
  executing := h.executing
  ticksPerTimeslice := h.ticksPerTimeslice
  account_ne u hu := (h.account u).trans (by rw [setBudget, Scheduler.control_modify_ne _ hu])
  account_executing := (congrArg Prod.snd (h.account _)).trans (by
    rw [setBudget, Scheduler.control_modify_self]
    rfl)
  budget ht := by
    have he : (S'.control S.executing).cpuTimeBudget = b :=
      (h.cpuTimeBudget _).trans (by rw [setBudget, Scheduler.control_modify_self])
    obtain ⟨hc, ⟨hn, hb⟩ | ⟨hb, hl⟩⟩ := hb ht
    · exact Or.inr (Or.inl ⟨hc, hn, he.trans hb⟩)
    · exact Or.inr (Or.inr ⟨hc, he.trans hb, hl⟩)

omit [DecidableEq C] [DecidableEq T] in
theorem off_none : Off (fun _ : C => none) t := by
  intro c l hl
  cases hl

section

variable (h : Chained S rd fun _ => none)

include h

theorem sporadicBudgetCallout_spec :
    Keeps (setBudget S t 0xFFFFFFFF) (S.sporadicBudgetCallout t) ∧
      ∃ rd', Chained (S.sporadicBudgetCallout t) rd' fun _ => none := by
  have hm : Chained (S.modify t fun c => { c with
      cpuTimeBudget := 0xFFFFFFFF, realPriority := (S.control t).lowPriority }) rd fun _ => none := h.touch rfl
  have hk : Keeps (setBudget S t 0xFFFFFFFF) (S.modify t fun c => { c with
      cpuTimeBudget := 0xFFFFFFFF, realPriority := (S.control t).lowPriority }) := by
    refine ⟨rfl, rfl, fun u => ?_⟩
    by_cases hut : u = t
    · subst hut
      simp only [setBudget, Scheduler.control_modify_self]
      rfl
    · simp only [setBudget, Scheduler.control_modify_ne _ hut]
  unfold Scheduler.sporadicBudgetCallout
  dsimp only
  split
  · exact ⟨hk.trans .changePriority, hm.changePriority (fun _ => off_none) true⟩
  · exact ⟨hk, rd, hm⟩

def spend (S : Scheduler C T) (e : T) (budget : Nat) : Scheduler C T :=
  match (S.control e).budgetAlgorithm with
  | .none => S
  | .resetTimeslice | .exhaustTimeslice =>
    let S := setBudget S e budget
    if budget = 0 then setBudget S.resetTimeslice e S.ticksPerTimeslice else S
  | .callout =>
    let S := setBudget S e budget
    if budget = 0 then S.sporadicBudgetCallout e else S

omit h in
theorem tickleTimeslice_eq : S.tickleTimeslice =
    let S1 := S.modify S.executing fun c => { c with ticksExecuted := addWord c.ticksExecuted 1 }
    if ¬ (S1.control S.executing).isPreemptible then S1
    else if ¬ States.isReady (S1.control S.executing).currentState then S1
    else spend S1 S.executing (subWord (S1.control S.executing).cpuTimeBudget 1) := rfl

theorem spend_slice (hr : (S.control S.executing).currentState = States.ready)
    (ht : timesliced (S.control S.executing).budgetAlgorithm = true) (b : Nat) :
    (∃ rd', Chained (spend S S.executing b) rd' fun _ => none) ∧
      (b ≠ 0 ∧ Keeps (setBudget S S.executing b) (spend S S.executing b) ∨
        Keeps (setBudget S S.executing S.ticksPerTimeslice) (spend S S.executing b) ∧
          leads (spend S S.executing b) = false) := by
  have h2 : Chained (setBudget S S.executing b) rd fun _ => none := h.touch rfl
  have he : spend S S.executing b = if b = 0 then
      setBudget (setBudget S S.executing b).resetTimeslice S.executing S.ticksPerTimeslice
      else setBudget S S.executing b := by
    unfold spend
    split <;> rename_i ha
    · simp [ha, timesliced] at ht
    · rfl
    · rfl
    · simp [ha, timesliced] at ht
  rw [he]
  by_cases hb : b = 0
  · have hr2 : ((setBudget S S.executing b).control S.executing).currentState = States.ready := by
      rw [setBudget, Scheduler.control_modify_self]
      exact hr
    obtain ⟨rd', h3, hl⟩ := resetTimeslice_last h2 hr2
    have hk : Keeps (setBudget S S.executing b) (setBudget S S.executing b).resetTimeslice := .resetTimeslice
    rw [if_pos hb]
    exact ⟨⟨rd', h3.touch rfl⟩, Or.inr ⟨hk.override _, leads_setBudget.trans hl⟩⟩
  · rw [if_neg hb]
    exact ⟨⟨rd, h2⟩, Or.inl ⟨hb, .refl⟩⟩

theorem spend_other (ht : timesliced (S.control t).budgetAlgorithm = false) (b : Nat) :
    (∃ rd', Chained (spend S t b) rd' fun _ => none) ∧ ∃ b', Keeps (setBudget S t b') (spend S t b) := by
  have h2 : Chained (setBudget S t b) rd fun _ => none := h.touch rfl
  unfold spend
  split <;> rename_i ha
  · refine ⟨⟨rd, h⟩, (S.control t).cpuTimeBudget, ?_⟩
    have he : setBudget S t (S.control t).cpuTimeBudget = S := by simp [setBudget, Scheduler.modify]
    rw [he]
    exact .refl
  · simp [ha, timesliced] at ht
  · simp [ha, timesliced] at ht
  · split
    · obtain ⟨hk, hch⟩ := sporadicBudgetCallout_spec (t := t) h2
      rw [setBudget_setBudget] at hk
      exact ⟨hch, _, hk⟩
    · exact ⟨⟨rd, h2⟩, b, .refl⟩

theorem tickleTimeslice_spec :
    Tickled S S.tickleTimeslice ∧ ∃ rd', Chained S.tickleTimeslice rd' fun _ => none := by
  have h1 : Chained (S.modify S.executing fun c => { c with ticksExecuted := addWord c.ticksExecuted 1 }) rd
    fun _ => none := h.touch rfl
  have hk1 : Keeps S (S.modify S.executing fun c => { c with ticksExecuted := addWord c.ticksExecuted 1 }) :=
    .modify rfl
  have hpre : ((S.modify S.executing fun c => { c with
      ticksExecuted := addWord c.ticksExecuted 1 }).control S.executing).isPreemptible =
      (S.control S.executing).isPreemptible := Scheduler.field_modify Control.isPreemptible (by rfl) _
  have hst : ((S.modify S.executing fun c => { c with
      ticksExecuted := addWord c.ticksExecuted 1 }).control S.executing).currentState =
      (S.control S.executing).currentState := Scheduler.field_modify Control.currentState (by rfl) _
  rw [tickleTimeslice_eq]
  dsimp only
  generalize (S.modify S.executing fun c => { c with ticksExecuted := addWord c.ticksExecuted 1 }) = S1 at *
  rw [hpre, hst, hk1.cpuTimeBudget]
  split <;> rename_i hp
  · exact ⟨.of_keeps hk1 fun _ => by simp [isCounted, hp], rd, h1⟩
  split <;> rename_i hr
  · exact ⟨.of_keeps hk1 fun _ => by simp [isCounted, hr], rd, h1⟩
  have hc (ht : timesliced (S.control S.executing).budgetAlgorithm = true) : isCounted S = true := by
    simp only [isCounted, ht, Bool.and_true, Bool.and_eq_true]
    exact ⟨not_not.mp hp, not_not.mp hr⟩
  have hr1 : (S1.control S1.executing).currentState = States.ready := by
    rw [hk1.executing, hst]
    exact States.isReady_iff.mp (not_not.mp hr)
  have hk2 (b : Nat) : Keeps (setBudget S S.executing b) (setBudget S1 S.executing b) := hk1.setBudget _ b
  cases ht : timesliced (S.control S.executing).budgetAlgorithm with
  | true =>
    obtain ⟨hch, hk⟩ := spend_slice h1 hr1 (by rw [hk1.executing, hk1.budgetAlgorithm]; exact ht)
      (subWord (S.control S.executing).cpuTimeBudget 1)
    rw [hk1.executing, hk1.ticksPerTimeslice] at hk
    rw [hk1.executing] at hch
    rcases hk with ⟨hb, hk⟩ | ⟨hk, hl⟩
    · exact ⟨.of_setBudget ((hk2 _).trans hk) fun _ => ⟨hc ht, Or.inl ⟨hb, rfl⟩⟩, hch⟩
    · exact ⟨.of_setBudget ((hk2 _).trans hk) fun _ => ⟨hc ht, Or.inr ⟨rfl, hl⟩⟩, hch⟩
  | false =>
    obtain ⟨hch, b, hk⟩ := spend_other h1 (hk1.budgetAlgorithm S.executing ▸ ht)
      (subWord (S.control S.executing).cpuTimeBudget 1)
    exact ⟨.of_setBudget ((hk2 b).trans hk) fun h => absurd h (ht ▸ Bool.false_ne_true), hch⟩

end

end Rtems.Timeslice
