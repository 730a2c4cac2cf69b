import Rtems.Chain.Lemmas
import Rtems.Priority.Lemmas
import Rtems.Thread.Model
import Mathlib.Data.Fintype.Order
import Mathlib.Order.Fin.Basic

/-! # The ready chains as lists -/

namespace Rtems

open Function (update update_self update_of_ne)

/-! ## Sets of states -/

namespace States

variable {s m cur : States}

theorem clear_eq_self (h : cur &&& s = 0) : clear s cur = cur := by
  unfold clear
  ext i hi
  have hb := congrArg (fun x : BitVec 32 => x[i]) h
  simp only [BitVec.getElem_and, BitVec.getElem_not, BitVec.ofNat_eq_ofNat, BitVec.getElem_zero] at hb ⊢
  cases hc : cur[i] <;> simp_all

theorem set_eq_ready_iff : set s cur = ready ↔ cur = ready ∧ s = ready := BitVec.or_eq_zero_iff

theorem clear_set : clear s (set s cur) = clear s cur := by
  unfold clear set
  ext i hi
  simp only [BitVec.getElem_and, BitVec.getElem_or, BitVec.getElem_not]
  cases s[i] <;> simp

@[simp] theorem isReady_iff : isReady s = true ↔ s = ready := by simp [isReady]

@[simp] theorem clear_ready : clear s ready = ready := BitVec.zero_and

theorem areSet_set : areSet (set s cur) m = (areSet cur m || areSet s m) := by
  unfold areSet set
  rw [BitVec.and_comm, BitVec.and_or_distrib_left]
  simp [BitVec.and_comm]

theorem clear_and : clear s cur &&& m = cur &&& clear s m := by
  unfold clear
  rw [BitVec.and_assoc, BitVec.and_comm (~~~s)]

theorem clear_and_eq (h : s &&& m = 0) : clear s cur &&& m = cur &&& m := by
  rw [clear_and, clear_eq_self (by rw [BitVec.and_comm]; exact h)]

theorem areSet_clear (h : s &&& m = 0) : areSet (clear s cur) m = areSet cur m := by
  unfold areSet
  rw [clear_and_eq h]

end States

namespace Thread

open Intrusive

variable {C T : Type*}

def Control.Placed (c : Control) : Prop :=
  c.ready = c.currentPriority ∧ c.priorityMap = Priority.initializeInformation c.currentPriority

def Control.setPriority (c : Control) (p : Priority) : Control :=
  { c with currentPriority := p, ready := p, priorityMap := Priority.initializeInformation p }

theorem Control.placed_setPriority (c : Control) (p : Priority) : (c.setPriority p).Placed := ⟨rfl, rfl⟩

theorem Control.Placed.setPriority_self {c : Control} (h : c.Placed) :
    c.setPriority c.currentPriority = c := by
  obtain ⟨h1, h2⟩ := h
  cases c
  simp_all [Control.setPriority]

def Control.scheduling (c : Control) : States × Priority × Priority × Priority.Information × Bool :=
  (c.currentState, c.currentPriority, c.ready, c.priorityMap, c.isPreemptible)

def chains (rd : Priority → List T) (oc : C → Option (List T)) : ChainName C → Option (List T)
  | .ready p => some (rd p)
  | .other c => oc c

structure Readied (S : Scheduler C T) (rd : Priority → List T) (oc : C → Option (List T)) : Prop where
  on : Represents S.links (chains rd oc)
  mem_iff : ∀ {p t}, t ∈ rd p ↔
    (S.control t).currentState = States.ready ∧ (S.control t).currentPriority = p
  marks : Priority.Marks S.bitMap fun p => rd p ≠ []
  placed : ∀ {t}, (S.control t).currentState = States.ready → (S.control t).Placed

variable {S : Scheduler C T} {rd : Priority → List T} {oc : C → Option (List T)} {t u : T}
  {p q : Priority} {s : States} {l l1 l2 : List T}

namespace Readied

theorem holds (h : Readied S rd oc) (p : Priority) : Holds S.links (.ready p) (rd p) := h.on.holds rfl

theorem nodup (h : Readied S rd oc) (p : Priority) : (rd p).Nodup := h.on.nodup (c := .ready p) rfl

theorem split (h : Readied S rd oc) (ht : (S.control t).currentState = States.ready) :
    ∃ l1 l2, rd (S.control t).currentPriority = l1 ++ t :: l2 :=
  List.append_of_mem (h.mem_iff.mpr ⟨ht, rfl⟩)

theorem off (h : Readied S rd oc) (ht : (S.control t).currentState ≠ States.ready) (ho : Off oc t) :
    Off (chains rd oc) t := by
  rintro (p | c) l hl
  · cases hl
    exact fun hm => ht (h.mem_iff.mp hm).1
  · exact ho c l hl

end Readied

/-! ## The threads and the executing one, where they stay as they are -/

namespace Scheduler

def relink (S : Scheduler C T) (L : Links (ChainName C) T) (B : Priority.BitMap) : Scheduler C T :=
  { S with links := L, bitMap := B }

section

variable {L : Links (ChainName C) T} {B : Priority.BitMap}

@[simp] theorem control_relink : (S.relink L B).control = S.control := rfl

end

section

variable {n : Node (ChainName C) T} {b : Bool}

@[simp] theorem control_needSwitch : S.needSwitch.control = S.control := rfl

@[simp] theorem executing_needSwitch : S.needSwitch.executing = S.executing := rfl

@[simp] theorem control_setHeir : (S.setHeir n).control = S.control := by cases n <;> rfl

@[simp] theorem executing_setHeir : (S.setHeir n).executing = S.executing := by cases n <;> rfl

@[simp] theorem control_calculateHeir : S.calculateHeir.control = S.control := control_setHeir

@[simp] theorem executing_calculateHeir : S.calculateHeir.executing = S.executing := executing_setHeir

@[simp] theorem control_clearStateFinish : (S.clearStateFinish t).control = S.control := by
  unfold clearStateFinish
  split
  · dsimp only
    split <;> rfl
  · rfl

@[simp] theorem executing_clearStateFinish : (S.clearStateFinish t).executing = S.executing := by
  unfold clearStateFinish
  split
  · dsimp only
    split <;> rfl
  · rfl

variable [DecidableEq T]

@[simp] theorem control_reschedule : S.reschedule.control = S.control := by
  unfold reschedule
  dsimp only
  split <;> simp

@[simp] theorem executing_reschedule : S.reschedule.executing = S.executing := by
  unfold reschedule
  dsimp only
  split <;> simp

@[simp] theorem control_setStateFinish : (S.setStateFinish t).control = S.control := by
  unfold setStateFinish
  dsimp only
  split <;> split <;> simp

@[simp] theorem executing_setStateFinish : (S.setStateFinish t).executing = S.executing := by
  unfold setStateFinish
  dsimp only
  split <;> split <;> simp

@[simp] theorem control_rotateFinish : S.rotateFinish.control = S.control := by
  unfold rotateFinish
  split <;> simp

@[simp] theorem executing_rotateFinish : S.rotateFinish.executing = S.executing := by
  unfold rotateFinish
  split <;> simp

variable [DecidableEq C]

@[simp] theorem control_linkReady : (S.linkReady t b).control = S.control := rfl

@[simp] theorem executing_linkReady : (S.linkReady t b).executing = S.executing := rfl

@[simp] theorem control_unlinkReady : (S.unlinkReady t).control = S.control := by
  unfold unlinkReady
  dsimp only
  split <;> rfl

@[simp] theorem executing_unlinkReady : (S.unlinkReady t).executing = S.executing := by
  unfold unlinkReady
  dsimp only
  split <;> rfl

end

end Scheduler

/-! ## Changes of the chains and of one thread -/

section

variable [DecidableEq C]

theorem update_chains_ready :
    update (chains rd oc) (.ready p) (some l) = chains (update rd p l) oc := by
  funext c
  cases c with
  | ready q =>
    by_cases hq : q = p
    · subst hq; simp [chains]
    · simp [chains, hq]
  | other c => simp [chains]

theorem update_chains_other {c l} :
    update (chains rd oc) (.other c) l = chains rd (update oc c l) := by
  funext d
  cases d with
  | ready q => simp [chains]
  | other d =>
    by_cases hd : d = c
    · subst hd; simp [chains]
    · simp [chains, hd]

end

variable [DecidableEq T]

namespace Scheduler

@[simp] theorem control_modify_self (f : Control → Control) : (S.modify t f).control t = f (S.control t) := by
  simp [modify]

theorem control_modify_ne (f : Control → Control) (h : u ≠ t) : (S.modify t f).control u = S.control u := by
  simp [modify, h]

theorem modify_modify (f g : Control → Control) : (S.modify t f).modify t g = S.modify t fun c => g (f c) := by
  simp [modify]

theorem field_modify {β} (g : Control → β) {f} (hf : g (f (S.control t)) = g (S.control t)) (u : T) :
    g ((S.modify t f).control u) = g (S.control u) := by
  by_cases hut : u = t
  · subst hut
    rw [control_modify_self, hf]
  · rw [control_modify_ne f hut]

@[simp] theorem executing_setCurrentState : (S.setCurrentState t s).executing = S.executing := rfl

@[simp] theorem control_setCurrentState_self :
    (S.setCurrentState t s).control t = { S.control t with currentState := s } :=
  control_modify_self _

theorem control_setCurrentState_ne (h : u ≠ t) : (S.setCurrentState t s).control u = S.control u :=
  control_modify_ne _ h

@[simp] theorem currentPriority_setCurrentState :
    ((S.setCurrentState t s).control u).currentPriority = (S.control u).currentPriority := by
  by_cases h : u = t
  · subst h; simp
  · rw [control_setCurrentState_ne h]

@[simp] theorem placed_setCurrentState :
    ((S.setCurrentState t s).control u).Placed ↔ (S.control u).Placed := by
  by_cases h : u = t
  · subst h; simp [Control.Placed]
  · rw [control_setCurrentState_ne h]

end Scheduler

theorem Readied.modify (h : Readied S rd oc) {f}
    (hs : (f (S.control t)).currentState = States.ready ↔ (S.control t).currentState = States.ready)
    (hp : (S.control t).currentState = States.ready →
      (f (S.control t)).currentPriority = (S.control t).currentPriority ∧ (f (S.control t)).Placed) :
    Readied (S.modify t f) rd oc := by
  refine ⟨h.on, fun {p u} => ?_, h.marks, fun {u} hu => ?_⟩
  · rw [h.mem_iff]
    by_cases hut : u = t
    · subst hut
      rw [Scheduler.control_modify_self, hs]
      exact and_congr_right fun hr => by rw [(hp hr).1]
    · rw [Scheduler.control_modify_ne f hut]
  · by_cases hut : u = t
    · subst hut
      rw [Scheduler.control_modify_self] at hu ⊢
      exact (hp (hs.mp hu)).2
    · rw [Scheduler.control_modify_ne f hut] at hu ⊢
      exact h.placed hu

variable [DecidableEq C]

/-! ## Taking a thread off its ready chain -/

theorem unlinkReady_spec (h : Readied S rd oc) (hp : rd p = l1 ++ t :: l2) (hs : s ≠ States.ready) :
    ∃ L B, (S.setCurrentState t s).unlinkReady t = (S.setCurrentState t s).relink L B ∧
      Readied ((S.setCurrentState t s).relink L B)
        (update rd p (l1 ++ l2)) oc := by
  have ht := h.mem_iff.mp (show t ∈ rd p by rw [hp]; simp)
  obtain ⟨hready, hmap⟩ := h.placed ht.1
  have hnd := h.nodup p
  rw [hp] at hnd
  have hmem : ∀ {q u}, u ∈ update rd p (l1 ++ l2) q ↔
      ((S.setCurrentState t s).control u).currentState = States.ready ∧
        ((S.setCurrentState t s).control u).currentPriority = q := by
    intro q u
    have hm : u ∈ update rd p (l1 ++ l2) q ↔ u ∈ rd q ∧ u ≠ t := by
      by_cases hq : q = p
      · subst hq
        rw [update_self, Linked.mem_without hnd, hp]
      · rw [update_of_ne hq]
        refine ⟨fun hu => ⟨hu, ?_⟩, And.left⟩
        rintro rfl
        exact hq ((h.mem_iff.mp hu).2.symm.trans ht.2)
    rw [hm, h.mem_iff]
    by_cases hut : u = t
    · subst hut
      simp [hs]
    · rw [Scheduler.control_setCurrentState_ne hut]
      simp [hut]
  have hplaced : ∀ {u}, ((S.setCurrentState t s).control u).currentState = States.ready →
      ((S.setCurrentState t s).control u).Placed := by
    intro u hu
    by_cases hut : u = t
    · subst hut
      simp [hs] at hu
    · rw [Scheduler.control_setCurrentState_ne hut] at hu ⊢
      exact h.placed hu
  have hone := Chain.hasOnlyOneNode_iff (h.holds p) (h.nodup p)
  have hro : ((S.setCurrentState t s).control t).ready = p := by simp [hready, ht.2]
  have hmo : ((S.setCurrentState t s).control t).priorityMap = Priority.initializeInformation p := by
    simp [hmap, ht.2]
  unfold Scheduler.unlinkReady
  simp only [hro, hmo]
  by_cases hc : Chain.hasOnlyOneNode S.links (.ready p)
  · -- the chain becomes empty
    obtain ⟨a, ha⟩ := hone.mp hc
    obtain ⟨rfl, rfl⟩ : l1 = [] ∧ l2 = [] := by
      have hlen := congrArg List.length (hp.symm.trans ha)
      simp only [List.length_append, List.length_cons, List.length_nil] at hlen
      exact ⟨List.length_eq_zero_iff.mp (by omega), List.length_eq_zero_iff.mp (by omega)⟩
    refine ⟨_, _, if_pos hc, ?_, hmem, (h.marks.remove p).congr fun q => ?_, hplaced⟩
    · rw [← update_chains_ready]
      exact Chain.initializeEmpty_represents h.on _
    · by_cases hq : q = p
      · subst hq; simp
      · simp [hq]
  · refine ⟨_, S.bitMap, if_neg hc, ?_, hmem, h.marks.congr fun q => ?_, hplaced⟩
    · rw [← update_chains_ready]
      exact Chain.extract_represents h.on (congrArg some hp)
    · by_cases hq : q = p
      · subst hq
        have hne : l1 ++ l2 ≠ [] := by
          intro he
          obtain ⟨rfl, rfl⟩ := List.append_eq_nil_iff.mp he
          exact hc (hone.mpr ⟨t, hp⟩)
        simp only [update_self, hp]
        exact ⟨fun _ => by simp, fun _ => hne⟩
      · rw [update_of_ne hq]

def joined (rd : Priority → List T) (p : Priority) (t : T) (prependIt : Bool) : Priority → List T :=
  update rd p (if prependIt then t :: rd p else rd p ++ [t])

theorem linkReady_spec (h : Readied S rd oc) (hs : (S.control t).currentState ≠ States.ready)
    (ho : Off oc t) (hpl : (S.control t).Placed) (prependIt : Bool) :
    ∃ L B, (S.setCurrentState t States.ready).linkReady t prependIt =
        (S.setCurrentState t States.ready).relink L B ∧
      Readied ((S.setCurrentState t States.ready).relink L B)
        (joined rd (S.control t).currentPriority t prependIt) oc := by
  obtain ⟨hready, hmap⟩ := hpl
  generalize hp : (S.control t).currentPriority = p at hready hmap ⊢
  have hoff := h.off hs ho
  have hR : Represents (if prependIt then Chain.prepend S.links (.ready p) (.obj t)
      else Chain.append S.links (.ready p) (.obj t)) (chains (joined rd p t prependIt) oc) := by
    rw [joined, ← update_chains_ready]
    cases prependIt with
    | false => exact Chain.append_represents h.on rfl hoff
    | true => exact Chain.prepend_represents h.on rfl hoff
  refine ⟨_, _, rfl, ?_⟩
  simp only [Scheduler.control_setCurrentState_self, hready, hmap]
  refine ⟨hR, fun {q u} => ?_, (h.marks.add p).congr fun q => ?_, fun {u} hu => ?_⟩
  · have hm : u ∈ joined rd p t prependIt q ↔ u ∈ rd q ∨ u = t ∧ q = p := by
      by_cases hq : q = p
      · subst hq
        cases prependIt <;> simp [joined, or_comm]
      · simp [joined, hq]
    rw [hm, h.mem_iff]
    by_cases hut : u = t
    · subst hut
      simp [hs, hp, eq_comm]
    · simp [hut, Scheduler.control_setCurrentState_ne hut]
  · by_cases hq : q = p
    · subst hq
      cases prependIt <;> simp [joined]
    · simp [joined, hq]
  · by_cases hut : u = t
    · subst hut
      rw [Scheduler.control_relink, Scheduler.placed_setCurrentState]
      exact ⟨hready.trans hp.symm, hmap.trans (by rw [hp])⟩
    · rw [Scheduler.control_relink, Scheduler.control_setCurrentState_ne hut] at hu ⊢
      exact h.placed hu

end Thread

end Rtems
