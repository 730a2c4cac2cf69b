import Rtems.Watchdog.Run

/-! # Delta chains in runs without interrupts -/

namespace Rtems.Watchdog

open Intrusive DeltaList

variable {H α : Type*} [DecidableEq H] [DecidableEq α] {R R' : Run H α} {ch : H → List α}

/-- After `_Watchdog_Handler_initialization`. -/
structure Initial (R : Run H α) : Prop where
  empty : R.timers.On fun _ => []
  inactive : ∀ w, R.timers.state w = .inactive
  delta_lt : ∀ w, R.timers.delta w < 2 ^ 32

inductive Step : Run H α → Run H α → Prop
  | act {R R' : Run H α} {a : Action H α} (ha : Allowed R a) (hp : Performs R a R') : Step R R'
  | tick {R R' : Run H α} {routine : α → Run H α → Run H α} {h : H} {fuel : Nat}
      (hr : ∀ w R, Acts R (routine w R))
      (he : tickle Run.host (fire routine) h fuel (R.tick h) = some R') : Step R R'
  | adjust {R R' : Run H α} {routine : α → Run H α → Run H α} {h : H} {units fuel : Nat}
      (hov : ∀ v, Chain.first R.timers.links h = .obj v → R.timers.delta v + units < 2 ^ 32)
      (he : adjust Run.host (fire routine) h .backward units fuel (R.adjust h units) = some R') :
      Step R R'
  | level (R : Run H α) (level : Nat) :
      Step R { R with timers := { R.timers with isrNestLevel := level } }

inductive Reachable : Run H α → Prop
  | initial {R : Run H α} (h : Initial R) : Reachable R
  | step {R R' : Run H α} (hR : Reachable R) (hs : Step R R') : Reachable R'

omit [DecidableEq H] in
theorem Initial.kept (h : Initial R) :
    Kept R (fun _ => []) ∧ ∀ k v, ¬ Expired R (fun _ => []) k v := by
  refine ⟨⟨⟨h.empty, fun w => ?_, h.delta_lt⟩, by simp, by simp⟩, by simp [Expired]⟩
  simp [h.inactive w]

theorem Step.kept (hs : Step R R') (hK : Kept R ch) (hno : ∀ k v, ¬ Expired R ch k v) :
    ∃ ch', Kept R' ch' ∧ ∀ k v, ¬ Expired R' ch' k v := by
  cases hs with
  | act ha hp =>
    obtain ⟨ch', new, hE, -⟩ := action_effect hK ha hp
    exact ⟨ch', hE.kept, fun k v hx => hno k v (hE.expired hx).1⟩
  | tick hr he =>
    obtain ⟨ch', new, hK', hno', -, -⟩ := tickle_spec hr hK hno he
    exact ⟨ch', hK', hno'⟩
  | adjust hov he => exact ⟨ch, adjust_spec hK hno hov he⟩
  | level =>
    exact ⟨ch, ⟨⟨hK.good.on, hK.good.linked_iff, hK.good.delta_lt⟩, hK.since_le, hK.due_eq⟩, hno⟩

theorem Reachable.kept (hR : Reachable R) : ∃ ch, Kept R ch ∧ ∀ k v, ¬ Expired R ch k v := by
  induction hR with
  | initial h => exact ⟨_, h.kept⟩
  | step _ hs ih =>
    obtain ⟨ch, hK, hno⟩ := ih
    exact hs.kept hK hno

theorem Kept.performs {a} (hK : Kept R ch) (ha : Allowed R a) : ∃ R', Performs R a R' := by
  cases a with
  | insert h w units =>
    obtain ⟨hs, -, hu⟩ := ha
    obtain ⟨fuel, T, he, -⟩ := insert_spec hK.good.on (hK.good.notMem (Or.inl hs)) hK.good.delta_lt hu h
    exact ⟨_, .insert he⟩
  | remove w => exact ⟨_, .remove R w⟩
  | deactivate w => exact ⟨_, .deactivate R w⟩

/-- Timers are due after their intervals, and called then unless removed. -/
theorem reachable_chains (hR : Reachable R) :
    ∃ ch : H → List α, R.timers.On ch ∧
      (∀ w, (∃ h, w ∈ ch h) ↔ R.timers.state w = .active ∨ R.timers.state w = .removeIt) ∧
      (∀ h, ∀ w ∈ ch h, (R.since w).1 ≤ R.ticks h ∧ (R.since w).2 ≤ R.adjusted h ∧
        due R.timers.delta (ch h) w + (R.ticks h - (R.since w).1) =
          R.timers.initial w + (R.adjusted h - (R.since w).2)) ∧
      (∀ a, Allowed R a → (∃ R', Performs R a R') ∧
        ∀ R', Performs R a R' → ∃ ch', R'.timers.On ch' ∧ Others R R' ch ch' a.timer) ∧
      ∀ (routine : α → Run H α → Run H α) (h : H), (∀ w R, Acts R (routine w R)) →
        (∃ fuel R', tickle Run.host (fire routine) h fuel (R.tick h) = some R') ∧
        ∀ fuel R', tickle Run.host (fire routine) h fuel (R.tick h) = some R' →
          ∃ new, R'.log = new ++ R.log ∧ Fired (fun w => w ∈ ch h ∧
            due R.timers.delta (ch h) w = 1 ∧ R.timers.state w = .active) new := by
  obtain ⟨ch, hK, hno⟩ := hR.kept
  refine ⟨ch, hK.good.on, hK.good.linked_iff, fun h w hw => ?_, fun a ha => ⟨hK.performs ha, fun R' hp => ?_⟩,
    fun routine h hr => ⟨tickle_total hr hK hno h, fun fuel R' he => ?_⟩⟩
  · exact ⟨(hK.since_le h w hw).1, (hK.since_le h w hw).2, hK.due_eq h w hw⟩
  · obtain ⟨ch', new, hE, ho⟩ := action_effect hK ha hp
    exact ⟨ch', hE.kept.good.on, ho⟩
  · obtain ⟨-, new, -, -, hlog, hF⟩ := tickle_spec hr hK hno he
    exact ⟨new, hlog, hF⟩

/-! ## Two timers -/

def twoTimers : Run Unit Bool where
  timers := .idle
  ticks := fun _ => 0
  adjusted := fun _ => 0
  since := fun _ => (0, 0)
  log := []

theorem twoTimers_initial : Initial twoTimers := by
  have hG : Good twoTimers.timers fun _ => [] := Good.idle
  exact ⟨hG.on, fun _ => rfl, hG.delta_lt⟩

def oneDue : Run Unit Bool :=
  { twoTimers with
    timers := (insert twoTimers.timers () false 1 4).get (by decide +kernel)
    since := Function.update twoTimers.since false (0, 0) }

def bothDue : Run Unit Bool :=
  { oneDue with
    timers := (insert oneDue.timers () true 1 5).get (by decide +kernel)
    since := Function.update oneDue.since true (0, 0) }

theorem bothDue_reachable : Reachable bothDue := by
  have h1 : Performs twoTimers (.insert () false 1) oneDue := .insert (Option.some_get _).symm
  have h2 : Performs oneDue (.insert () true 1) bothDue := .insert (Option.some_get _).symm
  have ha1 : Allowed twoTimers (.insert () false 1) := ⟨rfl, by decide, by decide⟩
  have ha2 : Allowed oneDue (.insert () true 1) := ⟨by decide +kernel, by decide, by decide⟩
  exact .step (.step (.initial twoTimers_initial) (.act ha1 h1)) (.act ha2 h2)

def removeSecond (_ : Bool) (R : Run Unit Bool) : Run Unit Bool :=
  if ∀ v, R.timers.delta v < 2 ^ 31 then
    { R with timers := (remove R.timers true).1, log := .removed true :: R.log }
  else R

theorem removeSecond_acts (w : Bool) (R : Run Unit Bool) : Acts R (removeSecond w R) := by
  unfold removeSecond
  split
  · next h =>
    refine Relation.ReflTransGen.single ⟨.remove true, fun _ v _ => ?_, .remove R true⟩
    have h1 := h v
    have h2 := h true
    omega
  · exact Relation.ReflTransGen.refl

theorem reachable_chains_bothDue :
    ∃ ch, bothDue.timers.On ch ∧ true ∈ ch () ∧ due bothDue.timers.delta (ch ()) true = 1 ∧
      ∃ fuel R', tickle Run.host (fire fun _ R => R) () fuel (bothDue.tick ()) = some R' := by
  obtain ⟨ch, hon, hl, hd, -, ht⟩ := reachable_chains bothDue_reachable
  obtain ⟨k, hm⟩ := (hl true).mpr (Or.inl (by decide +kernel))
  obtain ⟨-, -, hd⟩ := hd () true hm
  have hi : bothDue.timers.initial true = 1 := by decide +kernel
  exact ⟨ch, hon, hm, hd, (ht _ () fun _ _ => Relation.ReflTransGen.refl).1⟩

/-- The routine of the first timer removes the second. -/
theorem tick_skips_removed :
    Reachable bothDue ∧ (∀ w R, Acts R (removeSecond w R)) ∧
      (∃ ch, bothDue.timers.On ch ∧ true ∈ ch () ∧ due bothDue.timers.delta (ch ()) true = 1 ∧
        bothDue.timers.state true = .active) ∧
      ∃ R', tickle Run.host (fire removeSecond) () 2 (bothDue.tick ()) = some R' ∧
        R'.log = [.removed true, .fired false] := by
  obtain ⟨ch, hK, -⟩ := bothDue_reachable.kept
  obtain ⟨k, hm⟩ := (hK.good.linked_iff true).mpr (Or.inl (by decide +kernel))
  have hd := hK.due_eq () true hm
  have hi : bothDue.timers.initial true = 1 := by decide +kernel
  have ht : (tickle Run.host (fire removeSecond) () 2 (bothDue.tick ())).map Run.log =
      some [.removed true, .fired false] := by decide +kernel
  exact ⟨bothDue_reachable, removeSecond_acts, ⟨ch, hK.good.on, hm, hd, by decide +kernel⟩,
    Option.map_eq_some_iff.mp ht⟩

end Rtems.Watchdog
