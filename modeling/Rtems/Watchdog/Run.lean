import Mathlib.Logic.Relation
import Rtems.Watchdog.Invariant

/-! # Runs of the Watchdog Handler without interrupts -/

namespace Rtems.Watchdog


open Function Intrusive DeltaList

inductive Event (α : Type*)
  | fired (w : α)
  | removed (w : α)
  | deactivated (w : α)
  deriving DecidableEq, Repr

structure Run (H α : Type*) where
  timers : Timers H α
  ticks : H → Nat
  adjusted : H → Nat
  since : α → Nat × Nat
  log : List (Event α)

inductive Action (H α : Type*)
  | insert (header : H) (w : α) (units : Nat)
  | remove (w : α)
  | deactivate (w : α)
  deriving DecidableEq, Repr

def Action.timer {H α : Type*} : Action H α → α
  | .insert _ w _ => w
  | .remove w => w
  | .deactivate w => w

variable {H α : Type*} [DecidableEq H] [DecidableEq α]

def Run.host : Host (Run H α) H α := ⟨Run.timers, fun R T => { R with timers := T }⟩

/-- Inserted timers are off all chains, active ones deactivated, no delta overflows. -/
def Allowed (R : Run H α) : Action H α → Prop
  | .insert _ w units => R.timers.state w = .inactive ∧ 0 < units ∧ units < 2 ^ 32
  | .remove w => R.timers.state w = .active ∨ R.timers.state w = .removeIt → ∀ v,
      R.timers.links.next (.obj w) = .obj v → R.timers.delta v + R.timers.delta w < 2 ^ 32
  | .deactivate w => R.timers.state w = .active

inductive Performs : Run H α → Action H α → Run H α → Prop
  | insert {R : Run H α} {h : H} {w : α} {units fuel : Nat} {T : Timers H α}
      (he : insert R.timers h w units fuel = some T) :
      Performs R (.insert h w units)
        { R with timers := T, since := update R.since w (R.ticks h, R.adjusted h) }
  | remove (R : Run H α) (w : α) :
      Performs R (.remove w)
        { R with timers := (Watchdog.remove R.timers w).1, log := .removed w :: R.log }
  | deactivate (R : Run H α) (w : α) :
      Performs R (.deactivate w)
        { R with timers := Watchdog.deactivate R.timers w, log := .deactivated w :: R.log }

def Acts : Run H α → Run H α → Prop :=
  Relation.ReflTransGen fun R R' => ∃ a, Allowed R a ∧ Performs R a R'

def fire (routine : α → Run H α → Run H α) (w : α) (R : Run H α) : Run H α :=
  routine w { R with log := .fired w :: R.log }

def Run.tick (R : Run H α) (h : H) : Run H α :=
  { R with ticks := update R.ticks h (R.ticks h + 1) }

structure Kept (R : Run H α) (ch : H → List α) : Prop where
  good : Good R.timers ch
  since_le : ∀ h, ∀ w ∈ ch h, (R.since w).1 ≤ R.ticks h ∧ (R.since w).2 ≤ R.adjusted h
  due_eq : ∀ h, ∀ w ∈ ch h, due R.timers.delta (ch h) w + (R.ticks h - (R.since w).1) =
    R.timers.initial w + (R.adjusted h - (R.since w).2)

def Expired (R : Run H α) (ch : H → List α) (h : H) (w : α) : Prop :=
  w ∈ ch h ∧ due R.timers.delta (ch h) w = 0

structure Effect (R R' : Run H α) (ch ch' : H → List α) (new : List (Event α)) : Prop where
  kept : Kept R' ch'
  log : R'.log = new ++ R.log
  silent : ∀ w, .fired w ∉ new
  gone : ∀ {h w}, .removed w ∈ new ∨ .deactivated w ∈ new → Expired R' ch' h w →
    R'.timers.state w ≠ .active
  expired : ∀ {h w}, Expired R' ch' h w → Expired R ch h w ∧
    (R'.timers.state w = .active → R.timers.state w = .active)
  stays : ∀ {h w}, Expired R ch h w →
    Expired R' ch' h w ∧ R'.timers.state w = R.timers.state w ∨ .removed w ∈ new ∨ .deactivated w ∈ new

variable {R R' R'' : Run H α} {ch ch' ch'' : H → List α}

omit [DecidableEq H] in
theorem Effect.refl (hK : Kept R ch) : Effect R R ch ch [] :=
  ⟨hK, rfl, by simp, by simp, fun h => ⟨h, id⟩, fun h => Or.inl ⟨h, rfl⟩⟩

omit [DecidableEq H] in
theorem Effect.trans {new new'} (h1 : Effect R R' ch ch' new)
    (h2 : Effect R' R'' ch' ch'' new') : Effect R R'' ch ch'' (new' ++ new) := by
  refine ⟨h2.kept, ?_, fun w => ?_, fun hg he hs => ?_, fun he => ?_, fun he => ?_⟩
  · rw [h2.log, h1.log, List.append_assoc]
  · rw [List.mem_append]
    exact not_or.mpr ⟨h2.silent w, h1.silent w⟩
  · simp only [List.mem_append] at hg
    obtain ⟨he', hs'⟩ := h2.expired he
    rcases hg with (hg | hg) | hg | hg
    · exact h2.gone (Or.inl hg) he hs
    · exact h1.gone (Or.inl hg) he' (hs' hs)
    · exact h2.gone (Or.inr hg) he hs
    · exact h1.gone (Or.inr hg) he' (hs' hs)
  · obtain ⟨he', hs'⟩ := h2.expired he
    obtain ⟨he, hs⟩ := h1.expired he'
    exact ⟨he, fun h => hs (hs' h)⟩
  · simp only [List.mem_append]
    rcases h1.stays he with ⟨he', hs⟩ | h | h
    · rcases h2.stays he' with ⟨he'', hs'⟩ | h | h
      · exact Or.inl ⟨he'', hs'.trans hs⟩
      · exact Or.inr (Or.inl (Or.inl h))
      · exact Or.inr (Or.inr (Or.inl h))
    · exact Or.inr (Or.inl (Or.inr h))
    · exact Or.inr (Or.inr (Or.inr h))

/-! ## Actions -/

def Others (R R' : Run H α) (ch ch' : H → List α) (w : α) : Prop :=
  ∀ k v, v ≠ w → (v ∈ ch' k ↔ v ∈ ch k) ∧
    (v ∈ ch k → due R'.timers.delta (ch' k) v = due R.timers.delta (ch k) v)

theorem insert_effect {h w units} (hK : Kept R ch)
    (ha : Allowed R (.insert h w units)) (hp : Performs R (.insert h w units) R') :
    ∃ ch', Effect R R' ch ch' [] ∧ Others R R' ch ch' w := by
  obtain ⟨hs, hu0, hu⟩ := ha
  cases hp with
  | @insert _ _ _ fuel T he =>
    have hw := hK.good.notMem (Or.inl hs)
    obtain ⟨ch', hJ⟩ := hK.good.join hw hu he
    have hne : ∀ {k v}, v ∈ ch k → v ≠ w := fun hv => by rintro rfl; exact hw _ hv
    refine ⟨ch', ⟨⟨hJ.good, fun k v hv => ?_, fun k v hv => ?_⟩, rfl, by simp,
        by simp, fun {k v} he => ?_, fun {k v} he => ?_⟩, fun k v hvw => ⟨?_, hJ.due_eq⟩⟩
    · rcases hJ.mem_iff.mp hv with hv | ⟨rfl, rfl⟩
      · simpa [hne hv] using hK.since_le k v hv
      · simp
    · rcases hJ.mem_iff.mp hv with hv | ⟨rfl, rfl⟩
      · simpa [hJ.due_eq hv, hJ.initial, hne hv] using hK.due_eq k v hv
      · simp [hJ.due_self, hJ.initial]
    · rcases hJ.mem_iff.mp he.1 with hv | ⟨rfl, rfl⟩
      · refine ⟨⟨hv, (hJ.due_eq hv).symm.trans he.2⟩, ?_⟩
        simp [hJ.state, hne hv]
      · exact absurd (hJ.due_self.symm.trans he.2) (by omega)
    · refine Or.inl ⟨⟨hJ.mem_iff.mpr (Or.inl he.1), (hJ.due_eq he.1).trans he.2⟩, ?_⟩
      simp [hJ.state, hne he.1]
    · rw [hJ.mem_iff]
      simp [hvw]

omit [DecidableEq H] in
theorem Dropped.kept {w T} (hD : Dropped R.timers T ch ch' w) (hK : Kept R ch)
    (log : List (Event α)) : Kept { R with timers := T, log := log } ch' := by
  refine ⟨hD.good, fun k v hv => ?_, fun k v hv => ?_⟩
  · exact hK.since_le k v (hD.mem_iff.mp hv).1
  · obtain ⟨hv, hne⟩ := hD.mem_iff.mp hv
    simpa [hD.due_eq hv hne, hD.initial] using hK.due_eq k v hv

omit [DecidableEq H] in
theorem Dropped.expired_iff {h v w T} (hD : Dropped R.timers T ch ch' w) (log : List (Event α)) :
    Expired { R with timers := T, log := log } ch' h v ↔ Expired R ch h v ∧ v ≠ w := by
  unfold Expired
  rw [hD.mem_iff]
  constructor
  · rintro ⟨⟨hv, hne⟩, hd⟩
    exact ⟨⟨hv, (hD.due_eq hv hne).symm.trans hd⟩, hne⟩
  · rintro ⟨⟨hv, hd⟩, hne⟩
    exact ⟨⟨hv, hne⟩, (hD.due_eq hv hne).trans hd⟩

theorem remove_effect {w} (hK : Kept R ch) (ha : Allowed R (.remove w)) :
    ∃ ch', Effect R { R with timers := (remove R.timers w).1, log := .removed w :: R.log } ch ch'
        [.removed w] ∧
      Others R { R with timers := (remove R.timers w).1, log := .removed w :: R.log } ch ch' w := by
  obtain ⟨ch', hD⟩ := hK.good.drop ha
  refine ⟨ch', ⟨hD.kept hK _, rfl, by simp, fun {k v} hg he => ?_, fun {k v} he => ?_,
    fun {k v} he => ?_⟩, fun k v hne => ⟨by simp [hD.mem_iff, hne], fun hv => hD.due_eq hv hne⟩⟩
  · have hvw : v = w := by simpa using hg
    exact absurd hvw ((hD.expired_iff _).mp he).2
  · obtain ⟨he, hne⟩ := (hD.expired_iff _).mp he
    exact ⟨he, by simp [hD.state, hne]⟩
  · by_cases hvw : v = w
    · exact Or.inr (Or.inl (by simp [hvw]))
    · exact Or.inl ⟨(hD.expired_iff _).mpr ⟨he, hvw⟩, by simp [hD.state, hvw]⟩

omit [DecidableEq H] in
theorem deactivate_effect {w} (hK : Kept R ch) (ha : Allowed R (.deactivate w)) :
    Effect R { R with timers := deactivate R.timers w, log := .deactivated w :: R.log } ch ch
        [.deactivated w] ∧
      Others R { R with timers := deactivate R.timers w, log := .deactivated w :: R.log } ch ch w := by
  have hd : (deactivate R.timers w).delta = R.timers.delta := Timers.delta_setState
  have hi : (deactivate R.timers w).initial = R.timers.initial := Timers.initial_setState
  have hst : (deactivate R.timers w).state = update R.timers.state w .removeIt :=
    Timers.state_setState
  have ha : R.timers.state w = .active := ha
  refine ⟨⟨⟨⟨hK.good.on, fun v => ?_, fun a => by rw [hd]; exact hK.good.delta_lt a⟩, hK.since_le,
    fun k v hv => by rw [hd, hi]; exact hK.due_eq k v hv⟩, rfl, by simp, fun {k v} hg he => ?_,
    fun {k v} he => ?_, fun {k v} he => ?_⟩, fun k v _ => ⟨Iff.rfl, fun _ => by rw [hd]⟩⟩
  · rw [hst, hK.good.linked_iff v]
    by_cases hvw : v = w
    · subst hvw; simp [ha]
    · simp [hvw]
  · have hvw : v = w := by simpa using hg
    simp [hst, hvw]
  · rw [Expired, hd] at he
    refine ⟨he, ?_⟩
    by_cases hvw : v = w
    · subst hvw; exact fun _ => ha
    · simp [hst, hvw]
  · by_cases hvw : v = w
    · exact Or.inr (Or.inr (by simp [hvw]))
    · exact Or.inl ⟨by rw [Expired, hd]; exact he, by simp [hst, hvw]⟩

theorem action_effect {a} (hK : Kept R ch) (ha : Allowed R a) (hp : Performs R a R') :
    ∃ ch' new, Effect R R' ch ch' new ∧ Others R R' ch ch' a.timer := by
  cases a with
  | insert h w units =>
    obtain ⟨ch', h⟩ := insert_effect hK ha hp
    exact ⟨ch', _, h⟩
  | remove w =>
    cases hp
    obtain ⟨ch', h⟩ := remove_effect hK ha
    exact ⟨ch', _, h⟩
  | deactivate w =>
    cases hp
    exact ⟨ch, _, deactivate_effect hK ha⟩

theorem Acts.effect (hK : Kept R ch) (hA : Acts R R') : ∃ ch' new, Effect R R' ch ch' new := by
  induction hA with
  | refl => exact ⟨ch, [], Effect.refl hK⟩
  | tail _ hstep ih =>
    obtain ⟨ch', new, hE⟩ := ih
    obtain ⟨a, ha, hp⟩ := hstep
    obtain ⟨ch'', new', hE', -⟩ := action_effect hE.kept ha hp
    exact ⟨ch'', new' ++ new, hE.trans hE'⟩

/-! ## Ticks -/

section Tick

variable {h : H} {w : α} {l : List α} {routine : α → Run H α → Run H α}

structure Fired (E : α → Prop) (new : List (Event α)) : Prop where
  only : ∀ {v}, .fired v ∈ new → E v
  all : ∀ {v}, E v → .fired v ∈ new ∨ .removed v ∈ new ∨ .deactivated v ∈ new
  turns : new.Pairwise fun e e' =>
    ∀ v, e = .fired v → e' ≠ .fired v ∧ e' ≠ .removed v ∧ e' ≠ .deactivated v

def Pending (R : Run H α) (ch : H → List α) (h : H) (w : α) : Prop :=
  Expired R ch h w ∧ R.timers.state w = .active

theorem Kept.drop_first (hK : Kept R ch) (hz : R.timers.delta w = 0) :
    ∃ ch', Dropped R.timers (remove R.timers w).1 ch ch' w :=
  hK.good.drop fun _ v _ => by rw [hz]; exact hK.good.delta_lt v

structure Round (R R₁ : Run H α) (ch ch₁ : H → List α) (w : α) (new : List (Event α)) : Prop where
  kept : Kept R₁ ch₁
  log : R₁.log = new ++ (if R.timers.state w = .active then [.fired w] else []) ++ R.log
  silent : ∀ v, .fired v ∉ new
  gone : ∀ {k v}, .removed v ∈ new ∨ .deactivated v ∈ new → ¬ Pending R₁ ch₁ k v
  expired : ∀ {k v}, Expired R₁ ch₁ k v → Expired R ch k v ∧ v ≠ w
  pending : ∀ {k v}, Pending R₁ ch₁ k v → Pending R ch k v
  stays : ∀ {k v}, Pending R ch k v → v ≠ w → Pending R₁ ch₁ k v ∨ .removed v ∈ new ∨
    .deactivated v ∈ new

def round (routine : α → Run H α → Run H α) (w : α) (R : Run H α) : Run H α :=
  if (remove R.timers w).2 = .active then fire routine w { R with timers := (remove R.timers w).1 }
  else { R with timers := (remove R.timers w).1 }

section

variable (hr : ∀ w R, Acts R (routine w R))

include hr

theorem round_spec (hK : Kept R ch)
    (hz : R.timers.delta w = 0) : ∃ ch1 new, Round R (round routine w R) ch ch1 w new := by
  unfold round
  rw [remove_snd]
  obtain ⟨ch1, hD⟩ := hK.drop_first hz
  have hst : ∀ {v}, v ≠ w → (remove R.timers w).1.state v = R.timers.state v := fun hv => by
    simp [hD.state, hv]
  by_cases ha : R.timers.state w = .active
  · rw [if_pos ha]
    obtain ⟨ch2, new, hE⟩ := (hr w _).effect (hD.kept hK (.fired w :: R.log))
    have back : ∀ {k v}, Pending (fire routine w { R with timers := (remove R.timers w).1 }) ch2 k v →
        Pending R ch k v := by
      rintro k v ⟨he, hs⟩
      obtain ⟨he1, hs1⟩ := hE.expired he
      obtain ⟨he0, hne⟩ := (hD.expired_iff _).mp he1
      exact ⟨he0, (hst hne).symm.trans (hs1 hs)⟩
    refine ⟨ch2, new, hE.kept, ?_, hE.silent, fun hg hp => hE.gone hg hp.1 hp.2,
      fun he => (hD.expired_iff _).mp (hE.expired he).1, back, fun hp hne => ?_⟩
    · rw [if_pos ha, List.append_assoc, List.singleton_append]
      exact hE.log
    · rcases hE.stays ((hD.expired_iff _).mpr ⟨hp.1, hne⟩) with ⟨he', hs'⟩ | h | h
      · exact Or.inl ⟨he', (hs'.trans (hst hne)).trans hp.2⟩
      · exact Or.inr (Or.inl h)
      · exact Or.inr (Or.inr h)
  · rw [if_neg ha]
    refine ⟨ch1, [], hD.kept hK _, by simp [ha], by simp, by simp,
      fun he => (hD.expired_iff _).mp he, fun hp => ?_, fun hp hne => ?_⟩
    · obtain ⟨he0, hne⟩ := (hD.expired_iff _).mp hp.1
      exact ⟨he0, (hst hne).symm.trans hp.2⟩
    · exact Or.inl ⟨(hD.expired_iff _).mpr ⟨hp.1, hne⟩, (hst hne).trans hp.2⟩

omit hr in
omit [DecidableEq H] in
theorem Round.fired {R1 ch1 new new1}
    (hR : Round R R1 ch ch1 w new1) (hw : Expired R ch h w) (hF : Fired (Pending R1 ch1 h) new) :
    Fired (Pending R ch h)
      (new ++ (new1 ++ if R.timers.state w = .active then [.fired w] else [])) := by
  refine ⟨fun {v} hv => ?_, fun {v} hp => ?_, ?_⟩
  · rcases List.mem_append.mp hv with hv | hv
    · exact hR.pending (hF.only hv)
    · rcases List.mem_append.mp hv with hv | hv
      · exact absurd hv (hR.silent v)
      · split at hv
        · next ha =>
          have hvw : v = w := by simpa using hv
          exact hvw ▸ ⟨hw, ha⟩
        · cases hv
  · simp only [List.mem_append]
    by_cases hvw : v = w
    · subst hvw
      exact Or.inl (Or.inr (Or.inr (by simp [hp.2])))
    · rcases hR.stays hp hvw with hp1 | hg | hg
      · rcases hF.all hp1 with hf | hf | hf
        · exact Or.inl (Or.inl hf)
        · exact Or.inr (Or.inl (Or.inl hf))
        · exact Or.inr (Or.inr (Or.inl hf))
      · exact Or.inr (Or.inl (Or.inr (Or.inl hg)))
      · exact Or.inr (Or.inr (Or.inr (Or.inl hg)))
  · refine List.pairwise_append.mpr ⟨hF.turns, List.pairwise_append.mpr ⟨?_, ?_, ?_⟩, ?_⟩
    · exact List.pairwise_of_forall_mem_list fun e he _ _ v hv => absurd (hv ▸ he) (hR.silent v)
    · split <;> simp
    · exact fun e he _ _ v hv => absurd (hv ▸ he) (hR.silent v)
    · rintro e he e' he' v rfl
      have hp1 := hF.only he
      rcases List.mem_append.mp he' with he' | he'
      · exact ⟨fun h => hR.silent v (h ▸ he'), fun h => hR.gone (Or.inl (h ▸ he')) hp1,
          fun h => hR.gone (Or.inr (h ▸ he')) hp1⟩
      · have hvw := (hR.expired hp1.1).2
        split at he'
        · rw [List.mem_singleton.mp he']
          simpa using Ne.symm hvw
        · cases he'

omit hr in
theorem loop_next (fuel : Nat) (hK : Kept (round routine w R) ch) :
    (∃ v l, ch h = v :: l ∧ (round routine w R).timers.delta v = 0 ∧
      tickleLoop Run.host (fire routine) h (fuel + 1) R w =
        tickleLoop Run.host (fire routine) h fuel (round routine w R) v) ∨
    (∀ v, ¬ Expired (round routine w R) ch h v) ∧
      tickleLoop Run.host (fire routine) h (fuel + 1) R w = some (round routine w R) := by
  rcases hK.good.tickleNext_eq h with ⟨v, l, hc, hz, hn⟩ | ⟨hpos, hn⟩
  · exact Or.inl ⟨v, l, hc, hz, tickleLoop_some hn⟩
  · refine Or.inr ⟨fun v hx => ?_, tickleLoop_none hn⟩
    have := hpos v hx.1
    have := hx.2
    omega

theorem loop_spec {fuel} (hK : Kept R ch)
    (hc : ch h = w :: l) (hz : R.timers.delta w = 0) (ho : ∀ k v, Expired R ch k v → k = h)
    (he : tickleLoop Run.host (fire routine) h fuel R w = some R') :
    ∃ ch' new, Kept R' ch' ∧ (∀ k v, ¬ Expired R' ch' k v) ∧ R'.log = new ++ R.log ∧
      Fired (Pending R ch h) new := by
  induction fuel generalizing R ch w l with
  | zero => cases he
  | succ fuel ih =>
    obtain ⟨ch1, new1, hR⟩ := round_spec hr hK hz
    have hw : Expired R ch h w := ⟨by rw [hc]; simp, by rw [hc, due_cons_self, hz]⟩
    have ho1 : ∀ k v, Expired (round routine w R) ch1 k v → k = h :=
      fun k v he => ho k v (hR.expired he).1
    rcases loop_next (h := h) fuel hR.kept with ⟨v, l1, hc1, hz1, hn⟩ | ⟨hno, hn⟩
    · rw [hn] at he
      obtain ⟨ch', new, hK', hno, hlog, hF⟩ := ih hR.kept hc1 hz1 ho1 he
      refine ⟨ch', _, hK', hno, ?_, hR.fired hw hF⟩
      rw [hlog, hR.log]
      simp only [List.append_assoc]
    · rw [hn, Option.some.injEq] at he
      subst he
      refine ⟨ch1, _, hR.kept, fun k v hx => ?_, ?_, hR.fired hw ⟨?_, ?_, List.Pairwise.nil⟩⟩
      · obtain rfl := ho1 k v hx
        exact hno v hx
      · rw [hR.log, List.nil_append, List.append_assoc]
      · intro v hv; cases hv
      · exact fun {v} hp => absurd hp.1 (hno v)

def dueNow (R : Run H α) (ch : H → List α) (h : H) : List α :=
  (ch h).filter fun w => due R.timers.delta (ch h) w = 0

omit hr in
omit [DecidableEq H] in
theorem mem_dueNow : w ∈ dueNow R ch h ↔ Expired R ch h w := by simp [dueNow, Expired]

omit hr in
omit [DecidableEq H] in
theorem Round.dueNow_lt {R1 ch1 new} (hR : Round R R1 ch ch1 w new) (hw : Expired R ch h w) :
    (dueNow R1 ch1 h).length < (dueNow R ch h).length := by
  have hnd : (dueNow R1 ch1 h).Nodup := (hR.kept.good.on.nodup h).filter _
  have hsub : w :: dueNow R1 ch1 h ⊆ dueNow R ch h := by
    intro v hv
    rcases List.mem_cons.mp hv with rfl | hv
    · exact mem_dueNow.mpr hw
    · exact mem_dueNow.mpr (hR.expired (mem_dueNow.mp hv)).1
  have hw' : w ∉ dueNow R1 ch1 h := fun hm => (hR.expired (mem_dueNow.mp hm)).2 rfl
  exact (List.subperm_of_subset (List.nodup_cons.mpr ⟨hw', hnd⟩) hsub).length_le

theorem loop_total (hK : Kept R ch) (hc : ch h = w :: l)
    (hz : R.timers.delta w = 0) :
    ∃ fuel R', tickleLoop Run.host (fire routine) h fuel R w = some R' := by
  induction hn : (dueNow R ch h).length using Nat.strong_induction_on generalizing R ch w l with
  | _ n ih =>
    obtain ⟨ch1, new1, hR⟩ := round_spec hr hK hz
    have hw : Expired R ch h w := ⟨by rw [hc]; simp, by rw [hc, due_cons_self, hz]⟩
    by_cases hx : ∃ v l, ch1 h = v :: l ∧ (round routine w R).timers.delta v = 0
    · obtain ⟨v, l1, hc1, hz1⟩ := hx
      obtain ⟨fuel, R', he⟩ := ih _ (hn ▸ hR.dueNow_lt hw) hR.kept hc1 hz1 rfl
      rcases loop_next (h := h) fuel hR.kept with ⟨u, l2, hc2, -, he'⟩ | ⟨-, he'⟩
      · obtain ⟨rfl, -⟩ := List.cons.inj (hc1.symm.trans hc2)
        exact ⟨fuel + 1, R', he'.trans he⟩
      · exact ⟨fuel + 1, _, he'⟩
    · rcases loop_next (h := h) 0 hR.kept with ⟨u, l2, hc2, hz2, -⟩ | ⟨-, he'⟩
      · exact absurd ⟨u, l2, hc2, hz2⟩ hx
      · exact ⟨1, _, he'⟩

omit hr in
theorem Ticked.kept {T} (hT : Ticked R.timers T ch h) (hK : Kept R ch)
    (hno : ∀ k v, ¬ Expired R ch k v) :
    Kept { R.tick h with timers := T } ch ∧
      (∀ k v, Expired { R.tick h with timers := T } ch k v → k = h) ∧
      Pending { R.tick h with timers := T } ch h =
        fun v => v ∈ ch h ∧ due R.timers.delta (ch h) v = 1 ∧ R.timers.state v = .active := by
  refine ⟨⟨hT.good, fun k v hv => ?_, fun k v hv => ?_⟩, fun k v he => ?_, ?_⟩
  · obtain ⟨h1, h2⟩ := hK.since_le k v hv
    refine ⟨?_, h2⟩
    by_cases hk : k = h
    · subst hk; simpa [Run.tick] using Nat.le_succ_of_le h1
    · simpa [Run.tick, hk] using h1
  · have hl := hK.due_eq k v hv
    have hs := (hK.since_le k v hv).1
    by_cases hk : k = h
    · subst hk
      have := hT.due_self hv
      simp only [Run.tick, hT.initial, update_self]
      omega
    · simpa [Run.tick, hk, hT.initial, hT.due_other hk hv] using hl
  · by_contra hk
    exact hno k v ⟨he.1, (hT.due_other hk he.1).symm.trans he.2⟩
  · funext v
    simp only [Pending, Expired, hT.state, eq_iff_iff, and_assoc]
    refine and_congr_right fun hv => ?_
    have := hT.due_self hv
    rw [← this]
    simp

theorem tickle_total (hK : Kept R ch)
    (hno : ∀ k v, ¬ Expired R ch k v) (h : H) :
    ∃ fuel R', tickle Run.host (fire routine) h fuel (R.tick h) = some R' := by
  obtain ⟨T, next, hs, hT, hnext⟩ := hK.good.tickleStart_spec (h := h)
    fun v hv => Nat.pos_of_ne_zero fun hz => hno h v ⟨hv, hz⟩
  have hs : tickleStart (R.tick h).timers h = (T, next) := hs
  unfold tickle
  simp only [Run.host, hs]
  rcases hnext with ⟨rfl, -⟩ | ⟨w, l, rfl, hc, hz⟩
  · exact ⟨0, _, rfl⟩
  · exact loop_total hr (hT.kept hK hno).1 hc hz

theorem tickle_spec {fuel} (hK : Kept R ch) (hno : ∀ k v, ¬ Expired R ch k v)
    (he : tickle Run.host (fire routine) h fuel (R.tick h) = some R') :
    ∃ ch' new, Kept R' ch' ∧ (∀ k v, ¬ Expired R' ch' k v) ∧ R'.log = new ++ R.log ∧
      Fired (fun v => v ∈ ch h ∧ due R.timers.delta (ch h) v = 1 ∧ R.timers.state v = .active) new := by
  obtain ⟨T, next, hs, hT, hnext⟩ := hK.good.tickleStart_spec (h := h)
    fun v hv => Nat.pos_of_ne_zero fun hz => hno h v ⟨hv, hz⟩
  have hs : tickleStart (R.tick h).timers h = (T, next) := hs
  obtain ⟨hK', ho, hp⟩ := hT.kept hK hno
  unfold tickle at he
  simp only [Run.host, hs] at he
  rw [← hp]
  rcases hnext with ⟨rfl, hpos⟩ | ⟨w, l, rfl, hc, hz⟩
  · cases he
    have hno' : ∀ k v, ¬ Expired { R.tick h with timers := T } ch k v := by
      intro k v hx
      obtain rfl := ho k v hx
      exact Nat.ne_of_gt (hpos v hx.1) hx.2
    exact ⟨ch, [], hK', hno', rfl, fun hv => (List.not_mem_nil hv).elim,
      fun hv => absurd hv.1 (hno' h _), .nil⟩
  · exact loop_spec hr hK' hc hz ho he

end

/-! ## Backward adjustments -/

def Run.adjust (R : Run H α) (h : H) (units : Nat) : Run H α :=
  { R with adjusted := update R.adjusted h (R.adjusted h + units) }

theorem adjust_spec {units fuel} (hK : Kept R ch) (hno : ∀ k v, ¬ Expired R ch k v)
    (hov : ∀ v, Chain.first R.timers.links h = .obj v → R.timers.delta v + units < 2 ^ 32)
    (he : adjust Run.host (fire routine) h .backward units fuel (R.adjust h units) = some R') :
    Kept R' ch ∧ ∀ k v, ¬ Expired R' ch k v := by
  have hH := hK.good.on.holds (c := h) rfl
  unfold Watchdog.adjust at he
  cases hc : ch h with
  | nil =>
    have hem := (Chain.isEmpty_iff hH).mpr hc
    simp only [Run.host, Run.adjust, hem, ↓reduceIte, Option.some.injEq] at he
    subst he
    have hk : ∀ {k v}, v ∈ ch k → k ≠ h := by
      rintro k v hv rfl
      rw [hc] at hv
      exact List.not_mem_nil hv
    refine ⟨⟨hK.good, fun k v hv => ?_, fun k v hv => ?_⟩, hno⟩
    · simpa [hk hv] using hK.since_le k v hv
    · simpa [hk hv] using hK.due_eq k v hv
  | cons w l =>
    have hem : ¬ Chain.isEmpty R.timers.links h := by simp [Chain.isEmpty_iff hH, hc]
    have hf : Chain.first R.timers.links h = .obj w := by rw [Chain.first_eq hH, hc]; rfl
    have hw := hov w hf
    have hadd : addWord (R.timers.control w).deltaInterval units = R.timers.delta w + units :=
      addWord_eq hw
    simp only [Run.host, Run.adjust, hem, Bool.false_eq_true, ↓reduceIte, hf, hadd,
      Option.some.injEq] at he
    subst he
    have hdue : ∀ {k v}, v ∈ ch k → (k = h →
        due (R.timers.setDelta w (R.timers.delta w + units)).delta (ch k) v =
          due R.timers.delta (ch k) v + units) ∧
        (k ≠ h → due (R.timers.setDelta w (R.timers.delta w + units)).delta (ch k) v =
          due R.timers.delta (ch k) v) := by
      intro k v hv
      obtain ⟨h1, h2⟩ := hK.good.on.due_head hc (R.timers.delta w + units) hv
      exact ⟨fun hk => by have := h1 hk; omega, h2⟩
    refine ⟨⟨hK.good.setDelta hw w, fun k v hv => ?_, fun k v hv => ?_⟩, fun k v hx => ?_⟩
    · obtain ⟨h1, h2⟩ := hK.since_le k v hv
      refine ⟨h1, ?_⟩
      by_cases hk : k = h
      · subst hk; simpa using Nat.le_add_right_of_le h2
      · simpa [hk] using h2
    · have hl := hK.due_eq k v hv
      have hs := (hK.since_le k v hv).2
      rw [Timers.initial_setDelta]
      by_cases hk : k = h
      · subst hk
        have := (hdue hv).1 rfl
        simp only [update_self] at this ⊢
        omega
      · rw [(hdue hv).2 hk]
        simpa [hk] using hl
    · by_cases hk : k = h
      · have := (hdue hx.1).1 hk
        exact hno k v ⟨hx.1, by have := hx.2; simp only at this; omega⟩
      · exact hno k v ⟨hx.1, ((hdue hx.1).2 hk).symm.trans hx.2⟩

end Tick

end Rtems.Watchdog
