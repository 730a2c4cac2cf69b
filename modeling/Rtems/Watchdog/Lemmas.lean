import Rtems.Chain.Lemmas
import Rtems.Library.DeltaList
import Rtems.Watchdog.Model

/-! # The routines as edits of delta lists -/

namespace Rtems.Watchdog


open Intrusive DeltaList
open Function (update update_idem comp_update update_eq_self)

variable {H α : Type*}

/-! ## Fields -/

namespace Timers

def state (T : Timers H α) (w : α) : TimerState := (T.control w).state

def delta (T : Timers H α) (w : α) : Nat := (T.control w).deltaInterval

def initial (T : Timers H α) (w : α) : Nat := (T.control w).initial

def On (T : Timers H α) (ch : H → List α) : Prop := Represents T.links fun h => some (ch h)

variable [DecidableEq α] {T : Timers H α} {w : α} {s : TimerState} {n : Nat}

theorem project_modify {β : Type*} (g : Control → β) (T : Timers H α) (w : α) (f : Control → Control) :
    (fun v => g ((T.modify w f).control v)) =
      update (fun v => g (T.control v)) w (g (f (T.control w))) := by
  funext v
  by_cases h : v = w
  · subst h; simp [modify]
  · simp [modify, h]

@[simp] theorem state_setState : (T.setState w s).state = update T.state w s :=
  project_modify Control.state T w _

@[simp] theorem delta_setState : (T.setState w s).delta = T.delta :=
  (project_modify Control.deltaInterval T w _).trans (update_eq_self w _)

@[simp] theorem initial_setState : (T.setState w s).initial = T.initial :=
  (project_modify Control.initial T w _).trans (update_eq_self w _)

@[simp] theorem state_setDelta : (T.setDelta w n).state = T.state :=
  (project_modify Control.state T w _).trans (update_eq_self w _)

@[simp] theorem delta_setDelta : (T.setDelta w n).delta = update T.delta w n :=
  project_modify Control.deltaInterval T w _

@[simp] theorem initial_setDelta : (T.setDelta w n).initial = T.initial :=
  (project_modify Control.initial T w _).trans (update_eq_self w _)

@[simp] theorem state_setInitial : (T.setInitial w n).state = T.state :=
  (project_modify Control.state T w _).trans (update_eq_self w _)

@[simp] theorem delta_setInitial : (T.setInitial w n).delta = T.delta :=
  (project_modify Control.deltaInterval T w _).trans (update_eq_self w _)

@[simp] theorem initial_setInitial : (T.setInitial w n).initial = update T.initial w n :=
  project_modify Control.initial T w _

@[simp] theorem state_setStopTime : (T.setStopTime w n).state = T.state :=
  (project_modify Control.state T w _).trans (update_eq_self w _)

@[simp] theorem delta_setStopTime : (T.setStopTime w n).delta = T.delta :=
  (project_modify Control.deltaInterval T w _).trans (update_eq_self w _)

@[simp] theorem initial_setStopTime : (T.setStopTime w n).initial = T.initial :=
  (project_modify Control.initial T w _).trans (update_eq_self w _)

@[simp] theorem state_setStartTime : (T.setStartTime w n).state = T.state :=
  (project_modify Control.state T w _).trans (update_eq_self w _)

@[simp] theorem delta_setStartTime : (T.setStartTime w n).delta = T.delta :=
  (project_modify Control.deltaInterval T w _).trans (update_eq_self w _)

@[simp] theorem initial_setStartTime : (T.setStartTime w n).initial = T.initial :=
  (project_modify Control.initial T w _).trans (update_eq_self w _)

end Timers

variable [DecidableEq H] [DecidableEq α] {T : Timers H α} {ch : H → List α} {h : H} {w : α}
  {l1 l2 : List α}

omit [DecidableEq α] in
theorem some_update (ch : H → List α) (h : H) (l : List α) :
    (fun k => some (update ch h l k)) = update (fun k => some (ch k)) h (some l) :=
  comp_update some ch h l

/-! ## Removing -/

def inheritWord (δ : α → Nat) (w : α) : List α → α → Nat
  | [] => δ
  | a :: _ => update δ a (addWord (δ a) (δ w))

theorem inheritWord_eq {δ} (hov : ∀ a ∈ l2.head?, δ a + δ w < 2 ^ 32) :
    inheritWord δ w l2 = inherit δ w l2 := by
  cases l2 with
  | nil => rfl
  | cons a l => rw [inheritWord, addWord_eq (hov a rfl), inherit]

structure Removed (T T' : Timers H α) (ch : H → List α) (h : H) (w : α) (δ : α → Nat) (l1 l2 : List α) :
    Prop where
  on : T'.On (update ch h (l1 ++ l2))
  delta : T'.delta = δ
  state : T'.state = update T.state w .inactive
  initial : T'.initial = T.initial
  level : T'.syncLevel = if T.syncCount ≠ 0 then T.isrNestLevel else T.syncLevel
  count : T'.syncCount = T.syncCount
  nest : T'.isrNestLevel = T.isrNestLevel

theorem passDelta_eq (hT : T.On ch) (hc : ch h = l1 ++ w :: l2) :
    (passDelta T w).links = T.links ∧ (passDelta T w).delta = inheritWord T.delta w l2 ∧
      (passDelta T w).state = T.state ∧ (passDelta T w).initial = T.initial ∧
      (passDelta T w).syncLevel = T.syncLevel ∧ (passDelta T w).syncCount = T.syncCount ∧
      (passDelta T w).isrNestLevel = T.isrNestLevel := by
  have hH := hT.holds (c := h) rfl
  rw [hc] at hH
  unfold passDelta
  rw [hH.next_obj]
  cases l2 with
  | nil => exact ⟨rfl, rfl, rfl, rfl, rfl, rfl, rfl⟩
  | cons a l =>
    have hna : T.links.next (.obj a) ≠ .null := by
      rw [List.append_cons] at hH
      rw [hH.next_obj]
      cases l <;> simp
    simp only [succ_cons, hna, ne_eq, not_false_eq_true, ↓reduceIte]
    exact ⟨rfl, Timers.delta_setDelta, Timers.state_setDelta, Timers.initial_setDelta, rfl, rfl, rfl⟩

omit [DecidableEq H] [DecidableEq α] in
theorem noteRemoval_eq (T : Timers H α) :
    (noteRemoval T).links = T.links ∧ (noteRemoval T).control = T.control ∧
      (noteRemoval T).syncLevel = (if T.syncCount ≠ 0 then T.isrNestLevel else T.syncLevel) ∧
      (noteRemoval T).syncCount = T.syncCount ∧ (noteRemoval T).isrNestLevel = T.isrNestLevel := by
  unfold noteRemoval
  split <;> exact ⟨rfl, rfl, rfl, rfl, rfl⟩

theorem remove_unlinks (hT : T.On ch) (hs : T.state w = .active ∨ T.state w = .removeIt)
    (hc : ch h = l1 ++ w :: l2) : Removed T (remove T w).1 ch h w (inheritWord T.delta w l2) l1 l2 := by
  obtain ⟨hl, hd, hst, hi, hsl, hsc, hn⟩ := passDelta_eq (T := T.setState w .inactive) (w := w) hT hc
  obtain ⟨nl, nc, nsl, nsc, nn⟩ := noteRemoval_eq (passDelta (T.setState w .inactive) w)
  have hrm : (remove T w).1 =
      (let T1 := noteRemoval (passDelta (T.setState w .inactive) w)
       let T2 := { T1 with links := Chain.extract T1.links (.obj w) }
       T2.setStopTime w T2.ticksSinceBoot) := by
    unfold remove
    unfold Timers.state at hs
    rcases hs with hs | hs <;> simp only [hs]
  rw [hrm]
  refine ⟨?_, ?_, ?_, ?_, ?_, ?_, ?_⟩
  · have hlinks : Represents (Chain.extract T.links (.obj w))
        (update (fun k => some (ch k)) h (some (l1 ++ l2))) :=
      Chain.extract_represents hT (by rw [hc])
    rw [Timers.On, some_update]
    change Represents (Chain.extract (noteRemoval _).links _) _
    rw [nl, hl]
    exact hlinks
  · rw [Timers.delta_setStopTime]
    rw [nc]
    exact hd.trans (by simp)
  · rw [Timers.state_setStopTime]
    rw [nc]
    exact hst.trans (by simp)
  · rw [Timers.initial_setStopTime]
    rw [nc]
    exact hi.trans (by simp)
  · change (noteRemoval _).syncLevel = _
    rw [nsl, hsc, hn, hsl]
    rfl
  · exact nsc.trans hsc
  · exact nn.trans hn

theorem remove_linked (hT : T.On ch) (hs : T.state w = .active ∨ T.state w = .removeIt)
    (hc : ch h = l1 ++ w :: l2) (hov : ∀ a ∈ l2.head?, T.delta a + T.delta w < 2 ^ 32) :
    Removed T (remove T w).1 ch h w (inherit T.delta w l2) l1 l2 :=
  inheritWord_eq hov ▸ remove_unlinks hT hs hc

theorem remove_unlinked (hs : T.state w = .inactive ∨ T.state w = .beingInserted) :
    (remove T w).1.links = T.links ∧ (remove T w).1.delta = T.delta ∧
      (remove T w).1.state = update T.state w .inactive ∧
      (remove T w).1.initial = T.initial ∧ (remove T w).1.syncLevel = T.syncLevel ∧
      (remove T w).1.syncCount = T.syncCount ∧ (remove T w).1.isrNestLevel = T.isrNestLevel := by
  unfold remove
  rcases hs with hs | hs
  · have hs' : (T.control w).state = .inactive := hs
    simp only [hs', Timers.delta_setStopTime, Timers.state_setStopTime, Timers.initial_setStopTime]
    refine ⟨rfl, trivial, ?_, trivial, rfl, rfl, rfl⟩
    rw [← hs, update_eq_self]
  · have hs' : (T.control w).state = .beingInserted := hs
    simp only [hs', Timers.delta_setStopTime, Timers.state_setStopTime, Timers.initial_setStopTime,
      Timers.delta_setState, Timers.state_setState, Timers.initial_setState]
    exact ⟨rfl, trivial, trivial, trivial, rfl, rfl, rfl⟩

theorem remove_snd : (remove T w).2 = T.state w := rfl

omit [DecidableEq H] in
theorem initializeTimer_eq (h : T.state w = .inactive) : initializeTimer T w = T := by
  have hc : { T.control w with state := .inactive } = T.control w := by
    rw [← h]
    rfl
  simp [initializeTimer, Timers.setState, Timers.modify, hc]

/-! ## Inserting -/

structure Entered (T T' : Timers H α) (ch : H → List α) (h : H) (w : α) (d : Nat) (l1 l2 : List α) :
    Prop where
  on : T'.On (update ch h (l1 ++ w :: l2))
  delta : T'.delta = place T.delta w d l2
  state : T'.state = update T.state w .active

structure LinkedIn (T T' : Timers H α) (ch : H → List α) (h : H) (w : α) (d level : Nat)
    (l1 l2 : List α) : Prop extends Entered T T' ch h w d l1 l2 where
  initial : T'.initial = T.initial
  level : T'.syncLevel = level
  count : T'.syncCount = T.syncCount - 1
  nest : T'.isrNestLevel = T.isrNestLevel

theorem linkIn_eq (hT : T.On ch) (hc : ch h = l1 ++ l2) (hw : ∀ k, w ∉ ch k) (level d : Nat) :
    ∃ T', linkIn T w level d (succ h l2) = (T', .done) ∧
      T'.On (update ch h (l1 ++ w :: l2)) ∧ T'.delta = update T.delta w d ∧
      T'.state = update T.state w .active ∧ T'.initial = T.initial ∧
      T'.syncLevel = level ∧ T'.syncCount = T.syncCount - 1 ∧ T'.isrNestLevel = T.isrNestLevel := by
  have hH := hT.holds (c := h) rfl
  rw [hc] at hH
  have hlinks : Represents (Chain.insert T.links (pred h l1) (.obj w))
      (update (fun k => some (ch k)) h (some (l1 ++ w :: l2))) := by
    refine Chain.insert_represents hT (by rw [hc]) ?_
    rintro k l hk
    rw [← Option.some.inj hk]
    exact hw k
  refine ⟨_, rfl, ?_, ?_, ?_, ?_, rfl, rfl, rfl⟩
  · rw [Timers.On, some_update]
    change Represents (Chain.insert T.links (T.links.previous (succ h l2)) _) _
    rw [hH.link.2]
    exact hlinks
  · refine Timers.delta_setStartTime.trans ?_
    exact Timers.delta_setDelta.trans (by simp [activate])
  · refine Timers.state_setStartTime.trans ?_
    exact Timers.state_setDelta.trans Timers.state_setState
  · refine Timers.initial_setStartTime.trans ?_
    exact Timers.initial_setDelta.trans Timers.initial_setState

theorem search_spec {d} (hT : T.On ch) (hc : ch h = l1 ++ l2) (hw : ∀ k, w ∉ ch k)
    (hδ : ∀ a, T.delta a < 2 ^ 32) (hd : d < 2 ^ 32) (level : Nat) :
    (∃ T', search T w level d (succ h l2) = (T', .done) ∧ LinkedIn T T' ch h w d level l1 l2 ∧
      ∀ a ∈ l2.head?, d ≤ T.delta a) ∨
    ∃ a l, l2 = a :: l ∧ 0 < d ∧ T.delta a ≤ d ∧
      search T w level d (succ h l2) = (T, .flash level (d - T.delta a) (.obj a)) := by
  have hH := hT.holds (c := h) rfl
  rw [hc] at hH
  cases l2 with
  | nil =>
    left
    obtain ⟨T', he, hon, hdl, hst, hin, hlv, hct, hns⟩ := linkIn_eq hT hc hw level d
    refine ⟨T', ?_, ⟨⟨hon, hdl, hst⟩, hin, hlv, hct, hns⟩, by simp⟩
    have hn : T.links.next (succ h ([] : List α)) = .null := hH.stop
    unfold search
    rw [if_pos (Or.inr hn), he]
  | cons a l =>
    have hna : T.links.next (succ h (a :: l)) ≠ .null := by
      rw [succ_cons, hH.next_obj]
      cases l <;> simp
    unfold search
    by_cases hd0 : d = 0
    · left
      obtain ⟨T', he, hon, hdl, hst, hin, hlv, hct, hns⟩ := linkIn_eq hT hc hw level d
      refine ⟨T', by rw [if_pos (Or.inl hd0), he], ⟨⟨hon, ?_, hst⟩, hin, hlv, hct, hns⟩, by simp [hd0]⟩
      rw [hdl, place, hd0, Nat.sub_zero, update_eq_self]
    · rw [if_neg (by simp only [hd0, hna, or_self, not_false_eq_true])]
      by_cases hlt : d < T.delta a
      · left
        have hsub : subWord (T.control a).deltaInterval d = T.delta a - d :=
          subWord_eq (Nat.le_of_lt hlt) (hδ a)
        obtain ⟨T', he, hon, hdl, hst, hin, hlv, hct, hns⟩ :=
          linkIn_eq (T := T.setDelta a (T.delta a - d)) hT hc hw level d
        refine ⟨T', ?_, ⟨⟨hon, ?_, ?_⟩, ?_, hlv, hct, hns⟩, by simpa using Nat.le_of_lt hlt⟩
        · simp only [succ_cons, hsub]
          rw [if_pos (show d < (T.control a).deltaInterval from hlt)]
          exact he
        · rw [hdl, Timers.delta_setDelta]; rfl
        · rw [hst, Timers.state_setDelta]
        · rw [hin, Timers.initial_setDelta]
      · right
        have hsub : subWord d (T.control a).deltaInterval = d - T.delta a :=
          subWord_eq (Nat.le_of_not_lt hlt) hd
        refine ⟨a, l, rfl, by omega, by omega, ?_⟩
        simp only [succ_cons, hsub]
        rw [if_neg (show ¬ d < (T.control a).deltaInterval from hlt)]

structure Place (δ : α → Nat) (l : List α) (u d : Nat) (l1 l2 : List α) : Prop where
  split : l = l1 ++ l2
  total : total δ l1 + d = u
  fits : ∀ a ∈ l2.head?, d ≤ δ a

theorem insertFrom_done {fuel p T'}
    (hp : insertStep T h w p = (T', .done)) : insertFrom h w (fuel + 1) T p = some T' := by
  unfold insertFrom
  rw [hp]

theorem insertFrom_step {fuel p p' T'} (hp : insertStep T h w p = (T', p')) (hd : p' ≠ .done) :
    insertFrom h w (fuel + 1) T p = insertFrom h w fuel T' p' := by
  rw [insertFrom, hp]
  cases p' with
  | done => exact absurd rfl hd
  | entry | marked | restart | loaded | flash => rfl

theorem insertFrom_search {d u level} (hT : T.On ch) (hc : ch h = l1 ++ l2)
    (hw : ∀ k, w ∉ ch k) (hδ : ∀ a, T.delta a < 2 ^ 32) (hu : u < 2 ^ 32)
    (ht : total T.delta l1 + d = u) (hs : T.state w = .beingInserted) (hl : T.syncLevel ≤ level) :
    ∃ fuel T', (match search T w level d (succ h l2) with
        | (T, .done) => some T
        | (T, p) => insertFrom h w fuel T p) = some T' ∧
      ∃ d l1 l2, Place T.delta (ch h) u d l1 l2 ∧ LinkedIn T T' ch h w d level l1 l2 := by
  induction l2 generalizing l1 d with
  | nil =>
    rcases search_spec hT hc hw hδ (by omega : d < 2 ^ 32) level with ⟨T', he, hL, hf⟩ | ⟨a, l, hal, -⟩
    · rw [he]
      exact ⟨0, T', rfl, d, l1, [], ⟨hc, ht, hf⟩, hL⟩
    · cases hal
  | cons b l2 ih =>
    rcases search_spec hT hc hw hδ (by omega : d < 2 ^ 32) level with
      ⟨T', he, hL, hf⟩ | ⟨a, l, hal, -, hda, he⟩
    · rw [he]
      exact ⟨0, T', rfl, d, l1, _, ⟨hc, ht, hf⟩, hL⟩
    · cases hal
      rw [he]
      have hc' : ch h = (l1 ++ [b]) ++ l2 := by rw [hc]; simp
      obtain ⟨fuel, T', he', hI⟩ := ih (d := d - T.delta b) hc'
        (by simp only [DeltaList.total, List.map_append, List.map_cons, List.map_nil,
              List.sum_append, List.sum_singleton] at ht ⊢; omega)
      refine ⟨fuel + 1, T', ?_, hI⟩
      have hH := hT.holds (c := h) rfl
      have hn : T.links.next (.obj b) = succ h l2 := 
        (show Holds T.links h (l1 ++ b :: l2) from hc ▸ hH).next_obj
      have hs' : (T.control w).state = .beingInserted := hs
      have hl' : ¬ T.syncLevel > level := Nat.not_lt.mpr hl
      simp only [insertFrom, insertStep, hs', ne_eq, not_true_eq_false, ↓reduceIte, hl', hn]
      exact he'

theorem insertFrom_loaded {u level} (hT : T.On ch) (hw : ∀ k, w ∉ ch k)
    (hδ : ∀ a, T.delta a < 2 ^ 32) (hu : u < 2 ^ 32) (hs : T.state w = .beingInserted)
    (hl : T.syncLevel ≤ level) :
    ∃ fuel T', insertFrom h w fuel T (.loaded level u) = some T' ∧
      ∃ d l1 l2, Place T.delta (ch h) u d l1 l2 ∧ LinkedIn T T' ch h w d level l1 l2 := by
  have hf : Chain.first T.links h = succ h (ch h) := Chain.first_eq (hT.holds rfl)
  obtain ⟨fuel, T', he, hI⟩ := insertFrom_search hT
    (show ch h = [] ++ ch h from rfl) hw hδ hu (Nat.zero_add u) hs hl
  refine ⟨fuel + 1, T', ?_, hI⟩
  simp only [insertFrom, insertStep, hf]
  exact he

theorem insertFrom_stale {u} (level : Nat) (hT : T.On ch) (hw : ∀ k, w ∉ ch k)
    (hδ : ∀ a, T.delta a < 2 ^ 32) (hu : T.initial w = u) (hu' : u < 2 ^ 32)
    (hs : T.state w = .beingInserted) :
    ∃ fuel T', insertFrom h w fuel T (.loaded level u) = some T' ∧
      ∃ d l1 l2, Place T.delta (ch h) u d l1 l2 ∧ LinkedIn T T' ch h w d level l1 l2 := by
  by_cases hl : T.syncLevel ≤ level
  · exact insertFrom_loaded hT hw hδ hu' hs hl
  · have hf : Chain.first T.links h = succ h (ch h) := Chain.first_eq (hT.holds rfl)
    rcases search_spec hT (show ch h = [] ++ ch h from rfl) hw hδ hu' level with
      ⟨T', he, hL, hfit⟩ | ⟨a, l, -, -, -, he⟩
    · refine ⟨1, T', ?_, u, [], ch h, ⟨rfl, Nat.zero_add u, hfit⟩, hL⟩
      simp only [insertFrom, insertStep, hf, he]
    · obtain ⟨fuel, T', he', d, l1, l2, hp, hL⟩ := insertFrom_loaded (h := h)
        (T := { T with syncLevel := level }) hT hw hδ hu' hs (Nat.le_refl level)
      refine ⟨fuel + 3, T', ?_, d, l1, l2, hp, ⟨hL.on, hL.delta, hL.state⟩, hL.initial,
        hL.level, hL.count, hL.nest⟩
      have hs' : (T.control w).state = .beingInserted := hs
      have hl' : T.syncLevel > level := Nat.lt_of_not_le hl
      have hi : (T.control w).initial = u := hu
      simp only [insertFrom, insertStep, hf, he, hs', ne_eq, not_true_eq_false, ↓reduceIte, hl', hi]
      exact he'

structure Inserted (T T' : Timers H α) (ch : H → List α) (h : H) (w : α) (u d : Nat)
    (l1 l2 : List α) : Prop extends Entered T T' ch h w d l1 l2 where
  place : Place T.delta (ch h) u d l1 l2
  initial : T'.initial = update T.initial w u
  count : T'.syncCount = T.syncCount
  nest : T'.isrNestLevel = T.isrNestLevel

theorem insert_spec {u} (hT : T.On ch) (hw : ∀ k, w ∉ ch k) (hδ : ∀ a, T.delta a < 2 ^ 32)
    (hu : u < 2 ^ 32) (h : H) :
    ∃ fuel T', insert T h w u fuel = some T' ∧ ∃ d l1 l2, Inserted T T' ch h w u d l1 l2 := by
  let T1 := (T.setInitial w u).setState w .beingInserted
  obtain ⟨fuel, T', he, d, l1, l2, hp, hL⟩ := insertFrom_stale (h := h) T.isrNestLevel
    (T := { T1 with syncCount := T.syncCount + 1 }) (u := u) hT hw
    (fun a => by change T1.delta a < _; simpa [T1] using hδ a)
    (by change T1.initial w = u; simp [T1]) hu (by change T1.state w = _; simp [T1])
  have hd : Timers.delta { T1 with syncCount := T.syncCount + 1 } = T.delta := by
    change T1.delta = _; simp [T1]
  have hi : Timers.initial { T1 with syncCount := T.syncCount + 1 } = update T.initial w u := by
    change T1.initial = _; simp [T1]
  have hs : Timers.state { T1 with syncCount := T.syncCount + 1 } =
      update T.state w .beingInserted := by
    change T1.state = _; simp [T1]
  rw [hd] at hp
  refine ⟨fuel + 3, T', ?_, d, l1, l2, ⟨hL.on, ?_, ?_⟩, hp, ?_, hL.count, hL.nest⟩
  · have hi' : (T1.control w).initial = u := by change T1.initial w = u; simp [T1]
    unfold insert
    change insertFrom h w fuel { T1 with syncCount := T.syncCount + 1 }
      (.loaded T.isrNestLevel (T1.control w).initial) = some T'
    rw [hi']
    exact he
  · rw [hL.delta, hd]
  · rw [hL.state, hs, update_idem]
  · rw [hL.initial, hi]

theorem insertFrom_mono {fuel p T'} (k : Nat)
    (he : insertFrom h w fuel T p = some T') : insertFrom h w (fuel + k) T p = some T' := by
  induction fuel generalizing T p with
  | zero => cases he
  | succ fuel ih =>
    rw [Nat.add_right_comm]
    simp only [insertFrom] at he ⊢
    split at he
    · exact he
    · exact ih he

theorem Inserted.of_insert {u fuel T'} (hT : T.On ch) (hw : ∀ k, w ∉ ch k)
    (hδ : ∀ a, T.delta a < 2 ^ 32) (hu : u < 2 ^ 32) (he : insert T h w u fuel = some T') :
    ∃ d l1 l2, Inserted T T' ch h w u d l1 l2 := by
  obtain ⟨fuel', T'', he', hI⟩ := insert_spec hT hw hδ hu h
  have h1 := insertFrom_mono fuel' he
  have h2 := insertFrom_mono fuel he'
  rw [Nat.add_comm, h1, Option.some.injEq] at h2
  exact h2 ▸ hI

end Rtems.Watchdog
