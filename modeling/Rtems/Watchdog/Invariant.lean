import Rtems.Watchdog.Lemmas

/-! # What the timers say about their chains -/

namespace Rtems.Watchdog


open Intrusive DeltaList
open Function (update update_self update_of_ne)

variable {H α : Type*} [DecidableEq H] [DecidableEq α] {T T' : Timers H α} {ch : H → List α} {h k : H}
  {v w : α} {l1 l2 : List α} {u d : Nat}

structure Good (T : Timers H α) (ch : H → List α) : Prop where
  on : T.On ch
  linked_iff : ∀ w, (∃ k, w ∈ ch k) ↔ T.state w = .active ∨ T.state w = .removeIt
  delta_lt : ∀ a, T.delta a < 2 ^ 32

section

omit [DecidableEq H] [DecidableEq α]

theorem Timers.On.nodup (hT : T.On ch) (k : H) : (ch k).Nodup := Represents.nodup hT rfl

theorem Timers.On.chain_eq (hT : T.On ch) (hv : v ∈ ch h) (hv' : v ∈ ch k) : h = k :=
  Represents.disjoint hT rfl rfl hv hv'

theorem Good.idle : Good (Timers.idle : Timers H α) fun _ => [] :=
  ⟨Links.empty_represents fun h => (Option.some.inj h).symm, fun w => by simp [Timers.state, Timers.idle],
    fun _ => Nat.two_pow_pos 32⟩

end

omit [DecidableEq H] in
theorem Timers.On.split_mem (hT : T.On ch) (hv : v ∈ ch h) : ∃ l1 l2, ch h = (l1 ++ [v]) ++ l2 ∧
    T.links.next (.obj v) = succ h l2 ∧ due T.delta (ch h) v = total T.delta (l1 ++ [v]) := by
  obtain ⟨l1, l2, hc⟩ := List.append_of_mem hv
  have hH : Holds T.links h (l1 ++ v :: l2) := hc ▸ hT.holds rfl
  have hnd := hT.nodup h
  rw [hc] at hnd ⊢
  exact ⟨l1, l2, by simp, hH.next_obj, due_middle hnd⟩

section

variable (hG : Good T ch)

include hG

omit [DecidableEq H] [DecidableEq α] in
theorem Good.notMem (hs : T.state w = .inactive ∨ T.state w = .beingInserted) (k : H) :
    w ∉ ch k := by
  intro hm
  have := (hG.linked_iff w).mp ⟨k, hm⟩
  rcases hs with hs | hs <;> rw [hs] at this <;> simp at this

omit [DecidableEq H] [DecidableEq α] in
theorem Good.split
    (hs : T.state w = .active ∨ T.state w = .removeIt) : ∃ h l1 l2, ch h = l1 ++ w :: l2 := by
  obtain ⟨h, hm⟩ := (hG.linked_iff w).mpr hs
  obtain ⟨l1, l2, hc⟩ := List.append_of_mem hm
  exact ⟨h, l1, l2, hc⟩

omit hG in
omit [DecidableEq H] in
theorem Good.initializeTimer (hG : Good T fun _ => []) (w : α) : Good (initializeTimer T w) fun _ => [] := by
  refine ⟨hG.on, fun v => ?_, fun a => ?_⟩
  · have := hG.linked_iff v
    rw [Watchdog.initializeTimer, Timers.state_setState]
    by_cases hv : v = w
    · simp [hv]
    · simpa [hv] using this
  · rw [Watchdog.initializeTimer, Timers.delta_setState]
    exact hG.delta_lt a

/-! ## The first timer -/

theorem Good.tickleNext_eq (h : H) :
    (∃ v l, ch h = v :: l ∧ T.delta v = 0 ∧ tickleNext T h = some v) ∨
      (∀ v ∈ ch h, 0 < due T.delta (ch h) v) ∧ tickleNext T h = none := by
  have hH := hG.on.holds (c := h) rfl
  have hem := Chain.isEmpty_iff hH
  unfold tickleNext
  rw [Chain.first_eq hH]
  cases hc : ch h with
  | nil => exact Or.inr ⟨by simp, rfl⟩
  | cons v l =>
    rw [hc] at hem
    have hne : ¬ Chain.isEmpty T.links h := by simp [hem]
    by_cases hz : T.delta v = 0
    · exact Or.inl ⟨v, l, rfl, hz, if_pos ⟨hne, hz⟩⟩
    · refine Or.inr ⟨fun u _ => ?_, if_neg fun hand => hz hand.2⟩
      have := le_due_cons (δ := T.delta) (a := v) (l := l) (w := u)
      omega

omit hG in
omit [DecidableEq H] in
theorem Timers.On.due_head (hT : T.On ch) (hc : ch h = w :: l1) (x : Nat) (hv : v ∈ ch k) :
    (k = h → due (T.setDelta w x).delta (ch k) v + T.delta w = due T.delta (ch k) v + x) ∧
      (k ≠ h → due (T.setDelta w x).delta (ch k) v = due T.delta (ch k) v) := by
  rw [Timers.delta_setDelta]
  refine ⟨?_, fun hk => due_congr fun b hb => update_of_ne ?_ _ _⟩
  · rintro rfl
    have hnd := hT.nodup k
    rw [hc] at hnd hv ⊢
    exact due_update_head hnd hv x
  · rintro rfl
    exact hk (hT.chain_eq hb (by rw [hc]; simp))

omit [DecidableEq H] in
theorem Good.setDelta {x} (hx : x < 2 ^ 32) (w : α) :
    Good (T.setDelta w x) ch := by
  refine ⟨hG.on, fun v => by rw [Timers.state_setDelta]; exact hG.linked_iff v, fun a => ?_⟩
  by_cases ha : a = w
  · simpa [ha] using hx
  · simpa [ha] using hG.delta_lt a

structure Ticked (T T' : Timers H α) (ch : H → List α) (h : H) : Prop where
  good : Good T' ch
  state : T'.state = T.state
  initial : T'.initial = T.initial
  due_self : ∀ {v}, v ∈ ch h → due T'.delta (ch h) v + 1 = due T.delta (ch h) v
  due_other : ∀ {k v}, k ≠ h → v ∈ ch k → due T'.delta (ch k) v = due T.delta (ch k) v
  level : T'.syncLevel = T.syncLevel
  count : T'.syncCount = T.syncCount
  nest : T'.isrNestLevel = T.isrNestLevel

theorem Good.tickleStart_nil (hc : ch h = []) : tickleStart T h = (T, none) := by
  have hem := (Chain.isEmpty_iff (hG.on.holds (c := h) rfl)).mpr hc
  unfold tickleStart
  rw [if_pos hem]

theorem Good.tickleStart_cons (hc : ch h = w :: l1) (hpos : 0 < T.delta w) :
    tickleStart T h = (T.setDelta w (T.delta w - 1), if T.delta w - 1 ≠ 0 then none else some w) := by
  have hH := hG.on.holds (c := h) rfl
  have hsub : subWord (T.control w).deltaInterval 1 = T.delta w - 1 :=
    subWord_eq hpos (hG.delta_lt w)
  have hem : ¬ Chain.isEmpty T.links h := by simp [Chain.isEmpty_iff hH, hc]
  have hf : Chain.first T.links h = .obj w := by rw [Chain.first_eq hH, hc]; rfl
  have hdw : ((T.setDelta w (T.delta w - 1)).control w).deltaInterval = T.delta w - 1 := by
    change (T.setDelta w _).delta w = _
    simp
  unfold tickleStart
  rw [if_neg hem]
  simp only [hf, hsub, hdw]

theorem Good.tickleStart_spec (hpos : ∀ v ∈ ch h, 0 < due T.delta (ch h) v) :
    ∃ T' next, tickleStart T h = (T', next) ∧ Ticked T T' ch h ∧
      (next = none ∧ (∀ v ∈ ch h, 0 < due T'.delta (ch h) v) ∨
        ∃ w l, next = some w ∧ ch h = w :: l ∧ T'.delta w = 0) := by
  cases hc : ch h with
  | nil =>
    have hno : ∀ {v}, v ∉ ch h := by simp [hc]
    exact ⟨T, none, hG.tickleStart_nil hc, ⟨hG, rfl, rfl, fun hv => absurd hv hno, fun _ _ => rfl, rfl,
      rfl, rfl⟩, Or.inl ⟨rfl, by simp⟩⟩
  | cons w l =>
    have hw : 0 < T.delta w := by
      have := hpos w (by rw [hc]; simp)
      rwa [hc, due_cons_self] at this
    have hx : T.delta w - 1 < 2 ^ 32 := by have := hG.delta_lt w; omega
    have hdw : (T.setDelta w (T.delta w - 1)).delta w = T.delta w - 1 := by simp
    refine ⟨_, _, hG.tickleStart_cons hc hw, ⟨hG.setDelta hx w, Timers.state_setDelta,
      Timers.initial_setDelta, fun hv => ?_, fun hk hv => (hG.on.due_head hc _ hv).2 hk, rfl, rfl, rfl⟩, ?_⟩
    · have := (hG.on.due_head hc (T.delta w - 1) hv).1 rfl
      omega
    · by_cases hz : T.delta w - 1 = 0
      · exact Or.inr ⟨w, l, by rw [if_neg (not_not.mpr hz)], rfl, hdw.trans hz⟩
      · refine Or.inl ⟨if_pos hz, fun v _ => ?_⟩
        have := le_due_cons (δ := (T.setDelta w (T.delta w - 1)).delta) (a := w) (l := l) (w := v)
        omega

end

/-! ## Removing -/

namespace Removed

variable (hR : Removed T T' ch h w (inherit T.delta w l2) l1 l2) (hT : T.On ch) (hc : ch h = l1 ++ w :: l2)

include hT hc in
omit [DecidableEq α] in
theorem mem_iff : v ∈ update ch h (l1 ++ l2) k ↔ v ∈ ch k ∧ v ≠ w := by
  have hnd := hT.nodup h
  rw [hc] at hnd
  by_cases hk : k = h
  · subst hk
    rw [update_self, hc]
    exact Linked.mem_without hnd
  · rw [update_of_ne hk]
    refine ⟨fun hv => ⟨hv, ?_⟩, And.left⟩
    rintro rfl
    exact hk (hT.chain_eq hv (by rw [hc]; simp))

include hR hT hc in
theorem due_eq (hv : v ∈ ch k) (hne : v ≠ w) :
    due T'.delta (update ch h (l1 ++ l2) k) v = due T.delta (ch k) v := by
  have hnd := hT.nodup h
  rw [hc] at hnd
  rw [hR.delta]
  by_cases hk : k = h
  · subst hk
    rw [update_self, hc]
    exact due_inherit hnd ((Linked.mem_without hnd).mpr ⟨hc ▸ hv, hne⟩)
  · rw [update_of_ne hk]
    refine due_congr fun b hb => inherit_of_notMem fun hb2 => hk (hT.chain_eq hb ?_)
    rw [hc]
    simp [hb2]

include hR hc in
theorem good (hG : Good T ch) (hov : ∀ a ∈ l2.head?, T.delta a + T.delta w < 2 ^ 32) :
    Good T' (update ch h (l1 ++ l2)) := by
  refine ⟨hR.on, fun v => ?_, fun a => ?_⟩
  · rw [hR.state]
    simp only [mem_iff hG.on hc]
    by_cases hv : v = w
    · subst hv; simp
    · simp only [ne_eq, hv, not_false_eq_true, and_true, update_of_ne]
      exact hG.linked_iff v
  · rw [hR.delta]
    cases l2 with
    | nil => exact hG.delta_lt a
    | cons b l =>
      by_cases hab : a = b
      · subst hab; simpa [inherit] using hov a rfl
      · simpa [inherit, hab] using hG.delta_lt a

end Removed

/-- What `_Watchdog_Remove` does to a timer in any state. -/
structure Dropped (T T' : Timers H α) (ch ch' : H → List α) (w : α) : Prop where
  good : Good T' ch'
  mem_iff : ∀ {k v}, v ∈ ch' k ↔ v ∈ ch k ∧ v ≠ w
  due_eq : ∀ {k v}, v ∈ ch k → v ≠ w → due T'.delta (ch' k) v = due T.delta (ch k) v
  state : T'.state = update T.state w .inactive
  initial : T'.initial = T.initial
  count : T'.syncCount = T.syncCount
  nest : T'.isrNestLevel = T.isrNestLevel
  level : T.syncCount ≠ 0 → T'.syncLevel = T.isrNestLevel ∨ T'.syncLevel = T.syncLevel ∧ ∀ k, w ∉ ch k

theorem Good.drop (hG : Good T ch) (hov : T.state w = .active ∨ T.state w = .removeIt → ∀ v,
    T.links.next (.obj w) = .obj v → T.delta v + T.delta w < 2 ^ 32) :
    ∃ ch', Dropped T (remove T w).1 ch ch' w := by
  by_cases hs : T.state w = .active ∨ T.state w = .removeIt
  · obtain ⟨h, l1, l2, hc⟩ := hG.split hs
    have hov : ∀ a ∈ l2.head?, T.delta a + T.delta w < 2 ^ 32 := by
      intro a hal
      refine hov hs a ?_
      rw [(show Holds T.links h (l1 ++ w :: l2) from hc ▸ hG.on.holds rfl).next_obj]
      cases l2 with
      | nil => cases hal
      | cons b l => rw [Option.mem_some_iff.mp hal]; rfl
    have hR := remove_linked hG.on hs hc hov
    exact ⟨_, hR.good hc hG hov, Removed.mem_iff hG.on hc, hR.due_eq hG.on hc, hR.state, hR.initial,
      hR.count, hR.nest, fun h0 => Or.inl (by rw [hR.level, if_pos h0])⟩
  · have hs' : T.state w = .inactive ∨ T.state w = .beingInserted := by
      cases hst : T.state w <;> simp_all
    obtain ⟨hl, hd, hst, hi, hlv, hct, hn⟩ := remove_unlinked hs'
    have hw := hG.notMem hs'
    have hne : ∀ {k v}, v ∈ ch k → v ≠ w := fun hv => by rintro rfl; exact hw _ hv
    refine ⟨ch, ⟨by rw [Timers.On, hl]; exact hG.on, fun v => ?_, fun a => ?_⟩,
      ⟨fun hv => ⟨hv, hne hv⟩, And.left⟩, fun _ _ => by rw [hd], hst, hi, hct, hn,
      fun _ => Or.inr ⟨hlv, hw⟩⟩
    · rw [hst]
      by_cases hvw : v = w
      · subst hvw; simpa using hw
      · simpa [hvw] using hG.linked_iff v
    · rw [hd]; exact hG.delta_lt a

omit [DecidableEq H] in
theorem Good.no_overflow (hG : Good T ch) (hlt : ∀ k, ∀ v ∈ ch k, due T.delta (ch k) v < 2 ^ 32)
    (hs : T.state w = .active ∨ T.state w = .removeIt) (v : α) (hn : T.links.next (.obj w) = .obj v) :
    T.delta v + T.delta w < 2 ^ 32 := by
  obtain ⟨h, l1, l2, hc⟩ := hG.split hs
  have hnx := (show Holds T.links h (l1 ++ w :: l2) from hc ▸ hG.on.holds rfl).next_obj
  rw [hn] at hnx
  cases l2 with
  | nil => cases hnx
  | cons a l =>
    obtain rfl : v = a := Node.obj.inj hnx
    have hnd := hG.on.nodup h
    have hv := hlt h v (by rw [hc]; simp)
    rw [hc, List.append_cons] at hnd hv
    rw [due_middle hnd] at hv
    simp only [total, List.map_append, List.map_cons, List.map_nil, List.sum_append,
      List.sum_singleton] at hv
    omega

/-! ## Inserting -/

omit [DecidableEq α] in
theorem entered_mem (hc : ch h = l1 ++ l2) :
    v ∈ update ch h (l1 ++ w :: l2) k ↔ v ∈ ch k ∨ v = w ∧ k = h := by
  by_cases hk : k = h
  · subst hk
    rw [update_self, hc]
    simp only [List.mem_append, List.mem_cons]
    tauto
  · simp [hk]

namespace Entered

variable (hE : Entered T T' ch h w d l1 l2) (hG : Good T ch) (hp : Place T.delta (ch h) u d l1 l2)
  (hw : ∀ k, w ∉ ch k)

include hE hG hp hw

theorem due_self : due T'.delta (l1 ++ w :: l2) w = u := by
  have hnd := hG.on.nodup h
  rw [hp.split] at hnd
  rw [hE.delta, due_place_self (hp.split ▸ hw h) hnd, hp.total]

theorem due_eq (hv : v ∈ ch k) :
    due T'.delta (update ch h (l1 ++ w :: l2) k) v = due T.delta (ch k) v := by
  have hnd := hG.on.nodup h
  rw [hp.split] at hnd
  rw [hE.delta]
  by_cases hk : k = h
  · subst hk
    rw [update_self, hp.split]
    exact due_place (hp.split ▸ hw k) hnd hp.fits (hp.split ▸ hv)
  · rw [update_of_ne hk]
    refine due_congr fun b hb => place_of_notMem (fun hb2 => hk (hG.on.chain_eq hb ?_)) ?_
    · rw [hp.split]
      simp [hb2]
    · rintro rfl
      exact hw k hb

theorem good (hu : u < 2 ^ 32) : Good T' (update ch h (l1 ++ w :: l2)) := by
  refine ⟨hE.on, fun v => ?_, fun a => ?_⟩
  · rw [hE.state]
    simp only [entered_mem hp.split]
    by_cases hv : v = w
    · subst hv; simp
    · simp only [hv, false_and, or_false, ne_eq, not_false_eq_true, update_of_ne]
      exact hG.linked_iff v
  · have := hp.total
    rw [hE.delta]
    by_cases ha : a = w
    · rw [ha, place_self]; omega
    · cases l2 with
      | nil => simpa [DeltaList.place, ha] using hG.delta_lt a
      | cons b l =>
        have := hG.delta_lt b
        by_cases hab : a = b
        · subst hab; simp only [DeltaList.place, ne_eq, ha, not_false_eq_true,
            update_of_ne, update_self]; omega
        · simpa [DeltaList.place, ha, hab] using hG.delta_lt a

end Entered

structure Joined (T T' : Timers H α) (ch ch' : H → List α) (h : H) (w : α) (u : Nat) : Prop where
  good : Good T' ch'
  mem_iff : ∀ {k v}, v ∈ ch' k ↔ v ∈ ch k ∨ v = w ∧ k = h
  due_self : due T'.delta (ch' h) w = u
  due_eq : ∀ {k v}, v ∈ ch k → due T'.delta (ch' k) v = due T.delta (ch k) v
  state : T'.state = update T.state w .active
  initial : T'.initial = update T.initial w u

theorem Good.join {fuel} (hG : Good T ch) (hw : ∀ k, w ∉ ch k) (hu : u < 2 ^ 32)
    (he : insert T h w u fuel = some T') : ∃ ch', Joined T T' ch ch' h w u := by
  obtain ⟨d, l1, l2, hI⟩ := Inserted.of_insert hG.on hw hG.delta_lt hu he
  have hE := hI.toEntered
  refine ⟨update ch h (l1 ++ w :: l2), hE.good hG hI.place hw hu, entered_mem hI.place.split, ?_,
    fun hv => hE.due_eq hG hI.place hw hv, hI.state, hI.initial⟩
  rw [update_self]
  exact hE.due_self hG hI.place hw

theorem insert_nil {u} (hG : Good T ch) (hw : ∀ k, w ∉ ch k) (hc : ch h = []) (hu : u < 2 ^ 32)
    (fuel : Nat) : ∃ T', insert T h w u (fuel + 4) = some T' := by
  let T1 := (T.setInitial w u).setState w .beingInserted
  let T2 : Timers H α := { T1 with syncCount := T.syncCount + 1 }
  have hon : T2.On ch := hG.on
  have hf : Chain.first T2.links h = succ h ([] : List α) := by
    rw [Chain.first_eq (hon.holds (c := h) rfl), hc]
  have hδ : ∀ a, T2.delta a < 2 ^ 32 := fun a => by
    change T1.delta a < _
    simpa [T1] using hG.delta_lt a
  have hi : (T2.control w).initial = u := by change T1.initial w = u; simp [T1]
  rcases search_spec (d := u) hon (show ch h = [] ++ [] from hc) hw hδ hu T.isrNestLevel with
    ⟨T', he, -⟩ | ⟨a, l, hal, -⟩
  · refine ⟨T', ?_⟩
    unfold insert
    rw [insertFrom_step rfl (by simp), insertFrom_step rfl (by simp), insertFrom_step rfl (by simp)]
    refine insertFrom_done ?_
    change search T2 w T.isrNestLevel (T2.control w).initial (Chain.first T2.links h) = _
    rw [hi, hf, he]
  · cases hal

/-! ## A tick by its start -/

section Tick

variable {σ : Type*} {host : Host σ H α} {routine : α → σ → σ} {s : σ} {fuel : Nat}

theorem tickle_of_none (hs : tickleStart (host.timers s) h = (T, none)) :
    tickle host routine h fuel s = some (host.setTimers s T) := by
  unfold tickle
  simp only [hs]

theorem tickle_of_some (hs : tickleStart (host.timers s) h = (T, some w)) :
    tickle host routine h fuel s = tickleLoop host routine h fuel (host.setTimers s T) w := by
  unfold tickle
  simp only [hs]

def tickleRound (host : Host σ H α) (routine : α → σ → σ) (s : σ) (w : α) : σ :=
  if (remove (host.timers s) w).2 = .active then routine w (host.setTimers s (remove (host.timers s) w).1)
  else host.setTimers s (remove (host.timers s) w).1

theorem tickleLoop_some (hn : tickleNext (host.timers (tickleRound host routine s w)) h = some v) :
    tickleLoop host routine h (fuel + 1) s w =
      tickleLoop host routine h fuel (tickleRound host routine s w) v := by
  conv_lhs => unfold tickleLoop
  unfold tickleRound at hn ⊢
  simp only [hn]

theorem tickleLoop_none (hn : tickleNext (host.timers (tickleRound host routine s w)) h = none) :
    tickleLoop host routine h (fuel + 1) s w = some (tickleRound host routine s w) := by
  unfold tickleLoop
  unfold tickleRound at hn ⊢
  simp only [hn]

theorem tickleLoop_last (hs : (host.timers s).state w = .active)
    (hn : tickleNext (host.timers
      (routine w (host.setTimers s (remove (host.timers s) w).1))) h = none) :
    tickleLoop host routine h (fuel + 1) s w =
      some (routine w (host.setTimers s (remove (host.timers s) w).1)) := by
  have hr : tickleRound host routine s w = routine w (host.setTimers s (remove (host.timers s) w).1) :=
    if_pos (show (remove (host.timers s) w).2 = .active from hs)
  rw [← hr] at hn ⊢
  exact tickleLoop_none hn

theorem tickleLoop_mono {s'} (k : Nat) (he : tickleLoop host routine h fuel s w = some s') :
    tickleLoop host routine h (fuel + k) s w = some s' := by
  induction fuel generalizing s w with
  | zero => cases he
  | succ fuel ih =>
    rw [Nat.add_right_comm]
    cases hn : tickleNext (host.timers (tickleRound host routine s w)) h with
    | some v =>
      rw [tickleLoop_some hn] at he ⊢
      exact ih he
    | none =>
      rw [tickleLoop_none hn] at he ⊢
      exact he

theorem tickle_mono {s'} (k : Nat) (he : tickle host routine h fuel s = some s') :
    tickle host routine h (fuel + k) s = some s' := by
  cases hs : tickleStart (host.timers s) h with
  | mk T next =>
    cases next with
    | none =>
      rw [tickle_of_none hs] at he ⊢
      exact he
    | some v =>
      rw [tickle_of_some hs] at he ⊢
      exact tickleLoop_mono k he

section Spared

variable (hset : ∀ s T, host.timers (host.setTimers s T) = T)
  (hq : ∀ {s w}, (host.timers s).state w = .inactive → host.timers (routine w s) = host.timers s)

include hset hq

theorem timers_tickleRound (hs : (remove (host.timers s) w).1.state w = .inactive) :
    host.timers (tickleRound host routine s w) = (remove (host.timers s) w).1 := by
  unfold tickleRound
  split
  · rw [hq (by rw [hset]; exact hs), hset]
  · rw [hset]

variable {P : σ → Prop} {u : α} {s' : σ} (hP : ∀ {s} T, P s → P (host.setTimers s T))
  (hr : ∀ {s w}, w ≠ u → (host.timers s).state w = .inactive → P s → P (routine w s))
  (hG : Good (host.timers s) ch) (hlt : ∀ k, ∀ v ∈ ch k, due (host.timers s).delta (ch k) v < 2 ^ 32)

include hP hr hG hlt

theorem tickleLoop_spares (hu : u ∈ ch h → 0 < due (host.timers s).delta (ch h) u)
    (hc : ch h = w :: l1) (hz : (host.timers s).delta w = 0) (hs : P s)
    (he : tickleLoop host routine h fuel s w = some s') : P s' := by
  induction fuel generalizing s ch w l1 with
  | zero => cases he
  | succ fuel ih =>
    have hwu : w ≠ u := by
      rintro rfl
      have := hu (by simp [hc])
      rw [hc, due_cons_self] at this
      omega
    obtain ⟨ch', hD⟩ := hG.drop (w := w) (hG.no_overflow hlt)
    have hst : (remove (host.timers s) w).1.state w = .inactive := by rw [hD.state, update_self]
    have htm := timers_tickleRound hset hq hst
    have hs' : P (tickleRound host routine s w) := by
      unfold tickleRound
      split
      · exact hr hwu (by rw [hset]; exact hst) (hP _ hs)
      · exact hP _ hs
    have hG' : Good (host.timers (tickleRound host routine s w)) ch' := htm ▸ hD.good
    rcases hG'.tickleNext_eq h with ⟨v, k, hc', hz', hn⟩ | ⟨-, hn⟩
    · rw [tickleLoop_some hn] at he
      refine ih hG' (fun k v hv => ?_) (fun hu' => ?_) hc' hz' hs' he
      · obtain ⟨hv, hne⟩ := hD.mem_iff.mp hv
        rw [htm, hD.due_eq hv hne]
        exact hlt k v hv
      · obtain ⟨hu', hne⟩ := hD.mem_iff.mp hu'
        rw [htm, hD.due_eq hu' hne]
        exact hu hu'
    · rw [tickleLoop_none hn] at he
      exact Option.some.inj he ▸ hs'

/-- A tick runs no routine of a timer that is not due. -/
theorem tickle_spares (hpos : ∀ v ∈ ch h, 0 < due (host.timers s).delta (ch h) v)
    (hu : u ∈ ch h → due (host.timers s).delta (ch h) u ≠ 1) (hs : P s)
    (he : tickle host routine h fuel s = some s') : P s' := by
  obtain ⟨T', next, hst, hT, hnext⟩ := hG.tickleStart_spec hpos
  rcases hnext with ⟨rfl, -⟩ | ⟨w, l, rfl, hc, hz⟩
  · rw [tickle_of_none hst] at he
    exact Option.some.inj he ▸ hP T' hs
  · rw [tickle_of_some hst] at he
    have hG' : Good (host.timers (host.setTimers s T')) ch := by rw [hset]; exact hT.good
    refine tickleLoop_spares hset hq hP hr hG' (fun k v hv => ?_) (fun hu' => ?_) hc
      (by rw [hset]; exact hz) (hP T' hs) he
    · rw [hset]
      have := hlt k v hv
      by_cases hk : k = h
      · subst hk
        have := hT.due_self hv
        omega
      · rwa [hT.due_other hk hv]
    · rw [hset]
      have := hT.due_self hu'
      have := hpos u hu'
      have := hu hu'
      omega

end Spared

/-! ## A round of an adjustment -/

theorem adjustForward_within {units} (h0 : units ≠ 0)
    (hf : Chain.first (host.timers s).links h = .obj w) (hu : units < (host.timers s).delta w) :
    adjustForward host routine h (fuel + 1) s units = some (host.setTimers s
      ((host.timers s).setDelta w (subWord ((host.timers s).delta w) units))) := by
  have hu : units < ((host.timers s).control w).deltaInterval := hu
  simp only [adjustForward, if_neg h0, hf, if_pos hu]
  rfl

theorem adjustForward_due {units s1} (h0 : units ≠ 0)
    (hf : Chain.first (host.timers s).links h = .obj w) (hu : (host.timers s).delta w ≤ units)
    (he : tickle host routine h fuel (host.setTimers s ((host.timers s).setDelta w 1)) = some s1) :
    adjustForward host routine h (fuel + 1) s units =
      if Chain.isEmpty (host.timers s1).links h then some s1
      else adjustForward host routine h fuel s1 (subWord units ((host.timers s).delta w)) := by
  have hu : ¬ units < ((host.timers s).control w).deltaInterval := Nat.not_lt.mpr hu
  simp only [adjustForward, if_neg h0, hf, if_neg hu, he]
  rfl

theorem adjustForward_mono {s' units} (k : Nat)
    (he : adjustForward host routine h fuel s units = some s') :
    adjustForward host routine h (fuel + k) s units = some s' := by
  induction fuel generalizing s units with
  | zero => cases he
  | succ fuel ih =>
    rw [Nat.add_right_comm]
    simp only [adjustForward] at he ⊢
    split at he
    · rename_i hz
      rw [if_pos hz]
      exact he
    · rename_i hz
      rw [if_neg hz]
      split at he
      · split at he
        · rename_i hlt
          rw [if_pos hlt]
          exact he
        · rename_i hlt
          rw [if_neg hlt]
          split at he
          · cases he
          · rename_i hn
            rw [tickle_mono k hn]
            dsimp only
            split at he
            · rename_i hem
              rw [if_pos hem]
              exact he
            · rename_i hem
              rw [if_neg hem]
              exact ih he
      · exact he

theorem adjust_mono {s' dir units} (k : Nat) (he : adjust host routine h dir units fuel s = some s') :
    adjust host routine h dir units (fuel + k) s = some s' := by
  unfold adjust at he ⊢
  dsimp only at he ⊢
  split at he
  · rename_i hem
    rw [if_pos hem]
    exact he
  · rename_i hem
    rw [if_neg hem]
    cases dir with
    | backward => exact he
    | forward => exact adjustForward_mono k he

end Tick

end Rtems.Watchdog
