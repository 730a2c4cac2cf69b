import Mathlib.Algebra.Order.BigOperators.Group.Finset
import Mathlib.Data.Prod.Lex
import Rtems.Watchdog.Theorems

/-! # A forward adjustment is so many ticks -/

namespace Rtems.Watchdog


open Function Intrusive DeltaList Option

variable {H α σ : Type*} [DecidableEq H] [DecidableEq α] {T T' : Timers H α} {ch ch' : H → List α} {h : H}
  {w : α}

/-! ## Removing a timer -/

/-- Due as before, or `2 ^ 32` units earlier when deltas overflow. -/
structure Shed (T T' : Timers H α) (ch ch' : H → List α) (w : α) : Prop where
  good : Good T' ch'
  mem_iff : ∀ {k v}, v ∈ ch' k ↔ v ∈ ch k ∧ v ≠ w
  due_eq : ∀ {k v}, v ∈ ch' k → due T'.delta (ch' k) v = due T.delta (ch k) v ∨
    due T'.delta (ch' k) v + 2 ^ 32 = due T.delta (ch k) v

theorem Good.shed_overflow {a l1 l} (hG : Good T ch)
    (hs : T.state w = .active ∨ T.state w = .removeIt) (hc : ch h = l1 ++ w :: a :: l)
    (hov : 2 ^ 32 ≤ T.delta a + T.delta w) :
    Shed T (remove T w).1 ch (update ch h (l1 ++ a :: l)) w := by
  have hU := remove_unlinks hG.on hs hc
  have hnd := hG.on.nodup h
  rw [hc] at hnd
  have ha := hG.delta_lt a
  have hw := hG.delta_lt w
  have hsum : addWord (T.delta a) (T.delta w) = T.delta a + T.delta w - 2 ^ 32 := by
    unfold addWord
    omega
  have hδ : (remove T w).1.delta =
      update (inherit T.delta w (a :: l)) a (T.delta a + T.delta w - 2 ^ 32) := by
    rw [hU.delta, inheritWord, hsum, inherit, update_idem]
  have hmem : ∀ {k v}, v ∈ update ch h (l1 ++ a :: l) k ↔ v ∈ ch k ∧ v ≠ w :=
    Removed.mem_iff hG.on hc
  refine ⟨⟨hU.on, fun v => ?_, fun v => ?_⟩, hmem, fun {k v} hv => ?_⟩
  · rw [hU.state]
    simp only [hmem]
    by_cases hvw : v = w
    · simp [hvw]
    · simpa [hvw] using hG.linked_iff v
  · rw [hU.delta, inheritWord]
    by_cases hva : v = a
    · rw [hva, update_self, hsum]
      omega
    · rw [update_of_ne hva]
      exact hG.delta_lt v
  · by_cases hk : k = h
    · subst hk
      rw [update_self] at hv ⊢
      have hnd' : (l1 ++ a :: l).Nodup := Linked.nodup_without hnd
      obtain ⟨hbefore, hbehind⟩ := due_update_middle (δ := inherit T.delta w (a :: l)) (v := v) hnd'
        (T.delta a + T.delta w - 2 ^ 32)
      have hin : inherit T.delta w (a :: l) a = T.delta a + T.delta w := update_self _ _ _
      rw [hδ, hc, ← due_inherit hnd hv]
      rcases List.mem_append.mp hv with hv | hv
      · exact Or.inl (hbefore hv)
      · have := hbehind hv
        omega
    · left
      rw [update_of_ne hk, hU.delta]
      refine due_congr fun b hb => update_of_ne ?_ _ _
      rintro rfl
      exact hk (hG.on.chain_eq hb (by rw [hc]; simp))

theorem Good.shed (hG : Good T ch) (w : α) : ∃ ch', Shed T (remove T w).1 ch ch' w := by
  by_cases hov : T.state w = .active ∨ T.state w = .removeIt → ∀ v,
      T.links.next (.obj w) = .obj v → T.delta v + T.delta w < 2 ^ 32
  · obtain ⟨ch', hD⟩ := hG.drop hov
    exact ⟨ch', hD.good, hD.mem_iff, fun hv => Or.inl (hD.due_eq (hD.mem_iff.mp hv).1 (hD.mem_iff.mp hv).2)⟩
  · push Not at hov
    obtain ⟨hs, a, hn, hge⟩ := hov
    obtain ⟨h, l1, l2, hc⟩ := hG.split hs
    rw [(show Holds T.links h (l1 ++ w :: l2) from hc ▸ hG.on.holds rfl).next_obj] at hn
    cases l2 with
    | nil => cases hn
    | cons b l =>
      obtain rfl := Node.obj.inj hn
      exact ⟨_, hG.shed_overflow hs hc hge⟩

/-! ## How long a tick can go on -/

def words (T : Timers H α) (ch : H → List α) (h : H) : Nat :=
  ∑ v ∈ (ch h).toFinset, due T.delta (ch h) v / 2 ^ 32

def expired (T : Timers H α) (ch : H → List α) (h : H) : Finset α :=
  (ch h).toFinset.filter fun v => due T.delta (ch h) v = 0

def load (T : Timers H α) (ch : H → List α) (h : H) : Nat ×ₗ Nat :=
  toLex (words T ch h, (expired T ch h).card)

section Load

omit [DecidableEq H]

private def sooner (T T' : Timers H α) (ch ch' : H → List α) (h : H) : Finset α :=
  (ch' h).toFinset.filter fun v => v ∈ ch h ∧ due T'.delta (ch' h) v ≤ due T.delta (ch h) v

section

variable (hm : ∀ v ∈ ch' h, v ∈ ch h ∧ due T'.delta (ch' h) v ≤ due T.delta (ch h) v ∨ due T'.delta (ch' h) v < 2 ^ 32)

include hm

private theorem words_eq_sooner :
    words T' ch' h = ∑ v ∈ sooner T T' ch ch' h, due T'.delta (ch' h) v / 2 ^ 32 := by
  refine (Finset.sum_filter_of_ne fun v hv hne => ?_).symm
  refine (hm v (List.mem_toFinset.mp hv)).resolve_right fun hlt => hne ?_
  exact Nat.div_eq_of_lt hlt

omit hm in
private theorem sum_sooner_le :
    ∑ v ∈ sooner T T' ch ch' h, due T.delta (ch h) v / 2 ^ 32 ≤ words T ch h :=
  Finset.sum_le_sum_of_subset fun _ hv => List.mem_toFinset.mpr (Finset.mem_filter.mp hv).2.1

theorem words_le :
    words T' ch' h ≤ words T ch h := by
  rw [words_eq_sooner hm]
  exact (Finset.sum_le_sum fun v hv => Nat.div_le_div_right (Finset.mem_filter.mp hv).2.2).trans
    sum_sooner_le

end

theorem words_lt {v} (hm : ∀ v ∈ ch' h,
    v ∈ ch h ∧ due T'.delta (ch' h) v ≤ due T.delta (ch h) v ∨ due T'.delta (ch' h) v < 2 ^ 32)
    (hv : v ∈ ch h) (hv' : v ∈ ch' h) (hd : due T'.delta (ch' h) v + 2 ^ 32 = due T.delta (ch h) v) :
    words T' ch' h < words T ch h := by
  rw [words_eq_sooner hm]
  refine (Finset.sum_lt_sum (fun v hv => Nat.div_le_div_right (Finset.mem_filter.mp hv).2.2)
    ⟨v, Finset.mem_filter.mpr ⟨List.mem_toFinset.mpr hv', hv, by omega⟩, ?_⟩).trans_le sum_sooner_le
  rw [← hd, Nat.add_div_right _ (by decide)]
  exact Nat.lt_succ_self _

theorem load_le (hm : ∀ v ∈ ch' h,
    v ∈ ch h ∧ (due T'.delta (ch' h) v = due T.delta (ch h) v ∨
      due T'.delta (ch' h) v + 2 ^ 32 = due T.delta (ch h) v) ∨
    0 < due T'.delta (ch' h) v ∧ due T'.delta (ch' h) v < 2 ^ 32) : load T' ch' h ≤ load T ch h := by
  have hm' : ∀ v ∈ ch' h, v ∈ ch h ∧ due T'.delta (ch' h) v ≤ due T.delta (ch h) v ∨
      due T'.delta (ch' h) v < 2 ^ 32 := by
    intro v hv
    rcases hm v hv with ⟨hvc, hd⟩ | ⟨-, hlt⟩
    · exact Or.inl ⟨hvc, by omega⟩
    · exact Or.inr hlt
  refine Prod.Lex.toLex_le_toLex.mpr ?_
  by_cases hlose : ∃ v ∈ ch' h, v ∈ ch h ∧ due T'.delta (ch' h) v + 2 ^ 32 = due T.delta (ch h) v
  · obtain ⟨v, hv', hv, hd⟩ := hlose
    exact Or.inl (words_lt hm' hv hv' hd)
  · have hsub : expired T' ch' h ⊆ expired T ch h := by
      intro v hv
      obtain ⟨hv, hz⟩ := Finset.mem_filter.mp hv
      rw [List.mem_toFinset] at hv
      rcases hm v hv with ⟨hvc, hd | hd⟩ | ⟨hpos, -⟩
      · exact Finset.mem_filter.mpr ⟨List.mem_toFinset.mpr hvc, hd ▸ hz⟩
      · exact absurd ⟨v, hv, hvc, hd⟩ hlose
      · omega
    exact (Nat.lt_or_eq_of_le (words_le hm')).imp id fun he => ⟨he, Finset.card_le_card hsub⟩

theorem Shed.load_le (hS : Shed T T' ch ch' w) (h : H) : load T' ch' h ≤ load T ch h :=
  Watchdog.load_le fun _ hv => Or.inl ⟨(hS.mem_iff.mp hv).1, hS.due_eq hv⟩

theorem Joined.load_le {k u} (hJ : Joined T T' ch ch' k w u) (h0 : 0 < u) (hu : u < 2 ^ 32)
    (h : H) : load T' ch' h ≤ load T ch h := by
  refine Watchdog.load_le fun v hv => ?_
  rcases hJ.mem_iff.mp hv with hv | ⟨rfl, rfl⟩
  · exact Or.inl ⟨hv, Or.inl (hJ.due_eq hv)⟩
  · rw [hJ.due_self]
    exact Or.inr ⟨h0, hu⟩

theorem Dropped.load_lt (hD : Dropped T T' ch ch' w) (hw : w ∈ ch h) (hz : due T.delta (ch h) w = 0) :
    load T' ch' h < load T ch h := by
  have hdue : ∀ v ∈ ch' h, v ∈ ch h ∧ due T'.delta (ch' h) v = due T.delta (ch h) v := fun v hv =>
    ⟨(hD.mem_iff.mp hv).1, hD.due_eq (hD.mem_iff.mp hv).1 (hD.mem_iff.mp hv).2⟩
  have hsub : expired T' ch' h ⊂ expired T ch h := by
    refine (Finset.ssubset_iff_of_subset fun v hv => ?_).mpr ⟨w, ?_, fun hw' => ?_⟩
    · obtain ⟨hv, hz⟩ := Finset.mem_filter.mp hv
      rw [List.mem_toFinset] at hv
      exact Finset.mem_filter.mpr ⟨List.mem_toFinset.mpr (hdue v hv).1, (hdue v hv).2 ▸ hz⟩
    · exact Finset.mem_filter.mpr ⟨List.mem_toFinset.mpr hw, hz⟩
    · exact (hD.mem_iff.mp (List.mem_toFinset.mp (Finset.mem_filter.mp hw').1)).2 rfl
  have hle : words T' ch' h ≤ words T ch h :=
    words_le fun v hv => Or.inl ⟨(hdue v hv).1, (hdue v hv).2.le⟩
  exact Prod.Lex.toLex_lt_toLex.mpr
    ((Nat.lt_or_eq_of_le hle).imp id fun he => ⟨he, Finset.card_lt_card hsub⟩)

end Load

inductive Serves : Timers H α → Timers H α → Prop
  | insert {T T' : Timers H α} {k : H} {w : α} {units fuel : Nat} (hs : T.state w = .inactive)
      (h0 : 0 < units) (hu : units < 2 ^ 32) (he : insert T k w units fuel = some T') : Serves T T'
  | remove (T : Timers H α) (w : α) : Serves T (remove T w).1

theorem Serves.good (hs : Serves T T') (hG : Good T ch) (h : H) :
    ∃ ch', Good T' ch' ∧ load T' ch' h ≤ load T ch h := by
  cases hs with
  | insert hs h0 hu he =>
    obtain ⟨ch', hJ⟩ := hG.join (hG.notMem (Or.inl hs)) hu he
    exact ⟨ch', hJ.good, hJ.load_le h0 hu h⟩
  | remove w =>
    obtain ⟨ch', hS⟩ := hG.shed w
    exact ⟨ch', hS.good, hS.load_le h⟩

theorem serves_good (hs : Relation.ReflTransGen Serves T T') (hG : Good T ch) (h : H) :
    ∃ ch', Good T' ch' ∧ load T' ch' h ≤ load T ch h := by
  induction hs with
  | refl => exact ⟨ch, hG, le_rfl⟩
  | tail _ hs ih =>
    obtain ⟨ch1, hG1, hle⟩ := ih
    obtain ⟨ch2, hG2, hle'⟩ := hs.good hG1 h
    exact ⟨ch2, hG2, hle'.trans hle⟩

structure Host.Lawful (host : Host σ H α) : Prop where
  timers_set : ∀ s T, host.timers (host.setTimers s T) = T
  set_set : ∀ s T T', host.setTimers (host.setTimers s T) T' = host.setTimers s T'
  set_timers : ∀ s, host.setTimers s (host.timers s) = s

def OnlyServes (host : Host σ H α) (routine : α → σ → σ) : Prop :=
  ∀ w s ch, Good (host.timers s) ch →
    Relation.ReflTransGen Serves (host.timers s) (host.timers (routine w s))

/-! ## A tick ends -/

def AtRest (host : Host σ H α) (h : H) (s : σ) : Prop :=
  ∃ ch, Good (host.timers s) ch ∧ tickleNext (host.timers s) h = none

section Tick

variable {host : Host σ H α} {routine : α → σ → σ} {s s' : σ} {l : List α} {fuel units : Nat}

section

variable (hh : host.Lawful) (hr : OnlyServes host routine) (hG : Good (host.timers s) ch) (hc : ch h = w :: l)

include hh hG hc

section

variable (hz : (host.timers s).delta w = 0)

include hr hz

theorem round_good : ∃ ch', Good (host.timers (tickleRound host routine s w)) ch' ∧
      load (host.timers (tickleRound host routine s w)) ch' h < load (host.timers s) ch h := by
  obtain ⟨ch1, hD⟩ := hG.drop (w := w) fun _ v _ => by rw [hz]; exact hG.delta_lt v
  have hlt := hD.load_lt (h := h) (by rw [hc]; simp) (by rw [hc, due_cons_self, hz])
  have hT := hh.timers_set s (remove (host.timers s) w).1
  unfold tickleRound
  split
  · obtain ⟨ch2, hG2, hle⟩ := serves_good (hr w _ ch1 (hT.symm ▸ hD.good)) (hT.symm ▸ hD.good) h
    rw [hT] at hle
    exact ⟨ch2, hG2, hle.trans_lt hlt⟩
  · rw [hT]
    exact ⟨ch1, hD.good, hlt⟩

theorem loop_ends : ∃ fuel s', tickleLoop host routine h fuel s w = some s' ∧ AtRest host h s' := by
  induction hn : load (host.timers s) ch h using WellFoundedLT.induction generalizing s ch w l with
  | _ n ih =>
    obtain ⟨ch1, hG1, hlt⟩ := round_good hh hr hG hc hz
    rcases hG1.tickleNext_eq h with ⟨v, l1, hc1, hz1, hnext⟩ | ⟨-, hnext⟩
    · obtain ⟨fuel, s', he, hrest⟩ := ih _ (hn ▸ hlt) hG1 hc1 hz1 rfl
      exact ⟨fuel + 1, s', (tickleLoop_some hnext).trans he, hrest⟩
    · exact ⟨1, _, tickleLoop_none hnext, ch1, hG1, hnext⟩

end

theorem atRest_setDelta {x} (h0 : 0 < x) (hx : x < 2 ^ 32) :
    AtRest host h (host.setTimers s ((host.timers s).setDelta w x)) := by
  refine ⟨ch, by rw [hh.timers_set]; exact hG.setDelta hx w, ?_⟩
  rw [hh.timers_set]
  rcases (hG.setDelta hx w).tickleNext_eq h with ⟨v, l', hc', hz, -⟩ | ⟨-, hn⟩
  · obtain ⟨rfl, -⟩ := List.cons.inj (hc.symm.trans hc')
    simp at hz
    omega
  · exact hn

end

theorem AtRest.cases (hs : AtRest host h s) :
    (∃ ch, Good (host.timers s) ch ∧ ch h = []) ∨
    ∃ ch w l, Good (host.timers s) ch ∧ ch h = w :: l ∧ 0 < (host.timers s).delta w := by
  obtain ⟨ch, hG, hn⟩ := hs
  cases hc : ch h with
  | nil => exact Or.inl ⟨ch, hG, hc⟩
  | cons w l =>
    refine Or.inr ⟨ch, w, l, hG, hc, ?_⟩
    rcases hG.tickleNext_eq h with ⟨v, -, -, -, hn'⟩ | ⟨hpos, -⟩
    · rw [hn] at hn'
      cases hn'
    · have := hpos w (by rw [hc]; simp)
      rwa [hc, due_cons_self] at this

theorem tickle_nil (hh : host.Lawful) (hG : Good (host.timers s) ch) (hc : ch h = []) :
    tickle host routine h fuel s = some s := by
  rw [tickle_of_none (hG.tickleStart_nil hc), hh.set_timers]

theorem tickle_within (hG : Good (host.timers s) ch) (hc : ch h = w :: l)
    (h1 : 1 < (host.timers s).delta w) :
    tickle host routine h fuel s =
      some (host.setTimers s ((host.timers s).setDelta w ((host.timers s).delta w - 1))) := by
  have hs := hG.tickleStart_cons hc (by omega)
  rw [if_pos (by omega)] at hs
  exact tickle_of_none hs

theorem AtRest.tickle (hs : AtRest host h s) (hh : host.Lawful) (hr : OnlyServes host routine) :
    ∃ fuel s', tickle host routine h fuel s = some s' ∧ AtRest host h s' := by
  rcases hs.cases with ⟨ch, hG, hc⟩ | ⟨ch, w, l, hG, hc, hpos⟩
  · exact ⟨0, s, tickle_nil hh hG hc, hs⟩
  · have hlt := hG.delta_lt w
    by_cases h1 : 1 < (host.timers s).delta w
    · exact ⟨0, _, tickle_within hG hc h1, atRest_setDelta hh hG hc (by omega) (by omega)⟩
    · have hst := hG.tickleStart_cons hc hpos
      rw [if_neg (by omega)] at hst
      have hT := hh.timers_set s ((host.timers s).setDelta w ((host.timers s).delta w - 1))
      obtain ⟨fuel, s', he, hrest⟩ := loop_ends hh hr
        (by rw [hT]; exact hG.setDelta (by omega) w) hc (by rw [hT]; simp; omega)
      exact ⟨fuel, s', (tickle_of_some hst).trans he, hrest⟩

/-- So many calls of `_Watchdog_Tickle`. -/
def tickles (host : Host σ H α) (routine : α → σ → σ) (header : H) (fuel : Nat) : Nat → σ → Option σ
  | 0, s => some s
  | n + 1, s => (Watchdog.tickle host routine header fuel s).bind (tickles host routine header fuel n)

theorem tickles_add (m n : Nat) : tickles host routine h fuel (m + n) s =
    (tickles host routine h fuel m s).bind (tickles host routine h fuel n) := by
  induction m generalizing s with
  | zero => rw [Nat.zero_add]; rfl
  | succ m ih =>
    rw [Nat.add_right_comm]
    simp only [tickles, bind_assoc]
    exact congrArg _ (funext fun s => ih)

theorem tickles_nil (hh : host.Lawful) (hG : Good (host.timers s) ch) (hc : ch h = []) (n : Nat) :
    tickles host routine h fuel n s = some s := by
  induction n with
  | zero => rfl
  | succ n ih => rw [tickles, tickle_nil hh hG hc, bind_some, ih]

omit [DecidableEq H] in
theorem Timers.setDelta_setDelta (x y : Nat) : (T.setDelta w x).setDelta w y = T.setDelta w y := by
  simp [Timers.setDelta, Timers.modify, update_idem]

omit [DecidableEq H] in
theorem Timers.setDelta_self : T.setDelta w (T.delta w) = T := by
  simp [Timers.setDelta, Timers.modify, Timers.delta]

theorem tickles_within (hh : host.Lawful) {n} (hG : Good (host.timers s) ch) (hc : ch h = w :: l)
    (hn : n < (host.timers s).delta w) : tickles host routine h fuel n s =
      some (host.setTimers s ((host.timers s).setDelta w ((host.timers s).delta w - n))) := by
  induction n generalizing s with
  | zero => rw [Nat.sub_zero, Timers.setDelta_self, hh.set_timers]; rfl
  | succ n ih =>
    have hlt := hG.delta_lt w
    have hT := hh.timers_set s ((host.timers s).setDelta w ((host.timers s).delta w - 1))
    have hd : (host.timers (host.setTimers s
        ((host.timers s).setDelta w ((host.timers s).delta w - 1)))).delta w =
        (host.timers s).delta w - 1 := by
      rw [hT]
      simp
    rw [tickles, tickle_within hG hc (by omega), bind_some,
      ih (by rw [hT]; exact hG.setDelta (by omega) w) (by rw [hd]; omega), hd, hT, hh.set_set,
      Timers.setDelta_setDelta, Nat.sub_sub, Nat.add_comm 1 n]

theorem tickles_due (hh : host.Lawful) (hG : Good (host.timers s) ch) (hc : ch h = w :: l)
    (hpos : 0 < (host.timers s).delta w) :
    tickles host routine h fuel ((host.timers s).delta w) s =
      Watchdog.tickle host routine h fuel (host.setTimers s ((host.timers s).setDelta w 1)) := by
  obtain ⟨d, hd⟩ := Nat.exists_eq_add_of_le' hpos
  rw [hd, tickles_add, tickles_within hh hG hc (by omega), hd, Nat.add_sub_cancel_left, bind_some]
  exact bind_fun_some _

theorem AtRest.adjustForward (hs : AtRest host h s) (hh : host.Lawful) (hr : OnlyServes host routine)
    (hu : units < 2 ^ 32) : ∃ fuel0 s', ∀ fuel ≥ fuel0,
      Watchdog.adjustForward host routine h fuel s units = some s' ∧
        tickles host routine h fuel units s = some s' := by
  induction units using Nat.strong_induction_on generalizing s with
  | _ units ih =>
    by_cases h0 : units = 0
    · subst h0
      refine ⟨1, s, fun fuel hf => ⟨?_, rfl⟩⟩
      obtain ⟨k, rfl⟩ := Nat.exists_eq_add_of_le' hf
      simp [Watchdog.adjustForward]
    rcases hs.cases with ⟨ch, hG, hc⟩ | ⟨ch, w, l, hG, hc, hpos⟩
    · have hfirst : Chain.first (host.timers s).links h = .tail h := by
        rw [Chain.first_eq (hG.on.holds (c := h) rfl), hc]
        rfl
      refine ⟨1, s, fun fuel hf => ⟨?_, tickles_nil hh hG hc units⟩⟩
      obtain ⟨k, rfl⟩ := Nat.exists_eq_add_of_le' hf
      simp [Watchdog.adjustForward, h0, hfirst]
    · have hlt := hG.delta_lt w
      have hfirst : Chain.first (host.timers s).links h = .obj w := by
        rw [Chain.first_eq (hG.on.holds (c := h) rfl), hc]
        rfl
      by_cases hw : units < (host.timers s).delta w
      · refine ⟨1, _, fun fuel hf => ⟨?_, tickles_within hh hG hc hw⟩⟩
        obtain ⟨k, rfl⟩ := Nat.exists_eq_add_of_le' hf
        rw [adjustForward_within h0 hfirst hw, subWord_eq (by omega) hlt]
      · obtain ⟨f1, s1, he, hrest⟩ := (atRest_setDelta hh hG hc Nat.one_pos (by decide)).tickle hh hr
        obtain ⟨f2, s2, hih⟩ := ih (units - (host.timers s).delta w) (by omega) hrest (by omega)
        -- both go on from the state after the first expiry
        have hsplit : ∀ fuel ≥ f1, tickles host routine h fuel units s =
            tickles host routine h fuel (units - (host.timers s).delta w) s1 := by
          intro fuel hf
          obtain ⟨k, rfl⟩ := Nat.exists_eq_add_of_le hf
          conv_lhs => rw [← Nat.add_sub_cancel' (Nat.not_lt.mp hw)]
          rw [tickles_add, tickles_due hh hG hc hpos, tickle_mono k he, bind_some]
        have hadj : ∀ fuel ≥ f1, Watchdog.adjustForward host routine h (fuel + 1) s units =
            if Chain.isEmpty (host.timers s1).links h then some s1
            else Watchdog.adjustForward host routine h fuel s1 (units - (host.timers s).delta w) := by
          intro fuel hf
          obtain ⟨k, rfl⟩ := Nat.exists_eq_add_of_le hf
          rw [adjustForward_due h0 hfirst (Nat.not_lt.mp hw) (tickle_mono k he),
            subWord_eq (Nat.not_lt.mp hw) hu]
        by_cases hem : Chain.isEmpty (host.timers s1).links h = true
        · obtain ⟨ch1, hG1, -⟩ := hrest
          have hc1 := (Chain.isEmpty_iff (hG1.on.holds (c := h) rfl)).mp hem
          refine ⟨f1 + 1, s1, fun fuel hf => ⟨?_, ?_⟩⟩
          · obtain ⟨k, rfl⟩ := Nat.exists_eq_add_of_le' hf
            rw [← Nat.add_assoc, hadj _ (by omega), if_pos hem]
          · rw [hsplit fuel (by omega), tickles_nil hh hG1 hc1]
        · refine ⟨f1 + f2 + 1, s2, fun fuel hf => ⟨?_, ?_⟩⟩
          · obtain ⟨k, rfl⟩ := Nat.exists_eq_add_of_le' hf
            rw [← Nat.add_assoc, hadj _ (by omega), if_neg hem]
            exact (hih _ (by omega)).1
          · rw [hsplit fuel (by omega)]
            exact (hih fuel (by omega)).2

end Tick

/-! ## The calls of the routines -/

def Host.logged (host : Host σ H α) : Host (σ × List α) H α where
  timers p := host.timers p.1
  setTimers p T := (host.setTimers p.1 T, p.2)

def logged (routine : α → σ → σ) (w : α) (p : σ × List α) : σ × List α := (routine w p.1, p.2 ++ [w])

omit [DecidableEq H] [DecidableEq α] in
theorem Host.Lawful.logged {host : Host σ H α} (hh : host.Lawful) : host.logged.Lawful where
  timers_set p T := hh.timers_set p.1 T
  set_set p T T' := congrArg (·, p.2) (hh.set_set p.1 T T')
  set_timers p := congrArg (·, p.2) (hh.set_timers p.1)

theorem OnlyServes.logged {host : Host σ H α} {routine} (hr : OnlyServes host routine) :
    OnlyServes host.logged (logged routine) := fun w p ch hG => hr w p.1 ch hG

theorem adjust_forward {host} {routine : α → σ → σ} {s fuel units}
    (hem : Chain.isEmpty (host.timers s).links h = false) :
    adjust host routine h .forward units fuel s = adjustForward host routine h fuel s units := by
  simp [adjust, hem]

/-- The adjustment ends, and does what so many ticks do. -/
theorem adjust_forward_eq_tickles {host : Host σ H α} {routine : α → σ → σ} (hh : host.Lawful)
    (hr : OnlyServes host routine) {s : σ} {ch : H → List α} (hG : Good (host.timers s) ch)
    (hpos : ∀ w ∈ (ch h).head?, 1 ≤ (host.timers s).delta w) {units : Nat} (hu : units < 2 ^ 32) :
    ∃ fuel₀ s' calls, ∀ fuel ≥ fuel₀,
      adjust host.logged (logged routine) h .forward units fuel (s, []) = some (s', calls) ∧
        tickles host.logged (logged routine) h fuel units (s, []) = some (s', calls) := by
  have hG' : Good (host.logged.timers (s, [])) ch := hG
  cases hc : ch h with
  | nil =>
    have hem := (Chain.isEmpty_iff (hG'.on.holds (c := h) rfl)).mpr hc
    refine ⟨0, s, [], fun fuel _ => ⟨?_, tickles_nil hh.logged hG' hc units⟩⟩
    simp [adjust, hem]
  | cons w l =>
    have hem : Chain.isEmpty (host.logged.timers (s, [])).links h = false := by
      rw [← Bool.not_eq_true, Chain.isEmpty_iff (hG'.on.holds (c := h) rfl), hc]
      simp
    have hrest : AtRest host.logged h (s, []) := by
      refine ⟨ch, hG', ?_⟩
      rcases hG'.tickleNext_eq h with ⟨v, l', hc', hz, -⟩ | ⟨-, hn⟩
      · have := hpos v (by rw [hc']; rfl)
        have hz : (host.timers s).delta v = 0 := hz
        omega
      · exact hn
    obtain ⟨fuel₀, ⟨s', calls⟩, h⟩ := hrest.adjustForward hh.logged hr.logged hu
    exact ⟨fuel₀, s', calls, fun fuel hf => ⟨(adjust_forward hem).trans (h fuel hf).1, (h fuel hf).2⟩⟩

omit [DecidableEq H] [DecidableEq α] in
theorem Run.host_lawful : (Run.host : Host (Run H α) H α).Lawful :=
  ⟨fun _ _ => rfl, fun _ _ _ => rfl, fun _ => rfl⟩

theorem bothDue_head {ch} (hG : Good bothDue.timers ch) :
    ∀ w ∈ (ch ()).head?, 1 ≤ bothDue.timers.delta w := by
  have hf := Chain.first_eq (hG.on.holds (c := ()) rfl)
  have hfalse : Chain.first bothDue.timers.links () = .obj false := by decide +kernel
  intro w hw
  cases hc : ch () with
  | nil => simp [hc] at hw
  | cons v l =>
    rw [hfalse, hc] at hf
    cases hf
    rw [hc] at hw
    cases hw
    decide +kernel

theorem removeSecond_onlyServes : OnlyServes Run.host removeSecond := by
  intro w R ch _
  unfold removeSecond
  split
  · exact Relation.ReflTransGen.single (.remove R.timers true)
  · exact Relation.ReflTransGen.refl

theorem adjust_forward_eq_tickles_bothDue : ∃ fuel₀ R' calls, ∀ fuel ≥ fuel₀,
    adjust Run.host.logged (logged removeSecond) () .forward 3 fuel (bothDue, []) = some (R', calls) ∧
      tickles Run.host.logged (logged removeSecond) () fuel 3 (bothDue, []) = some (R', calls) := by
  obtain ⟨ch, hK, -⟩ := bothDue_reachable.kept
  have hG : Good (Run.host.timers bothDue) ch := hK.good
  exact adjust_forward_eq_tickles Run.host_lawful removeSecond_onlyServes hG (bothDue_head hG) (by decide)

/-! ## A timer inserted twice -/

def insertSecond (w : Bool) (R : Run Unit Bool) : Run Unit Bool :=
  if w then R else { R with timers := (insert R.timers () true 1 5).getD R.timers }

theorem adjustForward_endless {host routine} {s : σ} {fuel units}
    (h0 : units ≠ 0) (hf : Chain.first (host.timers s).links h = .obj w)
    (hu : (host.timers s).delta w ≤ units)
    (he : tickle host routine h fuel (host.setTimers s ((host.timers s).setDelta w 1)) = none) :
    adjustForward host routine h (fuel + 1) s units = none := by
  have hu : ¬ units < ((host.timers s).control w).deltaInterval := Nat.not_lt.mpr hu
  simp only [adjustForward, if_neg h0, hf, if_neg hu, he]

theorem tickleNext_congr (hl : T.links = T'.links) (hd : T.delta = T'.delta) :
    tickleNext T h = tickleNext T' h := by
  have hd : ∀ v, (T.control v).deltaInterval = (T'.control v).deltaInterval := fun v => congrFun hd v
  simp only [tickleNext, hl, hd]

theorem tickleLoop_endless {host routine} (hh : host.Lawful) {s : σ} {fuel}
    (hs : (host.timers s).state w = .inactive) (hn : tickleNext (host.timers s) h = some w) :
    tickleLoop host routine h fuel s w = none := by
  induction fuel generalizing s with
  | zero => rfl
  | succ fuel ih =>
    have hrm : remove (host.timers s) w =
        ((host.timers s).setStopTime w (host.timers s).ticksSinceBoot, .inactive) := by
      have hs : ((host.timers s).control w).state = .inactive := hs
      simp [remove, hs]
    have hround : host.timers (tickleRound host routine s w) =
        (host.timers s).setStopTime w (host.timers s).ticksSinceBoot := by
      simp [tickleRound, hrm, hh.timers_set]
    have hn' : tickleNext (host.timers (tickleRound host routine s w)) h = some w := by
      rw [hround, ← hn]
      exact tickleNext_congr rfl Timers.delta_setStopTime
    rw [tickleLoop_some hn']
    exact ih (by rw [hround]; simpa using hs) hn'

def insertedTwice : Run Unit Bool :=
  (tickle Run.host insertSecond () 1 bothDue).get (by decide +kernel)

def firedTwice : Run Unit Bool :=
  tickleRound Run.host insertSecond
    { insertedTwice with timers := (tickleStart insertedTwice.timers ()).1 } true

theorem insertedTwice_endless (fuel : Nat) : tickle Run.host insertSecond () fuel insertedTwice = none := by
  have hs : (tickleStart insertedTwice.timers ()).2 = some true := by decide +kernel
  have hn : tickleNext firedTwice.timers () = some true := by decide +kernel
  have hi : firedTwice.timers.state true = .inactive := by decide +kernel
  rw [tickle_of_some (Prod.ext rfl hs : tickleStart (Run.host.timers insertedTwice) () = (_, some true))]
  cases fuel with
  | zero => rfl
  | succ fuel =>
    refine (tickleLoop_some hn).trans ?_
    exact tickleLoop_endless Run.host_lawful hi hn

theorem insertedTwice_adjust (fuel : Nat) :
    adjustForward Run.host insertSecond () (fuel + 1) insertedTwice 1 = none := by
  have hsame : insertedTwice.timers.setDelta true 1 = insertedTwice.timers := by
    have hd : insertedTwice.timers.delta true = 1 := by decide +kernel
    rw [← hd, Timers.setDelta_self]
  refine adjustForward_endless (w := true) Nat.one_ne_zero (by decide +kernel) (by decide +kernel) ?_
  change tickle Run.host insertSecond () fuel
    (Run.host.setTimers insertedTwice (insertedTwice.timers.setDelta true 1)) = none
  rw [hsame]
  exact insertedTwice_endless fuel

theorem bothDue_adjust (fuel : Nat) :
    adjustForward Run.host insertSecond () (fuel + 2) bothDue 2 = none := by
  have hsame : bothDue.timers.setDelta false 1 = bothDue.timers := by
    have hd : bothDue.timers.delta false = 1 := by decide +kernel
    rw [← hd, Timers.setDelta_self]
  have hfirst : tickle Run.host insertSecond () (1 + fuel)
      (Run.host.setTimers bothDue (bothDue.timers.setDelta false 1)) = some insertedTwice := by
    rw [hsame]
    exact tickle_mono fuel (some_get _).symm
  have hem : Chain.isEmpty (Run.host.timers insertedTwice).links () = false := by decide +kernel
  rw [Nat.add_comm 1] at hfirst
  refine (adjustForward_due (by decide) (by decide +kernel) (by decide +kernel) hfirst).trans ?_
  exact (if_neg (by simpa using hem)).trans (insertedTwice_adjust fuel)

/-- A timer that is inserted twice is linked to itself. -/
theorem adjust_forward_endless :
    (∃ ch, Good bothDue.timers ch ∧ ∀ w ∈ (ch ()).head?, 1 ≤ bothDue.timers.delta w) ∧
    (∀ w R, (insertSecond w R).timers = R.timers ∨
      ∃ fuel, insert R.timers () true 1 fuel = some (insertSecond w R).timers) ∧
    ∀ fuel, adjust Run.host insertSecond () .forward 2 fuel bothDue = none := by
  obtain ⟨ch, hK, -⟩ := bothDue_reachable.kept
  refine ⟨⟨ch, hK.good, bothDue_head hK.good⟩, fun w R => ?_, fun fuel => ?_⟩
  · cases w with
    | true => exact Or.inl rfl
    | false =>
      cases he : insert R.timers () true 1 5 with
      | none => exact Or.inl (by simp [insertSecond, he])
      | some T => exact Or.inr ⟨5, by simp [insertSecond, he]⟩
  · by_contra hne
    obtain ⟨R', he⟩ := Option.ne_none_iff_exists'.mp hne
    have hem : Chain.isEmpty bothDue.timers.links () = false := by decide +kernel
    have he' := adjust_mono 2 he
    rw [adjust_forward hem, bothDue_adjust] at he'
    cases he'

end Rtems.Watchdog
