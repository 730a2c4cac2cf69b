import Rtems.Watchdog.Interrupt.Invariant

/-! # Insertions that are interrupted -/

namespace Rtems.Watchdog

open Intrusive DeltaList

variable {H α : Type*} [DecidableEq H] [DecidableEq α] {T T' : Timers H α} {ch : H → List α}
  {clock : H → Nat} {c : Call H α} {M M' : Machine H α} {rest : List (Frame H α)}

/-! ## The invariant along a run -/

theorem Sound.tickleGo {h next level} (hS : Sound M ch) (hf : M.frames = .tick h next level :: rest) :
    ∃ ch', Sound (M.tickleGo h next level rest) ch' := by
  have hst := hS.stacked
  rw [hf] at hst
  have hlv : level = M.timers.isrNestLevel := hS.nest (.tick h next level) (by rw [hf]; rfl)
  cases next with
  | some w =>
    have hlow := hf ▸ hst.below rfl
    obtain ⟨ch', hS'⟩ := hS.remove (hlv ▸ hlow) w
    refine ⟨ch', ?_⟩
    have hfr : (M.remove w).frames = .tick h (some w) level :: rest.map (Frame.note w) := by
      simp [Machine.remove, hf, Frame.note]
    have hn : (M.remove w).timers.isrNestLevel = level := by
      have := hS'.nest (.tick h (some w) level) (by rw [hfr]; rfl)
      exact this.symm
    have hst' := hS'.stacked
    rw [hfr] at hst'
    have hwait : Stacked (.tick h none level :: rest.map (Frame.note w)) := hst'.replace rfl rfl rfl
    have hM : M.tickleGo h (some w) level rest = { (M.remove w).setNest level with
        frames := if (Watchdog.remove M.timers w).2 = .active then
            .body level :: .tick h none level :: rest.map (Frame.note w)
          else .tick h none level :: rest.map (Frame.note w) } := by
      unfold Machine.tickleGo Machine.setNest
      rw [← hn]
    rw [hM]
    split
    · refine hS'.reframe _ level (by simp [Frame.level]) ?_ (by rw [hfr]; rfl) (by simp [hfr])
        fun k hk => Or.inl ?_
      · exact hwait.push (Nat.le_refl _) (fun h => absurd rfl h) (fun h => by simp [Frame.timer, Frame.ticks] at h)
          fun w hw => by cases hw
      · rw [hfr]
        simpa [Frame.ticks] using hk
    · refine hS'.reframe _ level (by simp [Frame.level]) hwait (by rw [hfr]; rfl) (by simp [hfr])
        fun k hk => Or.inl ?_
      rw [hfr]
      simpa [Frame.ticks] using hk
  | none =>
    refine ⟨ch, ?_⟩
    unfold Machine.tickleGo
    rcases hS.good.tickleNext_eq h with ⟨w, l, -, -, hn⟩ | ⟨hpos, hn⟩
    · simp only [hn]
      have := hS.reframe (.tick h (some w) level :: rest) level (by simp [Frame.level])
        (hst.replace rfl rfl rfl) (by rw [hf]; rfl) (by simp [hf]) fun k hk => Or.inl ?_
      · exact hlv ▸ this
      · rw [hf]
        simpa [Frame.ticks] using hk
    · simp only [hn]
      have := hS.reframe rest level (hst.caller (Or.inr (by simp [Frame.ticks]))) hst.pop
        (by rw [hf]; rfl) (fun c hc => by rw [hf]; exact List.mem_cons_of_mem _ hc) fun k hk => ?_
      · rw [Machine.setNest, hlv] at this
        exact this
      · by_cases hkh : k = h
        · subst hkh; exact Or.inr hpos
        · refine Or.inl fun f hfm => ?_
          rw [hf] at hfm
          rcases List.mem_cons.mp hfm with rfl | hfm
          · simpa [Frame.ticks] using Ne.symm hkh
          · exact hk f hfm

theorem Sound.perform {m} (hS : Sound M ch) (he : M.perform m = some M') :
    ∃ ch', Sound M' ch' := by
  have hst := hS.stacked
  cases m with
  | interrupt =>
    simp only [Machine.perform] at he
    split at he
    · next f rest hf =>
      rw [hf] at hst
      cases he
      refine ⟨ch, hS.reframe _ _ (by simp [Frame.level]) ?_ (by rfl) (by simp) fun k hk => Or.inl fun f hf =>
        hk f (List.mem_cons_of_mem _ hf)⟩
      rw [hf]
      exact hst.push (Nat.le_succ _) (fun _ => Nat.lt_succ_self _)
        (fun h => by simp [Frame.timer, Frame.ticks] at h) fun w hw => by cases hw
    · cases he
  | ret =>
    simp only [Machine.perform] at he
    split at he
    · next l f rest hf =>
      rw [hf] at hst
      cases he
      refine ⟨ch, hS.reframe _ _ (by simp) hst.pop (by rw [hf]; rfl) (fun c hc => ?_) fun k hk => Or.inl ?_⟩
      · rw [hf]; exact List.mem_cons_of_mem _ hc
      · rw [hf]
        exact List.forall_mem_cons.mpr ⟨by simp [Frame.ticks], hk⟩
    · cases he
  | remove w =>
    simp only [Machine.perform] at he
    split at he
    · next l rest hf =>
      rw [hf] at hst
      cases he
      have hlv : l = M.timers.isrNestLevel := hS.nest (.body l) (by rw [hf]; rfl)
      exact hS.remove (hlv ▸ hf ▸ hst.below rfl) w
    · cases he
  | insert h w units =>
    simp only [Machine.perform] at he
    split at he
    · next l rest hf =>
      split at he
      · next hc =>
        cases he
        exact ⟨ch, hS.call hf hc.1 hc.2.1 hc.2.2.1 hc.2.2.2⟩
      · cases he
    · cases he
  | tick h =>
    simp only [Machine.perform] at he
    split at he
    · next l rest hf =>
      split at he
      · next hc =>
        cases he
        exact ⟨ch, hS.tick hf hc⟩
      · cases he
    · cases he
  | go =>
    simp only [Machine.perform] at he
    split at he
    · next c rest hf =>
      cases he
      exact hS.advance hf
    · next h next l rest hf =>
      cases he
      exact hS.tickleGo hf
    · cases he

theorem Machine.Reachable.sound {Q} (hM : M.Reachable Q) : ∃ ch, Sound M ch := by
  induction hM with
  | initial h => exact ⟨_, h.sound⟩
  | move _ _ he ih =>
    obtain ⟨ch, hS⟩ := ih
    exact hS.perform he

/-! ## The rest of an insertion -/

theorem insertFrom_loaded_total {h w} (hT : T.On ch) (hw : ∀ k, w ∉ ch k)
    (hδ : ∀ a, T.delta a < 2 ^ 32) (hu : T.initial w < 2 ^ 32) (level : Nat) :
    ∃ fuel T', insertFrom h w fuel T (.loaded level (T.initial w)) = some T' := by
  by_cases hs : T.state w = .beingInserted
  · obtain ⟨fuel, T', he, -⟩ := insertFrom_stale (h := h) level hT hw hδ rfl hu hs
    exact ⟨fuel, T', he⟩
  · have hf : Chain.first T.links h = succ h (ch h) := Chain.first_eq (hT.holds rfl)
    rcases search_spec hT (show ch h = [] ++ ch h from rfl) hw hδ hu level with
      ⟨T', he, -⟩ | ⟨a, l, -, -, -, he⟩
    · exact ⟨1, T', by simp only [insertFrom, insertStep, hf, he]⟩
    · have hs' : (T.control w).state ≠ .beingInserted := hs
      refine ⟨2, (exitInsert T level).1, ?_⟩
      simp only [insertFrom, insertStep, hf, he, ne_eq, hs', not_false_eq_true, ↓reduceIte, exitInsert]

theorem insertFrom_restart_total {h w} (hT : T.On ch) (hw : ∀ k, w ∉ ch k)
    (hδ : ∀ a, T.delta a < 2 ^ 32) (hu : T.initial w < 2 ^ 32) (level : Nat) :
    ∃ fuel T', insertFrom h w fuel T (.restart level) = some T' := by
  obtain ⟨fuel, T', he⟩ := insertFrom_loaded_total (h := h) hT hw hδ hu level
  exact ⟨fuel + 1, T', he⟩

theorem Waiting.insertFrom_total (hW : Waiting T ch clock c) (hG : Good T ch) :
    ∃ fuel T', insertFrom c.header c.timer fuel T c.point = some T' := by
  have hoff := hW.off hG
  have hu := hW.interval.2
  cases hp : c.point with
  | entry =>
    obtain ⟨fuel, T', he⟩ := insertFrom_restart_total (h := c.header)
      (T := { T.setState c.timer .beingInserted with syncCount := T.syncCount + 1 }) hG.on hoff
      (fun a => by change (T.setState _ _).delta a < _; simpa using hG.delta_lt a)
      (by change (T.setState _ _).initial _ < _; simpa using hu) T.isrNestLevel
    exact ⟨fuel + 2, T', he⟩
  | marked l =>
    obtain ⟨fuel, T', he⟩ := insertFrom_restart_total (h := c.header)
      (T := { T with syncCount := T.syncCount + 1 }) hG.on hoff hG.delta_lt hu l
    exact ⟨fuel + 1, T', he⟩
  | restart l => exact insertFrom_restart_total hG.on hoff hG.delta_lt hu l
  | loaded l d =>
    obtain ⟨-, rfl⟩ := hW.loaded hp
    exact insertFrom_loaded_total hG.on hoff hG.delta_lt hu l
  | flash l d n =>
    obtain ⟨rfl, -, hbc, hplace⟩ := hW.flash hp
    have hstate : (T.control c.timer).state = _ := hW.state
    simp only [hp, reduceCtorEq, false_or] at hstate
    cases hr : c.removed with
    | true =>
      refine ⟨1, (exitInsert T c.level).1, ?_⟩
      simp [insertFrom, insertStep, hstate, hr, exitInsert]
    | false =>
      have hs : T.state c.timer = .beingInserted := hstate.trans (by simp [hr])
      by_cases hsync : T.syncLevel > c.level
      · obtain ⟨fuel, T', he⟩ := insertFrom_restart_total (h := c.header)
          (T := { T with syncLevel := c.level }) hG.on hoff hG.delta_lt hu c.level
        refine ⟨fuel + 1, T', ?_⟩
        simp only [insertFrom, insertStep, hstate, hr, Bool.false_eq_true, ↓reduceIte, ne_eq,
          not_true_eq_false, hsync]
        exact he
      · rcases hplace with h | h | ⟨a, rfl, ha, heq⟩
        · rw [hr] at h; cases h
        · exact absurd h hsync
        · obtain ⟨l1, l2, hc, hnext, hdue⟩ := hG.on.split_mem ha
          obtain ⟨fuel, T', he, -⟩ := insertFrom_search (d := d) (u := total T.delta (l1 ++ [a]) + d)
            hG.on hc hoff hG.delta_lt (by omega) rfl hs (Nat.le_of_not_lt hsync)
          refine ⟨fuel + 1, T', ?_⟩
          simp only [insertFrom, insertStep, hstate, hr, Bool.false_eq_true, ↓reduceIte, ne_eq,
            not_true_eq_false, hsync, hnext]
          exact he
  | done => exact absurd hp hW.done

/-! ## What an insertion that returns has done -/

/-- A removal before the loop is seen in its first flash: the first timer is due no later. -/
def Machine.heeded (M : Machine H α) : Bool :=
  match M.frames with
  | .insert c :: _ =>
    match c.point with
    | .loaded _ _ =>
      (M.timers.control c.timer).state == .beingInserted ||
        match Chain.first M.timers.links c.header with
        | .obj a => (M.timers.control a).deltaInterval ≤ (M.timers.control c.timer).initial
        | _ => false
    | _ => true
  | _ => true

theorem Machine.heeded_loaded {l d} (hS : Sound M ch) (hh : M.heeded) (hf : M.frames = .insert c :: rest)
    (hp : c.point = .loaded l d) (hs : M.timers.state c.timer ≠ .beingInserted) :
    (insertStep M.timers c.header c.timer c.point).2 ≠ .done := by
  have hW := hS.calls (c := c) (by rw [hf]; simp)
  obtain ⟨-, rfl⟩ := hW.loaded hp
  have hs : (M.timers.control c.timer).state ≠ .beingInserted := hs
  have hH := hS.good.on.holds (c := c.header) rfl
  have hfirst := Chain.first_eq hH
  simp only [Machine.heeded, hf, hp, Bool.or_eq_true, beq_iff_eq, hs, false_or, hfirst] at hh
  cases hc : ch c.header with
  | nil => simp [hc] at hh
  | cons a l' =>
    rw [hc] at hH hh
    simp only [succ_cons, decide_eq_true_eq] at hh
    have hle : (M.timers.control a).deltaInterval ≤ M.timers.initial c.timer := hh
    have hn : M.timers.links.next (.obj a) ≠ .null := by
      rw [(show Holds M.timers.links c.header ([] ++ a :: l') from hH).next_obj]
      cases l' <;> simp
    have h0 : M.timers.initial c.timer ≠ 0 := Nat.ne_of_gt hW.interval.1
    simp only [hp, insertStep, hfirst, hc, succ_cons, search, h0, hn, or_self, ↓reduceIte]
    rw [if_neg (Nat.not_lt.mpr hle)]
    exact fun h => by cases h

/-- Insertions that heed removals return, with timers inactive if removed, else due. -/
theorem insert_returns (hM : M.Reachable (·.heeded)) (hf : M.frames = .insert c :: rest) :
    (∃ fuel T', insertFrom c.header c.timer fuel M.timers c.point = some T') ∧
      ∀ T', M.heeded → insertStep M.timers c.header c.timer c.point = (T', .done) →
        ∃ ch, T'.On ch ∧
          (c.removed = true → (∀ k, c.timer ∉ ch k) ∧ T'.state c.timer = .inactive) ∧
          (c.removed = false → c.timer ∈ ch c.header ∧ T'.state c.timer = .active ∧
            ∃ t, c.called ≤ t ∧ t ≤ M.clock c.header ∧
              due T'.delta (ch c.header) c.timer + (M.clock c.header - t) = T'.initial c.timer) ∧
          ∀ v, v ≠ c.timer → (∀ k, v ∈ ch k ↔ ∃ e, M.expiry v = some (k, e)) ∧
            ∀ k e, M.expiry v = some (k, e) → due T'.delta (ch k) v + M.clock k = e := by
  obtain ⟨ch, hS⟩ := hM.sound
  have hW := hS.calls (c := c) (by rw [hf]; simp)
  have hoff := hW.off hS.good
  refine ⟨hW.insertFrom_total hS.good, fun T' hh hd => ?_⟩
  -- who is on a chain, in terms of the expiry
  have hiff : ∀ v k, v ∈ ch k ↔ ∃ e, M.expiry v = some (k, e) := by
    refine fun v k => ⟨fun hv => ⟨_, hS.expiry k v hv⟩, fun ⟨e, he⟩ => ?_⟩
    by_contra hv
    by_cases hx : ∃ k', v ∈ ch k'
    · obtain ⟨k', hv'⟩ := hx
      have := hS.expiry k' v hv'
      rw [he, Option.some.injEq, Prod.mk.injEq] at this
      exact hv (this.1 ▸ hv')
    · rw [hS.unlinked v fun k' hk' => hx ⟨k', hk'⟩] at he
      cases he
  have hexp : ∀ v k e, M.expiry v = some (k, e) → due M.timers.delta (ch k) v + M.clock k = e := by
    intro v k e he
    have hv := (hiff v k).mpr ⟨e, he⟩
    rw [hS.expiry k v hv, Option.some.injEq, Prod.mk.injEq] at he
    exact he.2
  have hA := hW.advanced hS.good (M.began c) rfl
  have hheed := fun l d hp hs => Machine.heeded_loaded (l := l) (d := d) hS hh hf hp hs
  rw [hd] at hA hheed
  cases hA with
  | link hp hb hb' hplace hL hu _ hr =>
    have hE := hL.toEntered
    have hnr : c.removed = false := by
      rcases hr with h | ⟨l, d, hpt⟩
      · exact h
      · by_contra hne
        refine absurd rfl (hheed l d hpt ?_)
        rw [hW.state]
        simp [hne]
    refine ⟨_, hE.on, fun h => by simp [hnr] at h, fun _ => ⟨?_, ?_, M.began c, hb, hb', ?_⟩,
      fun v hv => ⟨fun k => ?_, fun k e he => ?_⟩⟩
    · exact (entered_mem hplace.split).mpr (Or.inr ⟨rfl, rfl⟩)
    · have := congrFun hL.state c.timer
      simpa using this
    · have hself := hE.due_self hS.good hplace hoff
      have hi : T'.initial c.timer = M.timers.initial c.timer := congrFun hL.initial _
      rw [Function.update_self]
      simp only at hself hi ⊢
      omega
    · rw [entered_mem hplace.split, ← hiff v k]
      simp [hv]
    · have := hE.due_eq hS.good hplace hoff ((hiff v k).mpr ⟨e, he⟩)
      rw [this]
      exact hexp v k e he
  | abandon hp hr hT =>
    subst hT
    refine ⟨ch, hS.good.on, fun _ => ⟨hoff, ?_⟩, fun h => by simp [hr] at h,
      fun v _ => ⟨hiff v, hexp v⟩⟩
    exact hW.state.trans (by simp [hr])

/-! ## Three timers -/

def Machine.run (Q : Machine H α → Bool) : Machine H α → List (Move H α) → Option (Machine H α)
  | M, [] => some M
  | M, m :: ms => if m = .go → Q M then (M.perform m).bind fun M' => M'.run Q ms else none

theorem Machine.Reachable.run {Q ms}
    (hM : M.Reachable fun M => Q M) (he : M.run Q ms = some M') : M'.Reachable fun M => Q M := by
  induction ms generalizing M with
  | nil => exact Option.some.inj he ▸ hM
  | cons m ms ih =>
    simp only [Machine.run] at he
    split at he
    · next hQ =>
      obtain ⟨M1, he1, he⟩ := Option.bind_eq_some_iff.mp he
      exact ih (hM.move hQ he1) he
    · cases he

def threeTimers : Machine Unit (Option Bool) where
  timers := .idle
  frames := [.body 0]
  clock := fun _ => 0
  expiry := fun _ => none

theorem threeTimers_initial : threeTimers.Initial := by
  have hG : Good threeTimers.timers fun _ => [] := Good.idle
  exact ⟨hG.on, fun _ => rfl, hG.delta_lt, rfl, rfl, fun _ => rfl⟩

/-- A removal before the loop of the second insertion; a tick and an insertion in a flash of the third. -/
def interrupted : Option (Machine Unit (Option Bool)) :=
  threeTimers.run Machine.heeded
    [.insert () none 1, .go, .go, .go, .go,
      .insert () (some false) 2, .go, .go, .go, .interrupt, .remove (some false), .ret, .go, .go,
      .insert () (some false) 3, .go, .go, .go, .go, .interrupt, .tick (), .go, .ret, .go,
      .insert () (some true) 1, .go, .go, .go, .go, .ret, .go, .go, .go]

theorem insert_returns_interrupted :
    ∃ M c rest T', interrupted = some M ∧ M.frames = .insert c :: rest ∧ c.removed = false ∧
      insertStep M.timers c.header c.timer c.point = (T', .done) ∧
      ∃ ch, T'.On ch ∧ some false ∈ ch () ∧ T'.state (some false) = .active ∧
        due T'.delta (ch ()) (some true) + 1 = 2 := by
  have hr : interrupted.map (fun M => (M.frames, M.expiry (some true))) =
      some ([.insert ⟨(), some false, .flash 0 2 (.obj (some true)), 0, 0, 1, false⟩, .body 0], some ((), 2)) := by
    decide +kernel
  obtain ⟨M, hM, hf⟩ := Option.map_eq_some_iff.mp hr
  have hd : interrupted.map (fun M =>
      (insertStep M.timers () (some false) (.flash 0 2 (.obj (some true)))).2) = some .done := by decide +kernel
  have hh : interrupted.map (fun M => (M.heeded, M.clock ())) = some (true, 1) := by decide +kernel
  simp only [hM, Option.map_some, Option.some.injEq, Prod.mk.injEq] at hd hh hf
  have hreach : M.Reachable (·.heeded) :=
    (Machine.Reachable.initial threeTimers_initial).run (Q := Machine.heeded) hM
  obtain ⟨ch, hon, -, hin, hv⟩ := (insert_returns hreach hf.1).2 _ hh.1 (Prod.ext rfl hd)
  have h2 := (hv (some true) (by decide)).2 () 2 hf.2
  rw [hh.2] at h2
  exact ⟨M, _, _, _, hM, hf.1, rfl, Prod.ext rfl hd, ch, hon, (hin rfl).1, (hin rfl).2.1, h2⟩

/-- The timer is removed just before `_ISR_Disable`, and linked in. -/
theorem removal_lost :
    ∃ (M : Machine Unit (Option Bool)) (c : Call Unit (Option Bool)) (rest : List (Frame Unit (Option Bool)))
      (T' : Timers Unit (Option Bool)),
      M.Reachable (fun _ => True) ∧ M.frames = .insert c :: rest ∧ c.removed = true ∧
      insertStep M.timers c.header c.timer c.point = (T', .done) ∧ T'.state c.timer = .active := by
  let moves : List (Move Unit (Option Bool)) := [.insert () none 1, .go, .go, .go, .interrupt, .remove none, .ret]
  have hr : (threeTimers.run (fun _ => true) moves).map Machine.frames =
      some [.insert ⟨(), none, .loaded 0 1, 0, 0, 0, true⟩, .body 0] := by decide +kernel
  obtain ⟨M, hM, hf⟩ := Option.map_eq_some_iff.mp hr
  have hd : (threeTimers.run (fun _ => true) moves).map (fun M =>
      let (T, p) := insertStep M.timers () none (.loaded 0 1)
      (T.state none, p)) = some (.active, .done) := by decide +kernel
  simp only [hM, Option.map_some, Option.some.injEq, Prod.mk.injEq] at hd
  have hreach := (Machine.Reachable.initial threeTimers_initial).run (Q := fun _ => true) hM
  simp only at hreach
  exact ⟨M, _, _, _, hreach, hf, rfl, Prod.ext rfl hd.2, hd.1⟩

end Rtems.Watchdog
