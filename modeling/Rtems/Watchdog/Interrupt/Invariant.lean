import Rtems.Watchdog.Interrupt.Model
import Rtems.Watchdog.Invariant

/-!
# What holds while insertions are interrupted

Code at higher levels leaves the place of a suspended insertion alone, moves it along with the clock, or
raises `_Watchdog_Sync_level`.
-/

namespace Rtems.Watchdog


open Function Intrusive DeltaList

variable {H α : Type*} [DecidableEq H] [DecidableEq α] {T T' : Timers H α} {ch ch' : H → List α}
  {clock clock' : H → Nat} {c : Call H α} {M : Machine H α}

structure Waiting (T : Timers H α) (ch : H → List α) (clock : H → Nat) (c : Call H α) : Prop where
  interval : 0 < T.initial c.timer ∧ T.initial c.timer < 2 ^ 32
  called_le : c.called ≤ clock c.header
  state : T.state c.timer = if c.point = .entry ∨ c.removed then .inactive else .beingInserted
  entry : c.point = .entry → c.removed = false
  marked : ∀ {l}, c.point = .marked l → l = c.level
  restart : ∀ {l}, c.point = .restart l → l = c.level
  loaded : ∀ {l d}, c.point = .loaded l d → l = c.level ∧ d = T.initial c.timer
  flash : ∀ {l d n}, c.point = .flash l d n → l = c.level ∧ c.called ≤ c.began ∧
    c.began ≤ clock c.header ∧ (c.removed ∨ c.level < T.syncLevel ∨ ∃ a, n = .obj a ∧
      a ∈ ch c.header ∧
      due T.delta (ch c.header) a + d + clock c.header = T.initial c.timer + c.began)
  done : c.point ≠ .done

structure Disturbed (T T' : Timers H α) (ch ch' : H → List α) (clock clock' : H → Nat)
    (level : Nat) : Prop where
  clock_le : ∀ h, clock h ≤ clock' h
  sync : T.syncCount ≠ 0 → level ≤ T'.syncLevel ∨ T'.syncLevel = T.syncLevel ∧ ∀ h, ∀ a ∈ ch h,
    a ∈ ch' h ∧ due T'.delta (ch' h) a + clock' h = due T.delta (ch h) a + clock h

theorem Waiting.off (hW : Waiting T ch clock c) (hG : Good T ch) (k : H) : c.timer ∉ ch k := by
  refine hG.notMem ?_ k
  rw [hW.state]
  split <;> simp

theorem Waiting.disturb {r : Bool} {level} (hW : Waiting T ch clock c)
    (hD : Disturbed T T' ch ch' clock clock' level) (hlv : c.level < level)
    (hcount : (Frame.insert c).counted → T.syncCount ≠ 0) (hr : c.removed → r)
    (hentry : c.point = .entry → r = false)
    (hstate : T'.state c.timer = if c.point = .entry ∨ r then .inactive else .beingInserted)
    (hinitial : T'.initial c.timer = T.initial c.timer) :
    Waiting T' ch' clock' { c with removed := r } := by
  refine ⟨by rw [hinitial]; exact hW.interval, hW.called_le.trans (hD.clock_le _), hstate, hentry,
    hW.marked, hW.restart, fun hp => by rw [hinitial]; exact hW.loaded hp, fun {l d n} hp => ?_, hW.done⟩
  obtain ⟨hl, hcb, hbc, hplace⟩ := hW.flash hp
  have hp : c.point = .flash l d n := hp
  refine ⟨hl, hcb, hbc.trans (hD.clock_le _), ?_⟩
  have h0 : T.syncCount ≠ 0 := hcount (by simp [Frame.counted, hp])
  rcases hplace with hrem | hsync | ⟨a, hn, ha, heq⟩
  · exact Or.inl (hr hrem)
  · rcases hD.sync h0 with h | ⟨h, -⟩ <;> simp only <;> omega
  · right
    rcases hD.sync h0 with h | ⟨-, h⟩
    · left; simp only; omega
    · obtain ⟨ha', hd⟩ := h _ a ha
      refine Or.inr ⟨a, hn, ha', ?_⟩
      simp only
      omega

structure Stacked (fs : List (Frame H α)) : Prop where
  levels : fs.Pairwise fun f g => g.timer ≠ none → g.level < f.level
  timers : fs.Pairwise fun f g => ∀ w, f.timer = some w → g.timer ≠ some w
  callers : fs.IsChain fun f g => f.timer ≠ none ∨ f.ticks ≠ none → g.level = f.level

structure Sound (M : Machine H α) (ch : H → List α) : Prop where
  good : Good M.timers ch
  due_lt : ∀ k, ∀ v ∈ ch k, due M.timers.delta (ch k) v < 2 ^ 32
  expiry : ∀ k, ∀ v ∈ ch k, M.expiry v = some (k, due M.timers.delta (ch k) v + M.clock k)
  unlinked : ∀ v, (∀ k, v ∉ ch k) → M.expiry v = none
  fresh : ∀ k, (∀ f ∈ M.frames, f.ticks ≠ some k) → ∀ v ∈ ch k, 0 < due M.timers.delta (ch k) v
  nest : ∀ f ∈ M.frames.head?, f.level = M.timers.isrNestLevel
  count : M.timers.syncCount = M.frames.countP Frame.counted
  stacked : Stacked M.frames
  calls : ∀ {c}, .insert c ∈ M.frames → Waiting M.timers ch M.clock c

theorem Machine.Initial.sound (h : M.Initial) : Sound M fun _ => [] := by
  refine ⟨⟨h.empty, fun w => ?_, h.delta_lt⟩, by simp, by simp, fun v _ => h.expiry v, by simp, ?_, ?_,
    ?_, ?_⟩
  · have := h.inactive w
    simp [Timers.state, this]
  · rw [h.frames]; simp [Frame.level]
  · rw [h.frames, h.count]; rfl
  · rw [h.frames]; exact ⟨List.pairwise_singleton _ _, List.pairwise_singleton _ _, .singleton _⟩
  · rw [h.frames]; simp

theorem Sound.reframe (hS : Sound M ch) (fs : List (Frame H α)) (level : Nat)
    (hnest : ∀ f ∈ fs.head?, f.level = level) (hstacked : Stacked fs)
    (hcount : fs.countP Frame.counted = M.frames.countP Frame.counted)
    (hcalls : ∀ c, .insert c ∈ fs → .insert c ∈ M.frames)
    (hfresh : ∀ k, (∀ f ∈ fs, f.ticks ≠ some k) → (∀ f ∈ M.frames, f.ticks ≠ some k) ∨
      ∀ v ∈ ch k, 0 < due M.timers.delta (ch k) v) :
    Sound { M.setNest level with frames := fs } ch := by
  refine ⟨⟨hS.good.on, hS.good.linked_iff, hS.good.delta_lt⟩, hS.due_lt, hS.expiry, hS.unlinked,
    fun k hk => ?_, hnest, hS.count.trans hcount.symm, hstacked, fun hc => ?_⟩
  · rcases hfresh k hk with h | h
    · exact hS.fresh k h
    · exact h
  · have hW := hS.calls (hcalls _ hc)
    exact ⟨hW.interval, hW.called_le, hW.state, hW.entry, hW.marked, hW.restart, hW.loaded, hW.flash,
      hW.done⟩

theorem Sound.counted {f} (hS : Sound M ch) (hf : f ∈ M.frames) (h : f.counted) :
    M.timers.syncCount ≠ 0 := by
  rw [hS.count]
  exact Nat.pos_iff_ne_zero.mp (List.countP_pos_iff.mpr ⟨f, hf, h⟩)

theorem Sound.suspended {level : Nat} (hS : Sound M ch) (hc : .insert c ∈ M.frames)
    (hlv : c.level < level) (hD : Disturbed M.timers T' ch ch' M.clock clock' level)
    (hstate : T'.state c.timer = M.timers.state c.timer)
    (hinitial : T'.initial c.timer = M.timers.initial c.timer) : Waiting T' ch' clock' c := by
  have hW := hS.calls hc
  exact hW.disturb hD hlv (hS.counted hc) id hW.entry (hstate.trans hW.state) hinitial

/-! ## Removing -/

namespace Frame

@[simp] theorem level_note (w : α) (f : Frame H α) : (f.note w).level = f.level := by
  cases f <;> rfl

@[simp] theorem timer_note (w : α) (f : Frame H α) : (f.note w).timer = f.timer := by
  cases f <;> rfl

@[simp] theorem ticks_note (w : α) (f : Frame H α) : (f.note w).ticks = f.ticks := by
  cases f <;> rfl

@[simp] theorem counted_note (w : α) (f : Frame H α) : (f.note w).counted = f.counted := by
  cases f <;> rfl

end Frame

theorem Stacked.note {fs : List (Frame H α)} (h : Stacked fs) (w : α) :
    Stacked (fs.map (Frame.note w)) := by
  refine ⟨List.pairwise_map.mpr ?_, List.pairwise_map.mpr ?_, (List.isChain_map _).mpr ?_⟩
  · simpa using h.levels
  · simpa using h.timers
  · simpa using h.callers

theorem Sound.remove (hS : Sound M ch)
    (hlow : ∀ f ∈ M.frames, f.timer ≠ none → f.level < M.timers.isrNestLevel) (w : α) :
    ∃ ch', Sound (M.remove w) ch' := by
  obtain ⟨ch', hD⟩ := hS.good.drop (w := w) (hS.good.no_overflow hS.due_lt)
  refine ⟨ch', hD.good, fun k v hv => ?_, fun k v hv => ?_, fun v hv => ?_, fun k hk v hv => ?_, ?_, ?_,
    hS.stacked.note w, fun {c} hc => ?_⟩
  · obtain ⟨hv, hne⟩ := hD.mem_iff.mp hv
    exact (hD.due_eq hv hne).trans_lt (hS.due_lt k v hv)
  · obtain ⟨hv, hne⟩ := hD.mem_iff.mp hv
    simp only [Machine.remove, update_of_ne hne]
    rw [hD.due_eq hv hne]
    exact hS.expiry k v hv
  · by_cases hvw : v = w
    · simp [Machine.remove, hvw]
    · simp only [Machine.remove, update_of_ne hvw]
      exact hS.unlinked v fun k hk => hv k (hD.mem_iff.mpr ⟨hk, hvw⟩)
  · obtain ⟨hv, hne⟩ := hD.mem_iff.mp hv
    have := hS.fresh k (fun f hf => by simpa using hk _ (List.mem_map_of_mem hf)) v hv
    exact (hD.due_eq hv hne).symm ▸ this
  · intro f hf
    rw [show (M.remove w).timers.isrNestLevel = M.timers.isrNestLevel from hD.nest]
    simp only [Machine.remove, List.head?_map, Option.mem_def, Option.map_eq_some_iff] at hf
    obtain ⟨g, hg, rfl⟩ := hf
    rw [Frame.level_note]
    exact hS.nest g hg
  · rw [show (M.remove w).timers.syncCount = M.timers.syncCount from hD.count, hS.count]
    simp [Machine.remove, List.countP_map, comp_def]
  · obtain ⟨f, hf, hfc⟩ := List.mem_map.mp hc
    cases f with
    | body => cases hfc
    | tick => cases hfc
    | insert c0 =>
      simp only [Frame.note, Frame.insert.injEq] at hfc
      subst hfc
      have hW := hS.calls hf
      have hdist : Disturbed M.timers (M.remove w).timers ch ch' M.clock M.clock
          M.timers.isrNestLevel := by
        refine ⟨fun _ => Nat.le_refl _, fun h0 => ?_⟩
        rcases hD.level h0 with h | ⟨h, hw⟩
        · exact Or.inl (Nat.le_of_eq h.symm)
        · refine Or.inr ⟨h, fun k a ha => ?_⟩
          have hne : a ≠ w := by rintro rfl; exact hw k ha
          exact ⟨hD.mem_iff.mpr ⟨ha, hne⟩, congrArg (· + M.clock k) (hD.due_eq ha hne)⟩
      refine hW.disturb hdist (hlow _ hf (by simp [Frame.timer])) (hS.counted hf) (by simp_all) ?_ ?_
        (congrFun hD.initial _)
      · intro he
        simp [hW.entry he, he]
      · rw [show (M.remove w).timers.state = _ from hD.state]
        by_cases hcw : c0.timer = w
        · subst hcw
          by_cases he : c0.point = .entry
          · simp [he]
          · simp [he]
        · rw [update_of_ne hcw, hW.state]
          simp [hcw]

/-! ## Bodies -/

section Body

variable {level : Nat} {rest : List (Frame H α)}

section

omit [DecidableEq H] [DecidableEq α]

theorem Stacked.below {f} (h : Stacked (f :: rest)) (hf : f.timer = none) :
    ∀ g ∈ f :: rest, g.timer ≠ none → g.level < f.level := by
  intro g hg hgt
  rcases List.mem_cons.mp hg with rfl | hg
  · exact absurd hf hgt
  · exact (List.pairwise_cons.mp h.levels).1 g hg hgt

theorem Stacked.push {f g : Frame H α} (h : Stacked (f :: rest)) (hl : f.level ≤ g.level)
    (hf : f.timer ≠ none → f.level < g.level) (hc : g.timer ≠ none ∨ g.ticks ≠ none → f.level = g.level)
    (hg : ∀ w, g.timer = some w → ∀ f' ∈ f :: rest, f'.timer ≠ some w) : Stacked (g :: f :: rest) := by
  refine ⟨List.pairwise_cons.mpr ⟨fun f' hf' ht => ?_, h.levels⟩,
    List.pairwise_cons.mpr ⟨fun f' hf' w hw => hg w hw f' hf', h.timers⟩,
    List.isChain_cons_cons.mpr ⟨hc, h.callers⟩⟩
  rcases List.mem_cons.mp hf' with rfl | hf'
  · exact hf ht
  · exact Nat.lt_of_lt_of_le ((List.pairwise_cons.mp h.levels).1 f' hf' ht) hl

theorem Stacked.pop {f} (h : Stacked (f :: rest)) : Stacked rest :=
  ⟨(List.pairwise_cons.mp h.levels).2, (List.pairwise_cons.mp h.timers).2, h.callers.tail⟩

theorem Stacked.caller {f} (h : Stacked (f :: rest)) (hf : f.timer ≠ none ∨ f.ticks ≠ none) :
    ∀ g ∈ rest.head?, g.level = f.level := by
  intro g hg
  cases rest with
  | nil => cases hg
  | cons g' rest =>
    cases hg
    exact (List.isChain_cons_cons.mp h.callers).1 hf

theorem Stacked.replace {f g} (h : Stacked (f :: rest)) (hl : g.level = f.level)
    (ht : g.timer = f.timer) (hc : g.ticks = f.ticks) : Stacked (g :: rest) := by
  refine ⟨?_, ?_, ?_⟩
  · have := h.levels
    rw [List.pairwise_cons] at this ⊢
    rwa [hl]
  · have := h.timers
    rw [List.pairwise_cons] at this ⊢
    rwa [ht]
  · cases rest with
    | nil => exact .singleton _
    | cons f' rest =>
      have := h.callers
      rw [List.isChain_cons_cons] at this ⊢
      rwa [hl, ht, hc]

end

theorem Sound.tick {h} (hS : Sound M ch) (hf : M.frames = .body level :: rest)
    (hno : ∀ f ∈ M.frames, f.ticks ≠ some h) : Sound (M.tick h level) ch := by
  obtain ⟨T, next, hs, hT, hnext⟩ := hS.good.tickleStart_spec (hS.fresh h hno)
  have hlv : level = M.timers.isrNestLevel := hS.nest (.body level) (by rw [hf]; rfl)
  have hst := hS.stacked
  have hlow := hf ▸ (hf ▸ hst).below rfl
  have hM : M.tick h level = { M with
      timers := T
      clock := update M.clock h (M.clock h + 1)
      frames := (next.map fun w => .tick h (some w) level).toList ++ M.frames } := by
    unfold Machine.tick
    rw [hs]
  have hdue : ∀ k, ∀ v ∈ ch k, due T.delta (ch k) v + update M.clock h (M.clock h + 1) k =
      due M.timers.delta (ch k) v + M.clock k := by
    intro k v hv
    by_cases hk : k = h
    · subst hk
      have := hT.due_self hv
      rw [update_self]
      omega
    · rw [update_of_ne hk, hT.due_other hk hv]
  have hle : ∀ k, M.clock k ≤ update M.clock h (M.clock h + 1) k := by
    intro k
    by_cases hk : k = h
    · subst hk; simp
    · simp [hk]
  have hD : Disturbed M.timers T ch ch M.clock (update M.clock h (M.clock h + 1)) level :=
    ⟨hle, fun _ => Or.inr ⟨hT.level, fun k a ha => ⟨ha, hdue k a ha⟩⟩⟩
  have hmem : ∀ {c : Call H α}, .insert c ∈ (M.tick h level).frames → .insert c ∈ M.frames := by
    intro c hc
    rw [hM] at hc
    cases next with
    | none => simpa using hc
    | some w => simpa using hc
  rw [hM] at hmem ⊢
  refine ⟨hT.good, fun k v hv => ?_, fun k v hv => ?_, hS.unlinked, fun k hk v hv => ?_, ?_, ?_, ?_,
    fun hc => ?_⟩
  · have := hS.due_lt k v hv
    have := hdue k v hv
    have := hle k
    simp only
    omega
  · rw [hS.expiry k v hv, ← hdue k v hv]
  · by_cases hkh : k = h
    · subst hkh
      rcases hnext with ⟨rfl, hpos⟩ | ⟨w, l, rfl, -, -⟩
      · exact hpos v hv
      · exact absurd rfl (hk (.tick k (some w) level) (by simp))
    · simp only [hT.due_other hkh hv]
      exact hS.fresh k (fun f hf => hk f (List.mem_append_right _ hf)) v hv
  · simp only [hT.nest]
    cases next with
    | none => exact hS.nest
    | some w => simpa [Frame.level] using hlv
  · simp only [hT.count, hS.count]
    cases next with
    | none => rfl
    | some w => rfl
  · cases next with
    | none => exact hst
    | some w =>
      simp only [hf] at hst ⊢
      exact hst.push (Nat.le_refl _) (fun h => absurd rfl h) (fun _ => rfl) (fun w hw => by cases hw)
  · have hc := hmem hc
    exact hS.suspended hc (hlow _ hc (by simp [Frame.timer])) hD (congrFun hT.state _)
      (congrFun hT.initial _)

theorem Sound.call {h w units} (hS : Sound M ch) (hf : M.frames = .body level :: rest)
    (hstate : M.timers.state w = .inactive) (hw : ∀ f ∈ M.frames, f.timer ≠ some w) (h0 : 0 < units)
    (hu : units < 2 ^ 32) : Sound { M with
      timers := M.timers.setInitial w units
      frames := .insert ⟨h, w, .entry, level, M.clock h, M.clock h, false⟩ :: M.frames } ch := by
  have hst := hS.stacked
  have hlow := hf ▸ (hf ▸ hst).below rfl
  have hd : (M.timers.setInitial w units).delta = M.timers.delta := Timers.delta_setInitial
  have hs : (M.timers.setInitial w units).state = M.timers.state := Timers.state_setInitial
  have hi : (M.timers.setInitial w units).initial = _ := Timers.initial_setInitial
  have hD : Disturbed M.timers (M.timers.setInitial w units) ch ch M.clock M.clock level :=
    ⟨fun _ => Nat.le_refl _, fun _ => Or.inr ⟨rfl, fun k a ha => ⟨ha, by rw [hd]⟩⟩⟩
  refine ⟨⟨hS.good.on, fun v => by rw [hs]; exact hS.good.linked_iff v,
    fun a => by rw [hd]; exact hS.good.delta_lt a⟩, ?_, ?_, hS.unlinked, fun k hk => ?_, ?_, hS.count, ?_,
    fun {c} hc => ?_⟩
  · simp only [hd]; exact hS.due_lt
  · simp only [hd]; exact hS.expiry
  · simp only [hd]; exact hS.fresh k fun f hf => hk f (List.mem_cons_of_mem _ hf)
  · have := hS.nest (.body level) (by rw [hf]; rfl)
    intro f hf
    cases hf
    exact this
  · rw [hf] at hst hw ⊢
    refine hst.push (Nat.le_refl _) (fun h => absurd rfl h) (fun _ => rfl) fun v hv f hf => ?_
    obtain rfl : w = v := Option.some.inj hv
    exact hw f hf
  · rcases List.mem_cons.mp hc with hc | hc
    · obtain rfl := Frame.insert.inj hc
      refine ⟨?_, Nat.le_refl _, ?_, fun _ => rfl, ?_, ?_, ?_, ?_, ?_⟩
      · simp only [hi, update_self]; exact ⟨h0, hu⟩
      · simpa [hs] using hstate
      all_goals simp
    · have hne : c.timer ≠ w := fun h => hw _ hc (by simp [Frame.timer, h])
      refine hS.suspended hc (hlow _ hc (by simp [Frame.timer])) hD (congrFun hs _) ?_
      rw [hi, update_of_ne hne]

end Body

/-! ## Insertions -/

inductive Advanced (T : Timers H α) (ch : H → List α) (clock : H → Nat) (c : Call H α) (began : Nat) :
    Timers H α → InsertPoint H α → Prop
  | enter {T' : Timers H α} (hp : c.point = .entry) (hT : T' = T.setState c.timer .beingInserted) :
      Advanced T ch clock c began T' (.marked T.isrNestLevel)
  | count (hp : c.point = .marked c.level) :
      Advanced T ch clock c began { T with syncCount := T.syncCount + 1 } (.restart c.level)
  | load (hp : c.point = .restart c.level) :
      Advanced T ch clock c began T (.loaded c.level (T.initial c.timer))
  | walk {d : Nat} {a : α} (hp : (Frame.insert c).counted) (hb : c.called ≤ began)
      (hb' : began ≤ clock c.header) (ha : a ∈ ch c.header)
      (hd : due T.delta (ch c.header) a + d + clock c.header = T.initial c.timer + began) :
      Advanced T ch clock c began T (.flash c.level d (.obj a))
  | link {T' : Timers H α} {u d : Nat} {l₁ l₂ : List α} (hp : (Frame.insert c).counted)
      (hb : c.called ≤ began) (hb' : began ≤ clock c.header)
      (hplace : Place T.delta (ch c.header) u d l₁ l₂)
      (hL : LinkedIn T T' ch c.header c.timer d c.level l₁ l₂)
      (hu : u + clock c.header = T.initial c.timer + began)
      (hpos : (∀ v ∈ ch c.header, 0 < due T.delta (ch c.header) v) → 0 < u)
      (hr : c.removed = false ∨ ∃ l d, c.point = .loaded l d) :
      Advanced T ch clock c began T' .done
  | again (hp : (Frame.insert c).counted) :
      Advanced T ch clock c began { T with syncLevel := c.level } (.restart c.level)
  | abandon {T' : Timers H α} (hp : (Frame.insert c).counted) (hr : c.removed = true)
      (hT : T' = (exitInsert T c.level).1) : Advanced T ch clock c began T' .done

theorem search_advanced {d began l1 l2} (hG : Good T ch) (hW : Waiting T ch clock c)
    (hc : ch c.header = l1 ++ l2) (hp : (Frame.insert c).counted) (hb : c.called ≤ began)
    (hb' : began ≤ clock c.header)
    (ht : total T.delta l1 + d + clock c.header = T.initial c.timer + began)
    (hpos : (∀ v ∈ ch c.header, 0 < due T.delta (ch c.header) v) → 0 < total T.delta l1 + d)
    (hr : c.removed = false ∨ ∃ l d, c.point = .loaded l d) :
    Advanced T ch clock c began (search T c.timer c.level d (succ c.header l2)).1
      (search T c.timer c.level d (succ c.header l2)).2 := by
  have hi := hW.interval.2
  rcases search_spec hG.on hc (hW.off hG) hG.delta_lt (by omega : d < 2 ^ 32) c.level with
    ⟨T', he, hL, hfits⟩ | ⟨a, l, rfl, -, hda, he⟩
  · rw [he]
    exact .link hp hb hb' ⟨hc, rfl, hfits⟩ hL ht hpos hr
  · rw [he]
    refine .walk hp hb hb' (by rw [hc]; simp) ?_
    have hnd := hG.on.nodup c.header
    rw [hc] at hnd ⊢
    rw [due_middle hnd]
    simp only [total, List.map_append, List.map_cons, List.map_nil, List.sum_append,
      List.sum_singleton] at ht ⊢
    omega

theorem Waiting.advanced (hG : Good T ch) (hW : Waiting T ch clock c) (began : Nat)
    (hbegan : began = match c.point with
      | .loaded _ _ => clock c.header
      | _ => c.began) :
    Advanced T ch clock c began (insertStep T c.header c.timer c.point).1
      (insertStep T c.header c.timer c.point).2 := by
  have hi := hW.interval
  cases hp : c.point with
  | entry => exact .enter hp rfl
  | marked l =>
    obtain rfl := hW.marked hp
    exact .count hp
  | restart l =>
    obtain rfl := hW.restart hp
    exact .load hp
  | loaded l d =>
    obtain ⟨rfl, rfl⟩ := hW.loaded hp
    simp only [hp] at hbegan
    subst hbegan
    have hf : Chain.first T.links c.header = succ c.header (ch c.header) :=
      Chain.first_eq (hG.on.holds rfl)
    simp only [insertStep, hf]
    exact search_advanced hG hW (show ch c.header = [] ++ ch c.header from rfl)
      (by simp [Frame.counted, hp]) hW.called_le
      (Nat.le_refl _) (by simp [total]) (fun _ => by simpa [total] using hi.1) (Or.inr ⟨_, _, hp⟩)
  | flash l d n =>
    obtain ⟨rfl, hcb, hbc, hplace⟩ := hW.flash hp
    simp only [hp] at hbegan
    subst hbegan
    have hcount : (Frame.insert c).counted := by simp [Frame.counted, hp]
    have hstate : (T.control c.timer).state = _ := hW.state
    simp only [hp, reduceCtorEq, false_or] at hstate
    simp only [insertStep, hstate]
    cases hr : c.removed with
    | true =>
      exact .abandon hcount hr rfl
    | false =>
      simp only [Bool.false_eq_true, ↓reduceIte, ne_eq, not_true_eq_false]
      split
      · exact .again hcount
      · next hsync =>
        rcases hplace with h | h | ⟨a, rfl, ha, heq⟩
        · rw [hr] at h; cases h
        · exact absurd h hsync
        · obtain ⟨l1, l2, hc, hnext, hdue⟩ := hG.on.split_mem ha
          rw [hnext]
          refine search_advanced hG hW hc hcount hcb hbc (hdue ▸ heq) (fun hpos => ?_) (Or.inl hr)
          have := hpos a ha
          omega
  | done => exact absurd hp hW.done

section Advance

variable {rest : List (Frame H α)}

theorem Sound.below_call {c0} (hS : Sound M ch) (hf : M.frames = .insert c :: rest)
    (hc : .insert c0 ∈ rest) :
    .insert c0 ∈ M.frames ∧ c0.level < c.level ∧ c0.timer ≠ c.timer := by
  have hst := hS.stacked
  rw [hf] at hst
  refine ⟨by rw [hf]; exact List.mem_cons_of_mem _ hc,
    (List.pairwise_cons.mp hst.levels).1 _ hc (by simp [Frame.timer]), fun h => ?_⟩
  exact (List.pairwise_cons.mp hst.timers).1 _ hc c.timer rfl (by simp [Frame.timer, h])

theorem Sound.retop {c'} (hS : Sound M ch) (hf : M.frames = .insert c :: rest)
    (hlv : c'.level = c.level) (ht : c'.timer = c.timer) (hG : Good T' ch)
    (hd : T'.delta = M.timers.delta) (hi : T'.initial = M.timers.initial)
    (hst : ∀ v, v ≠ c.timer → T'.state v = M.timers.state v)
    (hn : T'.isrNestLevel = M.timers.isrNestLevel)
    (hcount : T'.syncCount = (Frame.insert c' :: rest).countP Frame.counted)
    (hsync : c.level ≤ T'.syncLevel ∨ T'.syncLevel = M.timers.syncLevel)
    (hW : Waiting T' ch M.clock c') :
    Sound { M with timers := T', frames := .insert c' :: rest } ch := by
  have hD : Disturbed M.timers T' ch ch M.clock M.clock c.level :=
    ⟨fun _ => Nat.le_refl _, fun _ => hsync.imp id fun h => ⟨h, fun k a ha => ⟨ha, by rw [hd]⟩⟩⟩
  refine ⟨hG, ?_, ?_, hS.unlinked, fun k hk => ?_, ?_, hcount, ?_, fun hc => ?_⟩
  · simp only [hd]; exact hS.due_lt
  · simp only [hd]; exact hS.expiry
  · simp only [hd]
    refine hS.fresh k fun f hfm => ?_
    rw [hf] at hfm
    rcases List.mem_cons.mp hfm with rfl | hfm
    · simp [Frame.ticks]
    · exact hk f (List.mem_cons_of_mem _ hfm)
  · intro f hfm
    cases hfm
    rw [hn, ← hS.nest (.insert c) (by rw [hf]; rfl)]
    exact hlv
  · have hst := hS.stacked
    rw [hf] at hst
    exact hst.replace hlv (congrArg some ht) rfl
  · rcases List.mem_cons.mp hc with hc | hc
    · exact Frame.insert.inj hc ▸ hW
    · obtain ⟨hm, hl, hne⟩ := hS.below_call hf hc
      exact hS.suspended hm hl hD (hst _ hne) (congrFun hi _)

theorem Sound.return_call {expiry} (hS : Sound M ch)
    (hf : M.frames = .insert c :: rest) (hp : (Frame.insert c).counted) (hG : Good T' ch')
    (hlt : ∀ k, ∀ v ∈ ch' k, due T'.delta (ch' k) v < 2 ^ 32)
    (hexp : ∀ k, ∀ v ∈ ch' k, expiry v = some (k, due T'.delta (ch' k) v + M.clock k))
    (hun : ∀ v, (∀ k, v ∉ ch' k) → expiry v = none)
    (hfresh : ∀ k, (∀ v ∈ ch k, 0 < due M.timers.delta (ch k) v) →
      ∀ v ∈ ch' k, 0 < due T'.delta (ch' k) v)
    (hi : T'.initial = M.timers.initial) (hst : ∀ v, v ≠ c.timer → T'.state v = M.timers.state v)
    (hn : T'.isrNestLevel = M.timers.isrNestLevel) (hcount : T'.syncCount = M.timers.syncCount - 1)
    (hsync : T'.syncLevel = c.level) :
    Sound { M with timers := T', frames := rest, expiry := expiry } ch' := by
  have hstk := hS.stacked
  rw [hf] at hstk
  have hD : Disturbed M.timers T' ch ch' M.clock M.clock c.level :=
    ⟨fun _ => Nat.le_refl _, fun _ => Or.inl (Nat.le_of_eq hsync.symm)⟩
  refine ⟨hG, hlt, hexp, hun, fun k hk => hfresh k (hS.fresh k fun f hfm => ?_), ?_, ?_, hstk.pop,
    fun hc => ?_⟩
  · rw [hf] at hfm
    rcases List.mem_cons.mp hfm with rfl | hfm
    · simp [Frame.ticks]
    · exact hk f hfm
  · have hl : c.level = _ := hS.nest (.insert c) (by rw [hf]; rfl)
    intro f hfm
    rw [hn, ← hl]
    exact hstk.caller (Or.inl (by simp [Frame.timer])) f hfm
  · simp only [hcount, hS.count, hf, List.countP_cons_of_pos hp, Nat.add_sub_cancel]
  · obtain ⟨hm, hl, hne⟩ := hS.below_call hf hc
    exact hS.suspended hm hl hD (hst _ hne) (congrFun hi _)

omit [DecidableEq H] in
theorem Good.setState {s w} (hG : Good T ch) (hw : ∀ k, w ∉ ch k)
    (hs : s = .inactive ∨ s = .beingInserted) : Good (T.setState w s) ch := by
  refine ⟨hG.on, fun v => ?_, fun a => by rw [Timers.delta_setState]; exact hG.delta_lt a⟩
  by_cases hv : v = w
  · subst hv
    rcases hs with rfl | rfl <;> simpa using hw
  · simpa [hv] using hG.linked_iff v

theorem Sound.link {u d began l1 l2} (hS : Sound M ch)
    (hf : M.frames = .insert c :: rest) (hp : (Frame.insert c).counted) (hb : began ≤ M.clock c.header)
    (hplace : Place M.timers.delta (ch c.header) u d l1 l2)
    (hL : LinkedIn M.timers T' ch c.header c.timer d c.level l1 l2)
    (hu : u + M.clock c.header = M.timers.initial c.timer + began)
    (hpos : (∀ v ∈ ch c.header, 0 < due M.timers.delta (ch c.header) v) → 0 < u) :
    Sound { M with
      timers := T'
      frames := rest
      expiry := update M.expiry c.timer
        (some (c.header, (T'.control c.timer).initial + began)) }
      (update ch c.header (l1 ++ c.timer :: l2)) := by
  have hW := hS.calls (c := c) (by rw [hf]; simp)
  have hoff := hW.off hS.good
  have hult : u < 2 ^ 32 := by have := hW.interval.2; omega
  have hE := hL.toEntered
  have hne : ∀ {k v}, v ∈ ch k → v ≠ c.timer := fun hv => by rintro rfl; exact hoff _ hv
  have hdue : ∀ {k v}, v ∈ ch k → due T'.delta (update ch c.header (l1 ++ c.timer :: l2) k) v =
      due M.timers.delta (ch k) v := fun hv => hE.due_eq hS.good hplace hoff hv
  have hself : due T'.delta (update ch c.header (l1 ++ c.timer :: l2) c.header) c.timer = u := by
    rw [update_self]
    exact hE.due_self hS.good hplace hoff
  refine hS.return_call hf hp (hE.good hS.good hplace hoff hult) (fun k v hv => ?_) (fun k v hv => ?_)
    (fun v hv => ?_) (fun k hfr v hv => ?_) hL.initial (fun v hv => by simp [hL.state, hv]) hL.nest
    hL.count hL.level
  · rcases (entered_mem hplace.split).mp hv with hv | ⟨rfl, rfl⟩
    · rw [hdue hv]; exact hS.due_lt k v hv
    · rw [hself]; exact hult
  · rcases (entered_mem hplace.split).mp hv with hv | ⟨rfl, rfl⟩
    · rw [hdue hv, update_of_ne (hne hv)]; exact hS.expiry k v hv
    · have hi : (T'.control c.timer).initial = M.timers.initial c.timer := congrFun hL.initial _
      rw [hself, update_self, hi, hu]
  · have hvc : v ≠ c.timer := by
      rintro rfl
      exact hv c.header ((entered_mem hplace.split).mpr (Or.inr ⟨rfl, rfl⟩))
    rw [update_of_ne hvc]
    exact hS.unlinked v fun k hk => hv k ((entered_mem hplace.split).mpr (Or.inl hk))
  · rcases (entered_mem hplace.split).mp hv with hv | ⟨rfl, rfl⟩
    · rw [hdue hv]; exact hfr v hv
    · rw [hself]; exact hpos hfr

theorem Sound.advance (hS : Sound M ch) (hf : M.frames = .insert c :: rest) :
    ∃ ch', Sound (M.advance c rest) ch' := by
  have hW := hS.calls (c := c) (by rw [hf]; simp)
  have hoff := hW.off hS.good
  have hA := hW.advanced hS.good (M.began c) rfl
  have hnest : c.level = M.timers.isrNestLevel := hS.nest (.insert c) (by rw [hf]; rfl)
  have hcount := hS.count
  rw [hf] at hcount
  unfold Machine.advance
  generalize insertStep M.timers c.header c.timer c.point = r at hA ⊢
  obtain ⟨T', p⟩ := r
  cases hA with
  | enter hp hT =>
    subst hT
    refine ⟨ch, hS.retop hf rfl rfl (hS.good.setState hoff (Or.inr rfl)) (by simp) (by simp)
      (fun v hv => by simp [hv]) rfl ?_ (Or.inr rfl) ?_⟩
    · rw [List.countP_cons_of_neg (by simp [Frame.counted, hp])] at hcount
      exact hcount
    · have hr := hW.entry hp
      refine ⟨by simpa using hW.interval, hW.called_le, by simp [hr], by simp, ?_, by simp, by simp,
        by simp, by simp⟩
      simp [hnest]
  | count hp =>
    refine ⟨ch, hS.retop hf rfl rfl ⟨hS.good.on, hS.good.linked_iff, hS.good.delta_lt⟩ rfl rfl
      (fun _ _ => rfl) rfl ?_ (Or.inr rfl) ?_⟩
    · rw [List.countP_cons_of_neg (by simp [Frame.counted, hp])] at hcount
      rw [List.countP_cons_of_pos (by simp [Frame.counted]), ← hcount]
    · refine ⟨hW.interval, hW.called_le, ?_, by simp, by simp, ?_, by simp, by simp, by simp⟩
      · exact hW.state.trans (by simp [hp])
      · simp
  | load hp =>
    refine ⟨ch, hS.retop hf rfl rfl hS.good rfl rfl (fun _ _ => rfl) rfl ?_ (Or.inr rfl) ?_⟩
    · rw [List.countP_cons_of_pos (by simp [Frame.counted, hp])] at hcount
      rw [List.countP_cons_of_pos (by simp [Frame.counted]), ← hcount]
    · refine ⟨hW.interval, hW.called_le, ?_, by simp, by simp, by simp, ?_, by simp, by simp⟩
      · simpa [hp] using hW.state
      · intro l d hl
        simp only [InsertPoint.loaded.injEq] at hl
        exact ⟨hl.1.symm, hl.2.symm⟩
  | @walk d a hp hb hb' ha hd =>
    refine ⟨ch, hS.retop hf rfl rfl hS.good rfl rfl (fun _ _ => rfl) rfl ?_ (Or.inr rfl) ?_⟩
    · rw [List.countP_cons_of_pos hp] at hcount
      rw [List.countP_cons_of_pos (by simp [Frame.counted]), ← hcount]
    · have hpe : c.point ≠ .entry := by intro h; simp [Frame.counted, h] at hp
      refine ⟨hW.interval, hW.called_le, ?_, by simp, by simp, by simp, by simp, ?_, by simp⟩
      · simpa [hpe] using hW.state
      · intro l d' n hl
        obtain ⟨rfl, rfl, rfl⟩ := hl
        exact ⟨rfl, hb, hb', Or.inr (Or.inr ⟨a, rfl, ha, hd⟩)⟩
  | link hp _ hb' hplace hL hu hpos _ =>
    have hact : isActive T' c.timer = true := by
      have : (T'.control c.timer).state = _ := congrFun hL.state c.timer
      simpa [isActive] using this
    simp only [hact, ↓reduceIte]
    exact ⟨_, hS.link hf hp hb' hplace hL hu hpos⟩
  | again hp =>
    refine ⟨ch, hS.retop hf rfl rfl ⟨hS.good.on, hS.good.linked_iff, hS.good.delta_lt⟩ rfl rfl
      (fun _ _ => rfl) rfl ?_ (Or.inl (Nat.le_refl _)) ?_⟩
    · rw [List.countP_cons_of_pos hp] at hcount
      rw [List.countP_cons_of_pos (by simp [Frame.counted]), ← hcount]
    · have hpe : c.point ≠ .entry := by intro h; simp [Frame.counted, h] at hp
      refine ⟨hW.interval, hW.called_le, ?_, by simp, by simp, ?_, by simp, by simp, by simp⟩
      · exact hW.state.trans (by simp [hpe])
      · simp
  | abandon hp hr hT =>
    subst hT
    have hinact : ¬ isActive (exitInsert M.timers c.level).1 c.timer = true := by
      have : (M.timers.control c.timer).state = _ := hW.state
      simp [isActive, exitInsert, this, hr]
    refine ⟨ch, ?_⟩
    simp only [hinact, Bool.false_eq_true, ↓reduceIte]
    exact hS.return_call hf hp ⟨hS.good.on, hS.good.linked_iff, hS.good.delta_lt⟩ hS.due_lt hS.expiry
      hS.unlinked (fun _ h => h) rfl (fun _ _ => rfl) rfl rfl rfl

end Advance

end Rtems.Watchdog
