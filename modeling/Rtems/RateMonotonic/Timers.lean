import Rtems.RateMonotonic.Model
import Rtems.Watchdog.Invariant

/-! # The timers of the periods -/

namespace Rtems.RateMonotonic

open Function Watchdog DeltaList

variable {P T : Type*} [DecidableEq P] {r : P → Option Nat} {W W' : Timers Unit P} {ch : Unit → List P}
  {p : P} {l : List P}

/-- `r` is what the timers have left on the chain of the ticks. -/
structure Timed (r : P → Option Nat) (W : Timers Unit P) (ch : Unit → List P) : Prop where
  good : Good W ch
  due_lt : ∀ k, ∀ q ∈ ch k, due W.delta (ch k) q < 2 ^ 32
  left : ∀ q, r q = if q ∈ ch () then some (due W.delta (ch ()) q) else none

namespace Timed

variable (h : Timed r W ch)

include h

theorem remove (p : P) : ∃ ch', Timed (update r p none) (Watchdog.remove W p).1 ch' ∧ ∀ k, p ∉ ch' k := by
  obtain ⟨ch', hD⟩ := h.good.drop (h.good.no_overflow h.due_lt)
  refine ⟨ch', ⟨hD.good, fun k q hq => ?_, fun q => ?_⟩, fun k => by simp [hD.mem_iff]⟩
  · obtain ⟨hm, hne⟩ := hD.mem_iff.mp hq
    exact hD.due_eq hm hne ▸ h.due_lt k q hm
  · by_cases hq : q = p
    · simp [hq, hD.mem_iff]
    · by_cases hm : q ∈ ch () <;> simp [hq, hm, h.left, hD.mem_iff, hD.due_eq]

theorem insert {u fuel} (hp : ∀ k, p ∉ ch k) (hu : u < 2 ^ 32)
    (he : Watchdog.insert W () p u fuel = some W') : ∃ ch', Timed (update r p (some u)) W' ch' := by
  obtain ⟨ch', hJ⟩ := h.good.join hp hu he
  refine ⟨ch', hJ.good, fun k q hq => ?_, fun q => ?_⟩
  · rcases hJ.mem_iff.mp hq with hm | ⟨rfl, rfl⟩
    · exact hJ.due_eq hm ▸ h.due_lt k q hm
    · exact hJ.due_self ▸ hu
  · by_cases hq : q = p
    · simp [hq, hJ.mem_iff, hJ.due_self]
    · by_cases hm : q ∈ ch () <;> simp [hq, hm, h.left, hJ.mem_iff, hJ.due_eq]

theorem tickleStart (h0 : ∀ q, r q ≠ some 0) : Timed (fun q => (r q).map (· - 1)) (tickleStart W ()).1 ch := by
  obtain ⟨W1, next, he, hT, -⟩ := h.good.tickleStart_spec (h := ()) fun q hq =>
    Nat.pos_of_ne_zero fun hz => h0 q (by rw [h.left, if_pos hq, hz])
  rw [he]
  refine ⟨hT.good, fun k q hq => ?_, fun q => ?_⟩
  · have hlt := h.due_lt () q hq
    rw [← hT.due_self hq] at hlt
    exact Nat.lt_of_succ_lt hlt
  · by_cases hq : q ∈ ch ()
    · simp [h.left, hq, ← hT.due_self hq]
    · simp [h.left, hq]

theorem tickleNext_cases : (∃ q, tickleNext W () = some q ∧ r q = some 0) ∨
    tickleNext W () = none ∧ ∀ q, r q ≠ some 0 := by
  rcases h.good.tickleNext_eq () with ⟨q, l, hc, hz, hn⟩ | ⟨hpos, hn⟩
  · exact Or.inl ⟨q, hn, by simp [h.left, hc, hz]⟩
  · refine Or.inr ⟨hn, fun q hq => ?_⟩
    by_cases hm : q ∈ ch ()
    · have := hpos q hm
      simp [h.left, hm] at hq
      omega
    · simp [h.left, hm] at hq

end Timed

/-! ## A tick -/

variable [DecidableEq T] {s s' : System P T}

def System.remaining (s : System P T) (p : P) : Option Nat := (s.period p).remaining

theorem Timed.idle : Timed (fun _ : P => none) .idle fun _ => [] := ⟨Good.idle, by simp, by simp⟩

theorem remaining_cancel (ho : s.owner p = s.executing) : (s.cancel p).remaining = update s.remaining p none := by
  rw [System.cancel, if_neg (not_not.mpr ho)]
  exact funext fun _ => apply_update (fun _ => Period.remaining) ..

theorem remaining_insert {n c} : (s.advance p (.insert n c)).remaining = update s.remaining p (some n) :=
  funext fun _ => apply_update (fun _ => Period.remaining) ..

/-- The loop of `_Watchdog_Tickle`, where `_Rate_monotonic_Timeout` serves the timers. -/
inductive Rounds : System P T → Timers Unit P → List P → System P T → Timers Unit P → Prop
  | done (s : System P T) {W : Timers Unit P} (hn : tickleNext W () = none) : Rounds s W [] s W
  | serve {s s' : System P T} {W W1 W' : Timers Unit P} {p : P} {l : List P} (hn : tickleNext W () = some p)
      (hr : (s.timeout p).remaining p = none ∧ W1 = (Watchdog.remove W p).1 ∨ ∃ n fuel,
        (s.timeout p).remaining p = some n ∧ Watchdog.insert (Watchdog.remove W p).1 () p n fuel = some W1)
      (h : Rounds (s.timeout p) W1 l s' W') : Rounds s W (p :: l) s' W'

theorem period_timeout : ∃ c, (s.timeout p).period = update s.period p c ∧ c.initial = (s.period p).initial ∧
    (c.remaining = none ∨ c.remaining = some (s.period p).initial) := by
  unfold System.timeout
  split
  · exact ⟨_, rfl, rfl, Or.inr rfl⟩
  · split
    · exact ⟨_, rfl, rfl, Or.inr rfl⟩
    · exact ⟨_, rfl, rfl, Or.inl rfl⟩

def System.Lengths (s : System P T) : Prop :=
  ∀ q, s.remaining q ≠ none → 0 < (s.period q).initial ∧ (s.period q).initial < 2 ^ 32

theorem Timed.rounds (hR : Rounds s W l s' W') (h : Timed s.remaining W ch) (hi : s.Lengths) :
    s' = l.foldl System.timeout s ∧ l.Nodup ∧ (∀ q, q ∈ l ↔ s.remaining q = some 0) ∧
      ∃ ch', Timed s'.remaining W' ch' := by
  induction hR generalizing ch with
  | done s hn =>
    obtain ⟨-, h0⟩ := h.tickleNext_cases.resolve_left fun ⟨_, h', _⟩ => by cases hn.symm.trans h'
    exact ⟨rfl, .nil, fun q => iff_of_false List.not_mem_nil (h0 q), ch, h⟩
  | @serve s s' W W1 W' p l hn hr _ ih =>
    obtain ⟨p', hn', hz⟩ := h.tickleNext_cases.resolve_right fun h' => by cases hn.symm.trans h'.1
    obtain rfl := Option.some.inj (hn.symm.trans hn')
    obtain ⟨c, hc, hci, hcr⟩ := period_timeout (s := s) (p := p)
    have hp := hi p (by simp [hz])
    have hrem : (s.timeout p).remaining = update s.remaining p c.remaining := by
      funext q
      by_cases hq : q = p <;> simp [System.remaining, hc, hq]
    have hi' : (s.timeout p).Lengths := fun q hq => by
      by_cases hqp : q = p
      · simpa [hc, hqp, hci] using hp
      · simp only [hrem, update_of_ne hqp] at hq
        simpa [hc, hqp] using hi q hq
    obtain ⟨ch1, h1, hoff⟩ := h.remove p
    have hT : ∃ ch', Timed (s.timeout p).remaining W1 ch' := by
      simp only [hrem, update_self] at hr ⊢
      rcases hr with ⟨hr, rfl⟩ | ⟨n, fuel, hr, he⟩
      · exact ⟨ch1, hr ▸ h1⟩
      · have hn : n < 2 ^ 32 := by
          rcases hcr with hcr | hcr
          · cases hcr.symm.trans hr
          · exact Option.some.inj (hcr.symm.trans hr) ▸ hp.2
        obtain ⟨ch2, h2⟩ := h1.insert hoff hn he
        exact ⟨ch2, by rwa [update_idem, ← hr] at h2⟩
    obtain ⟨ch2, h2⟩ := hT
    obtain ⟨he, hd, hl, hT'⟩ := ih h2 hi'
    -- a served period has nothing or its whole length left, so it is not served again
    have hpl : p ∉ l := by
      rw [hl, hrem, update_self]
      rcases hcr with hcr | hcr
      · simp [hcr]
      · simp [hcr, hp.1.ne']
    refine ⟨he, .cons hpl hd, fun q => ?_, hT'⟩
    by_cases hq : q = p
    · simp [hq, hz]
    · rw [List.mem_cons, or_iff_right hq, hl, hrem, update_of_ne hq]

/-- A tick of the timers is a tick of the periods. -/
theorem Timed.tick [Fintype P] (h : Timed s.remaining W ch) (hi : s.Lengths) (h0 : ∀ q, s.remaining q ≠ some 0)
    (hR : Rounds s.count (Watchdog.tickleStart W ()).1 l s' W') :
    s.step (.tick l) = some s' ∧ ∃ ch', Timed s'.remaining W' ch' := by
  have hi' : s.count.Lengths := fun q hq => hi q fun hn => hq (congrArg (Option.map (· - 1)) hn)
  obtain ⟨he, hd, hl, hT⟩ := Timed.rounds hR (h.tickleStart h0) hi'
  refine ⟨(if_pos ⟨hd, fun q => (hl q).trans ?_⟩).trans (congrArg some he.symm), hT⟩
  have := h0 q
  change (s.remaining q).map (· - 1) = some 0 ↔ s.remaining q = some 1
  cases hr : s.remaining q with
  | none => simp
  | some n =>
    rw [hr] at this
    simp at this ⊢
    omega

end Rtems.RateMonotonic
