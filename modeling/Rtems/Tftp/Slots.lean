import Mathlib.Logic.Function.Basic
import Rtems.Library.Transition
import Rtems.Status

/-!
# The slots of the TFTP driver

`rtems_tftp_open` takes a slot of `tftpStreams` and a block for the stream. When a later call fails, it
releases a slot by its index.
-/

namespace Rtems.Tftp

open Function Transition Option

variable {H : Type*}

/-- How one request of `rtems_tftp_open` ends. -/
inductive Reply
  | unsent
  | data (acknowledged : Bool)
  | error
  | other
  deriving DecidableEq, Repr

/-- What `rtems_tftp_open` meets: `refused` is before the slots are searched, `binds` are the calls of
`bind` that fail. -/
structure Attempt (H : Type*) where
  refused : Option Status
  realloc : Bool
  malloc : Option H
  socket : Bool
  binds : Nat
  replies : List Reply

/-- With the number of slots `tftpStreams` has, the streams that are allocated, and `data0` and `data1`
of the open files. -/
structure Driver (H : Type*) where
  nStreams : Nat
  slots : Nat
  tftpStreams : Nat → Option H
  allocated : List H
  opened : List (Nat × H)

def openRetryLimit : Nat := 10

/-- The loop of requests; a failure comes with the slot that is released. -/
def request (minor s : Nat) : Nat → List Reply → Option (Option (Nat × Status))
  | _, [] => none
  | _, .data true :: _ => some none
  | _, .unsent :: _ | _, .data false :: _ => some (some (minor, .unsatisfied))
  | _, .error :: _ => some (some (s, .internalError))
  | retryCount, .other :: replies =>
    if retryCount + 1 ≥ openRetryLimit then some (some (minor, .unsatisfied))
    else request minor s (retryCount + 1) replies

/-- What follows once the stream has the slot `s`. -/
def Attempt.transfer (a : Attempt H) (minor s : Nat) : Option (Option (Nat × Status)) :=
  if ¬ a.socket then some (some (s, .tooMany))
  else if 10 ≤ a.binds then some (some (minor, .resourceInUse))
  else request minor s a.binds a.replies

/-- The first reply that ends the requests comes before the last retry, and releases no slot or `s`. -/
def Answered (retryCount : Nat) (replies : List Reply) : Prop :=
  (replies.take (openRetryLimit - retryCount)).find? (· ≠ .other) ∈ [some (.data true), some .error]

instance (retryCount : Nat) (replies : List Reply) : Decidable (Answered retryCount replies) :=
  inferInstanceAs (Decidable (_ ∈ _))

theorem request_slot {minor s retryCount replies r} (hc : retryCount < openRetryLimit)
    (h : request minor s retryCount replies = some r) :
    if Answered retryCount replies then ∀ f ∈ r, f.1 = s else ∃ sc, r = some (minor, sc) := by
  induction replies generalizing retryCount with
  | nil => cases h
  | cons reply replies ih =>
    obtain ⟨n, hn⟩ : ∃ n, openRetryLimit - retryCount = n + 1 := ⟨openRetryLimit - retryCount - 1, by omega⟩
    cases reply with
    | other =>
      have hA : Answered retryCount (.other :: replies) ↔ Answered (retryCount + 1) replies := by
        unfold Answered
        rw [hn, List.take_succ_cons, List.find?_cons_of_neg (by decide), ← Nat.sub_sub, hn, Nat.add_sub_cancel]
      simp only [hA]
      rw [request] at h
      split at h
      · cases h
        rw [if_neg (by simp [Answered, Nat.sub_eq_zero_of_le, *])]
        exact ⟨_, rfl⟩
      · exact ih (by omega) h
    | data acknowledged => cases acknowledged <;> cases h <;> simp [Answered, hn]
    | _ =>
      cases h
      simp [Answered, hn]

theorem Attempt.transfer_slot (a : Attempt H) {minor s r} (h : a.transfer minor s = some r) :
    if a.socket = false ∨ Answered a.binds a.replies then ∀ f ∈ r, f.1 = s else ∃ sc, r = some (minor, sc) := by
  unfold Attempt.transfer at h
  by_cases hs : a.socket = true
  · rw [if_neg (not_not_intro hs)] at h
    simp only [hs, Bool.true_eq_false, false_or]
    split at h
    · cases h
      rw [if_neg (by simp [Answered, openRetryLimit, Nat.sub_eq_zero_of_le, *])]
      exact ⟨_, rfl⟩
    · exact request_slot (Nat.lt_of_not_le ‹_›) h
  · rw [if_pos hs] at h
    cases h
    rw [if_pos (Or.inl (Bool.not_eq_true _ ▸ hs))]
    simp

namespace Driver

def initial (tftpStreams : Nat → Option H) : Driver H := ⟨0, 0, tftpStreams, [], []⟩

def freeSlot (d : Driver H) : Nat :=
  ((List.range d.nStreams).find? fun s => (d.tftpStreams s).isNone).getD d.nStreams

/-- The slots once `s` is one of them. -/
def grow (d : Driver H) (s : Nat) : Driver H :=
  if s = d.nStreams then { d with nStreams := d.nStreams + 1, slots := d.nStreams + 1 } else d

/-! ## Slots -/

structure Sound (d : Driver H) : Prop where
  slots : d.slots = d.nStreams
  slot : ∀ s tp, s < d.nStreams → (d.tftpStreams s = some tp ↔ (s, tp) ∈ d.opened)
  within : ∀ p ∈ d.opened, p.1 < d.nStreams

namespace Sound

variable {d : Driver H} (h : d.Sound)

include h

theorem freeSlot_spec : d.freeSlot ≤ d.nStreams ∧ ∀ tp, (d.freeSlot, tp) ∉ d.opened := by
  unfold freeSlot
  cases hf : (List.range d.nStreams).find? fun s => (d.tftpStreams s).isNone with
  | none => exact ⟨Nat.le_refl _, fun tp hm => Nat.lt_irrefl _ (h.within _ hm)⟩
  | some s =>
    have hs := List.mem_range.mp (List.mem_of_find?_eq_some hf)
    refine ⟨Nat.le_of_lt hs, fun tp hm => ?_⟩
    have hn := List.find?_some hf
    rw [(h.slot s tp hs).mpr hm] at hn
    cases hn

theorem grow_freeSlot : (d.grow d.freeSlot).slots = (d.grow d.freeSlot).nStreams ∧
    (d.grow d.freeSlot).nStreams = max d.nStreams (d.freeSlot + 1) := by
  have hn := h.freeSlot_spec.1
  unfold grow
  split
  · exact ⟨rfl, by dsimp only; omega⟩
  · exact ⟨h.slots, by omega⟩

/-- The slot that was found has a new word, and a file with it if that is a stream. -/
theorem take (o : Option H) {al} : Sound { d.grow d.freeSlot with
    tftpStreams := update d.tftpStreams d.freeSlot o, allocated := al
    opened := (o.map (d.freeSlot, ·)).toList ++ d.opened } := by
  obtain ⟨hn, hm⟩ := h.freeSlot_spec
  have hg := h.grow_freeSlot
  refine ⟨hg.1, fun s tp hs => ?_, fun p hp => ?_⟩ <;> simp only [hg.2] at *
  · by_cases he : s = d.freeSlot
    · rw [he, update_self]
      cases o <;> simp [hm, eq_comm]
    · rw [update_of_ne he, h.slot s tp (by omega)]
      cases o <;> simp [he]
  · rcases List.mem_append.mp hp with hp | hp
    · cases o <;> simp at hp
      rw [hp]
      omega
    · have := h.within p hp
      omega

end Sound

/-! ## Calls -/

variable [DecidableEq H]

def releaseStream (d : Driver H) (s : Nat) : Driver H :=
  { d with
    tftpStreams := update d.tftpStreams s none
    allocated := (d.tftpStreams s).elim d.allocated d.allocated.erase }

/-- `rtems_tftp_open`; `none` when there are too few replies. -/
def openStream (d : Driver H) (minor : Nat) (a : Attempt H) : Option (Driver H × Status) :=
  match a.refused with
  | some sc => some (d, sc)
  | none =>
    let s := d.freeSlot
    if s = d.nStreams ∧ ¬ a.realloc then some ({ d with nStreams := d.nStreams + 1 }, .noMemory)
    else
      let d := { d.grow s with tftpStreams := update d.tftpStreams s a.malloc }
      match a.malloc with
      | none => some (d, .noMemory)
      | some tp =>
        let d := { d with allocated := tp :: d.allocated }
        (a.transfer minor s).map fun r =>
          r.elim ({ d with opened := (s, tp) :: d.opened }, .successful) fun f => (d.releaseStream f.1, f.2)

/-- `rtems_tftp_close`. -/
def close (d : Driver H) (iop : Nat × H) : Driver H :=
  { d.releaseStream iop.1 with opened := d.opened.filter (· ≠ iop) }

inductive Call (H : Type*)
  | openStream (minor : Nat) (a : Attempt H)
  | close (iop : Nat × H)

def step (d : Driver H) : Call H → Option (Driver H)
  | .openStream minor a => (d.openStream minor a).map Prod.fst
  | .close iop => if iop ∈ d.opened then some (d.close iop) else none

/-- `realloc` succeeds, and the slot of the minor number is released only if it is the one that was taken. -/
def Fair (d : Driver H) : Call H → Prop
  | .openStream minor a => a.refused = none → (d.freeSlot = d.nStreams → a.realloc = true) ∧
      (minor = d.freeSlot ∨ a.malloc = none ∨ a.socket = false ∨ Answered a.binds a.replies)
  | .close _ => True

instance (d : Driver H) : ∀ c, Decidable (d.Fair c)
  | .openStream .. => inferInstanceAs (Decidable (_ → _))
  | .close _ => inferInstanceAs (Decidable True)

variable {d d' : Driver H}

namespace Sound

variable (h : d.Sound)

include h

theorem openStream {minor a sc} (hf : d.Fair (.openStream minor a))
    (he : d.openStream minor a = some (d', sc)) :
    d'.Sound ∧ (sc ≠ .successful → d'.allocated = d.allocated ∧ d'.opened = d.opened) := by
  have ho : (d.grow d.freeSlot).opened = d.opened ∧ (d.grow d.freeSlot).allocated = d.allocated := by
    unfold grow
    split <;> exact ⟨rfl, rfl⟩
  unfold Driver.openStream at he
  split at he
  · cases he
    exact ⟨h, fun _ => ⟨rfl, rfl⟩⟩
  · dsimp only at he
    obtain ⟨hR, hM⟩ := hf ‹_›
    rw [if_neg fun hn => hn.2 (hR hn.1)] at he
    cases hm : a.malloc with
    | none =>
      simp only [hm, ho, some.injEq, Prod.mk.injEq] at he
      obtain ⟨rfl, -⟩ := he
      exact ⟨h.take none, fun _ => ⟨rfl, rfl⟩⟩
    | some tp =>
      simp only [hm, ho, map_eq_some_iff] at he
      obtain ⟨r, hr, he⟩ := he
      cases r with
      | none =>
        cases he
        exact ⟨h.take (some tp), fun hsc => absurd rfl hsc⟩
      | some f =>
        cases he
        have hs := a.transfer_slot hr
        have hs : f.1 = d.freeSlot := by
          rw [hm] at hM
          split at hs
          · exact hs f rfl
          · obtain ⟨sc, hs⟩ := hs
            cases hs
            exact (hM.resolve_right fun hM => ‹¬ _› (hM.resolve_left (Option.some_ne_none tp)))
        rw [hs]
        simp only [releaseStream, update_self, update_idem, elim_some, List.erase_cons_head]
        exact ⟨h.take none, fun _ => ⟨trivial, trivial⟩⟩

/-- Else there is a slot too many, or the stream keeps its slot without a file. -/
theorem not_fair {minor a sc} (hf : ¬ d.Fair (.openStream minor a)) (he : d.openStream minor a = some (d', sc)) :
    d'.slots < d'.nStreams ∨ ∃ s tp, s < d'.slots ∧ d'.tftpStreams s = some tp ∧ (s, tp) ∉ d'.opened := by
  obtain ⟨hn, hf⟩ := Classical.not_imp.mp hf
  simp only [Driver.openStream, hn] at he
  by_cases hR : d.freeSlot = d.nStreams ∧ ¬ a.realloc
  · rw [if_pos hR] at he
    cases he
    exact Or.inl (Nat.lt_succ_of_le (Nat.le_of_eq h.slots))
  · simp only [not_and, not_or] at hf
    obtain ⟨hne, hm, hs, hA⟩ := hf (by simpa using hR)
    rw [if_neg hR] at he
    obtain ⟨tp, hm⟩ := Option.ne_none_iff_exists'.mp hm
    simp only [hm, map_eq_some_iff] at he
    obtain ⟨r, hr, he⟩ := he
    have hr := a.transfer_slot hr
    rw [if_neg (not_or.mpr ⟨hs, hA⟩)] at hr
    obtain ⟨sc', rfl⟩ := hr
    cases he
    refine Or.inr ⟨d.freeSlot, tp, ?_, ?_, ?_⟩
    · change d.freeSlot < (d.grow d.freeSlot).slots
      rw [h.grow_freeSlot.1, h.grow_freeSlot.2]
      omega
    · simp only [releaseStream, update_of_ne (Ne.symm hne), update_self]
    · have := h.freeSlot_spec.2 tp
      simp only [releaseStream, grow]
      split <;> exact this

theorem close {iop : Nat × H} (hm : iop ∈ d.opened) : (d.close iop).Sound := by
  refine ⟨h.slots, fun s tp hs => ?_, fun p hp => h.within p (List.mem_filter.mp hp).1⟩
  simp only [Driver.close, releaseStream, List.mem_filter, decide_eq_true_iff, ← h.slot s tp hs]
  by_cases he : s = iop.1
  · subst he
    rw [update_self, (h.slot _ _ hs).mpr hm]
    refine iff_of_false (fun hn => by cases hn) fun ht => ht.2 ?_
    rw [← some.inj ht.1]
  · rw [update_of_ne he]
    exact (and_iff_left fun hs => he (congrArg Prod.fst hs)).symm

end Sound

/-! ## Runs -/

/-- Slots are for the open streams, and an open that fails frees what it allocated. -/
theorem slots_opened (tftpStreams : Nat → Option H) (h : Steps step Fair (initial tftpStreams) d) :
    d.nStreams ≤ d.slots ∧ (∀ s tp, s < d.slots → (d.tftpStreams s = some tp ↔ (s, tp) ∈ d.opened)) ∧
      ∀ minor a d' sc, d.openStream minor a = some (d', sc) →
        if d.Fair (.openStream minor a) then sc ≠ .successful → d'.allocated = d.allocated ∧ d'.opened = d.opened
        else d'.slots < d'.nStreams ∨
          ∃ s tp, s < d'.slots ∧ d'.tftpStreams s = some tp ∧ (s, tp) ∉ d'.opened := by
  have hd : d.Sound := by
    refine h.invariant (I := Sound) (fun {d c d'} hd hf he => ?_) ⟨rfl, fun s _ hs => ?_, fun _ hp => ?_⟩
    · cases c with
      | openStream minor a =>
        obtain ⟨r, hr, rfl⟩ := map_eq_some_iff.mp he
        exact (hd.openStream hf hr).1
      | close iop =>
        obtain ⟨hm, rfl⟩ := ite_some_none_eq_some.mp he
        exact hd.close hm
    · exact absurd hs (Nat.not_lt_zero s)
    · cases hp
  refine ⟨Nat.le_of_eq hd.slots.symm, hd.slots ▸ hd.slot, fun minor a d' sc he => ?_⟩
  split
  · exact (hd.openStream ‹_› he).2
  · exact hd.not_fair ‹_› he

def served (tp : Nat) : Attempt Nat := ⟨none, true, some tp, true, 0, [.other, .data true]⟩

def unbound (tp : Nat) : Attempt Nat := ⟨none, true, some tp, true, 10, []⟩

theorem slots_opened_third :
    ∃ d, run (checked step Fair) [.openStream 0 (served 1), .openStream 1 (unbound 2),
        .openStream 0 (served 3), .close (0, 1)] (initial fun _ => none) = some d ∧
      d.opened = [(1, 3)] ∧ d.nStreams ≤ d.slots :=
  exists_of_map opened [(1, 3)] (by decide) fun _ hd ho =>
    ⟨ho, (slots_opened _ (Steps.refl.run_checked hd)).1⟩

/-- A failed `realloc` is counted, and an open that fails releases the stream in the slot of its minor
number. -/
theorem openStream_leaks :
    (∃ d, (initial fun _ => none).openStream 0 { served 1 with realloc := false } = some (d, .noMemory) ∧
      d.slots < d.nStreams) ∧
    ∃ d d', run step [.openStream 0 (served 1)] (initial fun _ => none) = some d ∧
      d.openStream 0 (unbound 2) = some (d', .resourceInUse) ∧
      d'.opened = [(0, 1)] ∧ d'.tftpStreams 0 = none ∧ d'.tftpStreams 1 = some 2 ∧ d'.allocated = [2] :=
  ⟨⟨_, rfl, by decide⟩, _, _, rfl, rfl, by decide, by decide, by decide, by decide⟩

end Driver

end Rtems.Tftp
