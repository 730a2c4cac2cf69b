import Rtems.Library.Ring
import Rtems.Library.Transition

/-!
# Output of a terminal that uses interrupts

The steps of a writer are cut where interrupts are enabled.
-/

namespace Rtems.Termios

open Function Transition Option

def rawOutputBufferSize : Nat := 64

/-- `rob_idle`, `rob_busy` and `rob_wait`. -/
inductive RawOutBufState
  | idle
  | busy
  | wait
  deriving DecidableEq, Repr

structure Tty where
  rawOutBuf : Nat → UInt8
  rawOutBufHead : Nat
  rawOutBufTail : Nat
  rawOutBufState : RawOutBufState
  rawOutBufSemaphore : Nat

structure Device where
  buf : Nat
  len : Nat
  deriving DecidableEq, Repr

inductive Call
  | osend (c : UInt8) (buf : List UInt8) (newHead : Nat)
  | drainOutput
  deriving DecidableEq, Repr

inductive Writer
  | away
  | sending (buf : List UInt8) (newHead : Nat)
  | testing (c : Call)
  | obtaining (c : Call)
  | blocked (c : Call)
  deriving DecidableEq, Repr

structure Terminal where
  tty : Tty
  device : Device
  writer : Writer
  given : List UInt8
  acknowledged : List UInt8

namespace Terminal

/-- After `rtems_termios_open`. -/
def opened : Terminal where
  tty := ⟨fun _ => 0, 0, 0, .idle, 0⟩
  device := ⟨0, 0⟩
  writer := .away
  given := []
  acknowledged := []

variable (s : Terminal)

def setState (r : RawOutBufState) : Terminal := { s with tty.rawOutBufState := r }

def setWriter (w : Writer) : Terminal := { s with writer := w }

def write (buf len : Nat) : Terminal := { s with device := ⟨buf, len⟩ }

def put (c : UInt8) (newHead : Nat) : Terminal :=
  let s := { s with
    tty.rawOutBuf := update s.tty.rawOutBuf s.tty.rawOutBufHead c
    tty.rawOutBufHead := newHead }
  if s.tty.rawOutBufState = .idle then (s.write s.tty.rawOutBufTail 1).setState .busy else s

def send (buf : List UInt8) (newHead : Nat) : Terminal :=
  match buf with
  | [] => s.setWriter .away
  | c :: buf => s.setWriter (.testing (.osend c buf ((newHead + 1) % rawOutputBufferSize)))

def test : Call → Terminal
  | .osend c buf newHead =>
    if newHead = s.tty.rawOutBufTail then
      (s.setState .wait).setWriter (.obtaining (.osend c buf newHead))
    else (s.put c newHead).setWriter (.sending buf newHead)
  | .drainOutput =>
    if s.tty.rawOutBufTail ≠ s.tty.rawOutBufHead then
      (s.setState .wait).setWriter (.obtaining .drainOutput)
    else s.setWriter .away

def obtain (c : Call) : Terminal :=
  if s.tty.rawOutBufSemaphore = 0 then s.setWriter (.blocked c)
  else
    { s with
      tty.rawOutBufSemaphore := s.tty.rawOutBufSemaphore - 1
      writer := .testing c }

def release : Terminal :=
  match s.writer with
  | .blocked c => s.setWriter (.testing c)
  | _ => { s with tty.rawOutBufSemaphore := s.tty.rawOutBufSemaphore + 1 }

def startTransmitter (len : Nat) : Terminal × Nat :=
  if s.tty.rawOutBufHead = s.tty.rawOutBufTail then (s, 0)
  else
    let newTail := (s.tty.rawOutBufTail + len) % rawOutputBufferSize
    if newTail = s.tty.rawOutBufHead then
      let s := s.setState .idle
      ({ s with tty.rawOutBufTail := newTail }, 0)
    else
      let nToSend :=
        if newTail > s.tty.rawOutBufHead then rawOutputBufferSize - newTail
        else s.tty.rawOutBufHead - newTail
      let s := (s.write newTail nToSend).setState .busy
      ({ s with tty.rawOutBufTail := newTail }, nToSend)

/-- `rtems_termios_dequeue_characters`, with the number sent next. -/
def dequeueCharacters (len : Nat) : Terminal × Nat :=
  let s := if s.tty.rawOutBufState = .wait then s.release else s
  s.startTransmitter len

def acknowledge (len : Nat) : Terminal :=
  { s with
    acknowledged := s.acknowledged ++ (List.range len).map fun i => s.tty.rawOutBuf (s.device.buf + i)
    device := ⟨s.device.buf + len, s.device.len - len⟩ }

def transmit (len : Nat) : Terminal := ((s.acknowledge len).dequeueCharacters len).1

end Terminal

inductive Move
  | osend (buf : List UInt8)
  | drainOutput
  | advance
  | transmit (len : Nat)
  deriving DecidableEq, Repr

def Terminal.step (s : Terminal) : Move → Option Terminal
  | .osend buf =>
    if s.writer = .away then
      some { s with writer := .sending buf s.tty.rawOutBufHead, given := s.given ++ buf }
    else none
  | .drainOutput => if s.writer = .away then some (s.setWriter (.testing .drainOutput)) else none
  | .advance =>
    match s.writer with
    | .away => none
    | .sending buf newHead => some (s.send buf newHead)
    | .testing c => some (s.test c)
    | .obtaining c => some (s.obtain c)
    | .blocked _ => none
  | .transmit len => if 1 ≤ len ∧ len ≤ s.device.len then some (s.transmit len) else none

/-! ## The ring and the device -/

def Call.rest : Call → List UInt8
  | .osend c buf _ => c :: buf
  | .drainOutput => []

def Writer.rest : Writer → List UInt8
  | .away => []
  | .sending buf _ => buf
  | .testing c | .obtaining c | .blocked c => c.rest

def Call.Follows (head : Nat) : Call → Prop
  | .osend _ _ newHead => newHead = (head + 1) % rawOutputBufferSize
  | .drainOutput => True

def Writer.Follows (head : Nat) : Writer → Prop
  | .away => True
  | .sending _ newHead => newHead = head
  | .testing c | .obtaining c | .blocked c => c.Follows head

namespace Terminal

def ring (s : Terminal) : List UInt8 :=
  Ring.contents rawOutputBufferSize s.tty.rawOutBuf s.tty.rawOutBufTail s.tty.rawOutBufHead

structure Buffered (s : Terminal) : Prop where
  head : s.tty.rawOutBufHead < rawOutputBufferSize
  tail : s.tty.rawOutBufTail < rawOutputBufferSize
  given : s.acknowledged ++ s.ring ++ s.writer.rest = s.given
  follows : s.writer.Follows s.tty.rawOutBufHead
  idle : s.tty.rawOutBufState = .idle ↔ s.tty.rawOutBufTail = s.tty.rawOutBufHead
  sent : s.device.len ≤ Ring.stretch rawOutputBufferSize s.tty.rawOutBufTail s.tty.rawOutBufHead
  busy : s.tty.rawOutBufTail ≠ s.tty.rawOutBufHead → s.device.buf = s.tty.rawOutBufTail ∧ 0 < s.device.len

def Signalled (s : Terminal) : Prop :=
  match s.writer with
  | .obtaining _ =>
    s.tty.rawOutBufState = .wait ∧ s.tty.rawOutBufSemaphore = 0 ∨
      s.tty.rawOutBufState ≠ .wait ∧ s.tty.rawOutBufSemaphore = 1
  | .blocked _ => s.tty.rawOutBufState = .wait ∧ s.tty.rawOutBufSemaphore = 0
  | _ => s.tty.rawOutBufState ≠ .wait ∧ s.tty.rawOutBufSemaphore = 0

variable {s s' : Terminal} {buf : List UInt8} {newHead len : Nat} {c : UInt8}

theorem opened_buffered : opened.Buffered where
  head := by decide
  tail := by decide
  given := by decide
  follows := trivial
  idle := by decide
  sent := by decide
  busy := by decide

theorem Buffered.move (h : s.Buffered) {w r n}
    (hw : w.rest = s.writer.rest) (hf : w.Follows s.tty.rawOutBufHead)
    (hr : r = .idle ↔ s.tty.rawOutBufState = .idle) :
    Buffered { s with
      writer := w
      tty.rawOutBufState := r
      tty.rawOutBufSemaphore := n } := by
  refine ⟨h.head, h.tail, ?_, hf, hr.trans h.idle, h.sent, h.busy⟩
  rw [← h.given, ← hw]
  rfl

theorem Buffered.put (h : s.Buffered) (hw : s.writer = .testing (.osend c buf newHead))
    (hn : newHead ≠ s.tty.rawOutBufTail) :
    ((s.put c newHead).setWriter (.sending buf newHead)).Buffered := by
  have hf : newHead = (s.tty.rawOutBufHead + 1) % rawOutputBufferSize := by
    have := h.follows
    rwa [hw] at this
  subst hf
  have hg := h.given
  rw [hw] at hg
  have hp : Ring.contents rawOutputBufferSize (update s.tty.rawOutBuf s.tty.rawOutBufHead c)
      s.tty.rawOutBufTail ((s.tty.rawOutBufHead + 1) % rawOutputBufferSize) = ring s ++ [c] :=
    Ring.contents_push h.tail h.head hn
  have hs := Ring.stretch_push h.tail h.head hn
  have hlt : (s.tty.rawOutBufHead + 1) % rawOutputBufferSize < rawOutputBufferSize :=
    Nat.mod_lt _ (by decide)
  have hg' : s.acknowledged ++ Ring.contents rawOutputBufferSize
      (update s.tty.rawOutBuf s.tty.rawOutBufHead c) s.tty.rawOutBufTail
      ((s.tty.rawOutBufHead + 1) % rawOutputBufferSize) ++ buf = s.given := by
    rw [hp, ← hg]
    simp [ring, Writer.rest, Call.rest]
  simp only [Terminal.put]
  split <;> rename_i hi
  · -- the device was idle: it is told to send this character
    exact ⟨hlt, h.tail, hg', rfl, iff_of_false (by simp [setWriter, setState]) hn.symm,
      Ring.stretch_pos h.tail hn.symm, fun _ => ⟨rfl, Nat.one_pos⟩⟩
  · exact ⟨hlt, h.tail, hg', rfl, iff_of_false hi hn.symm, Nat.le_trans h.sent hs,
      fun _ => h.busy fun he => hi (h.idle.mpr he)⟩

theorem Buffered.startTransmitter (h : s.Buffered) (hl : 1 ≤ len) (hd : len ≤ s.device.len) {w n} (hw : w.rest = s.writer.rest) (hf : w.Follows s.tty.rawOutBufHead) :
    Buffered (Terminal.startTransmitter
      { s.acknowledge len with
        writer := w
        tty.rawOutBufSemaphore := n } len).1 := by
  obtain ⟨hsn, hsl⟩ := Ring.stretch_le h.tail h.head
  have hlen := Nat.le_trans (Nat.le_trans hd h.sent) hsl
  have hne : s.tty.rawOutBufTail ≠ s.tty.rawOutBufHead := by
    intro he
    have := (Ring.length_eq_zero h.tail h.head).mpr he
    omega
  obtain ⟨hb, -⟩ := h.busy hne
  have hlt : (s.tty.rawOutBufTail + len) % rawOutputBufferSize < rawOutputBufferSize :=
    Nat.mod_lt _ (by decide)
  have hg : (s.acknowledge len).acknowledged ++ Ring.contents rawOutputBufferSize s.tty.rawOutBuf
      ((s.tty.rawOutBufTail + len) % rawOutputBufferSize) s.tty.rawOutBufHead ++ w.rest = s.given := by
    have hend : s.tty.rawOutBufTail + len ≤ rawOutputBufferSize := by
      have := h.sent
      omega
    have ht : (ring s).take len = (List.range len).map fun i => s.tty.rawOutBuf (s.tty.rawOutBufTail + i) :=
      Ring.contents_take hlen hend
    rw [Ring.contents_drop h.tail h.head hlen, Terminal.acknowledge, hb, ← ht, ← h.given, hw]
    simp only [ring, List.append_assoc]
    rw [← List.append_assoc (List.take ..), List.take_append_drop]
  simp only [Terminal.startTransmitter]
  rw [if_neg fun he => hne he.symm]
  split <;> rename_i hi
  · -- the ring is empty, so all characters of the last write are acknowledged
    have hz := Ring.length_drop h.tail h.head hlen
    refine ⟨h.head, hlt, hg, hf, iff_of_true rfl hi, ?_, fun he => absurd hi he⟩
    rw [(Ring.length_eq_zero hlt h.head).mpr hi] at hz
    have hs := h.sent
    show s.device.len - len ≤ _
    omega
  · exact ⟨h.head, hlt, hg, hf, iff_of_false (by simp [Terminal.setState]) hi, Nat.le_refl _,
      fun _ => ⟨rfl, Ring.stretch_pos hlt hi⟩⟩

theorem Buffered.transmit (h : s.Buffered) (hl : 1 ≤ len) (hd : len ≤ s.device.len) :
    (s.transmit len).Buffered := by
  simp only [Terminal.transmit, Terminal.dequeueCharacters]
  split
  · have hf := h.follows
    unfold release
    split <;> rename_i hw
    · have hw : s.writer = _ := hw
      rw [hw] at hf
      exact h.startTransmitter hl hd (by rw [hw]; rfl) hf
    · exact h.startTransmitter hl hd rfl hf
  · exact h.startTransmitter hl hd rfl h.follows

/-! ## The semaphore -/

theorem startTransmitter_keeps :
    (s.startTransmitter len).1.writer = s.writer ∧
      (s.startTransmitter len).1.tty.rawOutBufSemaphore = s.tty.rawOutBufSemaphore := by
  simp only [Terminal.startTransmitter]
  split
  · exact ⟨rfl, rfl⟩
  · split <;> exact ⟨rfl, rfl⟩

theorem state_startTransmitter (hs : s.tty.rawOutBufHead ≠ s.tty.rawOutBufTail) :
    (s.startTransmitter len).1.tty.rawOutBufState ≠ .wait := by
  simp only [Terminal.startTransmitter, if_neg hs]
  split <;> simp [setState]

def Released (s : Terminal) : Prop :=
  match s.writer with
  | .obtaining _ => 0 < s.tty.rawOutBufSemaphore
  | .blocked _ => False
  | _ => True

theorem transmit_keeps : (s.transmit len).writer = (if s.tty.rawOutBufState = .wait then s.release else s).writer ∧
    (s.transmit len).tty.rawOutBufSemaphore =
      (if s.tty.rawOutBufState = .wait then s.release else s).tty.rawOutBufSemaphore := by
  simp only [Terminal.transmit, Terminal.dequeueCharacters, startTransmitter_keeps]
  by_cases hr : s.tty.rawOutBufState = .wait
  · rw [if_pos hr, if_pos (show (s.acknowledge len).tty.rawOutBufState = .wait from hr)]
    cases hw : s.writer <;> simp [release, acknowledge, hw, setWriter]
  · rw [if_neg hr, if_neg (show ¬ (s.acknowledge len).tty.rawOutBufState = .wait from hr)]
    exact ⟨rfl, rfl⟩

theorem state_transmit (hs : s.tty.rawOutBufHead ≠ s.tty.rawOutBufTail) :
    (s.transmit len).tty.rawOutBufState ≠ .wait := by
  refine state_startTransmitter ?_
  split
  · unfold release
    split <;> exact hs
  · exact hs

theorem Signalled.transmit (h : s.Signalled) (hs : s.tty.rawOutBufHead ≠ s.tty.rawOutBufTail) :
    (s.transmit len).Signalled ∧ (s.transmit len).Released := by
  have hr : (s.transmit len).tty.rawOutBufState ≠ .wait := state_transmit hs
  obtain ⟨hw', hn'⟩ := @transmit_keeps s len
  unfold Signalled at h
  unfold Signalled Released
  cases hw : s.writer with
  | blocked c =>
    rw [hw] at h
    simp only [h.1, if_true, release, hw, setWriter] at hw' hn'
    simp [hw', hn', hr, h.2]
  | obtaining c =>
    rw [hw] at h
    rcases h with ⟨ha, hb⟩ | ⟨ha, hb⟩
    · simp only [ha, if_true, release, hw] at hw' hn'
      simp [hw', hn', hr, hb]
    · rw [if_neg ha] at hw' hn'
      simp [hw', hw, hn', hr, hb]
  | away | sending | testing =>
    rw [hw] at h
    rw [if_neg h.1] at hw' hn'
    simp [hw', hw, hn', hr, h.2]

/-! ## Runs -/

structure Kept (s : Terminal) : Prop where
  buffered : s.Buffered
  signalled : s.Signalled

theorem Kept.await (h : s.Kept) {c} (hw : s.writer = .testing c)
    (hne : s.tty.rawOutBufTail ≠ s.tty.rawOutBufHead) : ((s.setState .wait).setWriter (.obtaining c)).Kept := by
  obtain ⟨hb, hs⟩ := h
  unfold Signalled at hs
  have hf := hb.follows
  rw [hw] at hs hf
  refine ⟨hb.move (by rw [hw]; rfl) hf (iff_of_false (by simp) fun hi => hne (hb.idle.mp hi)), ?_⟩
  exact Or.inl ⟨rfl, hs.2⟩

theorem Kept.test (h : s.Kept) {c} (hw : s.writer = .testing c) : (s.test c).Kept := by
  have hs := h.signalled
  have hf := h.buffered.follows
  unfold Signalled at hs
  rw [hw] at hs hf
  cases c with
  | osend c buf newHead =>
    have hf : newHead = (s.tty.rawOutBufHead + 1) % rawOutputBufferSize := hf
    simp only [Terminal.test]
    split <;> rename_i hn
    · refine h.await hw fun he => ?_
      unfold rawOutputBufferSize at hf
      omega
    · refine ⟨h.buffered.put hw hn, ?_, hs.2 ▸ ?_⟩
      · simp only [Terminal.put]
        split
        · simp [setWriter, setState]
        · exact hs.1
      · simp only [Terminal.put]
        split <;> rfl
  | drainOutput =>
    simp only [Terminal.test]
    split <;> rename_i hn
    · exact h.await hw hn
    · exact ⟨h.buffered.move (by rw [hw]; rfl) trivial Iff.rfl, hs⟩

theorem Kept.advance (h : s.Kept) (he : s.step .advance = some s') : s'.Kept := by
  have hs := h.signalled
  have hf := h.buffered.follows
  unfold Signalled at hs
  unfold step at he
  cases hw : s.writer with
  | away | blocked => simp [hw] at he
  | testing c =>
    simp only [hw, some.injEq] at he
    exact he ▸ h.test hw
  | sending buf newHead =>
    simp only [hw, some.injEq] at he
    rw [hw] at hs hf
    subst he
    cases buf with
    | nil => exact ⟨h.buffered.move (by rw [hw]; rfl) trivial Iff.rfl, hs⟩
    | cons c buf =>
      exact ⟨h.buffered.move (by rw [hw]; rfl) (by rw [hf]; rfl) Iff.rfl, hs⟩
  | obtaining c =>
    simp only [hw, some.injEq] at he
    rw [hw] at hs hf
    subst he
    unfold Terminal.obtain
    split <;> rename_i hn
    · refine ⟨h.buffered.move (by rw [hw]; rfl) hf Iff.rfl, ?_⟩
      rcases hs with hs | hs
      · exact hs
      · exact absurd (hs.2.symm.trans hn) Nat.one_ne_zero
    · refine ⟨h.buffered.move (by rw [hw]; rfl) hf Iff.rfl, ?_⟩
      rcases hs with hs | hs
      · exact absurd hs.2 hn
      · exact ⟨hs.1, by simp [hs.2]⟩

theorem Buffered.nonempty (h : s.Buffered) (hd : 0 < s.device.len) :
    s.tty.rawOutBufHead ≠ s.tty.rawOutBufTail := by
  intro he
  have hs := h.sent
  rw [he] at hs
  simp only [Ring.stretch, gt_iff_lt, Nat.lt_irrefl, if_false, Nat.sub_self] at hs
  omega

theorem Kept.step {m} (h : s.Kept) (he : s.step m = some s') : s'.Kept := by
  obtain ⟨hb, hs⟩ := h
  cases m with
  | advance => exact Kept.advance ⟨hb, hs⟩ he
  | transmit len =>
    obtain ⟨⟨hl, hd⟩, rfl⟩ := ite_some_none_eq_some.mp he
    exact ⟨hb.transmit hl hd, (hs.transmit (hb.nonempty (Nat.lt_of_lt_of_le hl hd))).1⟩
  | osend buf =>
    obtain ⟨hw, rfl⟩ := ite_some_none_eq_some.mp he
    unfold Signalled at hs
    rw [hw] at hs
    refine ⟨⟨hb.head, hb.tail, ?_, rfl, hb.idle, hb.sent, hb.busy⟩, hs⟩
    have hg := hb.given
    simp only [hw, Writer.rest, List.append_nil] at hg
    simp only [← hg]
    rfl
  | drainOutput =>
    obtain ⟨hw, rfl⟩ := ite_some_none_eq_some.mp he
    unfold Signalled at hs
    rw [hw] at hs
    exact ⟨hb.move (by rw [hw]; rfl) trivial Iff.rfl, hs⟩

theorem opened_kept : opened.Kept := ⟨opened_buffered, by simp [Signalled, opened]⟩

end Terminal

open Terminal

theorem output_transmitted {s : Terminal} (h : Steps Terminal.step (fun _ _ => True) opened s) :
    s.acknowledged <+: s.given ∧
    (s.tty.rawOutBufState = .idle ↔ s.tty.rawOutBufHead = s.tty.rawOutBufTail) ∧
    (∀ c, s.writer = .blocked c ∨ s.writer = .obtaining c ∧ s.tty.rawOutBufState = .wait →
      0 < s.device.len) ∧
    ∀ len s', s.step (.transmit len) = some s' → s'.Released := by
  obtain ⟨hb, hs⟩ : s.Kept := h.invariant (fun h _ he => h.step he) opened_kept
  refine ⟨⟨s.ring ++ s.writer.rest, ?_⟩, hb.idle.trans eq_comm, fun c hc => ?_, fun len s' he => ?_⟩
  · rw [← List.append_assoc]
    exact hb.given
  · have hr : s.tty.rawOutBufState = .wait := by
      unfold Signalled at hs
      rcases hc with hw | ⟨-, hr⟩
      · rw [hw] at hs
        exact hs.1
      · exact hr
    refine (hb.busy fun he => ?_).2
    rw [hb.idle.mpr he] at hr
    cases hr
  · obtain ⟨⟨hl, hd⟩, rfl⟩ := ite_some_none_eq_some.mp he
    exact (hs.transmit (hb.nonempty (Nat.lt_of_lt_of_le hl hd))).2

theorem output_transmitted_drained :
    ∃ s, run Terminal.step [.osend [104, 105], .advance, .advance, .advance, .advance, .advance,
        .drainOutput, .advance, .advance, .transmit 1, .advance, .advance] opened = some s ∧
      s.acknowledged = [104] ∧ s.writer = .blocked .drainOutput ∧ (s.transmit 1).Released := by
  refine exists_of_map (fun s => (s.acknowledged, s.writer, s.device.len)) ([104], .blocked .drainOutput, 1)
    (by decide +kernel) fun s hs he => ?_
  simp only [Prod.mk.injEq] at he
  obtain ⟨ha, hw, hd⟩ := he
  have hr := output_transmitted (.of_run (fun _ _ => trivial) hs)
  exact ⟨ha, hw, hr.2.2.2 1 _ (if_pos ⟨Nat.le_refl 1, hd.symm ▸ Nat.le_refl 1⟩)⟩

end Rtems.Termios
