import Rtems.Library.Ring
import Rtems.Library.Transition
import Rtems.Termios.Input

/-! # Reads of a terminal in canonical mode -/

namespace Rtems.Canonical

open Function Transition

variable {t : Termios} {c : UInt8} {d : Screen}

/-- `RAW_INPUT_BUFFER_SIZE`. -/
def rawInputBufferSize : Nat := 128

/-- A polled device has no ring. -/
structure Tty where
  termios : Termios
  pollRead : Bool
  line : Line
  cindex : Nat
  rawInBuf : Nat → UInt8
  rawInBufHead : Nat
  rawInBufTail : Nat
  rawInBufDropped : Nat

/-- `rtems_termios_enqueue_raw_characters`, with the number dropped. -/
def Tty.enqueueRawCharacters (tty : Tty) : List UInt8 → Tty × Nat
  | [] => (tty, 0)
  | c :: buf =>
    let newTail := (tty.rawInBufTail + 1) % rawInputBufferSize
    if newTail = tty.rawInBufHead then
      ({ tty with rawInBufDropped := tty.rawInBufDropped + (buf.length + 1) }, buf.length + 1)
    else
      enqueueRawCharacters { tty with
        rawInBuf := update tty.rawInBuf newTail c
        rawInBufTail := newTail } buf

/-- `reading` is the size of a read that fills the buffer; `log` has the others. -/
structure Session where
  tty : Tty
  reading : Option Nat
  input : List UInt8
  log : List (Nat × List UInt8)

inductive Move
  | enqueue (buf : List UInt8)
  | poll (c : UInt8)
  | read (count : Nat)
  | advance

namespace Session

def opened (t : Termios) (pollRead : Bool) (d : Screen) : Session where
  tty := ⟨t, pollRead, ⟨[], 0, d⟩, 0, fun _ => 0, 0, 0, 0⟩
  reading := none
  input := []
  log := []

variable (s : Session)

/-- The end of `rtems_termios_read`. -/
def finish (count : Nat) : Session :=
  let buffer := (s.tty.line.cbuf.drop s.tty.cindex).take count
  { s with
    tty.cindex := s.tty.cindex + buffer.length
    reading := none
    log := s.log ++ [(count, buffer)] }

def receive (c : UInt8) (count : Nat) : Session :=
  match iproc s.tty.termios c s.tty.line with
  | (line, true) => finish { s with tty.line := line } count
  | (line, false) => { s with tty.line := line }

/-- The reader waits while the ring is empty. -/
def fillBufferQueue (count : Nat) : Option Session :=
  if s.tty.rawInBufHead = s.tty.rawInBufTail then none
  else
    let newHead := (s.tty.rawInBufHead + 1) % rawInputBufferSize
    some (receive { s with tty.rawInBufHead := newHead } (s.tty.rawInBuf newHead) count)

def termiosRead (count : Nat) : Session :=
  if s.tty.cindex = s.tty.line.cbuf.length then
    { s with
      tty.cindex := 0
      tty.line := Line.start s.tty.line.screen
      reading := some count }
  else s.finish count

/-- No step leads on when the ring overflows. -/
def step : Move → Option Session
  | .enqueue buf =>
    match s.tty.pollRead, s.tty.enqueueRawCharacters buf with
    | false, (tty, 0) => some { s with tty, input := s.input ++ buf }
    | _, _ => none
  | .poll c =>
    match s.tty.pollRead, s.reading with
    | true, some count => some (receive { s with input := s.input ++ [c] } c count)
    | _, _ => none
  | .read count =>
    match s.reading with
    | none => some (s.termiosRead count)
    | some _ => none
  | .advance =>
    match s.tty.pollRead, s.reading with
    | false, some count => s.fillBufferQueue count
    | _, _ => none

end Session

/-! ## The lines that are read -/

/-- The lines that end in `cs`, typed after `cur`, and the one after them. -/
def lines (t : Termios) (cur : List UInt8) : List UInt8 → List (List UInt8) × List UInt8
  | [] => ([], cur)
  | c :: cs =>
    match edit t cur c with
    | (l, true) => (l :: (lines t [] cs).1, (lines t [] cs).2)
    | (l, false) => lines t l cs

/-- Each read takes the next characters of the first line left. -/
inductive Serves : List (List UInt8) → List (Nat × List UInt8) → List (List UInt8) → Prop
  | nil : Serves [] [] []
  | line {ls log left} (h : Serves ls log left) (l) : Serves (ls ++ [l]) log (left ++ [l])
  | read {ls log l left} (h : Serves ls log (l :: left)) (n) :
      Serves ls (log ++ [(n, l.take n)]) (if l.length ≤ n then left else l.drop n :: left)

theorem lines_append {cur as bs} : lines t cur (as ++ bs) =
    ((lines t cur as).1 ++ (lines t (lines t cur as).2 bs).1, (lines t (lines t cur as).2 bs).2) := by
  induction as generalizing cur with
  | nil => rfl
  | cons c as ih =>
    simp only [List.cons_append, lines]
    split <;> simp [ih]

theorem edit_length {cur} (hl : cur.length < cbufsize) : (edit t cur c).1.length ≤ cbufsize ∧
    ((edit t cur c).2 = false → (edit t cur c).1.length < cbufsize) := by
  unfold edit cbufsize at *
  cases mapped t c with
  | none => exact ⟨Nat.le_of_lt hl, fun _ => hl⟩
  | some c =>
    repeat' split
    all_goals simp_all
    all_goals omega

namespace Serves

variable {ls left more : List (List UInt8)} {log : List (Nat × List UInt8)}

theorem append (h : Serves ls log left) : Serves (ls ++ more) log (left ++ more) := by
  induction more generalizing ls left with
  | nil => simpa using h
  | cons l more ih => simpa using ih (h.line l)

theorem flatten (h : Serves ls log left) : (log.map Prod.snd).flatten ++ left.flatten = ls.flatten := by
  induction h with
  | nil => rfl
  | line _ l ih => simp [← ih]
  | @read _ _ l left _ n ih =>
    rw [← ih]
    split
    · simp [List.take_of_length_le ‹_›]
    · simp [← List.append_assoc (l.take n)]

end Serves

section Ring

variable {tty tty' : Tty} {buf : List UInt8}

def Tty.raw (tty : Tty) : List UInt8 :=
  Ring.contents rawInputBufferSize tty.rawInBuf ((tty.rawInBufHead + 1) % rawInputBufferSize)
    ((tty.rawInBufTail + 1) % rawInputBufferSize)

variable (hh : tty.rawInBufHead < rawInputBufferSize) (ht : tty.rawInBufTail < rawInputBufferSize)

theorem mod_size (i : Nat) : i % rawInputBufferSize < rawInputBufferSize := Nat.mod_lt _ (by decide)

include hh ht

theorem raw_pop (hne : tty.rawInBufHead ≠ tty.rawInBufTail) :
    tty.raw = tty.rawInBuf ((tty.rawInBufHead + 1) % rawInputBufferSize) ::
      Tty.raw { tty with rawInBufHead := (tty.rawInBufHead + 1) % rawInputBufferSize } := by
  have hl : 1 ≤ Ring.length rawInputBufferSize ((tty.rawInBufHead + 1) % rawInputBufferSize)
      ((tty.rawInBufTail + 1) % rawInputBufferSize) := by
    refine Nat.pos_of_ne_zero fun h0 => hne ?_
    have := (Ring.length_eq_zero (mod_size _) (mod_size _)).mp h0
    unfold rawInputBufferSize at *
    omega
  unfold Tty.raw
  rw [Ring.contents_drop (mod_size _) (mod_size _) hl, ← List.take_append_drop 1 (Ring.contents ..),
    Ring.contents_take hl (Nat.succ_le_of_lt (mod_size _))]
  rfl

theorem enqueueRawCharacters_spec (he : tty.enqueueRawCharacters buf = (tty', 0)) :
    tty'.raw = tty.raw ++ buf ∧ ∃ cell tail, tail < rawInputBufferSize ∧
      tty' = { tty with rawInBuf := cell, rawInBufTail := tail } := by
  induction buf generalizing tty with
  | nil =>
    cases he
    exact ⟨by simp, _, _, ht, rfl⟩
  | cons c buf ih =>
    unfold Tty.enqueueRawCharacters at he
    dsimp only at he
    split at he <;> rename_i hf
    · cases he
    · obtain ⟨hr, cell, tail, htl, rfl⟩ := ih (by exact hh) (mod_size _) he
      refine ⟨?_, cell, tail, htl, rfl⟩
      rw [hr, List.append_cons]
      congr 1
      refine Ring.contents_push (mod_size _) (mod_size _) fun he => hf ?_
      dsimp only at he
      unfold rawInputBufferSize at *
      omega

end Ring

namespace Session

variable {s s' : Session} {done : List UInt8} {left : List (List UInt8)} {count : Nat}

/-- What is left of the last line, or the line that is typed. -/
def Buffered (s : Session) (cur : List UInt8) (left : List (List UInt8)) : Prop :=
  match s.reading with
  | none => s.tty.cindex ≤ s.tty.line.cbuf.length ∧ s.tty.line.cbuf.length ≤ cbufsize ∧ cur = [] ∧
      left = if s.tty.cindex = s.tty.line.cbuf.length then [] else [s.tty.line.cbuf.drop s.tty.cindex]
  | some _ => s.tty.cindex = 0 ∧ s.tty.line.cbuf.length < cbufsize ∧ cur = s.tty.line.cbuf ∧ left = []

structure Consistent (t : Termios) (s : Session) (done : List UInt8) (left : List (List UInt8)) : Prop where
  termios : s.tty.termios = t
  head : s.tty.rawInBufHead < rawInputBufferSize
  tail : s.tty.rawInBufTail < rawInputBufferSize
  polled : s.tty.pollRead → s.tty.raw = []
  input : done ++ s.tty.raw = s.input
  serves : Serves (lines t [] done).1 s.log left
  buffered : s.Buffered (lines t [] done).2 left

theorem finish_served {cur ls} (count : Nat) (hx : s.tty.cindex ≤ s.tty.line.cbuf.length)
    (hl : s.tty.line.cbuf.length ≤ cbufsize) (hc : cur = [])
    (h : Serves ls s.log [s.tty.line.cbuf.drop s.tty.cindex]) :
    ∃ left, Serves ls (s.finish count).log left ∧ (s.finish count).Buffered cur left := by
  refine ⟨_, h.read count, ?_⟩
  simp only [Buffered, finish, List.length_take, List.length_drop, List.drop_drop]
  refine ⟨by omega, hl, hc, ?_⟩
  by_cases hn : s.tty.line.cbuf.length - s.tty.cindex ≤ count
  · rw [if_pos hn, if_pos (by omega)]
  · rw [if_neg hn, if_neg (by omega), Nat.min_eq_left (by omega)]

theorem receive_served (hi : s.tty.termios.icanon) (hr : s.reading = some count)
    (hv : Serves (lines s.tty.termios [] done).1 s.log left)
    (hb : s.Buffered (lines s.tty.termios [] done).2 left) :
    ∃ left', Serves (lines s.tty.termios [] (done ++ [c])).1 (s.receive c count).log left' ∧
      (s.receive c count).Buffered (lines s.tty.termios [] (done ++ [c])).2 left' := by
  have he := Edits.iproc hi (c := c) (l := s.tty.line)
  simp only [Buffered, hr] at hb
  obtain ⟨hx, hl, hc, rfl⟩ := hb
  have hlen := edit_length (t := s.tty.termios) (c := c) hl
  rw [lines_append, hc]
  revert he hlen
  simp only [receive, lines]
  generalize edit s.tty.termios s.tty.line.cbuf c = e
  generalize iproc s.tty.termios c s.tty.line = r
  obtain ⟨line, ended⟩ := r
  rintro ⟨hcb, hen, -⟩ hlen
  obtain ⟨cur, ended'⟩ := e
  obtain rfl : line.cbuf = cur := hcb
  obtain rfl : ended = ended' := hen
  cases ended with
  | true =>
    have hv' := hv.line line.cbuf
    exact finish_served (s := { s with tty.line := line }) count (hx ▸ Nat.zero_le _) hlen.1 rfl
      (by simpa [hx] using hv')
  | false =>
    refine ⟨[], by simpa using hv, ?_⟩
    simp only [Buffered, hr]
    exact ⟨hx, hlen.2 rfl, trivial, trivial⟩

theorem receive_tty (c : UInt8) (count : Nat) : ∃ line x, (s.receive c count).tty = { s.tty with line, cindex := x } ∧
    (s.receive c count).input = s.input := by
  unfold receive
  split <;> exact ⟨_, _, rfl, rfl⟩

theorem receive_consistent (hi : s.tty.termios.icanon) (hh : s.tty.rawInBufHead < rawInputBufferSize)
    (ht : s.tty.rawInBufTail < rawInputBufferSize) (hp : s.tty.pollRead → s.tty.raw = [])
    (hin : done ++ [c] ++ s.tty.raw = s.input) (hr : s.reading = some count)
    (hv : Serves (lines s.tty.termios [] done).1 s.log left)
    (hb : s.Buffered (lines s.tty.termios [] done).2 left) :
    ∃ done left, Consistent s.tty.termios (s.receive c count) done left := by
  obtain ⟨left', hv, hb⟩ := receive_served hi hr hv hb
  obtain ⟨line, x, he, hi⟩ := receive_tty c count
  refine ⟨done ++ [c], left', ?_, ?_, ?_, ?_, ?_, hv, hb⟩
  all_goals rw [he]
  · exact hh
  · exact ht
  · exact hp
  · exact hin.trans hi.symm

theorem Consistent.step {m} (hi : t.icanon) (h : ∃ done left, Consistent t s done left)
    (he : s.step m = some s') : ∃ done left, Consistent t s' done left := by
  obtain ⟨done, left, rfl, hh, ht, hp, hin, hv, hb⟩ := h
  cases m with
  | enqueue buf =>
    simp only [Session.step] at he
    split at he <;> rename_i hpr hq
    · obtain ⟨hr, cell, tail, htl, rfl⟩ := enqueueRawCharacters_spec hh ht hq
      cases he
      refine ⟨done, left, rfl, hh, htl, fun hb => ?_, ?_, hv, hb⟩
      · rw [show s.tty.pollRead = true from hb] at hpr
        cases hpr
      · rw [hr, ← List.append_assoc, hin]
    · cases he
  | poll c =>
    simp only [Session.step] at he
    split at he <;> rename_i hpr hr
    · cases he
      exact receive_consistent (s := { s with input := s.input ++ [c] }) hi hh ht hp
        (by rw [hp hpr] at hin ⊢; rw [← hin]; simp) hr hv hb
    · cases he
  | read count =>
    simp only [Session.step] at he
    split at he <;> rename_i hr <;> cases he
    simp only [Buffered, hr] at hb
    obtain ⟨hx, hl, hc, rfl⟩ := hb
    unfold termiosRead
    split <;> rename_i hz
    · exact ⟨done, [], rfl, hh, ht, hp, hin, by rwa [if_pos hz] at hv, rfl, Nat.succ_pos _, hc, rfl⟩
    · rw [if_neg hz] at hv
      obtain ⟨left', hs, hb⟩ := finish_served count hx hl hc hv
      exact ⟨done, left', rfl, hh, ht, hp, hin, hs, hb⟩
  | advance =>
    simp only [Session.step] at he
    split at he <;> rename_i hpr hr
    · unfold fillBufferQueue at he
      split at he <;> rename_i hne <;> cases he
      exact receive_consistent
        (s := { s with tty.rawInBufHead := (s.tty.rawInBufHead + 1) % rawInputBufferSize }) hi (mod_size _) ht
        (by simp [hpr]) (by rw [← hin, raw_pop hh ht hne, List.append_assoc]; rfl) hr hv hb
    · cases he

theorem raw_opened {p} : (opened t p d).tty.raw = [] := by
  simp [opened, Tty.raw, Ring.contents, Ring.length, rawInputBufferSize]

theorem opened_consistent {p} : Consistent t (opened t p d) [] [] where
  termios := rfl
  head := Nat.succ_pos _
  tail := Nat.succ_pos _
  polled _ := raw_opened
  input := raw_opened
  serves := .nil
  buffered := ⟨Nat.le_refl _, Nat.zero_le _, rfl, rfl⟩

/-- Reads return the lines typed, each from one line; a read waits when none is left. -/
theorem reads_lines {p} (hi : t.icanon) (h : Steps step (fun _ _ => True) (opened t p d) s) :
    s.tty.cindex ≤ s.tty.line.cbuf.length ∧ s.tty.line.cbuf.length ≤ cbufsize ∧
      ∃ left, Serves (lines t [] s.input).1 s.log left ∧
        (s.log.map Prod.snd).flatten ++ left.flatten = (lines t [] s.input).1.flatten ∧
        (s.reading.isSome → s.tty.raw = [] → left = []) := by
  obtain ⟨done, left, h⟩ := h.invariant (I := fun s => ∃ done left, Consistent t s done left)
    (fun h _ he => Consistent.step hi h he) ⟨[], [], opened_consistent⟩
  have hs : Serves (lines t [] s.input).1 s.log (left ++ (lines t (lines t [] done).2 s.tty.raw).1) := by
    rw [← h.input, lines_append]
    exact h.serves.append
  have hb := h.buffered
  cases hr : s.reading with
  | none =>
    simp only [Buffered, hr] at hb
    exact ⟨hb.1, hb.2.1, _, hs, hs.flatten, fun hn => absurd hn Bool.false_ne_true⟩
  | some n =>
    simp only [Buffered, hr] at hb
    obtain ⟨hx, hl, -, rfl⟩ := hb
    exact ⟨hx ▸ Nat.zero_le _, Nat.le_of_lt hl, _, hs, hs.flatten, fun _ he => by rw [he]; rfl⟩

theorem reads_lines_erased :
    let moves : List Move :=
      [.read 2, .enqueue [97, 98, 127, 99, 13], .advance, .advance, .advance, .advance, .advance, .read 5]
    ∃ s left, run step moves (opened .opened false ⟨0, []⟩) = some s ∧ s.log = [(2, [97, 99]), (5, [10])] ∧
      Serves (lines .opened [] s.input).1 s.log left := by
  intro moves
  obtain ⟨s, hs, hl⟩ := exists_of_map (p := fun s => s.log = [(2, [97, 99]), (5, [10])])
    (o := run step moves (opened .opened false ⟨0, []⟩)) Session.log _ (by decide +kernel) fun _ _ h => h
  obtain ⟨-, -, left, hv, -⟩ := reads_lines rfl (.of_run (fun _ _ => trivial) hs)
  exact ⟨s, left, hs, hl, hv⟩

end Session

end Rtems.Canonical
