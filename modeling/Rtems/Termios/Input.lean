import Mathlib.Logic.Function.Iterate

/-!
# Line editing of a terminal

The buffer `cbuf` is the list of its first `ccount` characters.
-/

namespace Rtems.Canonical

open Function

/-! ## Output processing and echo -/

/-- A control character that is 0 is disabled. -/
structure Termios where
  (istrip iuclc igncr icrnl inlcr : Bool)
  (opost onlret onlcr onocr ocrnl xtabs olcuc : Bool)
  (icanon echo echoe echok echonl echoctl : Bool)
  (verase vkill veof veol veol2 : UInt8)

/-- The settings of `rtems_termios_open`. -/
def Termios.opened : Termios :=
  ⟨false, false, false, true, false, true, false, true, false, false, true, false, true, true, true, true,
    false, true, 127, 21, 4, 0, 0⟩

structure Screen where
  column : Nat
  sent : List UInt8
  deriving DecidableEq

def iscntrl (c : UInt8) : Bool := c < 32 || c == 127

def toupper (c : UInt8) : UInt8 := if 97 ≤ c ∧ c ≤ 122 then c - 32 else c

def tolower (c : UInt8) : UInt8 := if 65 ≤ c ∧ c ≤ 90 then c + 32 else c

def osend (buf : List UInt8) (d : Screen) : Screen := { d with sent := d.sent ++ buf }

def moveTo (column : Nat) (d : Screen) : Screen := { d with column }

variable (t : Termios)

def oproc (c : UInt8) (d : Screen) : Screen :=
  if t.opost then
    if c = 10 then
      let d := if t.onlret then moveTo 0 d else d
      osend [c] (if t.onlcr then moveTo 0 (osend [13] d) else d)
    else if c = 13 then
      if t.onocr ∧ d.column = 0 then d
      else if t.ocrnl then osend [10] (if t.onlret then moveTo 0 d else d)
      else osend [c] (moveTo 0 d)
    else if c = 9 then
      let i := 8 - (d.column &&& 7)
      osend (if t.xtabs then .replicate i 32 else [c]) (moveTo (d.column + i) d)
    else if c = 8 then osend [c] (moveTo (d.column - 1) d)
    else
      let c := if t.olcuc then toupper c else c
      osend [c] (if iscntrl c then d else moveTo (d.column + 1) d)
  else osend [c] d

def echo (c : UInt8) (d : Screen) : Screen :=
  if t.echoctl ∧ iscntrl c ∧ c ≠ 9 ∧ c ≠ 10 then moveTo (d.column + 2) (osend [94, c ^^^ 64] d)
  else oproc t c d

/-! ## Line editing -/

structure Line where
  cbuf : List UInt8
  readStartColumn : Nat
  screen : Screen
  deriving DecidableEq

/-- `CBUFSIZE`. -/
def cbufsize : Nat := 256

/-- The column after a character, as `erase` computes it. -/
def after (col : Nat) (c : UInt8) : Nat :=
  if c = 9 then (col ||| 7) + 1
  else if iscntrl c then if t.echoctl then col + 2 else col
  else col + 1

def backUp (d : Screen) : Screen := moveTo (d.column - 1) (osend [8] d)

def rubOut (d : Screen) : Screen := moveTo (d.column - 1) (osend [8, 32, 8] d)

/-- What `erase` shows for `c`, taken off the end of `l.cbuf`. -/
def unecho (lineFlag : Bool) (c : UInt8) (l : Line) : Screen :=
  if t.echo then
    if !lineFlag && !t.echoe then echo t t.verase l.screen
    else if c = 9 then
      backUp^[l.screen.column - l.cbuf.foldl (after t) l.readStartColumn] l.screen
    else
      let d := if iscntrl c && t.echoctl then rubOut l.screen else l.screen
      if !iscntrl c || t.echoctl then rubOut d else d
  else l.screen

def eraseLast (lineFlag : Bool) (l : Line) : Line :=
  match l.cbuf.getLast? with
  | none => l
  | some c =>
    let l := { l with cbuf := l.cbuf.dropLast }
    { l with screen := unecho t lineFlag c l }

def erase (lineFlag : Bool) (l : Line) : Line :=
  if lineFlag then
    if l.cbuf = [] then l
    else if !t.echo then { l with cbuf := [] }
    else if !t.echoe then
      let d := echo t t.vkill l.screen
      { l with
        cbuf := []
        screen := if t.echok then echo t 10 d else d }
    else (eraseLast t true)^[l.cbuf.length] l
  else eraseLast t false l

def store (c : UInt8) (l : Line) : Line := { l with cbuf := l.cbuf ++ [c] }

def echoIf (b : Bool) (t : Termios) (c : UInt8) (l : Line) : Line :=
  if b then { l with screen := echo t c l.screen } else l

def mapped (c : UInt8) : Option UInt8 :=
  let c := if t.istrip then c &&& 127 else c
  let c := if t.iuclc then tolower c else c
  if c = 13 then
    if t.igncr then none else if t.icrnl then some 10 else some c
  else if c = 10 ∧ t.inlcr then some 13
  else some c

/-- `iproc`, with whether the line has ended. -/
def iproc (c : UInt8) (l : Line) : Line × Bool :=
  match mapped t c with
  | none => (l, false)
  | some c =>
    let ordinary :=
      (if l.cbuf.length < cbufsize - 1 then store c (echoIf t.echo t c l) else l, false)
    if c ≠ 0 ∧ t.icanon then
      if c = t.verase then (erase t false l, false)
      else if c = t.vkill then (erase t true l, false)
      else if c = t.veof then (l, true)
      else if c = 10 then (store c (echoIf (t.echo || t.echonl) t c l), true)
      else if c = t.veol ∨ c = t.veol2 then (store c (echoIf t.echo t c l), true)
      else ordinary
    else ordinary

/-! ## The line that is typed -/

/-- The column reached by displaying `buf`. -/
def displayed (start : Nat) (buf : List UInt8) : Nat :=
  buf.foldl (fun col c =>
    if c = 9 then (col / 8 + 1) * 8 else if iscntrl c then col + 2 else col + 1) start

/-- One more character for `cur`, and whether the line ends. -/
def edit (cur : List UInt8) (c : UInt8) : List UInt8 × Bool :=
  match mapped t c with
  | none => (cur, false)
  | some c =>
    let ordinary := (if cur.length < 255 then cur ++ [c] else cur, false)
    if c ≠ 0 then
      if c = t.verase then (cur.dropLast, false)
      else if c = t.vkill then ([], false)
      else if c = t.veof then (cur, true)
      else if c = 10 then (cur ++ [c], true)
      else if c = t.veol ∨ c = t.veol2 then (cur ++ [c], true)
      else ordinary
    else ordinary

structure Termios.Shows (t : Termios) : Prop where
  echo : t.echo
  echoe : t.echoe
  echoctl : t.echoctl
  opost : t.opost

def Line.Aligned (l : Line) : Prop := l.screen.column = displayed l.readStartColumn l.cbuf

/-- The column is right as long as the line goes on. -/
structure Edits (t : Termios) (l : Line) (r : Line × Bool) (e : List UInt8 × Bool) : Prop where
  cbuf : r.1.cbuf = e.1
  ended : r.2 = e.2
  start : r.1.readStartColumn = l.readStartColumn
  aligned : t.Shows → l.Aligned → r.2 = false → r.1.Aligned

variable {t : Termios} {l l' : Line} {c : UInt8} {d : Screen} {cs : List UInt8} {b : Bool} {n : Nat}

theorem or_seven (n : Nat) : (n ||| 7) + 1 = (n / 8 + 1) * 8 := by
  have hd : (n ||| 7) / 2 ^ 3 = n / 8 := by rw [Nat.or_div_two_pow]; simp
  have hm : (n ||| 7) % 2 ^ 3 = 7 := by
    have h8 : n % 8 < 8 := Nat.mod_lt _ (by decide)
    rw [Nat.or_mod_two_pow]
    generalize n % 8 = k at h8
    decide +revert
  omega

theorem iscntrl_toupper : iscntrl (toupper c) = iscntrl c := by
  cases c with | ofBitVec c => ?_
  revert c
  decide

theorem column_backUp : (backUp^[n] d).column = d.column - n := by
  induction n generalizing d with
  | zero => rfl
  | succ n ih =>
    rw [iterate_succ_apply, ih]
    simp only [backUp, moveTo, osend]
    omega

section

variable (h : t.Shows)

include h

theorem foldl_after {start buf} : List.foldl (after t) start buf = displayed start buf := by
  congr 1
  funext col c
  simp [after, h.echoctl, or_seven]

theorem displayed_concat {start buf} : displayed start (buf ++ [c]) = after t (displayed start buf) c := by
  rw [← foldl_after h, ← foldl_after h, List.foldl_append]
  rfl

theorem column_echo (hn : c ≠ 10) : (echo t c d).column = after t d.column c := by
  unfold echo after
  by_cases h9 : c = 9
  · have hm : d.column &&& 7 = d.column % 8 := Nat.and_two_pow_sub_one_eq_mod d.column 3
    simp [h9, oproc, h.opost, osend, moveTo, hm, or_seven]
    omega
  · cases hi : iscntrl c with
    | true => simp [h9, hn, h.echoctl, moveTo]
    | false =>
      have h13 : c ≠ 13 := by rintro rfl; cases hi
      have h8 : c ≠ 8 := by rintro rfl; cases hi
      have hu : iscntrl (if t.olcuc then toupper c else c) = false := by
        split
        · rw [iscntrl_toupper, hi]
        · exact hi
      simp [h9, hn, h13, h8, oproc, h.opost, osend, moveTo, hu]

theorem Line.Aligned.eraseLast (hl : l.Aligned) : (eraseLast t b l).Aligned := by
  rcases l with ⟨buf, start, d⟩
  unfold Canonical.eraseLast
  rcases List.eq_nil_or_concat buf with rfl | ⟨buf, c, rfl⟩
  · exact hl
  · have hd : d.column = displayed start (buf ++ [c]) := by simpa [Aligned] using hl
    rw [displayed_concat h, after] at hd
    simp only [List.concat_eq_append, List.getLast?_concat, List.dropLast_concat, Aligned, unecho, h.echo,
      h.echoe, if_true, Bool.not_true, Bool.and_false, Bool.false_eq_true, if_false, foldl_after h]
    split <;> rename_i h9
    · rw [column_backUp, hd, if_pos h9, or_seven]
      omega
    · cases hi : iscntrl c <;> simp_all [rubOut, moveTo, osend, h.echoctl]

end

namespace Edits

theorem self : Edits t l (l, b) (l.cbuf, b) := ⟨rfl, rfl, rfl, fun _ hl _ => hl⟩

theorem ite {p : Prop} [Decidable p] {r r' e e'} (h : p → Edits t l r e) (h' : ¬ p → Edits t l r' e') :
    Edits t l (if p then r else r') (if p then e else e') := by
  split
  · exact h ‹p›
  · exact h' ‹¬ p›

theorem store {b'} (hb : c ≠ 10 ∧ b' = t.echo ∨ b = true) :
    Edits t l (store c (echoIf b' t c l), b) (l.cbuf ++ [c], b) := by
  refine ⟨by cases b' <;> rfl, rfl, by cases b' <;> rfl, fun h hl hr => ?_⟩
  rcases hb with ⟨hn, rfl⟩ | hb
  · simp only [Line.Aligned, Canonical.store, echoIf, h.echo, if_true]
    rw [column_echo h hn, hl, displayed_concat h]
  · exact absurd (hr.symm.trans hb) (by decide)

theorem eraseLast {e} : Edits t l (eraseLast t b l, e) (l.cbuf.dropLast, e) := by
  refine ⟨?_, rfl, ?_, fun h hl _ => hl.eraseLast h⟩
  all_goals
    unfold Canonical.eraseLast
    split <;> simp_all

theorem iterate (hn : l.cbuf.length = n) : Edits t l ((Canonical.eraseLast t b)^[n] l, false) ([], false) := by
  induction n generalizing l with
  | zero => exact List.eq_nil_of_length_eq_zero hn ▸ self
  | succ n ih =>
    have hl := eraseLast (t := t) (l := l) (b := b) (e := false)
    have hi := ih (l := Canonical.eraseLast t b l) (by rw [hl.cbuf, List.length_dropLast, hn]; rfl)
    exact ⟨hi.cbuf, rfl, hi.start.trans hl.start, fun h ha hr => hi.aligned h (hl.aligned h ha rfl) hr⟩

theorem erase : Edits t l (erase t b l, false) (if b then [] else l.cbuf.dropLast, false) := by
  cases b with
  | false => exact eraseLast
  | true =>
    unfold Canonical.erase
    rw [if_pos rfl, if_pos rfl]
    split
    · exact ‹l.cbuf = []› ▸ self
    · split <;> rename_i he
      · exact ⟨rfl, rfl, rfl, fun h => by simp [h.echo] at he⟩
      · split <;> rename_i he
        · exact ⟨rfl, rfl, rfl, fun h => by simp [h.echoe] at he⟩
        · exact iterate rfl

theorem iproc (hi : t.icanon) : Edits t l (iproc t c l) (edit t l.cbuf c) := by
  unfold Canonical.iproc edit
  cases mapped t c with
  | none => exact self
  | some c =>
    have ho (hn : c ≠ 10) : Edits t l
        (if l.cbuf.length < cbufsize - 1 then Canonical.store c (echoIf t.echo t c l) else l, false)
        (if l.cbuf.length < 255 then l.cbuf ++ [c] else l.cbuf, false) := by
      by_cases hl : l.cbuf.length < 255
      · simpa [hl, cbufsize] using store (Or.inl ⟨hn, rfl⟩)
      · simpa [hl, cbufsize] using self
    simp only [hi, and_true]
    refine ite (fun _ => ite (fun _ => erase) fun _ => ite (fun _ => erase) fun _ =>
      ite (fun _ => self) fun _ => ite (fun _ => store (Or.inr rfl)) fun hn =>
        ite (fun _ => store (Or.inr rfl)) fun _ => ho hn) fun h0 => ho ?_
    rintro rfl
    exact h0 (by decide)

end Edits

/-- `none` once the line has ended. -/
def typed (t : Termios) : List UInt8 → Line → Option Line
  | [], l => some l
  | c :: cs, l =>
    match iproc t c l with
    | (l, false) => typed t cs l
    | (_, true) => none

def Line.start (d : Screen) : Line := ⟨[], d.column, d⟩

theorem Line.Aligned.typed (h : t.Shows) (hi : t.icanon) (hl : l.Aligned) (hr : typed t cs l = some l') :
    l'.Aligned := by
  induction cs generalizing l with
  | nil => exact Option.some.inj hr ▸ hl
  | cons c cs ih =>
    have hp := (Edits.iproc hi (c := c) (l := l)).aligned h hl
    unfold Canonical.typed at hr
    split at hr <;> rename_i he
    · rw [he] at hp
      exact ih (hp rfl) hr
    · cases hr

/-- The column is that of the buffer; erasing gives back the one from before. -/
theorem column_displayed (h : t.Shows) (hi : t.icanon) (hr : typed t cs (Line.start d) = some l) :
    l.screen.column = displayed l.readStartColumn l.cbuf ∧
      (∀ c l' x, iproc t c l = (l', false) → l'.cbuf = l.cbuf ++ [x] →
        (erase t false l').screen.column = l.screen.column) ∧
      (erase t true l).screen.column = l.readStartColumn := by
  have hl : l.Aligned := Line.Aligned.typed h hi (l := Line.start d) rfl hr
  refine ⟨hl, fun c l' x hp hx => ?_, ?_⟩
  · have he := Edits.iproc hi (c := c) (l := l)
    rw [hp] at he
    have hb := Edits.erase (t := t) (l := l') (b := false)
    rw [hb.aligned h (he.aligned h hl rfl) rfl, hb.start, he.start, hb.cbuf, hx, hl]
    simp
  · have hb := Edits.erase (t := t) (l := l) (b := true)
    rw [hb.aligned h hl rfl, hb.start, hb.cbuf]
    rfl

theorem column_displayed_tab : ∃ l, typed .opened [97, 9, 3, 127] (Line.start ⟨3, []⟩) = some l ∧
    l.cbuf = [97, 9] ∧ l.screen.column = displayed 3 [97, 9] := by
  refine ⟨_, rfl, rfl, ?_⟩
  exact (column_displayed ⟨rfl, rfl, rfl, rfl⟩ rfl
    (rfl : typed .opened [97, 9, 3, 127] (Line.start ⟨3, []⟩) = some _)).1

end Rtems.Canonical
