import Mathlib.Logic.Function.Basic
import Rtems.Library.Transition
import Rtems.Words

/-!
# Descriptors

For descriptors of the type `RTEMS_FILE_DESCRIPTOR_TYPE_FILE`. `rtems_libio_check_fd` does not look
whether one is open.
-/

namespace Rtems.Libio

open Function Transition

variable {D : Type*}

/-- `rtems_libio_t`; `none` is a `driver` that is NULL. -/
structure Iop (D : Type*) where
  driver : Option D
  flags : BitVec 32
  offset : Nat
  size : Nat
  deriving DecidableEq

def flagsRead : BitVec 32 := 0x2

def flagsWrite : BitVec 32 := 0x4

def flagsOpen : BitVec 32 := 0x100

/-- `rtems_libio_iops`, and the drivers that were called. -/
structure Table (D : Type*) where
  numberIops : Nat
  iops : Nat → Iop D
  calls : List (Option D)

inductive Whence
  | set
  | cur
  | fromEnd
  deriving DecidableEq

/-- With what other managers make of the calls; `rc` says that the driver is successful. -/
inductive Call (D : Type*)
  | openFile (np : Option D) (flags : BitVec 32) (semaphore rc : Bool)
  | close (fd : Nat) (rc : Bool)
  | read (fd : Nat) (isNull : Bool) (count bytesMoved : Nat) (rc : Bool)
  | write (fd : Nat) (isNull : Bool) (count bytesMoved : Nat) (rc : Bool)
  | ioctl (fd : Nat) (ioctlReturn : Int) (rc : Bool)
  | lseek (fd offset : Nat) (whence : Option Whence)

def Call.descriptor : Call D → Option Nat
  | .openFile .. => none
  | .close fd _ | .read fd .. | .write fd .. | .ioctl fd .. | .lseek fd .. => some fd

def Call.Checked : Call D → Prop
  | .openFile .. | .close .. | .ioctl .. => False
  | .read _ isNull count .. | .write _ isNull count .. => isNull = true ∨ count ≠ 0
  | .lseek _ _ whence => whence = none

namespace Table

def init (numberIops : Nat) : Table D := ⟨numberIops, fun _ => ⟨none, 0, 0, 0⟩, []⟩

variable (s : Table D)

def setIop (fd : Nat) (iop : Iop D) : Table D := { s with iops := update s.iops fd iop }

def callDriver (fd : Nat) : Table D := { s with calls := (s.iops fd).driver :: s.calls }

/-- `rtems_libio_allocate`. Without entries it finds the address 0, which is no entry to `__rtems_open`. -/
def allocate (semaphore : Bool) : Option Nat :=
  if semaphore then (List.range s.numberIops).find? fun fd => (s.iops fd).flags &&& flagsOpen = 0
  else none

def free (fd : Nat) : Table D := s.setIop fd ⟨none, 0, 0, 0⟩

/-- `__rtems_open`. -/
def openFile (np : Option D) (flags : BitVec 32) (semaphore rc : Bool) : Table D × Int :=
  match np, s.allocate semaphore with
  | some _, some fd =>
    let s := (s.setIop fd { s.iops fd with driver := np, flags := flagsOpen ||| flags }).callDriver fd
    if rc then (s, fd) else (s.free fd, -1)
  | _, _ => (s, -1)

def close (fd : Nat) (rc : Bool) : Table D × Int :=
  if s.numberIops ≤ fd then (s, -1) else ((s.callDriver fd).free fd, if rc then 0 else -1)

/-- `__rtems_read` and `__rtems_write`, by the permission. -/
def transfer (flag : BitVec 32) (s : Table D) (fd : Nat) (isNull : Bool) (count bytesMoved : Nat) (rc : Bool) :
    Table D × Int :=
  if s.numberIops ≤ fd then (s, -1)
  else if isNull then (s, -1)
  else if count = 0 then (s, 0)
  else if (s.iops fd).flags &&& flag = 0 then (s, -1)
  else
    let s := s.callDriver fd
    (s.setIop fd { s.iops fd with offset := addWord (s.iops fd).offset bytesMoved },
      if rc then bytesMoved else -1)

def read : Table D → Nat → Bool → Nat → Nat → Bool → Table D × Int := transfer flagsRead

def write : Table D → Nat → Bool → Nat → Nat → Bool → Table D × Int := transfer flagsWrite

def ioctl (fd : Nat) (ioctlReturn : Int) (rc : Bool) : Table D × Int :=
  if s.numberIops ≤ fd then (s, -1) else (s.callDriver fd, if rc then ioctlReturn else -1)

def lseek (fd offset : Nat) (whence : Option Whence) : Table D × Int :=
  if s.numberIops ≤ fd then (s, -1)
  else
    let iop := s.iops fd
    match whence with
    | some .set => (s.setIop fd { iop with offset := offset }, 0)
    | some .cur => (s.setIop fd { iop with offset := addWord iop.offset offset }, 0)
    | some .fromEnd => (s.setIop fd { iop with offset := subWord iop.size offset }, 0)
    | none => (s, -1)

def perform : Call D → Table D × Int
  | .openFile np flags semaphore rc => s.openFile np flags semaphore rc
  | .close fd rc => s.close fd rc
  | .read fd isNull count bytesMoved rc => s.read fd isNull count bytesMoved rc
  | .write fd isNull count bytesMoved rc => s.write fd isNull count bytesMoved rc
  | .ioctl fd ioctlReturn rc => s.ioctl fd ioctlReturn rc
  | .lseek fd offset whence => s.lseek fd offset whence

def step (c : Call D) : Option (Table D) := some (s.perform c).1

def IsOpen (fd : Nat) : Prop := fd < s.numberIops ∧ (s.iops fd).flags &&& flagsOpen ≠ 0

def Cleared : Prop := ∀ fd, (s.iops fd).flags &&& flagsOpen ≠ 0 ∨ (s.iops fd).flags = 0

variable {s : Table D} {fd : Nat}

theorem flagsOpen_or (flags : BitVec 32) : (flagsOpen ||| flags) &&& flagsOpen = flagsOpen := by
  ext i hi
  simp only [BitVec.getElem_and, BitVec.getElem_or]
  cases flagsOpen[i] <;> simp

theorem Cleared.setIop {iop} (h : s.Cleared) (hi : iop.flags &&& flagsOpen ≠ 0 ∨ iop.flags = 0) :
    (s.setIop fd iop).Cleared := by
  intro fd'
  by_cases hf : fd' = fd
  · subst hf
    simpa [Table.setIop] using hi
  · simpa [Table.setIop, hf] using h fd'

theorem Cleared.transfer {flag isNull count bytesMoved rc} (h : s.Cleared) :
    (s.transfer flag fd isNull count bytesMoved rc).1.Cleared := by
  unfold Table.transfer
  split
  · exact h
  split
  · exact h
  split
  · exact h
  split
  · exact h
  · exact Cleared.setIop (s := s.callDriver fd) h (h fd)

theorem Cleared.openFile {np flags semaphore rc} (h : s.Cleared) :
    (s.openFile np flags semaphore rc).1.Cleared := by
  unfold Table.openFile
  split
  · rename_i d fd _
    have hs : (s.setIop fd { s.iops fd with driver := some d, flags := flagsOpen ||| flags }).Cleared :=
      h.setIop (Or.inl (by simp [flagsOpen_or]; decide))
    cases rc with
    | true => exact hs
    | false => exact Cleared.setIop (s := Table.callDriver _ fd) hs (Or.inr rfl)
  · exact h

theorem Cleared.perform (h : s.Cleared) (c : Call D) : (s.perform c).1.Cleared := by
  cases c with
  | openFile np flags semaphore rc => exact h.openFile
  | close fd rc =>
    simp only [Table.perform, Table.close]
    split
    · exact h
    · exact Cleared.setIop (s := s.callDriver fd) h (Or.inr rfl)
  | read fd isNull count bytesMoved rc => exact h.transfer
  | write fd isNull count bytesMoved rc => exact h.transfer
  | ioctl fd ioctlReturn rc =>
    simp only [Table.perform, Table.ioctl]
    split
    · exact h
    · exact h
  | lseek fd offset whence =>
    simp only [Table.perform, Table.lseek]
    split
    · exact h
    · split
      · exact h.setIop (h fd)
      · exact h.setIop (h fd)
      · exact h.setIop (h fd)
      · exact h

theorem perform_of_le {c : Call D} (hd : c.descriptor = some fd) (hf : s.numberIops ≤ fd) :
    s.perform c = (s, -1) := by
  cases c with
  | openFile => cases hd
  | close | read | write | ioctl | lseek => cases hd; exact if_pos hf

theorem transfer_of_cleared {flag isNull count bytesMoved rc} (hf : (s.iops fd).flags = 0)
    (hc : isNull = true ∨ count ≠ 0) : s.transfer flag fd isNull count bytesMoved rc = (s, -1) := by
  unfold transfer
  cases isNull with
  | true => simp
  | false =>
    have hc' : count ≠ 0 := by simpa using hc
    simp [hf, hc']

theorem perform_of_checked {c : Call D} (hd : c.descriptor = some fd) (hf : (s.iops fd).flags = 0)
    (hc : c.Checked) : s.perform c = (s, -1) := by
  cases c with
  | openFile | close | ioctl => exact hc.elim
  | read | write => cases hd; exact transfer_of_cleared hf hc
  | lseek fd offset whence =>
    obtain rfl : whence = none := hc
    simp [perform, lseek]

theorem openFile_fresh {np flags semaphore rc} (h : (s.openFile np flags semaphore rc).2 = fd) :
    ¬ s.IsOpen fd := by
  unfold openFile at h
  split at h
  · rename_i d fd' ha
    cases rc with
    | true =>
      obtain rfl : fd' = fd := Int.ofNat.inj h
      have hf : (s.iops fd').flags &&& flagsOpen = 0 := by
        cases semaphore with
        | true => simpa using List.find?_some ha
        | false => cases ha
      exact fun ho => ho.2 hf
    | false => simp at h
  · simp at h

/-- A descriptor that is opened is fresh; calls that look at more than the number fail on others. -/
theorem descriptors_checked {numberIops} (h : Steps step (fun _ _ => True) (init numberIops) s) :
    (∀ np flags semaphore rc, ∀ fd : Nat, (s.openFile np flags semaphore rc).2 = fd → ¬ s.IsOpen fd) ∧
      ∀ (c : Call D) fd, c.descriptor = some fd → ¬ s.IsOpen fd → s.numberIops ≤ fd ∨ c.Checked →
        s.perform c = (s, -1) := by
  have hs : s.Cleared := by
    refine h.invariant ?_ (fun _ => Or.inr rfl)
    intro s c s' hs _ he
    cases he
    exact hs.perform c
  refine ⟨fun _ _ _ _ _ => openFile_fresh, fun c fd hd ho hc => ?_⟩
  by_cases hn : s.numberIops ≤ fd
  · exact perform_of_le hd hn
  · have hf := (hs fd).resolve_left fun hf => ho ⟨by omega, hf⟩
    exact perform_of_checked hd hf (hc.resolve_left hn)

theorem descriptors_checked_read :
    let calls : List (Call Unit) := [.openFile (some ()) 2 true true, .close 0 true]
    ∃ s, run step calls (init 1) = some s ∧ s.perform (.read 0 false 4 4 true) = (s, -1) := by
  intro calls
  refine exists_of_map (fun s => (s.iops 0).flags) 0 (by decide +kernel) fun s hs hf => ?_
  exact (descriptors_checked (.of_run (fun _ _ => trivial) hs)).2 _ 0 rfl (by simp [IsOpen, hf])
    (Or.inr (Or.inr (by decide)))

/-- On a descriptor that was never open, a driver that nothing set is called and the entry changes. -/
theorem descriptors_unchecked :
    let s : Table Unit := init 1
    ¬ s.IsOpen 0 ∧ (s.close 0 true).1.calls = [none] ∧ (s.close 0 true).2 = 0 ∧
      (s.ioctl 0 5 true).1.calls = [none] ∧ (s.ioctl 0 5 true).2 = 5 ∧
      ((s.lseek 0 7 (some .set)).1.iops 0).offset = 7 ∧ (s.lseek 0 7 (some .set)).2 = 0 ∧
      (s.read 0 false 0 0 true).2 = 0 := by
  refine ⟨?_, rfl, rfl, rfl, rfl, rfl, rfl, rfl⟩
  simp [IsOpen, init]

end Table

end Rtems.Libio
