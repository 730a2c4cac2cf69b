import Mathlib.Data.List.Infix
import Mathlib.Logic.Function.Basic
import Rtems.Words

/-! # Names of objects -/

namespace Rtems.Objects

abbrev Address := BitVec 32

abbrev Memory := Address → BitVec 8

namespace Memory

def word (m : Memory) (a : Address) : BitVec 32 := m (a + 3#32) ++ m (a + 2#32) ++ m (a + 1#32) ++ m a

def words (m : Memory) : Nat → Address → List (BitVec 32)
  | 0, _ => []
  | n + 1, a => m.word a :: m.words n (a + 4#32)

def string (m : Memory) : Nat → Address → List (BitVec 8)
  | 0, _ => []
  | n + 1, a => if m a = 0#8 then [] else m a :: m.string n (a + 1#32)

def ends (m : Memory) : Nat → Address → Bool
  | 0, a => m a = 0#8
  | n + 1, a => m a = 0#8 || m.ends n (a + 1#32)

def Begins (m : Memory) (n : Nat) (a b : Address) : Prop := m.ends n a = true ∧ m.string n a <+: m.string n b

end Memory

def compareNameString (m : Memory) : Nat → Address → Address → Bool
  | length, name1, name2 =>
    if m name1 ≠ m name2 then false
    else
      match length with
      | 0 => false
      | length + 1 =>
        if m (name1 + 1#32) = 0#8 then true
        else compareNameString m length (name1 + 1#32) (name2 + 1#32)

/-- The loop of `_Objects_Compare_name_raw`. -/
def compareWords (m : Memory) : Nat → Address → Address → Bool
  | 0, _, _ => true
  | n + 1, name1, name2 =>
    if m.word name1 ≠ m.word name2 then false else compareWords m n (name1 + 4#32) (name2 + 4#32)

def compareNameRaw (m : Memory) (length : Nat) (name1 name2 : Address) : Bool :=
  compareWords m (length / 4) name1 name2

variable {m m' : Memory} {a b : Address} {n : Nat}

theorem compareWords_iff : compareWords m n a b = true ↔ m.words n a = m.words n b := by
  induction n generalizing a b with
  | zero => simp [compareWords, Memory.words]
  | succ n ih =>
    unfold compareWords
    split
    · next h => simp [Memory.words, h]
    · next h => simp [Memory.words, not_not.mp h, ih]

theorem Memory.string_of_eq_zero (h : m a = 0#8) : m.string n a = [] := by
  cases n with
  | zero => rfl
  | succ n => simp [string, h]

theorem Memory.ends_of_eq_zero (h : m a = 0#8) : m.ends n a = true := by
  cases n <;> simp [ends, h]

theorem compareNameString_iff (ha : m a ≠ 0#8) : compareNameString m n a b = true ↔ m.Begins n a b := by
  unfold Memory.Begins
  induction n generalizing a b with
  | zero => simp [compareNameString, Memory.ends, ha]
  | succ n ih =>
    unfold compareNameString
    by_cases hab : m a = m b
    · have hb : m b ≠ 0#8 := hab ▸ ha
      rw [if_neg (not_not_intro hab)]
      simp only [Memory.ends, Memory.string, hb, hab, decide_false, Bool.false_or, if_false,
        List.cons_prefix_cons, true_and]
      by_cases h1 : m (a + 1#32) = 0#8
      · simp [h1, Memory.ends_of_eq_zero h1, Memory.string_of_eq_zero h1]
      · rw [if_neg h1]
        exact ih h1
    · have hp : ¬ m.string (n + 1) a <+: m.string (n + 1) b := by
        intro h
        rw [Memory.string, if_neg ha] at h
        by_cases hb : m b = 0#8
        · rw [Memory.string_of_eq_zero hb] at h
          exact List.cons_ne_nil _ _ (List.prefix_nil.mp h)
        · rw [Memory.string, if_neg hb, List.cons_prefix_cons] at h
          exact hab h.1
      simp [hab, hp]

/-- An empty name is compared with what is behind it. -/
theorem compareNameString_empty (ha : m a = 0#8) : compareNameString m n a b = true ↔
    m b = 0#8 ∧ 0 < n ∧ m.Begins (n - 1) (a + 1#32) (b + 1#32) := by
  unfold compareNameString
  by_cases hb : m b = 0#8
  · cases n with
    | zero => simp [ha, hb]
    | succ n =>
      by_cases h1 : m (a + 1#32) = 0#8
      · simp [ha, hb, h1, Memory.Begins, Memory.ends_of_eq_zero h1, Memory.string_of_eq_zero h1]
      · simp [ha, hb, h1, compareNameString_iff h1]
  · simp [ha, hb, Ne.symm hb]

end Rtems.Objects
