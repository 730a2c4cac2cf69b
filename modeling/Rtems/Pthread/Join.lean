import Mathlib.Logic.Function.Basic
import Mathlib.Tactic.SplitIfs
import Rtems.Library.Transition

/-!
# Joining a thread

Nothing of a thread that exits is kept for those that join it later.
-/

namespace Rtems.Pthread

open Function Transition

inductive JoinError
  | esrch | einval | edeadlk
deriving DecidableEq

structure Joinable (T : Type*) where
  detached : Bool
  joinList : List T

structure Joins (T : Type*) where
  thread : T → Option (Joinable T)
  waits : T → Bool
  result : T → Option (Except JoinError Nat)

inductive JoinMove (T : Type*)
  | create (t : T) (detached : Bool)
  | join (j t : T)
  | detach (t : T)
  /-- `pthread_exit`; a destructor may change `Wait.return_argument`. -/
  | exit (t : T) (value : Nat) (overwritten : Option Nat)

namespace Joins

variable {T : Type*} [DecidableEq T] {s s' s'' : Joins T} {j t : T} {value : Nat}

def initial (T : Type*) : Joins T := ⟨fun _ => none, fun _ => false, fun _ => none⟩

def runs (s : Joins T) (t : T) : Bool := (s.thread t).isSome && !s.waits t

/-- `pthread_join`, up to where the thread waits. -/
def join (s : Joins T) (j t : T) : Joins T :=
  let fail e := { s with result := update s.result j (some (.error e)) }
  match s.thread t with
  | none => fail .esrch
  | some c =>
    if c.detached then fail .einval
    else if t = j then fail .edeadlk
    else
      { thread := update s.thread t (some { c with joinList := c.joinList ++ [j] })
        waits := update s.waits j true
        result := update s.result j none }

def deleteExtension (s : Joins T) (joinList : List T) (value : Nat) : Joins T :=
  { s with
    waits := fun j => s.waits j && decide (j ∉ joinList)
    result := fun j => if j ∈ joinList then some (.ok value) else s.result j }

def step (s : Joins T) : JoinMove T → Option (Joins T)
  | .create t detached =>
    if s.thread t = none then
      some { s with thread := update s.thread t (some ⟨detached, []⟩), result := update s.result t none }
    else none
  | .join j t => if s.runs j then some (s.join j t) else none
  | .detach t => some { s with thread := update s.thread t ((s.thread t).map ({ · with detached := true })) }
  | .exit t value overwritten =>
    match s.thread t with
    | none => none
    | some c =>
      if s.waits t then none
      else
        let s := s.deleteExtension c.joinList (overwritten.getD value)
        some { s with thread := update s.thread t none }

def Awaits (s : Joins T) (j t : T) : Prop := ∃ c, s.thread t = some c ∧ j ∈ c.joinList

theorem Awaits.step {m} (h : s.Awaits j t) (hm : ∀ v o, m ≠ .exit t v o)
    (he : s.step m = some s') : s'.Awaits j t := by
  obtain ⟨c, hc, hj⟩ := h
  cases m with
  | create u detached =>
    obtain ⟨hu, rfl⟩ := Option.ite_some_none_eq_some.mp he
    have hne : t ≠ u := fun h => nomatch (h ▸ hc).symm.trans hu
    exact ⟨c, (update_of_ne hne _ _).trans hc, hj⟩
  | join k u =>
    obtain ⟨-, rfl⟩ := Option.ite_some_none_eq_some.mp he
    unfold join
    split <;> rename_i hu
    · exact ⟨c, hc, hj⟩
    · split_ifs
      · exact ⟨c, hc, hj⟩
      · exact ⟨c, hc, hj⟩
      · by_cases htu : t = u
        · subst htu
          cases hc.symm.trans hu
          exact ⟨_, update_self _ _ _, List.mem_append_left _ hj⟩
        · exact ⟨c, (update_of_ne htu _ _).trans hc, hj⟩
  | detach u =>
    cases he
    by_cases htu : t = u
    · subst htu
      exact ⟨_, (update_self _ _ _).trans (congrArg _ hc), hj⟩
    · exact ⟨c, (update_of_ne htu _ _).trans hc, hj⟩
  | exit u v o =>
    have hne : t ≠ u := fun h => hm v o (h ▸ rfl)
    cases hu : s.thread u <;> simp only [Joins.step, hu] at he
    · cases he
    · obtain ⟨-, he⟩ := Option.ite_none_left_eq_some.mp he
      cases he
      exact ⟨c, (update_of_ne hne _ _).trans hc, hj⟩

theorem Awaits.exit (h : s.Awaits j t) (he : s.step (.exit t value none) = some s') :
    s'.result j = some (.ok value) ∧ s'.waits j = false := by
  obtain ⟨c, hc, hj⟩ := h
  simp only [Joins.step, hc] at he
  obtain ⟨-, he⟩ := Option.ite_none_left_eq_some.mp he
  cases he
  simp [deleteExtension, hj]

/-- A join returns the value that the thread exits with. -/
theorem join_returns {c : Joinable T} (hc : s.thread t = some c) (hd : c.detached = false) (hj : j ≠ t)
    (he : s.step (.join j t) = some s') (h : Steps step (fun _ m => ∀ v o, m ≠ .exit t v o) s' s'')
    {s₃ : Joins T} (hx : s''.step (.exit t value none) = some s₃) :
    s₃.result j = some (.ok value) ∧ s₃.waits j = false := by
  have hA : s'.Awaits j t := by
    obtain ⟨-, rfl⟩ := Option.ite_some_none_eq_some.mp he
    simp [Awaits, join, hc, hd, hj.symm]
  exact (h.invariant (I := (Awaits · j t)) (fun hA hm he => hA.step hm he) hA).exit hx

def twoThreads : Joins Bool := ⟨fun t => some ⟨!t, []⟩, fun _ => false, fun _ => none⟩

theorem join_returns_twoThreads : ∃ s, run step [.join false true, .detach true, .exit true 7 none] twoThreads =
    some s ∧ s.result false = some (.ok 7) :=
  ⟨_, rfl, (join_returns (s := twoThreads) (t := true) (j := false) rfl rfl Bool.false_ne_true rfl
    (.tail .refl (m := .detach true) (fun _ _ h => nomatch h) rfl) rfl).1⟩

/-- The thread exits first. -/
theorem join_after_exit : ∃ s, run step [.create false true, .create true false, .exit true 7 none,
    .join false true] (initial Bool) = some s ∧ s.result false = some (.error .esrch) :=
  ⟨_, rfl, rfl⟩

end Joins

end Rtems.Pthread
