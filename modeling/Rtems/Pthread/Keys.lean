import Mathlib.Data.List.Nodup
import Mathlib.Order.Nat
import Rtems.Library.Transition

/-! # Thread-specific data -/

namespace Rtems.Pthread

open Function Transition Option

/-! ## Histories -/

/-- 0 is NULL, and `last` is what the present thread has last set. -/
structure Keys (K T : Type*) where
  values : K → Option (T → Nat)
  exist : T → Bool
  last : K → T → Nat

inductive KeyMove (K T : Type*)
  /-- `pthread_key_create`, for a free control block. -/
  | keyCreate (key : K)
  | keyDelete (key : K)
  | setspecific (t : T) (key : K) (value : Nat)
  | create (t : T)
  | exit (t : T)

namespace Keys

variable {K T : Type*} [DecidableEq K] [DecidableEq T] {s s' : Keys K T} {t : T} {key : K}

def initial : Keys K T := ⟨fun _ => none, fun _ => false, fun _ _ => 0⟩

def getspecific (s : Keys K T) (t : T) (key : K) : Nat := ((s.values key).map (· t)).getD 0

/-- `pthread_setspecific`, which fails if there is no such key. -/
def setspecific (s : Keys K T) (t : T) (key : K) (value : Nat) : Keys K T :=
  match s.values key with
  | none => s
  | some values =>
    { s with
      values := update s.values key (some (update values t value))
      last := update s.last key (update (s.last key) t value) }

def step (s : Keys K T) : KeyMove K T → Option (Keys K T)
  | .keyCreate key =>
    if s.values key = none then
      some { s with values := update s.values key (some fun _ => 0), last := update s.last key fun _ => 0 }
    else none
  | .keyDelete key => some { s with values := update s.values key none }
  | .setspecific t key value => if s.exist t then some (s.setspecific t key value) else none
  | .create t =>
    if s.exist t then none
    else some { s with exist := update s.exist t true, last := fun key => update (s.last key) t 0 }
  | .exit t => if s.exist t then some { s with exist := update s.exist t false } else none

def Cleared (s : Keys K T) : KeyMove K T → Prop
  | .exit t => ∀ key values, s.values key = some values → values t = 0
  | _ => True

def Isolated (s : Keys K T) : Prop :=
  ∀ {key values}, s.values key = some values → ∀ t, values t = if s.exist t then s.last key t else 0

theorem Isolated.setspecific {value} (h : s.Isolated) (ht : s.exist t = true) :
    (s.setspecific t key value).Isolated := by
  unfold Keys.setspecific
  split <;> rename_i hv
  · exact h
  · intro key' values' hv' u
    by_cases hk : key' = key
    · subst hk
      simp only [update_self, some.injEq] at hv' ⊢
      subst hv'
      by_cases hu : u = t
      · simp [hu, ht]
      · simp [hu, h hv u]
    · simp only [update_of_ne hk] at hv' ⊢
      exact h hv' u

theorem Isolated.step {m} (h : s.Isolated) (hC : s.Cleared m) (he : s.step m = some s') :
    s'.Isolated := by
  cases m with
  | keyCreate key =>
    obtain ⟨-, rfl⟩ := ite_some_none_eq_some.mp he
    intro key' values hv u
    dsimp only at hv ⊢
    by_cases hk : key' = key
    · subst hk
      rw [update_self] at hv ⊢
      cases hv
      exact (ite_self 0).symm
    · rw [update_of_ne hk] at hv ⊢
      exact h hv u
  | keyDelete key =>
    cases he
    intro key' values hv u
    by_cases hk : key' = key
    · simp [hk] at hv
    · exact h ((update_of_ne hk _ _).symm.trans hv) u
  | setspecific t key value =>
    obtain ⟨ht, rfl⟩ := ite_some_none_eq_some.mp he
    exact h.setspecific ht
  | create t =>
    obtain ⟨ht, he⟩ := Option.ite_none_left_eq_some.mp he
    cases he
    intro key values hv u
    by_cases hu : u = t
    · subst hu
      simpa [ht] using h hv u
    · simpa [hu] using h hv u
  | exit t =>
    obtain ⟨-, rfl⟩ := ite_some_none_eq_some.mp he
    intro key values hv u
    by_cases hu : u = t
    · subst hu
      simpa using hC key values hv
    · simpa [hu] using h hv u

/-- If no thread leaves a value behind, a thread reads what it set. -/
theorem getspecific_isolated (h : Steps step Cleared (initial : Keys K T) s) (ht : s.exist t = true)
    (hk : s.values key ≠ none) : s.getspecific t key = s.last key t := by
  have hI : s.Isolated := h.invariant (I := Isolated) (fun hI hC he => hI.step hC he) fun hv => nomatch hv
  obtain ⟨values, hv⟩ := Option.ne_none_iff_exists'.mp hk
  rw [getspecific, hv]
  exact (hI hv t).trans (if_pos ht)

def reused : List (KeyMove Unit Unit) := [.keyCreate (), .create (), .setspecific () () 7, .exit (), .create ()]

theorem getspecific_reused : ∃ s, run step reused (initial : Keys Unit Unit) = some s ∧
    s.exist () = true ∧ s.last () () = 0 ∧ s.getspecific () () = 7 :=
  ⟨_, rfl, rfl, rfl, rfl⟩

def cleared : List (KeyMove Unit Unit) :=
  [.keyCreate (), .create (), .setspecific () () 7, .setspecific () () 0, .exit (), .create (),
    .setspecific () () 5]

theorem getspecific_isolated_cleared : ∃ s, run step cleared (initial : Keys Unit Unit) = some s ∧
    s.getspecific () () = 5 := by
  have h : Steps step Cleared (initial : Keys Unit Unit) _ :=
    .tail (.tail (.tail (.tail (.tail (.tail (.tail .refl (m := .keyCreate ()) trivial rfl)
      (m := .create ()) trivial rfl) (m := .setspecific () () 7) trivial rfl)
      (m := .setspecific () () 0) trivial rfl) (m := .exit ()) (fun _ _ hv => some.inj hv ▸ rfl) rfl)
      (m := .create ()) trivial rfl) (m := .setspecific () () 5) trivial rfl
  exact ⟨_, rfl, getspecific_isolated h rfl (Option.some_ne_none _)⟩

end Keys

/-! ## Destructors -/

/-- `calls` has the numbers of the bindings that destructors were called for. -/
structure Bindings (K : Type*) where
  bound : K → Option Nat
  next : Nat
  calls : List (K × Nat)

namespace Bindings

variable {K : Type*} {r r' : Bindings K} {key : K} {b : Nat} {keys : List K}

/-- No destructor was called for what the keys are bound to. -/
structure Fresh (r : Bindings K) (keys : List K) : Prop where
  bound {j n} : r.bound j = some n → n < r.next
  uncalled {j n} : j ∈ keys → r.bound j = some n → (j, n) ∉ r.calls
  called {c} : c ∈ r.calls → c.2 < r.next
  nodup : r.calls.Nodup

/-- Bindings from before, and ones made since. -/
structure Extends (r r' : Bindings K) (new : List (K × Nat)) : Prop where
  calls : r'.calls = r.calls ++ new
  next : r.next ≤ r'.next
  bound {j n} : r'.bound j = some n → r.bound j = some n ∨ r.next ≤ n ∧ n < r'.next
  new {c} : c ∈ new → r.bound c.1 = some c.2 ∨ r.next ≤ c.2

theorem Extends.refl : r.Extends r [] := ⟨(List.append_nil _).symm, le_rfl, Or.inl, fun hc => nomatch hc⟩

theorem Extends.trans {r'' new new'} (h : r.Extends r' new)
    (h' : r'.Extends r'' new') : r.Extends r'' (new ++ new') where
  calls := by rw [h'.calls, h.calls, List.append_assoc]
  next := h.next.trans h'.next
  bound hb := by
    rcases h'.bound hb with hb | hb
    · exact (h.bound hb).imp_right fun hn => ⟨hn.1, hn.2.trans_le h'.next⟩
    · exact Or.inr ⟨h.next.trans hb.1, hb.2⟩
  new hc := by
    rcases List.mem_append.mp hc with hc | hc
    · exact h.new hc
    · rcases h'.new hc with hb | hn
      · exact (h.bound hb).imp_right And.left
      · exact Or.inr (h.next.trans hn)

abbrev Destructors (K : Type*) := Bindings K → K → List (K × Bool)

variable [DecidableEq K] {destructor : Destructors K}

def set (r : Bindings K) (key : K) : Bool → Bindings K
  | false => { r with bound := update r.bound key none }
  | true => { r with bound := update r.bound key (some r.next), next := r.next + 1 }

def call (destructor : Destructors K) (r : Bindings K) (key : K) (b : Nat) : Bindings K :=
  (destructor r key).foldl (fun r a => r.set a.1 a.2) { r with calls := r.calls ++ [(key, b)] }

/-- The inner loop, with `are_all_null`. -/
def round (destructor : Destructors K) : List K → Bindings K → Bindings K × Bool
  | [], r => (r, true)
  | key :: keys, r =>
    match r.bound key with
    | none => round destructor keys r
    | some b =>
      let r := r.call destructor key b
      let (r', areAllNull) := round destructor keys r
      (r', (r.bound key).isNone && areAllNull)

def rounds (destructor : Destructors K) (keys : List K) : Nat → Bindings K → Bindings K
  | 0, r => r
  | n + 1, r =>
    let (r', areAllNull) := round destructor keys r
    if areAllNull then r' else rounds destructor keys n r'

def destructorIterations : Nat := 4

def runDestructors (destructor : Destructors K) (keys : List K) (r : Bindings K) : Bindings K :=
  rounds destructor keys destructorIterations r

/-! ### The calls of a run -/

structure Call (K : Type*) where
  state : Bindings K
  key : K
  binding : Nat

def Call.after (destructor : Destructors K) (c : Call K) : Bindings K :=
  c.state.call destructor c.key c.binding

def roundCalls (destructor : Destructors K) : List K → Bindings K → List (Call K)
  | [], _ => []
  | key :: keys, r =>
    match r.bound key with
    | none => roundCalls destructor keys r
    | some b => ⟨r, key, b⟩ :: roundCalls destructor keys (r.call destructor key b)

def roundsCalls (destructor : Destructors K) (keys : List K) : Nat → Bindings K → List (Call K)
  | 0, _ => []
  | n + 1, r => roundCalls destructor keys r ++
      if (round destructor keys r).2 then [] else roundsCalls destructor keys n (round destructor keys r).1

/-- The destructors called set their own keys. -/
def Releases (destructor : Destructors K) (calls : List (Call K)) : Prop :=
  ∀ c ∈ calls, (c.after destructor).bound c.key ≠ some c.binding

/-- The destructors called leave other keys alone that are bound. -/
def Leaves (destructor : Destructors K) (keys : List K) (calls : List (Call K)) : Prop :=
  ∀ c ∈ calls, ∀ j ∈ keys, j ≠ c.key → c.state.bound j ≠ none →
    (c.after destructor).bound j = c.state.bound j

/-- No destructor called for a key before it changes the key. -/
def Keeps (destructor : Destructors K) (keys : List K) (r : Bindings K) (j : K) : Prop :=
  ∀ c ∈ roundCalls destructor (keys.takeWhile (· ≠ j)) r, (c.after destructor).bound j = r.bound j

theorem set_extends {value} : r.Extends (r.set key value) [] where
  calls := by cases value <;> exact (List.append_nil _).symm
  next := by
    cases value
    · exact le_rfl
    · exact Nat.le_succ _
  bound {j b} hb := by
    by_cases hj : j = key
    · subst hj
      cases value <;> simp [set] at hb ⊢
      omega
    · cases value <;> exact Or.inl ((update_of_ne hj _ _).symm.trans hb)
  new hc := nomatch hc

theorem sets_extends {sets : List (K × Bool)} :
    r.Extends (sets.foldl (fun r a => r.set a.1 a.2) r) [] := by
  induction sets generalizing r with
  | nil => exact .refl
  | cons a sets ih => exact set_extends.trans ih

theorem call_extends (hb : r.bound key = some b) : r.Extends (r.call destructor key b) [(key, b)] := by
  have h : r.Extends { r with calls := r.calls ++ [(key, b)] } [(key, b)] :=
    ⟨rfl, le_rfl, Or.inl, fun hc => Or.inl (List.mem_singleton.mp hc ▸ hb)⟩
  exact h.trans sets_extends

theorem Fresh.call (h : r.Fresh (key :: keys)) (hk : key ∉ keys) (hb : r.bound key = some b) :
    (r.call destructor key b).Fresh keys := by
  have hE : r.Extends (r.call destructor key b) _ := call_extends hb
  refine ⟨fun {j n} hn => ?_, fun {j n} hj hn => ?_, fun {c} hc => ?_, ?_⟩
  · exact (hE.bound hn).elim (fun ho => (h.bound ho).trans_le hE.next) And.right
  · rw [hE.calls, List.mem_append, List.mem_singleton]
    rintro (hc | hc)
    · rcases hE.bound hn with ho | ho
      · exact h.uncalled (List.mem_cons_of_mem key hj) ho hc
      · exact (h.called hc).not_ge ho.1
    · cases hc
      exact hk hj
  · rw [hE.calls, List.mem_append, List.mem_singleton] at hc
    rcases hc with hc | rfl
    · exact (h.called hc).trans_le hE.next
    · exact (h.bound hb).trans_le hE.next
  · rw [hE.calls]
    exact List.nodup_append'.mpr ⟨h.nodup, List.nodup_singleton _,
      List.disjoint_singleton.mpr (h.uncalled List.mem_cons_self hb)⟩

theorem round_some (hb : r.bound key = some b) : round destructor (key :: keys) r =
    ((round destructor keys (r.call destructor key b)).1,
      ((r.call destructor key b).bound key).isNone && (round destructor keys (r.call destructor key b)).2) := by
  simp only [round, hb]

theorem roundCalls_some (hb : r.bound key = some b) : roundCalls destructor (key :: keys) r =
    ⟨r, key, b⟩ :: roundCalls destructor keys (r.call destructor key b) := by
  simp only [roundCalls, hb]

theorem round_none (hb : r.bound key = none) :
    round destructor (key :: keys) r = round destructor keys r ∧
      roundCalls destructor (key :: keys) r = roundCalls destructor keys r := by
  simp only [round, roundCalls, hb, and_self]

theorem round_append {xs ys : List K} :
    (round destructor (xs ++ ys) r).1 = (round destructor ys (round destructor xs r).1).1 ∧
      roundCalls destructor (xs ++ ys) r =
        roundCalls destructor xs r ++ roundCalls destructor ys (round destructor xs r).1 := by
  induction xs generalizing r with
  | nil => exact ⟨rfl, rfl⟩
  | cons key xs ih =>
    rw [List.cons_append]
    cases hb : r.bound key with
    | none =>
      rw [(round_none hb).1, (round_none hb).1, (round_none hb).2, (round_none hb).2]
      exact ih
    | some b =>
      rw [round_some hb, round_some hb, roundCalls_some hb, roundCalls_some hb]
      exact ⟨ih.1, congrArg (List.cons _) ih.2⟩

variable (destructor keys r) in
theorem round_extends : ∃ new, r.Extends (round destructor keys r).1 new ∧
    (new.map Prod.fst).Sublist keys ∧ new = (roundCalls destructor keys r).map fun c => (c.key, c.binding) := by
  induction keys generalizing r with
  | nil => exact ⟨[], .refl, .slnil, rfl⟩
  | cons key keys ih =>
    cases hb : r.bound key with
    | none =>
      obtain ⟨new, hE, hS, hC⟩ := ih (r := r)
      rw [(round_none hb).1, (round_none hb).2]
      exact ⟨new, hE, hS.cons key, hC⟩
    | some b =>
      obtain ⟨new, hE, hS, hC⟩ := ih (r := r.call destructor key b)
      rw [round_some hb, roundCalls_some hb]
      exact ⟨(key, b) :: new, (call_extends hb).trans hE, hS.cons_cons key, by rw [hC]; rfl⟩

theorem Fresh.after_round (h : r.Fresh keys) (hk : keys.Nodup) : (round destructor keys r).1.Fresh [] := by
  induction keys generalizing r with
  | nil => exact h
  | cons key keys ih =>
    obtain ⟨hkey, hk⟩ := List.nodup_cons.mp hk
    cases hb : r.bound key with
    | none =>
      rw [(round_none hb).1]
      exact ih ⟨h.bound, fun hj => h.uncalled (List.mem_cons_of_mem key hj), h.called, h.nodup⟩ hk
    | some b =>
      rw [round_some hb]
      exact ih (h.call hkey hb) hk

/-- Before a call and after it, in the same round. -/
theorem extends_of_mem {c} (hc : c ∈ roundCalls destructor keys r) : c.key ∈ keys ∧
    c.state.bound c.key = some c.binding ∧ (∃ new, r.Extends c.state new) ∧
      ∃ new, (c.after destructor).Extends (round destructor keys r).1 new := by
  induction keys generalizing r with
  | nil => cases hc
  | cons key keys ih =>
    cases hb : r.bound key with
    | none =>
      rw [(round_none hb).2] at hc
      obtain ⟨hk, hcb, hE, hE'⟩ := ih hc
      rw [(round_none hb).1]
      exact ⟨List.mem_cons_of_mem key hk, hcb, hE, hE'⟩
    | some b =>
      rw [roundCalls_some hb] at hc
      rw [round_some hb]
      rcases List.mem_cons.mp hc with rfl | hc
      · obtain ⟨new, hE, -⟩ := round_extends (r.call destructor key b) keys destructor
        exact ⟨List.mem_cons_self, hb, ⟨[], .refl⟩, new, hE⟩
      · obtain ⟨hk, hcb, ⟨new, hE⟩, hE'⟩ := ih hc
        exact ⟨List.mem_cons_of_mem key hk, hcb, ⟨_, (call_extends hb).trans hE⟩, hE'⟩

theorem Fresh.binding_lt {c} (h : r.Fresh keys) (hc : c ∈ roundCalls destructor keys r) :
    c.binding < (c.after destructor).next := by
  obtain ⟨-, hb, ⟨new, hE⟩, -⟩ := extends_of_mem hc
  have hlt : c.binding < c.state.next :=
    (hE.bound hb).elim (fun ho => (h.bound ho).trans_le hE.next) And.right
  exact hlt.trans_le (call_extends hb).next

theorem Fresh.again (h : r.Fresh keys) (hk : keys.Nodup)
    (hR : Releases destructor (roundCalls destructor keys r)) : (round destructor keys r).1.Fresh keys := by
  obtain ⟨new, hE, -, rfl⟩ := round_extends r keys destructor
  have hF : (round destructor keys r).1.Fresh [] := h.after_round hk
  refine ⟨hF.bound, fun {j n} hj hn hc => ?_, hF.called, hF.nodup⟩
  rw [hE.calls] at hc
  rcases List.mem_append.mp hc with hc | hc
  · rcases hE.bound hn with ho | ho
    · exact h.uncalled hj ho hc
    · exact (h.called hc).not_ge ho.1
  · -- the destructor has set the key, and the binding does not come back
    obtain ⟨c, hcm, heq⟩ := List.mem_map.mp hc
    cases heq
    obtain ⟨-, -, -, new, hE'⟩ := extends_of_mem hcm
    rcases hE'.bound hn with ho | ho
    · exact hR c hcm ho
    · exact (h.binding_lt hcm).not_ge ho.1

theorem round_stays {j n} (hs : ∀ c ∈ roundCalls destructor keys r, c.state.bound j = some n →
    (c.after destructor).bound j = some n) (hn : r.bound j = some n) :
    (round destructor keys r).1.bound j = some n := by
  induction keys generalizing r with
  | nil => exact hn
  | cons key keys ih =>
    cases hb : r.bound key with
    | none =>
      rw [(round_none hb).2] at hs
      rw [(round_none hb).1]
      exact ih hs hn
    | some b =>
      rw [roundCalls_some hb] at hs
      rw [round_some hb]
      exact ih (fun c hc => hs c (List.mem_cons_of_mem _ hc)) (hs _ List.mem_cons_self hn)

theorem exists_call {pre post : List K} {j n} (hn : (round destructor pre r).1.bound j = some n) :
    ∃ c ∈ roundCalls destructor (pre ++ j :: post) r, c.key = j ∧ c.binding = n := by
  rw [round_append.2, roundCalls_some hn]
  exact ⟨_, List.mem_append_right _ List.mem_cons_self, rfl, rfl⟩

/-! ### All rounds -/

variable (destructor r) in
theorem rounds_extends (hk : keys.Nodup) (n : Nat) : ∃ new,
    r.Extends (rounds destructor keys n r) new ∧ (∀ c ∈ new, c.1 ∈ keys) ∧
      ∀ key, (new.map Prod.fst).count key ≤ n := by
  induction n generalizing r with
  | zero => exact ⟨[], .refl, fun _ hc => (nomatch hc), fun _ => le_rfl⟩
  | succ n ih =>
    obtain ⟨new, hE, hS, -⟩ := round_extends r keys destructor
    have hin : ∀ c ∈ new, c.1 ∈ keys := fun c hc => hS.subset (List.mem_map_of_mem hc)
    have h1 : ∀ key, (new.map Prod.fst).count key ≤ 1 :=
      fun key => List.nodup_iff_count_le_one.mp (hS.nodup hk) key
    simp only [rounds]
    split
    · exact ⟨new, hE, hin, fun key => (h1 key).trans (Nat.le_add_left 1 n)⟩
    · obtain ⟨new', hE', hin', hn'⟩ := ih (r := (round destructor keys r).1)
      refine ⟨new ++ new', hE.trans hE', fun c hc => ?_, fun key => ?_⟩
      · exact (List.mem_append.mp hc).elim (hin c) (hin' c)
      · rw [List.map_append, List.count_append, Nat.add_comm]
        exact Nat.add_le_add (hn' key) (h1 key)

variable (destructor r) in
theorem round_extends_rounds (hk : keys.Nodup) (n : Nat) : ∃ new,
    (round destructor keys r).1.Extends (rounds destructor keys (n + 1) r) new := by
  simp only [rounds]
  split
  · exact ⟨[], .refl⟩
  · obtain ⟨new, hE, -⟩ := rounds_extends (round destructor keys r).1 destructor hk n
    exact ⟨new, hE⟩

/-- The value bound at exit has its call just if it is kept until then. -/
theorem mem_calls_iff {j m} (hk : keys.Nodup) (hc : r.calls = []) (hj : j ∈ keys)
    (hb : r.bound j = some m) (hm : m < r.next) (n : Nat) :
    (j, m) ∈ (rounds destructor keys (n + 1) r).calls ↔ Keeps destructor keys r j := by
  obtain ⟨pre, post, rfl⟩ := List.append_of_mem hj
  have hpre : j ∉ pre := fun hp => List.disjoint_of_nodup_append hk hp List.mem_cons_self
  have htake : (pre ++ j :: post).takeWhile (· ≠ j) = pre := by
    rw [List.takeWhile_append_of_pos fun x hx => by simpa using ne_of_mem_of_not_mem hx hpre]
    simp
  obtain ⟨new, hE⟩ := round_extends_rounds r destructor hk n
  obtain ⟨new₁, hE₁, hS₁, -⟩ := round_extends r pre destructor
  obtain ⟨new₂, hE₂, -, hnew₂⟩ := round_extends (round destructor pre r).1 (j :: post) destructor
  rw [← round_append.1] at hE₂
  unfold Keeps
  rw [htake, hE.calls, hE₂.calls, hE₁.calls, hc, List.nil_append, hb]
  constructor
  · intro h c hcm
    obtain ⟨-, hcb, ⟨new₃, hE₃⟩, new₄, hE₄⟩ := extends_of_mem hcm
    have hlt : m < (c.after destructor).next := (hm.trans_le hE₃.next).trans_le (call_extends hcb).next
    have hv : (round destructor pre r).1.bound j = some m := by
      have hnew : (j, m) ∈ new₂ ++ new := by
        rw [List.append_assoc] at h
        refine (List.mem_append.mp h).resolve_left fun h1 => hpre (hS₁.subset (List.mem_map_of_mem h1))
      exact ((hE₂.trans hE).new hnew).resolve_right (hm.trans_le hE₁.next).not_ge
    exact (hE₄.bound hv).resolve_right fun ho => hlt.not_ge ho.1
  · intro h
    rw [hnew₂, roundCalls_some (round_stays (fun c hcm _ => h c hcm) hb)]
    simp

theorem Fresh.nodup_rounds (h : r.Fresh keys) (hk : keys.Nodup) (n : Nat)
    (hR : Releases destructor (roundsCalls destructor keys n r)) :
    (rounds destructor keys (n + 1) r).calls.Nodup := by
  induction n generalizing r with
  | zero =>
    simp only [rounds]
    split <;> exact (h.after_round hk).nodup
  | succ n ih =>
    rw [rounds]
    dsimp only
    split <;> rename_i hf
    · exact (h.after_round hk).nodup
    · rw [roundsCalls, if_neg hf] at hR
      exact ih (h.again hk fun c hc => hR c (List.mem_append_left _ hc)) fun c hc =>
        hR c (List.mem_append_right _ hc)

/-- A key that its destructor does not set is still bound at the end of the round. -/
theorem round_unreleased {all : List K} {c} (hk : keys.Nodup) (hall : ∀ j ∈ keys, j ∈ all)
    (hL : Leaves destructor all (roundCalls destructor keys r)) (hc : c ∈ roundCalls destructor keys r)
    (hb : (c.after destructor).bound c.key = some c.binding) :
    (round destructor keys r).1.bound c.key = some c.binding ∧ (round destructor keys r).2 = false := by
  induction keys generalizing r with
  | nil => cases hc
  | cons key keys ih =>
    obtain ⟨hkey, hk⟩ := List.nodup_cons.mp hk
    have hall' : ∀ j ∈ keys, j ∈ all := fun j hj => hall j (List.mem_cons_of_mem _ hj)
    cases hr : r.bound key with
    | none =>
      rw [(round_none hr).2] at hL hc
      rw [(round_none hr).1]
      exact ih hk hall' hL hc
    | some b =>
      rw [roundCalls_some hr] at hL hc
      rw [round_some hr]
      rcases List.mem_cons.mp hc with rfl | hc
      · refine ⟨round_stays (fun d hd hdb => ?_) hb, ?_⟩
        · have hne : key ≠ d.key := fun he => hkey (he ▸ (extends_of_mem hd).1)
          rw [hL d (List.mem_cons_of_mem _ hd) key (hall key List.mem_cons_self) hne (by rw [hdb]; nofun), hdb]
        · rw [show (r.call destructor key b).bound key = some b from hb]
          rfl
      · obtain ⟨h1, h2⟩ := ih hk hall' (fun d hd => hL d (List.mem_cons_of_mem _ hd)) hc
        exact ⟨h1, by rw [h2, Bool.and_false]⟩

theorem called_again {n j m} (hk : keys.Nodup) (hj : j ∈ keys)
    (hL : Leaves destructor keys (roundsCalls destructor keys (n + 1) r)) (hb : r.bound j = some m)
    (hc : (j, m) ∈ r.calls) : ¬ (rounds destructor keys (n + 1) r).calls.Nodup := by
  obtain ⟨pre, post, rfl⟩ := List.append_of_mem hj
  have hpre : j ∉ pre := fun hp => List.disjoint_of_nodup_append hk hp List.mem_cons_self
  have hv : (round destructor pre r).1.bound j = some m := by
    refine round_stays (fun d hd hdb => ?_) hb
    have hne : j ≠ d.key := fun he => hpre (he ▸ (extends_of_mem hd).1)
    have hmem : d ∈ roundsCalls destructor (pre ++ j :: post) (n + 1) r := by
      rw [roundsCalls, round_append.2]
      simp [hd]
    rw [hL d hmem j hj hne (by rw [hdb]; nofun), hdb]
  have hx : ∃ c ∈ roundCalls destructor (pre ++ j :: post) r, c.key = j ∧ c.binding = m := exists_call hv
  obtain ⟨d, hd, rfl, rfl⟩ := hx
  obtain ⟨new, hE, -, rfl⟩ := round_extends r (pre ++ d.key :: post) destructor
  obtain ⟨new', hE'⟩ := round_extends_rounds r destructor hk n
  rw [hE'.calls, hE.calls]
  intro hnd
  exact List.disjoint_of_nodup_append hnd.of_append_left hc (List.mem_map_of_mem hd)

theorem releases_of_nodup (hk : keys.Nodup) (n : Nat)
    (hL : Leaves destructor keys (roundsCalls destructor keys (n + 1) r))
    (hnd : (rounds destructor keys (n + 1) r).calls.Nodup) :
    Releases destructor (roundsCalls destructor keys n r) := by
  induction n generalizing r with
  | zero => exact fun c hc => nomatch hc
  | succ n ih =>
    intro c hc
    rw [roundsCalls] at hc hL
    rw [rounds] at hnd
    dsimp only at hnd
    have hL₁ : Leaves destructor keys (roundCalls destructor keys r) :=
      fun d hd => hL d (List.mem_append_left _ hd)
    rcases List.mem_append.mp hc with hc | hc
    · intro hb
      obtain ⟨h1, h2⟩ := round_unreleased hk (fun _ hj => hj) hL₁ hc hb
      rw [if_neg (by simp [h2])] at hL hnd
      have hmem := (extends_of_mem hc).1
      exact called_again hk hmem (fun d hd => hL d (List.mem_append_right _ hd)) h1 (by
        obtain ⟨new, hE, -, rfl⟩ := round_extends r keys destructor
        rw [hE.calls]
        exact List.mem_append_right _ (List.mem_map_of_mem hc)) hnd
    · split at hc <;> rename_i hf
      · cases hc
      · rw [if_neg hf] at hL hnd
        exact ih (fun d hd => hL d (List.mem_append_right _ hd)) hnd c hc

/-- One call for each value bound at exit, none for a value twice. -/
theorem runDestructors_once (hk : keys.Nodup) (hc : r.calls = [])
    (hb : ∀ key b, r.bound key = some b → b < r.next) :
    ((∀ key ∈ keys, ∀ b, r.bound key = some b → (key, b) ∈ (runDestructors destructor keys r).calls) ↔
      ∀ key ∈ keys, r.bound key ≠ none → Keeps destructor keys r key) ∧
    (Releases destructor (roundsCalls destructor keys (destructorIterations - 1) r) →
      (runDestructors destructor keys r).calls.Nodup) ∧
    (Leaves destructor keys (roundsCalls destructor keys destructorIterations r) →
      (runDestructors destructor keys r).calls.Nodup →
      Releases destructor (roundsCalls destructor keys (destructorIterations - 1) r)) ∧
    (∀ c ∈ (runDestructors destructor keys r).calls,
      c.1 ∈ keys ∧ (r.bound c.1 = some c.2 ∨ r.next ≤ c.2)) ∧
    ∀ key, ((runDestructors destructor keys r).calls.map Prod.fst).count key ≤ destructorIterations := by
  have hF : r.Fresh keys := by
    refine ⟨fun {j n} hn => hb j n hn, fun _ _ => ?_, fun h => ?_, ?_⟩ <;> rw [hc] at *
    · exact List.not_mem_nil
    · cases h
    · exact List.nodup_nil
  obtain ⟨new, hE, hin, hn⟩ := rounds_extends r destructor hk destructorIterations
  have hnew : (runDestructors destructor keys r).calls = new := by rw [runDestructors, hE.calls, hc]; rfl
  refine ⟨?_, hF.nodup_rounds hk 3, releases_of_nodup hk 3, ?_, ?_⟩
  · refine forall₂_congr fun key hkey => ⟨fun h hne => ?_, fun h b hkb => ?_⟩
    · obtain ⟨b, hkb⟩ := Option.ne_none_iff_exists'.mp hne
      exact (mem_calls_iff hk hc hkey hkb (hb key b hkb) 3).mp (h b hkb)
    · exact (mem_calls_iff hk hc hkey hkb (hb key b hkb) 3).mpr (h (by rw [hkb]; nofun))
  · rw [hnew]
    exact fun c hc => ⟨hin c hc, hE.new hc⟩
  · rw [hnew]
    exact hn

/-- Two keys are bound; the destructor of the third, which is not, would not set it. -/
def twoBound : Bindings (Fin 3) := ⟨fun key => if key = 2 then none else some key, 2, []⟩

def clearing : Destructors (Fin 3) := fun _ key => if key = 2 then [] else [(key, false)]

theorem runDestructors_once_twoBound :
    (∀ key ∈ [0, 1, 2], ∀ b, twoBound.bound key = some b →
      (key, b) ∈ (runDestructors clearing [0, 1, 2] twoBound).calls) ∧
    (runDestructors clearing [0, 1, 2] twoBound).calls.Nodup ∧
    ∀ c ∈ (runDestructors clearing [0, 1, 2] twoBound).calls, twoBound.bound c.1 = some c.2 ∨ 2 ≤ c.2 := by
  obtain ⟨h1, h2, -, h4, -⟩ :=
    @runDestructors_once _ twoBound [0, 1, 2] _ clearing (by decide) rfl (by decide)
  exact ⟨h1.mpr (by unfold Keeps; decide), h2 (by unfold Releases; decide), fun c hc => (h4 c hc).2⟩

def oneBound : Bindings Unit := ⟨fun _ => some 0, 1, []⟩

theorem runDestructors_again :
    (runDestructors (fun _ _ => []) [()] oneBound).calls = List.replicate 4 ((), 0) := rfl

end Bindings

end Rtems.Pthread
