import Mathlib.Data.List.Basic
import Rtems.Library.Transition

/-!
# Symbol tables of the monitor

A read that is not of a symbol created, through NULL or from behind the last one, gives `none`.
-/

namespace Rtems.Symbols

open Transition

structure Symbol where
  name : String
  value : BitVec 32
  deriving DecidableEq

/-- `rtems_symbol_table_t`; `addresses` holds the `next` symbols created. -/
structure Table where
  addresses : List Symbol
  size : Nat
  sorted : Bool

/-- `rtems_symbol_table_create`. -/
def Table.empty : Table := ⟨[], 0, false⟩

def growthFactor : Nat := 30

def Table.create (t : Table) (name : String) (value : BitVec 32) : Table :=
  { addresses := t.addresses ++ [⟨name, value⟩]
    size :=
      if t.size ≤ t.addresses.length then
        if t.size = 0 then 100 else t.size + t.size / (100 / growthFactor)
      else t.size
    sorted := false }

/-- The loop of `rtems_symbol_value_lookup` and what is behind it. -/
def search (l : List Symbol) (value : BitVec 32) (base elements : Nat) (best : Option Nat)
    (bestDistance : BitVec 32) : Option (Option Nat) :=
  if elements = 0 then
    match l[base]? with
    | none => none
    | some s => if value = s.value then some (some base) else some best
  else
    match l[base + elements / 2]? with
    | none => none
    | some s =>
      if value < s.value then search l value base (elements / 2) best bestDistance
      else if s.value < value then
        let rest := elements / 2 - if elements % 2 = 0 then 1 else 0
        if value - s.value < bestDistance then
          search l value (base + elements / 2 + 1) rest (some (base + elements / 2)) (value - s.value)
        else search l value (base + elements / 2 + 1) rest best bestDistance
      else some (some (base + elements / 2))
termination_by elements

section

variable (qsort : List Symbol → List Symbol)

def Table.sort (t : Table) : Table := { t with addresses := qsort t.addresses, sorted := true }

/-- `rtems_symbol_value_lookup`; a symbol is given by its index. -/
def Table.valueLookup (t : Table) (value : BitVec 32) : Option (Table × Option Nat) :=
  if t.size = 0 then some (t, none)
  else
    let t := if t.sorted then t else t.sort qsort
    (search t.addresses value 0 t.addresses.length none 0xFFFFFFFF#32).map fun sp => (t, sp)

def Table.valueLookupExact (t : Table) (value : BitVec 32) : Option (Option Nat) :=
  if t.sorted then
    match t.valueLookup qsort value with
    | some (t, some sp) => t.addresses[sp]?.map fun s => if s.value = value then some sp else none
    | _ => none
  else some (t.addresses.findIdx? fun s => s.value = value)

inductive Call
  | create (name : String) (value : BitVec 32)
  | lookup (value : BitVec 32)

def Table.step (t : Table) : Call → Option Table
  | .create name value => some (t.create name value)
  | .lookup value => (t.valueLookup qsort value).map Prod.fst

end

def Ordered (l : List Symbol) : Prop := l.Pairwise fun s s' => s.value ≤ s'.value

def Sorts (qsort : List Symbol → List Symbol) : Prop := ∀ l, (qsort l).Perm l ∧ Ordered (qsort l)

def Closest (l : List Symbol) (value : BitVec 32) : Option Nat → Prop
  | some i => ∃ s, l[i]? = some s ∧ s.value ≤ value ∧ ∀ s' ∈ l, s'.value ≤ value → s'.value ≤ s.value
  | none => ∀ s ∈ l, value < s.value

def Matching (l : List Symbol) (value : BitVec 32) : Option Nat → Prop
  | some i => ∃ s, l[i]? = some s ∧ s.value = value
  | none => ∀ s ∈ l, s.value ≠ value

/-! ## The search -/

variable {l : List Symbol} {s s' : Symbol} {value : BitVec 32}

theorem Ordered.le {i j : Nat} (h : Ordered l) (hij : i ≤ j) (hi : l[i]? = some s) (hj : l[j]? = some s') :
    s.value ≤ s'.value := by
  obtain ⟨hi', rfl⟩ := List.getElem?_eq_some_iff.mp hi
  obtain ⟨hj', rfl⟩ := List.getElem?_eq_some_iff.mp hj
  rcases Nat.lt_or_eq_of_le hij with hlt | rfl
  · exact List.pairwise_iff_getElem.mp h i j hi' hj' hlt
  · exact BitVec.le_refl _

structure Narrowed (l : List Symbol) (value : BitVec 32) (base elements : Nat) (best : Option Nat)
    (bestDistance : BitVec 32) : Prop where
  le : base + elements ≤ l.length
  below : ∀ j s, j < base → l[j]? = some s → s.value < value ∧ bestDistance ≤ value - s.value
  above : ∀ j s, base + elements ≤ j → l[j]? = some s → value < s.value
  unseen : best = none → bestDistance = 0xFFFFFFFF#32
  seen : ∀ i, best = some i → ∃ s, l[i]? = some s ∧ s.value < value ∧ value - s.value = bestDistance

theorem Narrowed.lower {base elements best bestDistance}
    (h : Narrowed l value base elements best bestDistance) (hl : Ordered l)
    (hs : l[base + elements / 2]? = some s) (hv : value < s.value) :
    Narrowed l value base (elements / 2) best bestDistance where
  le := by have := h.le; omega
  below := h.below
  above := by
    intro j s' hj hs'
    have := hl.le hj hs hs'
    bv_omega
  unseen := h.unseen
  seen := h.seen

theorem Narrowed.upper {base elements rest best best' bestDistance bestDistance'}
    (h : Narrowed l value base elements best bestDistance) (hl : Ordered l) (he : elements ≠ 0)
    (hs : l[base + elements / 2]? = some s) (hv : s.value < value)
    (hr : rest = elements / 2 - if elements % 2 = 0 then 1 else 0)
    (hd : bestDistance' ≤ value - s.value)
    (hn : best' = none → bestDistance' = 0xFFFFFFFF#32)
    (hb : ∀ i, best' = some i → ∃ s, l[i]? = some s ∧ s.value < value ∧ value - s.value = bestDistance') :
    Narrowed l value (base + elements / 2 + 1) rest best' bestDistance' where
  le := by have := h.le; split at hr <;> omega
  below := by
    intro j s' hj hs'
    have := hl.le (by omega) hs' hs
    bv_omega
  above := by
    intro j s' hj hs'
    refine h.above j s' ?_ hs'
    split at hr <;> omega
  unseen := hn
  seen := hb

theorem closest_of_eq {i : Nat} (hs : l[i]? = some s) (hv : s.value = value) : Closest l value (some i) :=
  ⟨s, hs, by bv_omega, fun _ _ h => by rwa [hv]⟩

/-- At the end every symbol from `base` on exceeds the key, and one is there. -/
theorem Narrowed.closest {base best bestDistance} (h : Narrowed l value base 0 best bestDistance)
    (hs : l[base]? = some s) : Closest l value best := by
  have hv := h.above base s (by omega) hs
  cases best with
  | none =>
    intro s' hs'
    obtain ⟨j, hj⟩ := List.mem_iff_getElem?.mp hs'
    by_cases hlt : j < base
    · have := h.below j s' hlt hj
      have := h.unseen rfl
      bv_omega
    · exact h.above j s' (by omega) hj
  | some i =>
    obtain ⟨s₀, hi, hlt, hd⟩ := h.seen i rfl
    refine ⟨s₀, hi, by bv_omega, fun s' hs' hle => ?_⟩
    obtain ⟨j, hj⟩ := List.mem_iff_getElem?.mp hs'
    by_cases hlt : j < base
    · have := h.below j s' hlt hj
      bv_omega
    · have := h.above j s' (by omega) hj
      bv_omega

theorem search_closest {base elements best bestDistance} (hl : Ordered l)
    (h : Narrowed l value base elements best bestDistance) (hg : ∃ s ∈ l, value ≤ s.value) :
    ∃ r, search l value base elements best bestDistance = some r ∧ Closest l value r := by
  fun_induction search l value base elements best bestDistance with
  | case1 base best bestDistance hb =>
    obtain ⟨s, hs, hv⟩ := hg
    obtain ⟨j, hj⟩ := List.mem_iff_getElem?.mp hs
    have hlt : j < l.length := (List.getElem?_eq_some_iff.mp hj).1
    have := h.below j s (by simp at hb; omega) hj
    bv_omega
  | case2 base best bestDistance s hs hv => exact ⟨_, rfl, closest_of_eq hs hv.symm⟩
  | case3 base best bestDistance s hs => exact ⟨_, rfl, h.closest hs⟩
  | case4 base elements best bestDistance he hs =>
    have := h.le
    simp at hs
    omega
  | case5 base elements best bestDistance he s hs hv ih => exact ih (h.lower hl hs hv)
  | case6 base elements best bestDistance he s hs _ hv rest hd ih =>
    refine ih (h.upper hl he hs hv rfl (BitVec.le_refl _) (by simp) ?_)
    intro i hi
    cases hi
    exact ⟨s, hs, hv, rfl⟩
  | case7 base elements best bestDistance he s hs _ hv rest hd ih =>
    exact ih (h.upper hl he hs hv rfl (BitVec.not_lt.mp hd) h.unseen h.seen)
  | case8 base elements best bestDistance he s hs h₁ h₂ =>
    exact ⟨_, rfl, closest_of_eq hs (by bv_omega)⟩

theorem search_eq_none {base elements best bestDistance} (hl : ∀ s ∈ l, s.value < value)
    (hb : base + elements = l.length) : search l value base elements best bestDistance = none := by
  have hlt {i : Nat} {s} (hs : l[i]? = some s) : s.value < value := hl s (List.mem_of_getElem? hs)
  fun_induction search l value base elements best bestDistance with
  | case1 | case4 => rfl
  | case2 base best bestDistance s hs | case3 base best bestDistance s hs =>
    have := (List.getElem?_eq_some_iff.mp hs).1
    omega
  | case5 base elements best bestDistance he s hs hv | case8 base elements best bestDistance he s hs hv =>
    have := hlt hs
    bv_omega
  | case6 base elements best bestDistance he s hs _ hv rest hd ih
  | case7 base elements best bestDistance he s hs _ hv rest hd ih =>
    refine ih ?_
    simp only [rest]
    split <;> omega

/-! ## Tables -/

variable {qsort : List Symbol → List Symbol} {t t' : Table}

structure Table.Valid (t : Table) : Prop where
  ordered : t.sorted = true → Ordered t.addresses
  size : t.size = 0 ↔ t.addresses.length = 0

theorem Table.Valid.sort (hq : Sorts qsort) (h : t.Valid) : (t.sort qsort).Valid where
  ordered := fun _ => (hq t.addresses).2
  size := by simpa [Table.sort, (hq t.addresses).1.length_eq] using h.size

theorem Table.create_valid (t : Table) (name : String) (value : BitVec 32) : (t.create name value).Valid where
  ordered := by simp [Table.create]
  size := by
    simp only [Table.create, growthFactor, List.length_append, List.length_singleton]
    split
    · split <;> omega
    · omega

def Table.prepared (qsort : List Symbol → List Symbol) (t : Table) : Table :=
  if t.sorted then t else t.sort qsort

theorem Table.Valid.prepared (hq : Sorts qsort) (h : t.Valid) :
    (t.prepared qsort).Valid ∧ Ordered (t.prepared qsort).addresses ∧
      (t.prepared qsort).addresses.Perm t.addresses := by
  unfold Table.prepared
  split
  · exact ⟨h, h.ordered ‹_›, .refl _⟩
  · exact ⟨h.sort hq, (hq _).2, (hq _).1⟩

theorem Table.Valid.step (hq : Sorts qsort) (h : t.Valid) {c} (he : t.step qsort c = some t') : t'.Valid := by
  cases c with
  | create name value => cases he; exact t.create_valid name value
  | lookup value =>
    simp only [Table.step, valueLookup, Option.map_eq_some_iff] at he
    obtain ⟨⟨t₁, r⟩, he, rfl⟩ := he
    split at he
    · cases he
      exact h
    · obtain ⟨r', -, he⟩ := Option.map_eq_some_iff.mp he
      cases he
      exact (h.prepared hq).1

theorem Table.Valid.valueLookup (hq : Sorts qsort) (h : t.Valid)
    (hg : t.addresses = [] ∨ ∃ s ∈ t.addresses, value ≤ s.value) :
    ∃ t' r, t.valueLookup qsort value = some (t', r) ∧ t'.addresses.Perm t.addresses ∧
      Closest t'.addresses value r ∧ (t.sorted = true → t' = t) := by
  by_cases hz : t.size = 0
  · have hn := List.length_eq_zero_iff.mp (h.size.mp hz)
    exact ⟨t, none, by simp [Table.valueLookup, hz], .refl _, by simp [Closest, hn], fun _ => rfl⟩
  obtain ⟨s, hs, hv⟩ := hg.resolve_left fun hn => hz (h.size.mpr (by simp [hn]))
  obtain ⟨-, ho, hp⟩ := h.prepared hq
  have hw : Narrowed (t.prepared qsort).addresses value 0 (t.prepared qsort).addresses.length none 0xFFFFFFFF#32 :=
    ⟨by omega, by simp, fun j s hj hs => by have := (List.getElem?_eq_some_iff.mp hs).1; omega, by simp, by simp⟩
  obtain ⟨r, hr, hc⟩ := search_closest ho hw ⟨s, hp.mem_iff.mpr hs, hv⟩
  refine ⟨t.prepared qsort, r, ?_, hp, hc, fun hs => if_pos hs⟩
  unfold Table.valueLookup
  rw [if_neg hz]
  exact congrArg (Option.map _) hr

theorem Table.Valid.valueLookup_eq_none (hq : Sorts qsort) (h : t.Valid) (hn : t.addresses ≠ [])
    (hg : ¬ ∃ s ∈ t.addresses, value ≤ s.value) : t.valueLookup qsort value = none := by
  obtain ⟨-, -, hp⟩ := h.prepared hq
  unfold Table.valueLookup
  rw [if_neg fun hz => hn (List.length_eq_zero_iff.mp (h.size.mp hz))]
  refine congrArg (Option.map _) (search_eq_none (fun s hs => BitVec.not_le.mp fun hv => ?_) (Nat.zero_add _))
  exact hg ⟨s, hp.mem_iff.mp hs, hv⟩

theorem Table.Valid.valueLookupExact_eq_none (hq : Sorts qsort) (h : t.Valid) (hs : t.sorted = true)
    (hg : ¬ ((∃ s ∈ t.addresses, value ≤ s.value) ∧ ∃ s ∈ t.addresses, s.value ≤ value)) :
    t.valueLookupExact qsort value = none := by
  unfold Table.valueLookupExact
  rw [if_pos hs]
  by_cases hge : t.addresses = [] ∨ ∃ s ∈ t.addresses, value ≤ s.value
  · obtain ⟨t', r, he, hp, hc, -⟩ := h.valueLookup hq hge
    cases r with
    | none => rw [he]
    | some i =>
      obtain ⟨s, hi, hle, -⟩ := hc
      have hm := hp.mem_iff.mp (List.mem_of_getElem? hi)
      exact absurd ⟨hge.resolve_left (List.ne_nil_of_mem hm), s, hm, hle⟩ hg
  · rw [h.valueLookup_eq_none hq (fun hn => hge (Or.inl hn)) fun hv => hge (Or.inr hv)]

theorem Closest.matching {i} (h : Closest l value (some i)) (hs : l[i]? = some s) :
    Matching l value (if s.value = value then some i else none) := by
  obtain ⟨s₀, hi, hle, hm⟩ := h
  obtain rfl : s = s₀ := by simpa [hs] using hi
  split
  · exact ⟨s, hs, ‹_›⟩
  · intro s' hs' hv
    have := hm s' hs' (by bv_omega)
    bv_omega

/-- Just for a key that is not above all symbols, nor below all for the exact lookup if sorted. -/
theorem Table.lookups_correct (hq : Sorts qsort) (h : Steps (Table.step qsort) (fun _ _ => True) Table.empty t)
    (value : BitVec 32) :
    ((∃ t' r, t.valueLookup qsort value = some (t', r) ∧ t'.addresses.Perm t.addresses ∧
        Closest t'.addresses value r) ↔
      t.addresses = [] ∨ ∃ s ∈ t.addresses, value ≤ s.value) ∧
    ((∃ r, t.valueLookupExact qsort value = some r ∧ Matching t.addresses value r) ↔
      t.sorted = false ∨ (∃ s ∈ t.addresses, value ≤ s.value) ∧ ∃ s ∈ t.addresses, s.value ≤ value) := by
  have hv : t.Valid := h.invariant (fun hi _ he => hi.step hq he) ⟨by simp [Table.empty], by simp [Table.empty]⟩
  refine ⟨⟨fun ⟨t', r, he, _⟩ => ?_, fun hg => ?_⟩, ⟨fun ⟨r, he, _⟩ => ?_, fun hg => ?_⟩⟩
  · by_contra hg
    rw [hv.valueLookup_eq_none hq (fun hn => hg (Or.inl hn)) fun hv => hg (Or.inr hv)] at he
    cases he
  · obtain ⟨t', r, he, hp, hc, -⟩ := hv.valueLookup hq hg
    exact ⟨t', r, he, hp, hc⟩
  · by_contra hg
    obtain ⟨hs, hg⟩ := not_or.mp hg
    rw [hv.valueLookupExact_eq_none hq (Bool.not_eq_false _ ▸ hs) hg] at he
    cases he
  cases hs : t.sorted with
  | false =>
    refine ⟨_, if_neg (by simp [hs]), ?_⟩
    cases hf : t.addresses.findIdx? fun s => s.value = value with
    | none => simpa [Matching] using hf
    | some i =>
      obtain ⟨hi, hv, -⟩ := List.findIdx?_eq_some_iff_getElem.mp hf
      exact ⟨_, List.getElem?_eq_getElem hi, by simpa using hv⟩
  | true =>
    obtain ⟨hg, s, hm, hle⟩ := hg.resolve_left (by simp [hs])
    obtain ⟨t', r, he, hp, hc, ht⟩ := hv.valueLookup hq (Or.inr hg)
    obtain rfl := ht hs
    cases r with
    | none =>
      have := hc s hm
      bv_omega
    | some i =>
      obtain ⟨s', hi, -⟩ := id hc
      exact ⟨_, by simp [valueLookupExact, hs, he, hi], hc.matching hi⟩

def sortByValue (l : List Symbol) : List Symbol := l.mergeSort fun s s' => s.value ≤ s'.value

theorem sortByValue_sorts : Sorts sortByValue := by
  intro l
  refine ⟨List.mergeSort_perm .., ?_⟩
  refine (List.pairwise_mergeSort ?_ ?_ l).imp (by simp)
  · simp only [decide_eq_true_eq]
    bv_omega
  · simp only [Bool.or_eq_true, decide_eq_true_eq]
    bv_omega

theorem Table.lookups_correct_between :
    ∃ t, run (Table.step sortByValue) [.create "a" 3, .create "b" 1] Table.empty = some t ∧
      ∃ t' r, t.valueLookup sortByValue 2 = some (t', r) ∧ t'.addresses.Perm t.addresses ∧
        Closest t'.addresses 2 r := by
  refine exists_of_map addresses [⟨"a", 3⟩, ⟨"b", 1⟩] rfl fun t hs ht => ?_
  have hg : ∃ s ∈ t.addresses, 2 ≤ s.value := ⟨⟨"a", 3⟩, by simp [ht], by decide⟩
  exact (lookups_correct sortByValue_sorts (.of_run (fun _ _ => trivial) hs) 2).1.mpr (Or.inr hg)

/-- A key above every symbol has the search read behind them, one below through NULL. -/
theorem Table.lookups_astray :
    ∃ t, run (Table.step sortByValue) [.create "a" 1, .lookup 1] Table.empty = some t ∧
      t.valueLookup sortByValue 2 = none ∧ t.valueLookupExact sortByValue 0 = none := by
  refine ⟨⟨[⟨"a", 1⟩], 100, true⟩, ?_, ?_, ?_⟩
  · simp only [run, step, valueLookup, create, empty, sort, sortByValue]
    unfold search
    simp
  · simp only [valueLookup]
    unfold search
    unfold search
    simp
  · simp only [valueLookupExact, valueLookup]
    unfold search
    unfold search
    simp

end Rtems.Symbols
