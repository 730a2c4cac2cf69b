import Rtems.Objects.Theorems

/-! # Walking through a class -/

namespace Rtems.Objects

open Transition

variable {B : Type*}

/-- `OBJECTS_ID_FINAL`. -/
def idFinal : Nat := 0xffffffff

namespace Information

/-- The loop of `_Objects_Get_next`; `none` is for too little fuel. -/
def getNextFrom (i : Information B) : Nat → Nat → Option (Location × Option B × Nat)
  | 0, _ => none
  | fuel + 1, nextId =>
    if getIndex nextId > i.maximum then some (.objectsError, none, idFinal)
    else
      let r := i.get nextId
      if r.1 ≠ .objectsLocal then i.getNextFrom fuel (addWord nextId 1)
      else some (r.1, r.2, addWord nextId 1)

def getNext (i : Information B) (fuel id : Nat) : Option (Location × Option B × Nat) :=
  i.getNextFrom fuel (if getIndex id = 0 then i.minimumId else id)

/-- The calls of `_Objects_Get_next` up to the one that returns `NULL`, each with the `next_id` of the
one before. -/
def walk (i : Information B) (fuel : Nat) : Nat → Nat → Option (List B × Location × Nat)
  | 0, _ => none
  | calls + 1, id =>
    (i.getNext fuel id).bind fun r =>
      match r.2.1 with
      | none => some ([], r.1, r.2.2)
      | some theObject => (i.walk fuel calls r.2.2).map fun w => (theObject :: w.1, w.2)

/-- The objects at the indices from `k` on. -/
def rest (i : Information B) (k : Nat) : List B :=
  (List.range' k (i.maximum + 1 - k)).filterMap i.localTable

/-- Ids count the indices of a class that has room behind its last one. -/
structure Counted (i : Information B) : Prop where
  maximum_pos : 0 < i.maximum
  getIndex_add : ∀ k ≤ i.maximum, getIndex (i.minimumId + k) = k + 1
  add_lt : i.minimumId + i.maximum < 2 ^ 32

namespace Counted

variable {i : Information B} (h : i.Counted) {k fuel : Nat}

include h

theorem get_add (hk : k < i.maximum) : i.get (i.minimumId + k) =
    (i.localTable (k + 1)).elim (.objectsError, none) fun theObject => (.objectsLocal, some theObject) := by
  have := h.add_lt
  have he : i.entry (i.minimumId + k) = some (k + 1) := by
    unfold entry
    rw [subWord_eq (by omega) (by omega), Nat.add_sub_cancel_left]
    rw [if_pos (by omega), addWord_eq (by omega)]
  unfold get
  rw [he]
  cases ho : i.localTable (k + 1) <;> simp [ho]

theorem getNextFrom_add (hk : k ≤ i.maximum) (hf : i.maximum - k < fuel) :
    (i.rest (k + 1) = [] ∧
        i.getNextFrom fuel (i.minimumId + k) = some (.objectsError, none, idFinal)) ∨
      ∃ theObject j, k < j ∧ j ≤ i.maximum ∧ i.rest (k + 1) = theObject :: i.rest (j + 1) ∧
        i.getNextFrom fuel (i.minimumId + k) = some (.objectsLocal, some theObject, i.minimumId + j) := by
  -- The loop goes from one index to the next, so the induction is on how many are left.
  induction fuel generalizing k with
  | zero => omega
  | succ fuel ih =>
    have := h.add_lt
    unfold getNextFrom
    rw [h.getIndex_add k hk]
    rcases Nat.lt_or_eq_of_le hk with hlt | rfl
    · have hr : i.rest (k + 1) = (i.localTable (k + 1)).toList ++ i.rest (k + 1 + 1) := by
        unfold rest
        rw [show i.maximum + 1 - (k + 1) = i.maximum + 1 - (k + 1 + 1) + 1 by omega, List.range'_succ,
          List.filterMap_cons]
        cases i.localTable (k + 1) <;> rfl
      rw [if_neg (by omega), h.get_add hlt, hr, addWord_eq (by omega), Nat.add_assoc]
      cases i.localTable (k + 1) with
      | none =>
        obtain ⟨hn, he⟩ | ⟨o, j, hj, hj', hn, he⟩ := ih (k := k + 1) hlt (by omega)
        · exact Or.inl ⟨hn, he⟩
        · exact Or.inr ⟨o, j, by omega, hj', hn, he⟩
      | some theObject => exact Or.inr ⟨theObject, k + 1, by omega, hlt, rfl, rfl⟩
    · refine Or.inl ⟨?_, if_pos (by omega)⟩
      unfold rest
      rw [Nat.sub_self]
      rfl

theorem walk_add {calls} (hk : k ≤ i.maximum) (hf : i.maximum < fuel) (hc : i.maximum - k < calls) :
    i.walk fuel calls (i.minimumId + k) = some (i.rest (k + 1), .objectsError, idFinal) := by
  induction calls generalizing k with
  | zero => omega
  | succ calls ih =>
    unfold walk getNext
    rw [if_neg (by rw [h.getIndex_add k hk]; omega)]
    obtain ⟨hn, he⟩ | ⟨o, j, hj, hj', hn, he⟩ := h.getNextFrom_add hk (show _ < fuel by omega)
    · rw [he, hn]
      rfl
    · rw [he, hn, Option.bind_some]
      rw [ih hj' (by omega)]
      rfl

end Counted

end Information

variable {C : Type*} {t : Table C} {c : C} {node id : Nat}

theorem Table.Numbered.counted (h : t.Numbered node c) (hpos : 0 < (t.information c).maximum)
    (hlt : (t.information c).maximum < 65535) : (t.information c).Counted := by
  have hmin := h.minimumId_eq
  have hc := h.class_lt
  have hn := h.node_lt
  rw [if_neg (by omega), buildId_eq hc hn (by omega)] at hmin
  refine ⟨hpos, fun k hk => ?_, by omega⟩
  rw [hmin, Nat.add_assoc _ 1 k, ← buildId_eq hc hn (by omega), getIndex_buildId hc hn (by omega), Nat.add_comm]

theorem Table.Numbered.getNext_of_maximum_eq_zero (h : t.Numbered node c) (h0 : (t.information c).maximum = 0)
    (hid : getIndex id = 0) {fuel} (hf : 1 < fuel) :
    (t.information c).getNext fuel id = some (((t.information c).localTable 1).elim (.objectsError, none, idFinal)
      fun b => (.objectsLocal, some b, addWord (t.information c).minimumId 1)) := by
  have hmin := h.minimumId_eq
  have hc := h.class_lt
  have hn := h.node_lt
  rw [if_pos h0] at hmin
  have hi : getIndex (addWord (t.information c).minimumId 1) = 1 := by
    rw [hmin, buildId_eq hc hn (by omega), addWord_eq (by omega), Nat.add_zero, ← buildId_eq hc hn (by omega)]
    exact getIndex_buildId hc hn (by omega)
  have he : (t.information c).entry (t.information c).minimumId = some 1 := by
    rw [Information.entry, subWord, Nat.add_sub_of_le (by rw [hmin, buildId_eq hc hn (by omega)]; omega)]
    exact if_pos (Nat.zero_le _)
  obtain ⟨fuel, rfl⟩ : ∃ f, fuel = f + 2 := ⟨fuel - 2, by omega⟩
  unfold Information.getNext Information.getNextFrom
  rw [if_pos hid, if_neg (by rw [hmin, getIndex_buildId hc hn (by omega)]; omega), Information.get, he]
  cases ho : (t.information c).localTable 1 with
  | none =>
    unfold Information.getNextFrom
    simp [ho, hi, h0]
  | some b => simp [ho]

variable [DecidableEq C] {s : State C}

/-- Walking through a class gives the open objects by their indices, and then `NULL`. In a class of no
objects it gives the word behind the table, if there is one. -/
theorem walk_opened (t₀ : Table C) {config : C → Configured} {cs : List C} (hcs : cs.Nodup)
    (hall : ∀ c, c ∈ cs) (hn : node < 2 ^ 10) (hclass : ∀ c, (config c).theClass < 2 ^ 6)
    (hmax : ∀ c, (config c).maximum < 2 ^ 16)
    (h : Steps State.step (fun _ _ => True) ⟨t₀.initializeClasses node config cs, []⟩ s)
    (hlt : (config c).maximum < 65535) (hid : getIndex id = 0) (fuel calls : Nat)
    (hf : (config c).maximum + 1 < fuel) (hcalls : (config c).maximum < calls) :
    (∃ l, (s.table.information c).walk fuel calls id = some (l, .objectsError, idFinal) ∧
      (∀ b, b ∈ l ↔ b ∈ s.opened ∧ b.owner = c) ∧
      l.Pairwise fun b b' => getIndex (s.table.id b) < getIndex (s.table.id b')) ↔
    0 < (config c).maximum ∨ (s.table.information c).localTable 1 = none := by
  obtain ⟨fr, hs⟩ := State.Sound.of_steps t₀ hcs hall hn hclass hmax h
  rw [← hs.maximum c] at hlt hf hcalls ⊢
  obtain ⟨calls, rfl⟩ : ∃ n, calls = n + 1 := ⟨calls - 1, by omega⟩
  have hentry : ∀ {k b}, k ∈ List.range' 1 ((s.table.information c).maximum + 1 - 1) →
      ((s.table.information c).localTable k = some b ↔ b.owner = c ∧ b.number = k ∧ b ∈ s.opened) := by
    intro k b hk
    rw [hs.opened]
    exact hs.placed.entry_eq_some (by have := List.mem_range'_1.mp hk; omega)
  refine ⟨fun ⟨l, hw, hl, _⟩ => ?_, fun hw => ⟨(s.table.information c).rest 1, ?_, fun b => ?_, ?_⟩⟩
  · refine Or.imp_left Nat.pos_of_ne_zero (or_iff_not_imp_left.mpr fun h0 => ?_)
    have h0 := not_not.mp h0
    unfold Information.walk at hw
    rw [(hs.numbered c).getNext_of_maximum_eq_zero h0 hid (by omega)] at hw
    cases ho : (s.table.information c).localTable 1 with
    | none => rfl
    | some b =>
      simp only [ho, Option.elim_some, Option.bind_some, Option.map_eq_some_iff, Prod.mk.injEq] at hw
      obtain ⟨w, -, rfl, -⟩ := hw
      obtain ⟨hb, rfl⟩ := (hl b).mp List.mem_cons_self
      have := ((hs.opened b).mp hb).1
      exact absurd (this.1.trans this.2) (by omega)
  · rcases Nat.eq_zero_or_pos (s.table.information c).maximum with h0 | hpos
    · unfold Information.walk Information.rest
      rw [(hs.numbered c).getNext_of_maximum_eq_zero h0 hid (by omega), hw.resolve_left (by omega), h0]
      rfl
    · have hC := (hs.numbered c).counted hpos hlt
      have hw := hC.walk_add (Nat.zero_le _) (Nat.lt_of_succ_lt hf) hcalls
      unfold Information.walk Information.getNext at hw ⊢
      rw [if_neg (by rw [hC.getIndex_add 0 (Nat.zero_le _)]; omega)] at hw
      rw [if_pos hid]
      exact hw
  · unfold Information.rest
    rw [List.mem_filterMap]
    constructor
    · rintro ⟨k, hk, hb⟩
      obtain ⟨ho, -, hb⟩ := (hentry hk).mp hb
      exact ⟨hb, ho⟩
    · rintro ⟨hb, rfl⟩
      have hp := ((hs.opened b).mp hb).1
      have hk : b.number ∈ List.range' 1 ((s.table.information b.owner).maximum + 1 - 1) :=
        List.mem_range'_1.mpr ⟨hp.1, by have := hp.2; omega⟩
      exact ⟨b.number, hk, (hentry hk).mpr ⟨rfl, rfl, hb⟩⟩
  · have hidx : ∀ {k b}, k ∈ List.range' 1 ((s.table.information c).maximum + 1 - 1) →
        (s.table.information c).localTable k = some b → getIndex (s.table.id b) = k := by
      intro k b hk hb
      obtain ⟨-, rfl, ho⟩ := (hentry hk).mp hb
      exact (hs.numbered b.owner).getIndex_id ((hs.opened b).mp ho).1
    refine List.pairwise_filterMap.mpr ((List.pairwise_lt_range' 1).imp_of_mem ?_)
    intro k k' hk hk' hlt b hb b' hb'
    rwa [hidx hk hb, hidx hk' hb']

theorem walk_opened_second :
    ∃ s, run State.step [.create (), .create (), .delete ⟨(), 1⟩]
        ⟨staleTable.initializeClasses 1 (fun _ => ⟨5, 3, false⟩) [()], []⟩ = some s ∧
      ∃ l, (s.table.information ()).walk 5 4 0 = some (l, .objectsError, idFinal) ∧
        ∀ b, b ∈ l ↔ b = ⟨(), 2⟩ := by
  refine exists_of_map (fun s => s.opened) [⟨(), 2⟩] (by decide +kernel) fun s hs ho => ?_
  obtain ⟨l, hw, hl, -⟩ := (walk_opened staleTable (List.nodup_singleton ()) (by simp) (by decide)
    (fun _ => by decide) (fun _ => by decide) (.of_run (fun _ _ => trivial) hs) (by decide)
    (show getIndex 0 = 0 from rfl) 5 4 (by decide) (by decide)).mpr (Or.inl (by decide))
  refine ⟨l, hw, fun b => ?_⟩
  rw [hl, ho, List.mem_singleton]
  exact and_iff_left rfl

/-- In a class of no objects the first id leads behind the table. -/
theorem getNext_behind_table :
    ((staleTable.initializeClasses 1 (fun _ => ⟨5, 0, false⟩) [()]).information ()).getNext 1 0 =
      some (.objectsLocal, some ⟨(), 7⟩, buildId 5 1 1) := by
  decide +kernel

end Rtems.Objects
