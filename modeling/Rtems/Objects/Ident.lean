import Rtems.Objects.Global
import Rtems.Objects.Names

/-! # `_Objects_Name_to_id` -/

namespace Rtems.Objects

open Transition

/-- What the search reads of an `Objects_Control`. -/
structure NamedObject where
  id : Nat
  name : Address
  deriving DecidableEq, Repr

/-- What the search reads of an `Objects_Information`. -/
structure NameTable where
  maximum : Nat
  localTable : Nat → Option NamedObject
  isString : Bool
  nameLength : Nat
  named : ∀ {index o}, localTable index = some o → o.name ≠ 0#32

namespace NameTable

variable (i : NameTable) (m : Memory)

def compareThem (name1 name2 : Address) : Bool :=
  if i.isString then compareNameString m i.nameLength name1 name2
  else compareNameRaw m i.nameLength name1 name2

/-- The loop of `_Objects_Name_to_id` over the table. -/
def search (name : Address) : Nat → Nat → Option Nat
  | 0, _ => none
  | count + 1, index =>
    match i.localTable index with
    | none => search name count (index + 1)
    | some o =>
      if o.name = 0#32 then search name count (index + 1)
      else if i.compareThem m name o.name then some o.id
      else search name count (index + 1)

end NameTable

variable {C : Type*} [DecidableEq C] {n : Nat}

def nameToId (N : Nodes) (i : NameTable) (m : Memory) (g : Global C n) (cs : List C) (c : C)
    (name : Address) (node : Nat) : NameToId :=
  if name = 0#32 then .invalidName
  else
    let searchLocalNode : Bool := i.maximum ≠ 0 ∧
      (node = searchAllNodes ∨ node = Objects.searchLocalNode ∨ N.isLocalNode node)
    match if searchLocalNode then i.search m name i.maximum 1 else none with
    | some id => .successful id
    | none =>
      if N.isLocalNode node ∨ node = Objects.searchLocalNode then .invalidName
      else g.globalNameSearch N cs c (m.word name) node

/-! ## The local node -/

namespace NameTable

variable {i : NameTable} {m : Memory} {name : Address}

def Open (i : NameTable) (index : Nat) (o : NamedObject) : Prop :=
  1 ≤ index ∧ index ≤ i.maximum ∧ i.localTable index = some o

def SameName (i : NameTable) (m : Memory) (a b : Address) : Prop :=
  if i.isString then m.string i.nameLength a = m.string i.nameLength b
  else m.words (i.nameLength / 4) a = m.words (i.nameLength / 4) b

instance (i : NameTable) (m : Memory) (a b : Address) : Decidable (i.SameName m a b) :=
  inferInstanceAs (Decidable (if i.isString = true then _ else _))

/-- What the comparison tests: the name, or the string behind an empty name, begins the other. -/
def Finds (i : NameTable) (m : Memory) (a b : Address) : Prop :=
  if i.isString then
    if m a = 0#8 then m b = 0#8 ∧ 0 < i.nameLength ∧ m.Begins (i.nameLength - 1) (a + 1#32) (b + 1#32)
    else m.Begins i.nameLength a b
  else i.SameName m a b

instance (i : NameTable) (m : Memory) (a b : Address) : Decidable (i.Finds m a b) := by
  unfold Finds Memory.Begins
  infer_instance

theorem compareThem_iff {a b} : i.compareThem m a b = true ↔ i.Finds m a b := by
  unfold compareThem Finds
  cases hs : i.isString with
  | false =>
    simp only [SameName, hs, Bool.false_eq_true, if_false]
    exact compareWords_iff
  | true =>
    simp only [if_true]
    split
    · exact compareNameString_empty ‹_›
    · exact compareNameString_iff ‹_›

/-- Of the open objects with `P` the one of the lowest index. -/
def Lowest (i : NameTable) (P : Address → Prop) (index : Nat) (o : NamedObject) : Prop :=
  i.Open index o ∧ P o.name ∧ ∀ j u, i.Open j u → P u.name → index ≤ j

theorem search_cases {count index} (h1 : 1 ≤ index) (hc : index + count = i.maximum + 1)
    (hno : ∀ j u, i.Open j u → j < index → ¬ i.Finds m name u.name) :
    (∃ j o, i.Lowest (i.Finds m name) j o ∧ i.search m name count index = some o.id) ∨
      i.search m name count index = none ∧ ∀ j u, i.Open j u → ¬ i.Finds m name u.name := by
  induction count generalizing index with
  | zero => exact Or.inr ⟨rfl, fun j u hu => hno j u hu (by have := hu.2.1; omega)⟩
  | succ count ih =>
    have hnext (hi : ∀ u, i.Open index u → ¬ i.Finds m name u.name) :=
      @ih (index + 1) (by omega) (by omega) fun j u hu hj => by
        by_cases hji : j = index
        · exact hi u (hji ▸ hu)
        · exact hno j u hu (by omega)
    unfold search
    cases ht : i.localTable index with
    | none =>
      refine hnext fun u hu => ?_
      cases ht.symm.trans hu.2.2
    | some o =>
      have ho : i.Open index o := ⟨h1, by omega, ht⟩
      simp only [i.named ht, if_false]
      by_cases hs : i.Finds m name o.name
      · rw [if_pos (compareThem_iff.mpr hs)]
        refine Or.inl ⟨index, o, ⟨ho, hs, fun j u hu hj => ?_⟩, rfl⟩
        exact Nat.le_of_not_lt fun hlt => hno j u hu hlt hj
      · rw [if_neg fun hc => hs (compareThem_iff.mp hc)]
        refine hnext fun u hu => ?_
        rw [Option.some.inj (hu.2.2.symm.trans ht)]
        exact hs

theorem search_eq (i : NameTable) (m : Memory) (name : Address) :
    (∃ j o, i.Lowest (i.Finds m name) j o ∧ i.search m name i.maximum 1 = some o.id) ∨
    i.search m name i.maximum 1 = none ∧ ∀ j u, i.Open j u → ¬ i.Finds m name u.name :=
  search_cases (Nat.le_refl 1) (Nat.add_comm ..) fun j u hu hj => by
    have := hu.1
    omega

theorem Lowest.unique {P j k o u} (h : i.Lowest P j o) (h' : i.Lowest P k u) : j = k ∧ o = u := by
  obtain rfl := Nat.le_antisymm (h.2.2 k u h'.1 h'.2.1) (h'.2.2 j o h.1 h.2.1)
  exact ⟨rfl, Option.some.inj (h.1.2.2.symm.trans h'.1.2.2)⟩

theorem exists_lowest {P j u} (hu : i.Open j u) (hP : P u.name) : ∃ k o, i.Lowest P k o := by
  classical
  have hx : ∃ k u, i.Open k u ∧ P u.name := ⟨j, u, hu, hP⟩
  obtain ⟨o, ho, hPo⟩ := Nat.find_spec hx
  exact ⟨_, o, ho, hPo, fun k v hv hPv => Nat.find_min' hx ⟨v, hv, hPv⟩⟩

/-- The first object that has the name or is found has it and is found. -/
def Decisive (i : NameTable) (m : Memory) (name : Address) : Prop :=
  ∀ index o, i.Lowest (fun a => i.Finds m name a ∨ i.SameName m name a) index o →
    i.Finds m name o.name ∧ i.SameName m name o.name

theorem Decisive.lowest (h : i.Decisive m name) {j o} (ho : i.Lowest (i.Finds m name) j o) :
    i.Lowest (i.SameName m name) j o := by
  obtain ⟨k, u, hu⟩ := i.exists_lowest (P := fun a => i.Finds m name a ∨ i.SameName m name a) ho.1 (Or.inl ho.2.1)
  obtain ⟨hf, hs⟩ := h k u hu
  have hfu : i.Lowest (i.Finds m name) k u := ⟨hu.1, hf, fun j v hv hP => hu.2.2 j v hv (Or.inl hP)⟩
  obtain ⟨rfl, rfl⟩ := ho.unique hfu
  exact ⟨ho.1, hs, fun j v hv hP => hu.2.2 j v hv (Or.inr hP)⟩

theorem Decisive.not_sameName (h : i.Decisive m name) (hno : ∀ j u, i.Open j u → ¬ i.Finds m name u.name)
    (j : Nat) (u : NamedObject) (hu : i.Open j u) : ¬ i.SameName m name u.name := by
  intro hs
  obtain ⟨k, v, hv⟩ := i.exists_lowest (P := fun a => i.Finds m name a ∨ i.SameName m name a) hu (Or.inr hs)
  exact hno k v hv.1 (h k v hv).1

end NameTable

section

variable {N : Nodes} {i : NameTable} {m : Memory} {g : Global C n} {cs : List C} {c : C} {name : Address}
  {node : Nat}

theorem nameToId_of_local (hname : name ≠ 0#32)
    (hn : node = searchAllNodes ∨ node = searchLocalNode ∨ N.isLocalNode node = true) :
    nameToId N i m g cs c name node =
      match i.search m name i.maximum 1 with
      | some id => .successful id
      | none =>
        if N.isLocalNode node ∨ node = searchLocalNode then .invalidName
        else g.globalNameSearch N cs c (m.word name) node := by
  unfold nameToId
  rw [if_neg hname]
  by_cases hmax : i.maximum = 0
  · simp [hmax, NameTable.search]
  · simp [hmax, hn]

/-- The object of the name that has the lowest index is found just if none that is found comes before it. -/
theorem nameToId_local (hname : name ≠ 0#32) (hn : node = searchLocalNode ∨ node = N.localNode)
    (hid : ∀ j o k u, i.Open j o → i.Open k u → o.id = u.id → j = k) :
    ((∀ id, nameToId N i m g cs c name node = .successful id ↔
      ∃ index o, i.Lowest (i.SameName m name) index o ∧ o.id = id) ∧
    (nameToId N i m g cs c name node = .invalidName ↔
      ∀ index o, i.Open index o → ¬ i.SameName m name o.name)) ↔ i.Decisive m name := by
  have hl : N.isLocalNode node = true ∨ node = searchLocalNode :=
    hn.symm.imp_left fun h => decide_eq_true h
  rw [nameToId_of_local hname (Or.inr hl.symm), if_pos hl]
  rcases i.search_eq m name with ⟨j, o, ho, hs⟩ | ⟨hs, hno⟩
  · simp only [hs]
    refine ⟨fun h k u hu => ?_, fun hd => ⟨fun id => ⟨fun h => ?_, ?_⟩, by simp, fun hno => ?_⟩⟩
    · obtain ⟨k', u', hu', he⟩ := (h.1 o.id).mp rfl
      obtain rfl := hid j o k' u' ho.1 hu'.1 he.symm
      -- the object found is the first of both kinds
      obtain rfl : j = k := by
        refine Nat.le_antisymm ?_ (hu.2.2 j o ho.1 (Or.inl ho.2.1))
        exact hu.2.1.elim (ho.2.2 k u hu.1) (hu'.2.2 k u hu.1)
      rw [Option.some.inj (hu.1.2.2.symm.trans ho.1.2.2)]
      exact ⟨ho.2.1, Option.some.inj (hu'.1.2.2.symm.trans ho.1.2.2) ▸ hu'.2.1⟩
    · exact ⟨j, o, hd.lowest ho, NameToId.successful.inj h⟩
    · rintro ⟨k, u, hu, rfl⟩
      rw [((hd.lowest ho).unique hu).2]
    · exact absurd (hd.lowest ho).2.1 (hno j o ho.1)
  · simp only [hs]
    refine ⟨fun h k u hu => ?_, fun hd => ⟨fun id => ⟨by simp, ?_⟩, fun _ => hd.not_sameName hno, fun _ => trivial⟩⟩
    · exact absurd (hu.2.1.resolve_left (hno k u hu.1)) (h.2.mp trivial k u hu.1)
    · rintro ⟨k, u, hu, -⟩
      exact absurd hu.2.1 (hd.not_sameName hno k u hu.1)

end

def letters : Memory := fun a =>
  ([(16, 97), (17, 98), (18, 99), (32, 97), (33, 98), (48, 97), (49, 98), (50, 99)].lookup a.toNat).getD 0#8

def oneThread : NameTable where
  maximum := 1
  localTable index := if index = 1 then some ⟨7, 16#32⟩ else none
  isString := true
  nameLength := 8
  named := by
    intro index o h
    split at h
    · rw [← Option.some.inj h]
      decide
    · cases h

theorem oneThread_open {index o} (h : oneThread.Open index o) : o = ⟨7, 16#32⟩ := by
  obtain ⟨h1, h2, h3⟩ := h
  obtain rfl : index = 1 := Nat.le_antisymm h2 h1
  exact (Option.some.inj h3).symm

def oneNode : Nodes := ⟨1, 1, by decide⟩

def noObjects : Global Unit 0 := ⟨.empty, fun _ => 0, fun _ => 0#32⟩

theorem nameToId_local_oneThread :
    nameToId oneNode oneThread letters noObjects [] () 48#32 searchLocalNode = .successful 7 := by
  have hd : oneThread.Decisive letters 48#32 := by
    intro index o ho
    rw [oneThread_open ho.1]
    decide
  have hid : ∀ j o k u, oneThread.Open j o → oneThread.Open k u → o.id = u.id → j = k := fun j o k u ho hu _ =>
    (Nat.le_antisymm ho.2.1 ho.1).trans (Nat.le_antisymm hu.2.1 hu.1).symm
  refine (((nameToId_local (by decide) (Or.inl rfl) hid).mpr hd).1 7).mpr
    ⟨1, ⟨7, 16#32⟩, ⟨⟨by decide, by decide, rfl⟩, by decide, fun j u hu _ => hu.1⟩, rfl⟩

/-- The only thread is named "abc", and "ab" is found. -/
theorem nameToId_local_longer :
    nameToId oneNode oneThread letters noObjects [] () 32#32 searchLocalNode = .successful 7 ∧
      ∀ index o, oneThread.Open index o → ¬ oneThread.SameName letters 32#32 o.name := by
  refine ⟨by decide, fun index o ho => ?_⟩
  rw [oneThread_open ho]
  decide

/-! ## The other nodes -/

section

variable {N : Nodes} {i : NameTable} {m : Memory} {g : Global C n} {cs : List C} {c : C} {name : Address}
  {node : Nat}

theorem NameTable.finds_of_raw (h : i.isString = false) : i.Finds m name = i.SameName m name := by
  funext a
  simp [NameTable.Finds, h]

theorem Nodes.Selects.le {k} (h : N.Selects node k) (ho : node ≠ searchOtherNodes) :
    node ≤ N.maximumNodes := by
  obtain ⟨-, hk, -, rfl | h | rfl⟩ := h
  · exact Nat.zero_le _
  · exact absurd h ho
  · exact hk

theorem Nodes.not_selects_localNode (N : Nodes) (ho : N.localNode ≠ searchOtherNodes) (k : Nat) :
    ¬ N.Selects N.localNode k := by
  rintro ⟨-, -, hk, h | h | h⟩
  · have := N.isNode.1
    rw [h] at this
    cases this
  · exact ho h
  · exact hk h.symm

section

variable {fr : List (Fin n)} {tab : C → Nat → List (Fin n)} (h : g.Sound N cs fr tab)
  (ho : node ≠ searchOtherNodes)

include h ho

theorem Global.Sound.globalNameSearch_iff (value : BitVec 32) :
    (∃ id, g.globalNameSearch N cs c value node = .successful id) ↔
      ∃ k o, N.Selects node k ∧ g.On cs c k o ∧ g.name o = value := by
  constructor
  · rintro ⟨id, hid⟩
    by_cases hn : node ≤ N.maximumNodes
    · rcases h.answers_globalNameSearch c value hn ho with ⟨id', hs, k, o, hk, hko, hname, -⟩ | ⟨hs, -⟩
      · exact ⟨k, o, hk, hko, hname⟩
      · rw [hs] at hid
        cases hid
    · rw [Global.globalNameSearch, if_pos (Nat.lt_of_not_le hn)] at hid
      cases hid
  · rintro ⟨k, o, hk, hko, hname⟩
    rcases h.answers_globalNameSearch c value (hk.le ho) ho with ⟨id, hs, -⟩ | ⟨-, hno⟩
    · exact ⟨id, hs⟩
    · exact absurd hname (hno k o hk hko)

theorem nameToId_iff (hname : name ≠ 0#32) (hraw : i.isString = false) (hl : node ≠ searchLocalNode) :
    (∃ id, nameToId N i m g cs c name node = .successful id) ↔
      (node = searchAllNodes ∨ node = N.localNode) ∧ (∃ index o, i.Open index o ∧ i.SameName m name o.name) ∨
      ∃ k o, N.Selects node k ∧ g.On cs c k o ∧ g.name o = m.word name := by
  have hs := i.search_eq m name
  rw [NameTable.finds_of_raw hraw] at hs
  by_cases hn : node = N.localNode
  · subst hn
    have hsel : ¬ ∃ k o, N.Selects N.localNode k ∧ g.On cs c k o ∧ g.name o = m.word name := by
      rintro ⟨k, o, hk, -⟩
      exact N.not_selects_localNode ho k hk
    have hloc : N.isLocalNode N.localNode = true := decide_eq_true rfl
    rw [nameToId_of_local hname (Or.inr (Or.inr hloc)), if_pos (Or.inl hloc)]
    rcases hs with ⟨j, o, ⟨hj, hsame, -⟩, hs⟩ | ⟨hs, hno⟩
    · simp only [hs, hsel, or_false, or_true, true_and]
      exact ⟨fun _ => ⟨j, o, hj, hsame⟩, fun _ => ⟨_, rfl⟩⟩
    · simp only [hs, hsel, or_false, or_true, true_and, reduceCtorEq, exists_false, false_iff]
      rintro ⟨j, o, hj, hsame⟩
      exact hno j o hj hsame
  · have hloc : N.isLocalNode node = false := decide_eq_false hn
    by_cases ha : node = searchAllNodes
    · rw [nameToId_of_local hname (Or.inl ha), if_neg (by simp [hloc, hl])]
      rcases hs with ⟨j, o, ⟨hj, hsame, -⟩, hs⟩ | ⟨hs, hno⟩
      · simp only [hs]
        exact ⟨fun _ => Or.inl ⟨Or.inl ha, j, o, hj, hsame⟩, fun _ => ⟨_, rfl⟩⟩
      · simp only [hs]
        rw [h.globalNameSearch_iff ho]
        refine ⟨Or.inr, ?_⟩
        rintro (⟨-, j, o, hj, hsame⟩ | hg)
        · exact absurd hsame (hno j o hj)
        · exact hg
    · have hne : nameToId N i m g cs c name node = g.globalNameSearch N cs c (m.word name) node := by
        simp [nameToId, hname, ha, hl, hloc]
      rw [hne, h.globalNameSearch_iff ho]
      simp only [ha, hn, or_self, false_and, false_or]

end

/-- An object of the name is found, and `OBJECTS_SEARCH_OTHER_NODES` alone is always refused. -/
theorem globalNameSearch_finds {g₀ : Global C n}
    (hs : Steps (Global.step N cs) (fun _ _ => True) (g₀.initialized N cs) g)
    (hN : N.maximumNodes < searchOtherNodes) (c : C) (value : BitVec 32) :
    ((∀ id, g.globalNameSearch N cs c value node = .successful id →
      ∃ k o, N.Selects node k ∧ g.On cs c k o ∧ g.name o = value ∧ g.id o = id ∧ getNode id = k) ∧
    ((∃ k o, N.Selects node k ∧ g.On cs c k o ∧ g.name o = value) →
      ∃ id, g.globalNameSearch N cs c value node = .successful id) ∧
    (g.globalNameSearch N cs c value node = .invalidNode → N.maximumNodes < node ∧ node ≠ searchOtherNodes) ↔
      node ≠ searchOtherNodes) ∧
    (node ≠ searchOtherNodes → ∀ (i : NameTable) (m : Memory) (name : Address), name ≠ 0#32 →
      i.isString = false → node ≠ searchLocalNode →
      ((∃ id, nameToId N i m g cs c name node = .successful id) ↔
        (node = searchAllNodes ∨ node = N.localNode) ∧
          (∃ index o, i.Open index o ∧ i.SameName m name o.name) ∨
        ∃ k o, N.Selects node k ∧ g.On cs c k o ∧ g.name o = m.word name)) := by
  obtain ⟨fr, tab, h⟩ := Global.sound_steps hs
  refine ⟨⟨fun hall ho => ?_, fun ho => ⟨fun id hid => ?_, (h.globalNameSearch_iff ho value).mpr,
    fun hi => ⟨?_, ho⟩⟩⟩, fun ho i m name hname hraw hl => nameToId_iff h ho hname hraw hl⟩
  · have hmax : node > N.maximumNodes := ho ▸ hN
    exact (hall.2.2 (if_pos hmax)).2 ho
  · obtain ⟨k, o, hk, hko, hname⟩ := (h.globalNameSearch_iff ho value).mp ⟨id, hid⟩
    rcases h.answers_globalNameSearch c value (hk.le ho) ho with
      ⟨id', hs', k', o', hk', hko', hname', hid'⟩ | ⟨hs', -⟩
    · obtain rfl : id' = id := NameToId.successful.inj (hs'.symm.trans hid)
      exact ⟨k', o', hk', hko', hname', hid', hid' ▸ h.getNode_id hk'.1 hk'.2.1 hko'⟩
    · rw [hs'] at hid
      cases hid
  · refine Nat.lt_of_not_le fun hn => ?_
    rcases h.answers_globalNameSearch c value hn ho with ⟨id, hs', -⟩ | ⟨hs', -⟩
    · rw [hs'] at hi
      cases hi
    · rw [hs'] at hi
      cases hi

end

def twoNodes : Nodes := ⟨1, 2, by decide⟩

def oneGlobal : Global Unit 1 := Global.initialized ⟨.empty, fun _ => 0, fun _ => 0#32⟩ twoNodes [()]

def announced : Global Unit 1 :=
  (run (Global.step twoNodes [()]) [.create () 5#32 (buildId 5 2 1) false] oneGlobal).get (by decide +kernel)

theorem announced_steps :
    Steps (Global.step twoNodes [()]) (fun _ _ => True) oneGlobal announced :=
  Steps.of_run (fun _ _ => trivial) (Option.some_get _).symm

theorem announced_on : announced.On [()] () 2 0 ∧ announced.name 0 = 5#32 :=
  ⟨⟨by simp, [0], by decide +kernel, by simp⟩, by decide +kernel⟩

theorem globalNameSearch_finds_announced :
    ∃ id, announced.globalNameSearch twoNodes [()] () 5#32 searchAllNodes = .successful id :=
  ((globalNameSearch_finds announced_steps (by decide) () 5#32).1.mpr (by decide)).2.1
    ⟨2, 0, ⟨by decide, by decide, by decide, Or.inl rfl⟩, announced_on⟩

/-- A search of the other nodes is refused. -/
theorem globalNameSearch_otherNodes :
    Steps (Global.step twoNodes [()]) (fun _ _ => True) oneGlobal announced ∧
      (∃ k o, twoNodes.Selects searchOtherNodes k ∧ announced.On [()] () k o ∧ announced.name o = 5#32) ∧
      announced.globalNameSearch twoNodes [()] () 5#32 searchOtherNodes = .invalidNode :=
  ⟨announced_steps, ⟨2, 0, ⟨by decide, by decide, by decide, Or.inr (Or.inl rfl)⟩, announced_on⟩,
    by decide +kernel⟩

end Rtems.Objects
