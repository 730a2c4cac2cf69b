import Rtems.Chain.Lemmas
import Rtems.Library.Transition
import Rtems.Objects.Model
import Mathlib.Data.Fintype.Card

/-! # Global objects -/

namespace Rtems.Objects

open Function Intrusive Transition Option

def searchAllNodes : Nat := 0

def searchOtherNodes : Nat := 0x7ffffffe

def searchLocalNode : Nat := 0x7fffffff

/-- `Objects_Name_to_id_errors`, with the id. -/
inductive NameToId
  | successful (id : Nat)
  | invalidName
  | invalidNode
  deriving DecidableEq, Repr

def NameToId.ofSearch : Option Nat → NameToId
  | some id => .successful id
  | none => .invalidName

/-- `_Objects_Local_node` and `_Objects_Maximum_nodes`. -/
structure Nodes where
  localNode : Nat
  maximumNodes : Nat
  isNode : 1 ≤ localNode ∧ localNode ≤ maximumNodes

def Nodes.isLocalNode (N : Nodes) (node : Nat) : Bool := node = N.localNode

/-- `_Objects_MP_Inactive_global_objects` and the chains of `global_table`. -/
inductive GlobalChain (C : Type*)
  | inactive
  | node (c : C) (node : Nat)
  deriving DecidableEq, Repr

structure Global (C : Type*) (n : Nat) where
  links : Links (GlobalChain C) (Fin n)
  id : Fin n → Nat
  name : Fin n → BitVec 32

variable {C : Type*} [DecidableEq C] {n : Nat}

namespace Global

variable (g : Global C n)

def handlerInitialization : Global C n :=
  { g with
    links :=
      if n = 0 then Chain.initializeEmpty g.links .inactive
      else Chain.initializeChain g.links .inactive (List.finRange n) }

/-- Chains from `_Objects_Initialize_information`; `cs` support global objects. -/
def tables (N : Nodes) (cs : List C) : List (GlobalChain C) :=
  cs.flatMap fun c => (List.range' 1 N.maximumNodes).map (.node c)

def initialized (N : Nodes) (cs : List C) : Global C n :=
  let g := g.handlerInitialization
  { g with links := (tables N cs).foldl Chain.initializeEmpty g.links }

def allocateGlobalObject : Global C n × Option (Fin n) :=
  if Chain.isEmpty g.links .inactive then (g, none)
  else
    let r := Chain.getFirst g.links .inactive
    ({ g with links := r.1 },
      match r.2 with
      | .obj o => some o
      | _ => none)

/-- `_Objects_MP_Open`. -/
def openObject (c : C) (o : Fin n) (name : BitVec 32) (id : Nat) : Global C n where
  links := Chain.prepend g.links (.node c (getNode id)) (.obj o)
  id := update g.id o id
  name := update g.name o name

/-- `_Objects_MP_Allocate_and_open`, which may stop the system. -/
def allocateAndOpen (c : C) (name : BitVec 32) (id : Nat) (isFatalError : Bool) :
    Option (Global C n) :=
  match g.allocateGlobalObject with
  | (g, some o) => some (g.openObject c o name id)
  | (g, none) => if isFatalError then none else some g

/-- The walk along a chain to the first object that passes a test. -/
def find (g : Global C n) (c : C) (node : Nat) (p : Fin n → Bool) : Option (Fin n) :=
  g.links.find p (n + 1) (Chain.first g.links (.node c node))

/-- `_Objects_MP_Close`, which may stop the system. -/
def closeObject (c : C) (id : Nat) : Option (Global C n) :=
  (g.find c (getNode id) fun o => g.id o = id).map fun o =>
    { g with links := Chain.append (Chain.extract g.links (.obj o)) .inactive (.obj o) }

def searchNodes (g : Global C n) (N : Nodes) (c : C) (name : BitVec 32) : Nat → Nat → Option Nat
  | 0, _ => none
  | count + 1, nodeIndex =>
    if ¬ N.isLocalNode nodeIndex then
      match g.find c nodeIndex fun o => g.name o = name with
      | some o => some (g.id o)
      | none => g.searchNodes N c name count (nodeIndex + 1)
    else g.searchNodes N c name count (nodeIndex + 1)

def globalNameSearch (N : Nodes) (cs : List C) (c : C) (name : BitVec 32)
    (nodesToSearch : Nat) : NameToId :=
  if nodesToSearch > N.maximumNodes then .invalidNode
  else if c ∉ cs then .invalidName
  else
    let range :=
      if nodesToSearch = searchAllNodes ∨ nodesToSearch = searchOtherNodes then (1, N.maximumNodes)
      else (nodesToSearch, nodesToSearch)
    .ofSearch (g.searchNodes N c name (range.2 + 1 - range.1) range.1)

end Global

inductive GlobalMove (C : Type*)
  | create (c : C) (name : BitVec 32) (id : Nat) (isFatalError : Bool)
  | delete (c : C) (id : Nat)
  deriving DecidableEq, Repr

/-- Only classes that support it have global objects, on nodes of the system. -/
def Global.step (N : Nodes) (cs : List C) (g : Global C n) : GlobalMove C → Option (Global C n)
  | .create c name id isFatalError =>
    if c ∈ cs ∧ 1 ≤ getNode id ∧ getNode id ≤ N.maximumNodes then
      g.allocateAndOpen c name id isFatalError
    else none
  | .delete c id =>
    if c ∈ cs ∧ 1 ≤ getNode id ∧ getNode id ≤ N.maximumNodes then g.closeObject c id else none

namespace Global

/-! ## The chains -/

def On (g : Global C n) (cs : List C) (c : C) (node : Nat) (o : Fin n) : Prop :=
  c ∈ cs ∧ ∃ l, Holds g.links (.node c node) l ∧ o ∈ l

def chains (N : Nodes) (cs : List C) (fr : List (Fin n)) (tab : C → Nat → List (Fin n)) :
    GlobalChain C → Option (List (Fin n))
  | .inactive => some fr
  | .node c node => if c ∈ cs ∧ 1 ≤ node ∧ node ≤ N.maximumNodes then some (tab c node) else none

structure Sound (N : Nodes) (cs : List C) (g : Global C n) (fr : List (Fin n))
    (tab : C → Nat → List (Fin n)) : Prop where
  represents : Represents g.links (chains N cs fr tab)
  node : ∀ {c k l o}, chains N cs fr tab (.node c k) = some l → o ∈ l → getNode (g.id o) = k

variable {N : Nodes} {cs : List C} {g g' : Global C n} {fr : List (Fin n)} {tab : C → Nat → List (Fin n)}
  {c : C} {k id : Nat} {o : Fin n} {name : BitVec 32}

theorem chains_node (hc : c ∈ cs) (hk : 1 ≤ k) (hk' : k ≤ N.maximumNodes) :
    chains N cs fr tab (.node c k) = some (tab c k) :=
  if_pos ⟨hc, hk, hk'⟩

theorem update_chains (hc : c ∈ cs) (hk : 1 ≤ k) (hk' : k ≤ N.maximumNodes) (l : List (Fin n)) :
    update (chains N cs fr tab) (.node c k) (some l) =
      chains N cs fr (update tab c (update (tab c) k l)) := by
  funext x
  cases x with
  | inactive => rfl
  | node d j =>
    by_cases hd : d = c
    · subst hd
      by_cases hj : j = k
      · subst hj
        simp [chains, hc, hk, hk']
      · simp [chains, hj]
    · simp [chains, hd]

theorem update_chains_inactive (l : List (Fin n)) :
    update (chains N cs fr tab) .inactive (some l) = chains N cs l tab := by
  funext x
  cases x with
  | inactive => rfl
  | node d j => rfl

omit [DecidableEq C] in
theorem mem_tables {x} :
    x ∈ tables N cs ↔ ∃ c k, x = .node c k ∧ c ∈ cs ∧ 1 ≤ k ∧ k ≤ N.maximumNodes := by
  simp only [tables, List.mem_flatMap, List.mem_map, List.mem_range'_1]
  constructor
  · rintro ⟨c, hc, k, ⟨h1, h2⟩, rfl⟩
    exact ⟨c, k, rfl, hc, h1, by omega⟩
  · rintro ⟨c, k, rfl, hc, h1, h2⟩
    exact ⟨c, hc, k, ⟨h1, by omega⟩, rfl⟩

theorem sound_initialized (g : Global C n) :
    (g.initialized N cs).Sound N cs (List.finRange n) fun _ _ => [] := by
  have h0 : Represents g.links fun _ => none :=
    ⟨fun h => (Option.some_ne_none _ h.symm).elim, fun h => (Option.some_ne_none _ h.symm).elim,
      fun h => (Option.some_ne_none _ h.symm).elim⟩
  have h1 : Represents g.handlerInitialization.links
      (update (fun _ => none) .inactive (some (List.finRange n))) := by
    unfold handlerInitialization
    by_cases hn : n = 0
    · subst hn
      exact Chain.initializeEmpty_represents h0 _
    · simp only [hn, if_false]
      exact Chain.initializeChain_represents h0 _ (List.nodup_finRange n) fun a _ d k hd => by cases hd
  refine ⟨(Chain.initializeEmpty_all h1 (tables N cs)).mono fun {x l} hx => ?_, fun {c k l o} hx ho => ?_⟩
  · cases x with
    | inactive =>
      rw [if_neg fun h => by simp [mem_tables] at h, update_self]
      exact hx
    | node c k =>
      by_cases hc : c ∈ cs ∧ 1 ≤ k ∧ k ≤ N.maximumNodes
      · rw [if_pos (mem_tables.mpr ⟨c, k, rfl, hc⟩)]
        exact (if_pos hc).symm.trans hx
      · cases (if_neg hc).symm.trans hx
  · by_cases hc : c ∈ cs ∧ 1 ≤ k ∧ k ≤ N.maximumNodes
    · have hl : [] = l := some.inj ((if_pos hc).symm.trans hx)
      subst hl
      cases ho
    · cases (if_neg hc).symm.trans hx

/-! ## What the moves do to the chains -/

section

variable (h : g.Sound N cs fr tab)

include h

theorem Sound.allocate_cons {l} (hf : fr = o :: l) :
    ∃ L, g.allocateGlobalObject = ({ g with links := L }, some o) ∧ Represents L (chains N cs l tab) ∧
      Off (chains N cs l tab) o := by
  subst hf
  have hc : chains N cs (o :: l) tab .inactive = some ([] ++ o :: l) := rfl
  obtain ⟨hfirst, hR⟩ := Chain.getFirst_represents h.represents hc
  have hoff := h.represents.off_without hc
  rw [update_chains_inactive] at hR hoff
  have he : Chain.isEmpty g.links .inactive = false := by
    rw [Bool.eq_false_iff, ne_eq, Chain.isEmpty_iff (h.represents.holds hc)]
    simp
  refine ⟨_, ?_, hR, hoff⟩
  simp only [allocateGlobalObject, he, Bool.false_eq_true, if_false, hfirst]

theorem Sound.allocate_nil (hf : fr = []) : g.allocateGlobalObject = (g, none) := by
  subst hf
  have he : Chain.isEmpty g.links .inactive = true :=
    (Chain.isEmpty_iff (h.represents.holds rfl)).mpr rfl
  simp only [allocateGlobalObject, he, if_true]

theorem Sound.create {isFatalError} (hc : c ∈ cs) (hk : 1 ≤ getNode id)
    (hk' : getNode id ≤ N.maximumNodes)
    (he : g.allocateAndOpen c name id isFatalError = some g') : ∃ fr' tab', g'.Sound N cs fr' tab' := by
  unfold allocateAndOpen at he
  cases hf : fr with
  | nil =>
    simp only [h.allocate_nil hf] at he
    split at he
    · cases he
    · exact some.inj he ▸ ⟨fr, tab, h⟩
  | cons o l =>
    obtain ⟨L, ha, hR, hoff⟩ := h.allocate_cons hf
    simp only [ha, some.injEq] at he
    subst he
    have hP := Chain.prepend_represents hR (chains_node hc hk hk') hoff
    refine ⟨l, _, update_chains hc hk hk' _ ▸ hP, fun {d k m u} hx hu => ?_⟩
    rw [← update_chains hc hk hk'] at hx
    by_cases huo : u = o
    · subst huo
      have hd := hP.disjoint hx (update_self ..) hu List.mem_cons_self
      rw [GlobalChain.node.injEq] at hd
      exact (congrArg getNode (update_self ..)).trans hd.2.symm
    · refine (congrArg getNode (update_of_ne huo ..)).trans ?_
      by_cases hd : GlobalChain.node d k = .node c (getNode id)
      · rw [hd, update_self, some.injEq] at hx
        subst hx
        obtain ⟨rfl, rfl⟩ := hd
        exact h.node (chains_node hc hk hk') ((List.mem_cons.mp hu).resolve_left huo)
      · rw [update_of_ne hd] at hx
        exact h.node hx hu

theorem Sound.find_eq (hc : c ∈ cs) (hk : 1 ≤ k) (hk' : k ≤ N.maximumNodes) (p : Fin n → Bool) :
    g.find c k p = (tab c k).find? p := by
  have hx : chains N cs fr tab (.node c k) = some (tab c k) := chains_node hc hk hk'
  have hH := h.represents.holds hx
  have hl : (tab c k).length < n + 1 := by
    have := List.Nodup.length_le_card (h.represents.nodup hx)
    rw [Fintype.card_fin] at this
    omega
  unfold find
  rw [Chain.first_eq hH]
  exact (show Holds g.links (.node c k) ([] ++ tab c k) from hH).find_succ hl

theorem Sound.delete (hc : c ∈ cs) (hk : 1 ≤ getNode id) (hk' : getNode id ≤ N.maximumNodes)
    (he : g.closeObject c id = some g') : ∃ fr' tab', g'.Sound N cs fr' tab' := by
  obtain ⟨o, ho, rfl⟩ := map_eq_some_iff.mp he
  rw [h.find_eq hc hk hk'] at ho
  obtain ⟨l1, l2, hl⟩ := List.append_of_mem (List.mem_of_find?_eq_some ho)
  have hx : chains N cs fr tab (.node c (getNode id)) = some (l1 ++ o :: l2) :=
    hl ▸ chains_node hc hk hk'
  have hE := Chain.extract_represents h.represents hx
  have hoff := h.represents.off_without hx
  have hA := Chain.append_represents hE (c := .inactive) rfl hoff
  rw [update_chains hc hk hk', update_chains_inactive] at hA
  refine ⟨_, _, hA, fun {d k m u} hy hu => ?_⟩
  have hy' : chains N cs fr (update tab c (update (tab c) (getNode id) (l1 ++ l2)))
      (.node d k) = some m := hy
  rw [← update_chains hc hk hk'] at hy'
  by_cases hd : GlobalChain.node d k = .node c (getNode id)
  · rw [hd, update_self, some.injEq] at hy'
    subst hy'
    obtain ⟨rfl, rfl⟩ := hd
    refine h.node hx ?_
    rcases List.mem_append.mp hu with hu | hu
    · exact List.mem_append_left _ hu
    · exact List.mem_append_right _ (List.mem_cons_of_mem _ hu)
  · rw [update_of_ne hd] at hy'
    exact h.node hy' hu

theorem Sound.step {mv} (he : g.step N cs mv = some g') :
    ∃ fr' tab', g'.Sound N cs fr' tab' := by
  cases mv with
  | create c name id isFatalError =>
    obtain ⟨hg, he⟩ := Option.ite_none_right_eq_some.mp he
    exact h.create hg.1 hg.2.1 hg.2.2 he
  | delete c id =>
    obtain ⟨hg, he⟩ := Option.ite_none_right_eq_some.mp he
    exact h.delete hg.1 hg.2.1 hg.2.2 he

end

theorem sound_steps {P} {g0 : Global C n}
    (hs : Steps (Global.step N cs) P (g0.initialized N cs) g) : ∃ fr tab, g.Sound N cs fr tab :=
  hs.invariant (I := fun g => ∃ fr tab, g.Sound N cs fr tab)
    (fun hI _ he => by
      obtain ⟨fr, tab, h⟩ := hI
      exact h.step he)
    ⟨_, _, sound_initialized g0⟩

/-! ## The search -/

theorem Sound.on_iff (h : g.Sound N cs fr tab) (hc : c ∈ cs) (hk : 1 ≤ k) (hk' : k ≤ N.maximumNodes) :
    g.On cs c k o ↔ o ∈ tab c k := by
  have hH := h.represents.holds (chains_node hc hk hk')
  constructor
  · rintro ⟨-, l, hl, ho⟩
    exact hH.unique hl ▸ ho
  · exact fun ho => ⟨hc, _, hH, ho⟩

theorem Sound.getNode_id (h : g.Sound N cs fr tab) (hk : 1 ≤ k) (hk' : k ≤ N.maximumNodes)
    (ho : g.On cs c k o) : getNode (g.id o) = k :=
  h.node (chains_node ho.1 hk hk') ((h.on_iff ho.1 hk hk').mp ho)

section

variable (h : g.Sound N cs fr tab) (hc : c ∈ cs) {count low : Nat} (hlow : 1 ≤ low)
  (hhigh : low + count ≤ N.maximumNodes + 1)

include h hc hlow hhigh

theorem Sound.searchNodes_eq_some (he : g.searchNodes N c name count low = some id) :
    ∃ k o, low ≤ k ∧ k < low + count ∧ k ≠ N.localNode ∧ g.On cs c k o ∧ g.name o = name ∧ g.id o = id := by
  induction count generalizing low with
  | zero => cases he
  | succ count ih =>
    have hrest (he : g.searchNodes N c name count (low + 1) = some id) :
        ∃ k o, low ≤ k ∧ k < low + (count + 1) ∧ k ≠ N.localNode ∧ g.On cs c k o ∧ g.name o = name ∧
          g.id o = id := by
      obtain ⟨k, o, h1, h2, ho⟩ := ih (by omega) (by omega) he
      exact ⟨k, o, by omega, by omega, ho⟩
    unfold searchNodes at he
    split at he
    · next hl =>
      rw [h.find_eq hc hlow (by omega)] at he
      split at he
      · next o ho =>
        refine ⟨low, o, by omega, by omega, fun hn => hl (decide_eq_true hn), ?_, ?_,
          some.inj he⟩
        · exact (h.on_iff hc hlow (by omega)).mpr (List.mem_of_find?_eq_some ho)
        · exact of_decide_eq_true (List.find?_some ho :)
      · exact hrest he
    · exact hrest he

theorem Sound.searchNodes_ne_none (hk : low ≤ k) (hk' : k < low + count) (hn : k ≠ N.localNode)
    (ho : g.On cs c k o) (hname : g.name o = name) : ∃ id, g.searchNodes N c name count low = some id := by
  induction count generalizing low with
  | zero => omega
  | succ count ih =>
    unfold searchNodes
    by_cases hkl : k = low
    · subst hkl
      have hl : ¬ N.isLocalNode k = true := fun hl => hn (of_decide_eq_true hl)
      rw [if_pos hl, h.find_eq hc hlow (by omega)]
      cases hf : (tab c k).find? fun o => g.name o = name with
      | none =>
        have hno := List.find?_eq_none.mp hf o ((h.on_iff hc hlow (by omega)).mp ho)
        exact absurd (decide_eq_true hname) hno
      | some o' => exact ⟨_, rfl⟩
    · have hr : ∃ id, g.searchNodes N c name count (low + 1) = some id :=
        ih (by omega) (by omega) (by omega) (by omega)
      split
      · split
        · exact ⟨_, rfl⟩
        · exact hr
      · exact hr

end

end Global

def Nodes.Selects (N : Nodes) (nodesToSearch k : Nat) : Prop :=
  1 ≤ k ∧ k ≤ N.maximumNodes ∧ k ≠ N.localNode ∧
    (nodesToSearch = searchAllNodes ∨ nodesToSearch = searchOtherNodes ∨ nodesToSearch = k)

namespace Global

variable {N : Nodes} {cs : List C} {g g' : Global C n} {fr : List (Fin n)} {tab : C → Nat → List (Fin n)}
  {c : C} {k id : Nat} {o : Fin n} {name : BitVec 32}

def Answers (N : Nodes) (cs : List C) (g : Global C n) (c : C) (name : BitVec 32) (nodesToSearch : Nat)
    (r : NameToId) : Prop :=
  (∃ id, r = .successful id ∧
    ∃ k o, N.Selects nodesToSearch k ∧ g.On cs c k o ∧ g.name o = name ∧ g.id o = id) ∨
  r = .invalidName ∧ ∀ k o, N.Selects nodesToSearch k → g.On cs c k o → g.name o ≠ name

variable (h : g.Sound N cs fr tab) {nodesToSearch : Nat}

include h

theorem Sound.answers_searchNodes (hc : c ∈ cs) {low count} (hlow : 1 ≤ low)
    (hhigh : low + count ≤ N.maximumNodes + 1)
    (hsel : ∀ k, N.Selects nodesToSearch k ↔ low ≤ k ∧ k < low + count ∧ k ≠ N.localNode) :
    Answers N cs g c name nodesToSearch (.ofSearch (g.searchNodes N c name count low)) := by
  cases hs : g.searchNodes N c name count low with
  | some id =>
    obtain ⟨k, o, h1, h2, h3, hko⟩ := h.searchNodes_eq_some hc hlow hhigh hs
    exact Or.inl ⟨id, rfl, k, o, (hsel k).mpr ⟨h1, h2, h3⟩, hko⟩
  | none =>
    refine Or.inr ⟨rfl, fun k o hk ho hname => ?_⟩
    obtain ⟨h1, h2, h3⟩ := (hsel k).mp hk
    obtain ⟨id, hid⟩ := h.searchNodes_ne_none hc hlow hhigh h1 h2 h3 ho hname
    rw [hs] at hid
    cases hid

theorem Sound.answers_globalNameSearch (c : C) (name : BitVec 32) (hn : nodesToSearch ≤ N.maximumNodes)
    (ho : nodesToSearch ≠ searchOtherNodes) :
    Answers N cs g c name nodesToSearch (g.globalNameSearch N cs c name nodesToSearch) := by
  unfold globalNameSearch
  rw [if_neg (by omega)]
  by_cases hc : c ∈ cs
  · rw [if_neg (not_not_intro hc)]
    by_cases ha : nodesToSearch = searchAllNodes
    · rw [if_pos (Or.inl ha)]
      refine h.answers_searchNodes hc (by omega) (by omega) fun k => ?_
      simp only [Nodes.Selects, ha, true_or, and_true]
      omega
    · rw [if_neg (not_or_intro ha ho)]
      have h1 : 1 ≤ nodesToSearch := Nat.one_le_iff_ne_zero.mpr ha
      refine h.answers_searchNodes hc h1 (by omega) fun k => ?_
      simp only [Nodes.Selects, ha, ho, false_or]
      omega
  · rw [if_pos hc]
    exact Or.inr ⟨rfl, fun k o _ ho => absurd ho.1 hc⟩

end Global

end Rtems.Objects
