import Rtems.Chain.Lemmas
import Rtems.Objects.Model

/-! # Where the control blocks are -/

namespace Rtems.Objects

open Function Intrusive

theorem buildId_eq {theClass node index} (hc : theClass < 2 ^ 6) (hn : node < 2 ^ 10)
    (hi : index < 2 ^ 16) :
    buildId theClass node index = theClass * 2 ^ 26 + node * 2 ^ 16 + index := by
  have h1 : theClass <<< 26 ||| node <<< 16 = (theClass * 2 ^ 10 + node) <<< 16 := by
    rw [← Nat.shiftLeft_add_eq_or_of_lt]
    · omega
    · omega
  unfold buildId
  rw [h1, ← Nat.shiftLeft_add_eq_or_of_lt hi, Nat.shiftLeft_eq]
  omega

theorem getIndex_buildId {theClass node index} (hc : theClass < 2 ^ 6) (hn : node < 2 ^ 10)
    (hi : index < 2 ^ 16) : getIndex (buildId theClass node index) = index := by
  have h16 : indexValidBits = 2 ^ 16 - 1 := by
    unfold indexValidBits
    omega
  rw [buildId_eq hc hn hi, getIndex, h16, Nat.and_two_pow_sub_one_eq_mod]
  omega

theorem getClass_buildId {theClass node index} (hc : theClass < 2 ^ 4) (hn : node < 2 ^ 10)
    (hi : index < 2 ^ 16) : getClass (buildId theClass node index) = theClass := by
  have hs : (theClass * 2 ^ 26 + node * 2 ^ 16 + index) >>> 26 = theClass := by
    omega
  have hv : ∀ k < 16, k &&& classValidBits = k := by decide
  rw [buildId_eq (by omega) hn hi, getClass, hs]
  exact hv theClass hc

/-! ## The tables -/

variable {C : Type*} {t : Table C} {fr : C → List (Block C)} {out : Option (Block C)} {c : C}
  {b : Block C} {l : List (Block C)}

theorem mem_blocks {n} : b ∈ blocks c n ↔ b.owner = c ∧ 1 ≤ b.number ∧ b.number ≤ n := by
  unfold blocks
  rw [List.mem_map]
  constructor
  · rintro ⟨k, hk, rfl⟩
    have := List.mem_range.mp hk
    exact ⟨rfl, by simp, by simp; omega⟩
  · rintro ⟨rfl, h1, h2⟩
    refine ⟨b.number - 1, List.mem_range.mpr (by omega), ?_⟩
    rw [Nat.sub_add_cancel h1]

theorem blocks_nodup (c : C) (n : Nat) : (blocks c n).Nodup := by
  refine List.nodup_range.map fun i j h => ?_
  simpa using h

def Table.Proper (t : Table C) (b : Block C) : Prop :=
  1 ≤ b.number ∧ b.number ≤ (t.information b.owner).maximum

structure Table.Numbered (t : Table C) (node : Nat) (c : C) : Prop where
  class_lt : (t.information c).theClass < 2 ^ 6
  node_lt : node < 2 ^ 10
  maximum_lt : (t.information c).maximum < 2 ^ 16
  minimumId_eq : (t.information c).minimumId = buildId (t.information c).theClass node
    (if (t.information c).maximum = 0 then 0 else 1)
  id_eq : ∀ b, b.owner = c → t.Proper b → t.id b = buildId (t.information c).theClass node b.number

theorem Table.Numbered.congr {t' : Table C} {node} (h : t.Numbered node c)
    (hc : (t'.information c).theClass = (t.information c).theClass)
    (hm : (t'.information c).minimumId = (t.information c).minimumId)
    (hx : (t'.information c).maximum = (t.information c).maximum) (hid : t'.id = t.id) :
    t'.Numbered node c := by
  refine ⟨hc ▸ h.class_lt, h.node_lt, hx ▸ h.maximum_lt, ?_, fun b hb hp => ?_⟩
  · rw [hm, hx, hc, h.minimumId_eq]
  · rw [hid, hc]
    refine h.id_eq b hb ?_
    subst hb
    rwa [Table.Proper, hx] at hp

theorem Table.Numbered.getIndex_id {node} (h : t.Numbered node b.owner) (hb : t.Proper b) :
    getIndex (t.id b) = b.number := by
  have := hb.2
  have := h.maximum_lt
  rw [h.id_eq b rfl hb]
  exact getIndex_buildId h.class_lt h.node_lt (by omega)

variable [DecidableEq C]

structure Table.Placed (t : Table C) (fr : C → List (Block C)) (out : Option (Block C)) : Prop where
  inactive : Represents t.inactive fun c => some (fr c)
  own : ∀ {c b}, b ∈ fr c → b.owner = c ∧ t.Proper b
  out_proper : ∀ b ∈ out, t.Proper b ∧ b ∉ fr b.owner
  entry : ∀ c i, i ≤ (t.information c).maximum → (t.information c).localTable i =
    if 1 ≤ i ∧ ⟨c, i⟩ ∉ fr c ∧ some ⟨c, i⟩ ≠ out then some ⟨c, i⟩ else none

section Frames

@[simp] theorem information_allocate : (t.allocate c).1.information = t.information := by
  unfold Table.allocate
  split <;> rfl

@[simp] theorem id_allocate : (t.allocate c).1.id = t.id := by
  unfold Table.allocate
  split <;> rfl

@[simp] theorem information_free : (t.free c b).information = t.information := rfl

@[simp] theorem id_free : (t.free c b).id = t.id := rfl

variable {i : Nat} {o : Option (Block C)} {d : C}

theorem information_setEntry_ne (h : d ≠ c) :
    (t.setEntry c i o).information d = t.information d := by
  simp [Table.setEntry, h]

@[simp] theorem localTable_setEntry :
    ((t.setEntry c i o).information c).localTable = update (t.information c).localTable i o := by
  simp [Table.setEntry]

theorem localTable_setEntry_ne (h : Block.mk d i ≠ b) :
    ((t.setEntry b.owner b.number o).information d).localTable i = (t.information d).localTable i := by
  by_cases hd : d = b.owner
  · subst hd
    have hi : i ≠ b.number := by
      rintro rfl
      exact h rfl
    rw [localTable_setEntry, update_of_ne hi]
  · rw [information_setEntry_ne hd]

theorem setEntry_fields :
    ((t.setEntry c i o).information d).theClass = (t.information d).theClass ∧
      ((t.setEntry c i o).information d).minimumId = (t.information d).minimumId ∧
      ((t.setEntry c i o).information d).maximum = (t.information d).maximum ∧
      ((t.setEntry c i o).information d).isThread = (t.information d).isThread := by
  by_cases hd : d = c
  · subst hd
    simp [Table.setEntry]
  · rw [information_setEntry_ne hd]
    exact ⟨rfl, rfl, rfl, rfl⟩

@[simp] theorem maximum_setEntry :
    ((t.setEntry c i o).information d).maximum = (t.information d).maximum := setEntry_fields.2.2.1

@[simp] theorem proper_setEntry : (t.setEntry c i o).Proper b ↔ t.Proper b := by
  simp [Table.Proper]

namespace Table.Numbered

variable {node : Nat} (h : t.Numbered node c)

include h

theorem allocate : (t.allocate d).1.Numbered node c :=
  h.congr (by simp) (by simp) (by simp) (by simp)

theorem free : (t.free d b).Numbered node c := h.congr rfl rfl rfl rfl

theorem setEntry : (t.setEntry d i o).Numbered node c :=
  h.congr setEntry_fields.1 setEntry_fields.2.1 setEntry_fields.2.2.1 rfl

end Table.Numbered

end Frames

namespace Table.Placed

theorem allocate_nil (h : t.Placed fr out) (hc : fr c = []) : t.allocate c = (t, none) := by
  have hH := h.inactive.holds (c := c) rfl
  unfold Table.allocate
  rw [if_pos ((Chain.isEmpty_iff hH).mpr hc)]

theorem allocate_cons (h : t.Placed fr none) (hc : fr c = b :: l) :
    (t.allocate c).2 = some b ∧ (t.allocate c).1.Placed (update fr c l) (some b) := by
  have hH := h.inactive.holds (c := c) rfl
  have hne : ¬ Chain.isEmpty t.inactive c = true := by
    rw [Chain.isEmpty_iff hH, hc]
    simp
  obtain ⟨hf, hR⟩ := Chain.getFirst_represents h.inactive (congrArg some hc)
  have hnd := h.inactive.nodup (c := c) rfl
  rw [hc, List.nodup_cons] at hnd
  have hb : b ∈ fr c := by simp [hc]
  obtain ⟨rfl, hp⟩ := h.own hb
  have heq : t.allocate b.owner = ({ t with inactive := (Chain.getFirst t.inactive b.owner).1 }, some b) := by
    unfold Table.allocate
    rw [if_neg hne]
    simp only [hf]
  rw [heq]
  refine ⟨rfl, ⟨?_, fun {c' b'} hb' => ?_, fun b' hb' => ?_, fun c' i hi => ?_⟩⟩
  · have hcu : (fun c => some (update fr b.owner l c)) =
        update (fun c => some (fr c)) b.owner (some l) :=
      comp_update some fr b.owner l
    rw [hcu]
    exact hR
  · by_cases hcc : c' = b.owner
    · subst hcc
      rw [update_self] at hb'
      exact h.own (by simp [hc, hb'])
    · rw [update_of_ne hcc] at hb'
      exact h.own hb'
  · cases hb'
    rw [update_self]
    exact ⟨hp, hnd.1⟩
  · have he := h.entry c' i hi
    simp only [ne_eq, reduceCtorEq, not_false_eq_true, and_true] at he
    rw [he]
    refine if_congr (and_congr_right fun _ => ?_) rfl rfl
    by_cases hcc : c' = b.owner
    · subst hcc
      rw [update_self, hc, List.mem_cons, not_or, and_comm, ne_eq, Option.some_inj]
    · rw [update_of_ne hcc, ne_eq, Option.some_inj, and_iff_left]
      rintro rfl
      exact hcc rfl

theorem openObject {node} (h : t.Placed fr (some b)) (hN : t.Numbered node b.owner) :
    (t.openObject b.owner b).Placed fr none := by
  obtain ⟨hp, hb⟩ := h.out_proper b rfl
  unfold Table.openObject
  rw [hN.getIndex_id hp]
  refine ⟨h.inactive, fun hb' => ?_, by simp, fun c i hi => ?_⟩
  · rw [proper_setEntry]
    exact h.own hb'
  · rw [maximum_setEntry] at hi
    have he := h.entry c i hi
    by_cases hci : Block.mk c i = b
    · subst hci
      simp [hb, hp.1]
    · simp only [ne_eq, Option.some_inj, hci, not_false_eq_true, and_true] at he
      simp only [ne_eq, reduceCtorEq, not_false_eq_true, and_true, ← he]
      exact localTable_setEntry_ne hci

theorem closeObject {node} (h : t.Placed fr none) (hN : t.Numbered node b.owner)
    (hp : t.Proper b) (hb : b ∉ fr b.owner) : (t.closeObject b.owner b).Placed fr (some b) := by
  unfold Table.closeObject
  rw [hN.getIndex_id hp]
  refine ⟨h.inactive, fun hb' => ?_, fun b' hb' => ?_, fun c i hi => ?_⟩
  · rw [proper_setEntry]
    exact h.own hb'
  · cases hb'
    rw [proper_setEntry]
    exact ⟨hp, hb⟩
  · rw [maximum_setEntry] at hi
    have he := h.entry c i hi
    by_cases hci : Block.mk c i = b
    · subst hci
      simp
    · simp only [ne_eq, reduceCtorEq, not_false_eq_true, and_true] at he
      simp only [ne_eq, Option.some_inj, hci, not_false_eq_true, and_true, ← he]
      exact localTable_setEntry_ne hci

theorem free (h : t.Placed fr (some b)) :
    (t.free b.owner b).Placed (update fr b.owner (fr b.owner ++ [b])) none := by
  obtain ⟨hp, hb⟩ := h.out_proper b rfl
  have hoff : Off (fun c => some (fr c)) b := by
    intro c l hc hl
    cases hc
    obtain ⟨rfl, -⟩ := h.own hl
    exact hb hl
  refine ⟨?_, fun {c b'} hb' => ?_, by simp, fun c i hi => ?_⟩
  · have hcu : (fun c => some (update fr b.owner (fr b.owner ++ [b]) c)) =
        update (fun c => some (fr c)) b.owner (some (fr b.owner ++ [b])) :=
      comp_update some fr b.owner _
    rw [hcu]
    exact Chain.append_represents h.inactive rfl hoff
  · by_cases hc : c = b.owner
    · subst hc
      rw [update_self, List.mem_append, List.mem_singleton] at hb'
      rcases hb' with hb' | rfl
      · exact h.own hb'
      · exact ⟨rfl, hp⟩
    · rw [update_of_ne hc] at hb'
      exact h.own hb'
  · rw [information_free, h.entry c i hi]
    refine if_congr (and_congr_right fun _ => ?_) rfl rfl
    rw [ne_eq, Option.some_inj, and_iff_left (show some (Block.mk c i) ≠ none by simp)]
    by_cases hc : c = b.owner
    · subst hc
      rw [update_self, List.mem_append, List.mem_singleton, not_or]
    · rw [update_of_ne hc, and_iff_left]
      rintro rfl
      exact hc rfl

theorem create {node} (h : t.Placed fr none) (hN : t.Numbered node c) (hc : fr c = b :: l) :
    (t.allocate c).2 = some b ∧
      ((t.allocate c).1.openObject c b).Placed (update fr c l) none := by
  obtain ⟨h1, h2⟩ := h.allocate_cons hc
  obtain ⟨rfl, -⟩ := h.own (show b ∈ fr c by simp [hc])
  exact ⟨h1, h2.openObject hN.allocate⟩

theorem delete {node} (h : t.Placed fr none) (hN : t.Numbered node b.owner) (hp : t.Proper b)
    (hb : b ∉ fr b.owner) :
    ((t.closeObject b.owner b).free b.owner b).Placed
      (update fr b.owner (fr b.owner ++ [b])) none :=
  (h.closeObject hN hp hb).free

theorem entry_eq_some (h : t.Placed fr none) {i} (hi : i ≤ (t.information c).maximum) :
    (t.information c).localTable i = some b ↔
      b.owner = c ∧ b.number = i ∧ t.Proper b ∧ b ∉ fr b.owner := by
  rw [h.entry c i hi]
  constructor
  · intro he
    split at he
    · rename_i hif
      cases he
      exact ⟨rfl, rfl, ⟨hif.1, hi⟩, hif.2.1⟩
    · cases he
  · rintro ⟨rfl, rfl, hp, hb⟩
    rw [if_pos ⟨hp.1, hb, by simp⟩]

end Table.Placed

/-! ## Classes that have just been initialized -/

structure Table.Fresh (t : Table C) (node : Nat) (config : C → Configured) (cs : List C) : Prop where
  inactive : Represents t.inactive fun c => if c ∈ cs then some (blocks c (config c).maximum) else none
  theClass : ∀ c ∈ cs, (t.information c).theClass = (config c).theClass
  maximum : ∀ c ∈ cs, (t.information c).maximum = (config c).maximum
  isThread : ∀ c ∈ cs, (t.information c).isThread = (config c).isThread
  minimumId : ∀ c ∈ cs, (t.information c).minimumId =
    buildId (config c).theClass node (if (config c).maximum = 0 then 0 else 1)
  entry : ∀ c ∈ cs, ∀ i ≤ (config c).maximum, (t.information c).localTable i = none
  id_eq : ∀ b : Block C, b.owner ∈ cs → 1 ≤ b.number → b.number ≤ (config b.owner).maximum →
    t.id b = buildId (config b.owner).theClass node b.number

namespace Table.Fresh

variable {node : Nat} {config : C → Configured} {cs : List C}

theorem nil (t : Table C) (node : Nat) (config : C → Configured) : t.Fresh node config [] := by
  refine ⟨⟨?_, ?_, ?_⟩, ?_, ?_, ?_, ?_, ?_, ?_⟩ <;> simp

theorem initializeInformation (h : t.Fresh node config cs) (hc : c ∉ cs) :
    (t.initializeInformation node c (config c).theClass (config c).maximum
      (config c).isThread).Fresh node config (c :: cs) := by
  have hoff : ∀ b ∈ blocks c (config c).maximum,
      Off (fun c => if c ∈ cs then some (blocks c (config c).maximum) else none) b := by
    intro b hb d l hd hbl
    simp only at hd
    split at hd
    · cases hd
      obtain rfl := (mem_blocks.mp hb).1
      obtain rfl := (mem_blocks.mp hbl).1
      exact hc ‹_›
    · cases hd
  have hch : (fun d => if d ∈ c :: cs then some (blocks d (config d).maximum) else none) =
      update (fun d => if d ∈ cs then some (blocks d (config d).maximum) else none) c
        (some (blocks c (config c).maximum)) := by
    funext d
    by_cases hd : d = c
    · subst hd
      simp
    · simp [hd]
  have hne : ∀ d ∈ c :: cs, d ≠ c → d ∈ cs := fun d hd hdc => (List.mem_cons.mp hd).resolve_left hdc
  have hinf : ∀ d, d ≠ c → (t.initializeInformation node c (config c).theClass (config c).maximum
      (config c).isThread).information d = t.information d :=
    fun d hd => update_of_ne hd ..
  refine ⟨?_, fun d hd => ?_, fun d hd => ?_, fun d hd => ?_, fun d hd => ?_, fun d hd i hi => ?_,
    fun b hb h1 h2 => ?_⟩
  · rw [hch]
    unfold Table.initializeInformation
    split
    · rename_i h0
      rw [h0]
      exact Chain.initializeEmpty_represents h.inactive c
    · exact Chain.initializeChain_represents h.inactive c (blocks_nodup c _) hoff
  · by_cases hdc : d = c
    · simp [Table.initializeInformation, hdc]
    · rw [hinf d hdc, h.theClass d (hne d hd hdc)]
  · by_cases hdc : d = c
    · simp [Table.initializeInformation, hdc]
    · rw [hinf d hdc, h.maximum d (hne d hd hdc)]
  · by_cases hdc : d = c
    · simp [Table.initializeInformation, hdc]
    · rw [hinf d hdc, h.isThread d (hne d hd hdc)]
  · by_cases hdc : d = c
    · simp [Table.initializeInformation, hdc]
    · rw [hinf d hdc, h.minimumId d (hne d hd hdc)]
  · by_cases hdc : d = c
    · subst hdc
      simp [Table.initializeInformation, hi]
    · rw [hinf d hdc, h.entry d (hne d hd hdc) i hi]
  · by_cases hdc : b.owner = c
    · subst hdc
      simp [Table.initializeInformation, h1, h2]
    · simp only [Table.initializeInformation, hdc, false_and, if_false]
      exact h.id_eq b (hne _ hb hdc) h1 h2

theorem initializeClasses {ds} (h : t.Fresh node config cs) (hd : ds.Nodup)
    (hdis : ∀ c ∈ ds, c ∉ cs) : (t.initializeClasses node config ds).Fresh node config (ds.reverse ++ cs) := by
  induction ds generalizing t cs with
  | nil => exact h
  | cons d ds ih =>
    obtain ⟨hds, hd⟩ := List.nodup_cons.mp hd
    have h' := h.initializeInformation (hdis d (by simp))
    rw [List.reverse_cons, List.append_assoc]
    refine ih h' hd fun c hc hm => ?_
    rcases List.mem_cons.mp hm with rfl | hm
    · exact hds hc
    · exact hdis c (by simp [hc]) hm

variable (h : t.Fresh node config cs) (hcs : ∀ c, c ∈ cs)

include h hcs

theorem placed : t.Placed (fun c => blocks c (config c).maximum) none := by
  refine ⟨?_, fun {c b} hb => ?_, by simp, fun c i hi => ?_⟩
  · have hR := h.inactive
    simp only [hcs, if_true] at hR
    exact hR
  · obtain ⟨rfl, hb⟩ := mem_blocks.mp hb
    rw [Table.Proper, h.maximum _ (hcs _)]
    exact ⟨rfl, hb⟩
  · rw [h.maximum c (hcs c)] at hi
    rw [h.entry c (hcs c) i hi, if_neg]
    rintro ⟨h1, h2, -⟩
    exact h2 (mem_blocks.mpr ⟨rfl, h1, hi⟩)

theorem numbered (hn : node < 2 ^ 10) (hc : (config c).theClass < 2 ^ 6)
    (hm : (config c).maximum < 2 ^ 16) : t.Numbered node c := by
  have hcl := h.theClass c (hcs c)
  have hmx := h.maximum c (hcs c)
  refine ⟨hcl ▸ hc, hn, hmx ▸ hm, ?_, fun b hb hp => ?_⟩
  · rw [h.minimumId c (hcs c), hcl, hmx]
  · subst hb
    rw [Table.Proper, hmx] at hp
    rw [h.id_eq b (hcs _) hp.1 hp.2, hcl]

end Table.Fresh

end Rtems.Objects
