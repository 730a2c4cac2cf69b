import Rtems.GlobalTask.Model
import Rtems.Library.Transition

/-! # Which tasks are deleted globally -/

namespace Rtems.GlobalTask

open Function Transition Option

variable {T : Type*} {id : T → Nat} {port : Port} {l : List GlobalObject} {i : Nat} {e : GlobalObject}

theorem objectsMpClose_eq (h : ∃ e ∈ l, e.id = i) : objectsMpClose i l = some (l.eraseP (·.id = i)) := by
  induction l with
  | nil => simp at h
  | cons a l ih =>
    by_cases ha : a.id = i
    · simp [objectsMpClose, ha]
    · have hl : ∃ e ∈ l, e.id = i := by simpa [ha] using h
      simp [objectsMpClose, ha, ih hl]

theorem objectsMpClose_eq_none (h : ∀ e ∈ l, e.id ≠ i) : objectsMpClose i l = none := by
  induction l with
  | nil => rfl
  | cons a l ih =>
    obtain ⟨ha, hl⟩ := List.forall_mem_cons.mp h
    simp [objectsMpClose, ha, ih hl]

theorem mem_eraseP (h : (l.map GlobalObject.id).Nodup) : e ∈ l.eraseP (·.id = i) ↔ e ∈ l ∧ e.id ≠ i := by
  induction l with
  | nil => simp
  | cons a l ih =>
    rw [List.map_cons, List.nodup_cons] at h
    by_cases ha : a.id = i
    · have hi : ∀ e ∈ l, e.id ≠ i := fun e he hei => h.1 (List.mem_map.mpr ⟨e, he, hei.trans ha.symm⟩)
      rw [List.eraseP_cons_of_pos (by simpa using ha), List.mem_cons]
      constructor
      · exact fun he => ⟨Or.inr he, hi e he⟩
      · rintro ⟨rfl | he, hne⟩
        · exact absurd ha hne
        · exact he
    · rw [List.eraseP_cons_of_neg (by simpa using ha), List.mem_cons, List.mem_cons, ih h.2]
      constructor
      · rintro (rfl | he)
        · exact ⟨Or.inl rfl, ha⟩
        · exact ⟨Or.inr he.1, he.2⟩
      · rintro ⟨rfl | he, hne⟩
        · exact Or.inl rfl
        · exact Or.inr ⟨he, hne⟩

theorem isGlobal_theAttributeSet (port : Port) (a : Nat) : isGlobal (port.theAttributeSet a) = isGlobal a := by
  have hm : (0xFFFFFFFF ^^^ port.attributesNotSupported) &&& globalBit = globalBit := by
    unfold Port.attributesNotSupported
    split <;> decide
  have hr : port.attributesRequired &&& globalBit = 0 := by
    unfold Port.attributesRequired
    split <;> decide
  unfold isGlobal Port.theAttributeSet
  rw [Nat.and_assoc, hm, Nat.and_or_distrib_right, hr, Nat.or_zero]

/-! ## The invariant -/

variable [DecidableEq T] {s s' : Node T} {t : T} {q : Request} {m : Move T}

structure Node.Sound (id : T → Nat) (s : Node T) : Prop where
  nodup : s.inactive.Nodup
  free : ∀ t ∈ s.inactive, s.given t = none
  flag : ∀ {t g}, s.given t = some g → s.isGlobal t = g
  listed : ∀ {t}, (∃ e ∈ s.globalTable, e.id = id t) ↔ s.given t = some true
  once : (s.globalTable.map GlobalObject.id).Nodup

/-- A task is created if there is a block. -/
def Request.Creates (port : Port) (q : Request) : Prop :=
  q.name ≠ 0 ∧ (isSystemTask (port.theAttributeSet q.attributeSet) ∨ priorityIsValid q.initialPriority) ∧
    q.initialized

/-- No local task is created in a block that a global one has used. -/
def Unmarked (port : Port) (s : Node T) : Move T → Prop
  | .create q => isGlobal q.attributeSet = false ∧ q.Creates port → ∀ t ∈ s.inactive.head?, s.isGlobal t = false
  | _ => True

instance (s : Node T) (m : Move T) : Decidable (Unmarked port s m) := by
  cases m <;> unfold Unmarked Request.Creates <;> infer_instance

namespace Node

section

variable (h : s.Sound id)

include h

omit [DecidableEq T] in
theorem Sound.others (n : Nat) : { s with inactiveGlobalObjects := n }.Sound id :=
  ⟨h.nodup, h.free, h.flag, h.listed, h.once⟩

omit [DecidableEq T] in
theorem Sound.rotate {l} (hl : s.inactive = t :: l) :
    ({ s with inactive := l }.tasksFree t).Sound id := by
  have hp : (l ++ [t]).Perm s.inactive := by
    rw [hl]
    exact List.perm_append_singleton t l
  exact ⟨hp.nodup_iff.mpr h.nodup, fun u hu => h.free u (hp.mem_iff.mp hu), h.flag, h.listed, h.once⟩

theorem Sound.openLocal {l} (hl : s.inactive = t :: l) (hf : s.isGlobal t = false) :
    { s with inactive := l, given := update s.given t (some false) }.Sound id := by
  have hnd := h.nodup
  rw [hl, List.nodup_cons] at hnd
  have ht := h.free t (by simp [hl])
  refine ⟨hnd.2, fun u hu => ?_, fun {u g} hu => ?_, fun {u} => ?_, h.once⟩
  · have hut : u ≠ t := fun he => hnd.1 (he ▸ hu)
    simpa [hut] using h.free u (by simp [hl, hu])
  · by_cases hut : u = t
    · subst hut
      simpa [hf] using hu
    · exact h.flag (by simpa [hut] using hu)
  · refine h.listed.trans ?_
    by_cases hut : u = t
    · subst hut
      simp [ht]
    · simp [hut]

section

variable (hid : Injective id)

include hid

theorem Sound.openGlobal {l} (hl : s.inactive = t :: l) (name : Nat) (ps : List Packet) :
    { s with
      inactive := l
      given := update s.given t (some true)
      isGlobal := update s.isGlobal t true
      globalTable := ⟨id t, name⟩ :: s.globalTable
      packets := ps }.Sound id := by
  have hnd := h.nodup
  rw [hl, List.nodup_cons] at hnd
  have ht := h.free t (by simp [hl])
  refine ⟨hnd.2, fun u hu => ?_, fun {u g} hu => ?_, fun {u} => ?_, ?_⟩
  · have hut : u ≠ t := fun he => hnd.1 (he ▸ hu)
    simpa [hut] using h.free u (by simp [hl, hu])
  · by_cases hut : u = t
    · subst hut
      simpa using hu
    · have := h.flag (by simpa [hut] using hu)
      simpa [hut] using this
  · by_cases hut : u = t
    · subst hut
      simp
    · have hne : id t ≠ id u := fun he => hut (hid he).symm
      simpa [hut, hne] using h.listed
  · refine List.nodup_cons.mpr ⟨fun hm => ?_, h.once⟩
    obtain ⟨e, he, hei⟩ := List.mem_map.mp hm
    have := h.listed.mp ⟨e, he, hei⟩
    rw [ht] at this
    cases this

theorem Sound.taskInitialize {l}
    (hl : s.inactive = t :: l)
    (hg : GlobalTask.isGlobal q.attributeSet = false → q.initialized = true → s.isGlobal t = false) :
    ({ s with inactive := l }.taskInitialize id q t (GlobalTask.isGlobal q.attributeSet)).1.Sound id := by
  unfold Node.taskInitialize
  by_cases hi : q.initialized = true
  · rw [if_neg (by simpa using hi)]
    cases hq : GlobalTask.isGlobal q.attributeSet with
    | true => exact h.openGlobal hid hl q.name _
    | false => exact h.openLocal hl (hg hq hi)
  · rw [if_pos (by simpa using hi)]
    cases GlobalTask.isGlobal q.attributeSet with
    | true => exact (h.rotate hl).others _
    | false => exact h.rotate hl

theorem Sound.create (hm : Unmarked port s (.create q)) :
    (s.taskCreate id port q).1.Sound id := by
  unfold Node.taskCreate
  dsimp only
  rw [isGlobal_theAttributeSet]
  split
  · exact h
  rename_i hname
  split
  · exact h
  rename_i hp
  cases hl : s.inactive with
  | nil => exact h
  | cons t l =>
    have hf : GlobalTask.isGlobal q.attributeSet = false → q.initialized = true → s.isGlobal t = false :=
      fun hq hi => hm ⟨hq, hname, or_iff_not_and_not.mpr hp, hi⟩ t (by simp [hl])
    have hI := fun n => (h.others n).taskInitialize hid hl hf
    cases hq : GlobalTask.isGlobal q.attributeSet with
    | true =>
      dsimp only
      rw [if_pos rfl]
      split
      · exact h.rotate hl
      · rw [hq] at hI
        exact hI (s.inactiveGlobalObjects - 1)
    | false =>
      rw [hq] at hI
      exact hI s.inactiveGlobalObjects

theorem Sound.delete {g} (hg : s.given t = some g) :
    ∃ s', s.taskDelete id t = some s' ∧ s'.Sound id ∧
      (g = true → (∃ e ∈ s.globalTable, e.id = id t) ∧
        s'.globalTable = s.globalTable.eraseP (·.id = id t) ∧
        s'.packets = s.packets ++ [.announceDelete (id t)]) ∧
      (g = false → s'.globalTable = s.globalTable ∧ s'.packets = s.packets) := by
  have hti : t ∉ s.inactive := fun ht => by
    rw [h.free t ht] at hg
    cases hg
  have hnd : (s.inactive ++ [t]).Nodup := by
    exact (List.perm_append_singleton t s.inactive).nodup_iff.mpr (List.nodup_cons.mpr ⟨hti, h.nodup⟩)
  have hfree : ∀ u ∈ s.inactive ++ [t], update s.given t none u = none := by
    intro u hu
    by_cases hut : u = t
    · simp [hut]
    · simpa [hut] using h.free u (by simpa [hut] using hu)
  have hflag : ∀ {u g'}, update s.given t none u = some g' → s.isGlobal u = g' := by
    intro u g' hu
    by_cases hut : u = t
    · simp [hut] at hu
    · exact h.flag (by simpa [hut] using hu)
  unfold Node.taskDelete
  dsimp only [Node.tasksFree]
  rw [h.flag hg]
  cases g with
  | true =>
    have he := h.listed.mpr hg
    rw [if_pos rfl, objectsMpClose_eq he]
    refine ⟨_, rfl, ⟨hnd, hfree, hflag, fun {u} => ?_, ?_⟩, fun _ => ⟨he, rfl, rfl⟩, nofun⟩
    · simp only [Node.sendProcessPacket, mem_eraseP h.once]
      by_cases hut : u = t
      · subst hut
        simp
      · have hne : id u ≠ id t := fun he => hut (hid he)
        rw [update_of_ne hut, ← h.listed]
        exact ⟨fun ⟨e, hm, hi⟩ => ⟨e, hm.1, hi⟩, fun ⟨e, hm, hi⟩ => ⟨e, ⟨hm, hi ▸ hne⟩, hi⟩⟩
    · exact h.once.sublist (List.Sublist.map _ List.eraseP_sublist)
  | false =>
    refine ⟨_, rfl, ⟨hnd, hfree, hflag, fun {u} => h.listed.trans ?_, h.once⟩, nofun, fun _ => ⟨rfl, rfl⟩⟩
    by_cases hut : u = t
    · subst hut
      simp [hg]
    · simp [hut]

omit hid in
theorem Sound.delete_eq_none (hm : ¬ Unmarked port s (.create q)) :
    ∃ t, (s.taskCreate id port q).1.given t = some false ∧ (s.taskCreate id port q).1.taskDelete id t = none := by
  simp only [Unmarked, not_forall] at hm
  obtain ⟨⟨hq, hname, hp, hi⟩, t, ht, hf⟩ := hm
  rw [Bool.not_eq_false] at hf
  obtain ⟨l, hl⟩ := List.head?_eq_some_iff.mp ht
  have hfree : ¬ ∃ e ∈ s.globalTable, e.id = id t := by
    rw [h.listed, h.free t (by simp [hl])]
    simp
  have hc : (s.taskCreate id port q).1 = { s with inactive := l, given := update s.given t (some false) } := by
    simp only [Node.taskCreate, if_neg hname, if_neg (or_iff_not_and_not.mp hp), hl, isGlobal_theAttributeSet, hq, Node.taskInitialize, hi,
      not_true_eq_false, if_false, Bool.false_eq_true]
  refine ⟨t, ?_, ?_⟩
  · rw [hc]
    exact update_self ..
  · have hn := objectsMpClose_eq_none fun e he hi => hfree ⟨e, he, hi⟩
    simp only [hc, Node.taskDelete, Node.tasksFree, hf, if_true, hn, map_none]

theorem Sound.step (hm : Unmarked port s m)
    (he : s.step port id m = some s') : s'.Sound id := by
  cases m with
  | create q => exact some.inj he ▸ h.create hid hm
  | delete t =>
    simp only [Node.step] at he
    split at he
    · rename_i hs
      obtain ⟨g, hg⟩ := isSome_iff_exists.mp hs
      obtain ⟨s1, h1, hS, -⟩ := h.delete hid hg
      rw [h1] at he
      exact some.inj he ▸ hS
    · cases he
  | others n => exact some.inj he ▸ h.others n

end

end

omit [DecidableEq T] in
theorem sound_initial {blocks} (hb : blocks.Nodup) (n : Nat) :
    (Node.initial blocks n).Sound id :=
  ⟨hb, fun _ _ => rfl, fun h => by simp [Node.initial] at h, fun {t} => by simp [Node.initial],
    List.nodup_nil⟩

end Node

/-- Just the global tasks are deleted globally, if no local one uses their blocks; one that does halts the
node when it is deleted. -/
theorem taskDelete_given (port : Port) (hid : Injective id) {blocks : List T} (hb : blocks.Nodup)
    {n : Nat} (h : Steps (Node.step port id) (Unmarked port) (Node.initial blocks n) s) :
    (∀ t g, s.given t = some g → ∃ s', s.taskDelete id t = some s' ∧
      (g = true → (∃ e ∈ s.globalTable, e.id = id t) ∧
        s'.globalTable = s.globalTable.eraseP (·.id = id t) ∧
        s'.packets = s.packets ++ [.announceDelete (id t)]) ∧
      (g = false → s'.globalTable = s.globalTable ∧ s'.packets = s.packets)) ∧
    ∀ q, ¬ Unmarked port s (.create q) → ∃ t, (s.taskCreate id port q).1.given t = some false ∧
      (s.taskCreate id port q).1.taskDelete id t = none := by
  have hS : s.Sound id := h.invariant (fun hI hm he => hI.step hid hm he) (Node.sound_initial hb n)
  refine ⟨fun t g hg => ?_, fun q hq => hS.delete_eq_none hq⟩
  obtain ⟨s', he, -, h₁⟩ := hS.delete hid hg
  exact ⟨s', he, h₁⟩

def globalRequest : Request := ⟨1, 1, globalBit, true⟩

def localRequest : Request := ⟨1, 1, 0, true⟩

def oneBlock : Node Unit := Node.initial [()] 1

def plainPort : Port := ⟨false, true⟩

def localFirst : List (Move Unit) := [.create localRequest, .delete (), .create globalRequest]

theorem taskDelete_given_oneBlock : ∃ s s',
    run (checked (Node.step plainPort fun _ => 5) (Unmarked plainPort)) localFirst oneBlock = some s ∧ s.given () = some true ∧ s.taskDelete (fun _ => 5) () = some s' ∧
      s'.globalTable = s.globalTable.eraseP (·.id = 5) ∧ s'.packets = s.packets ++ [.announceDelete 5] := by
  have hv : (run (checked (Node.step plainPort fun _ => 5) (Unmarked plainPort)) localFirst oneBlock).map
      (fun s => s.given ()) = some (some true) := by decide
  obtain ⟨s, hs, hg⟩ := map_eq_some_iff.mp hv
  have hid : Injective fun _ : Unit => 5 := fun _ _ _ => rfl
  obtain ⟨s', he, h₁, -⟩ := (taskDelete_given plainPort hid (by simp) (Steps.refl.run_checked hs)).1 _ _ hg
  exact ⟨s, s', hs, hg, he, (h₁ rfl).2⟩

/-- A local task in the block of a global one halts the node. -/
theorem local_delete_halts :
    ∃ s, run (Node.step plainPort fun _ => 5) [.create globalRequest, .delete (), .create localRequest]
        oneBlock = some s ∧
      s.given () = some false ∧ s.globalTable = [] ∧ s.taskDelete (fun _ => 5) () = none := by
  refine exists_of_map (fun s => (s.given (), s.globalTable, (s.taskDelete (fun _ => 5) ()).isNone)) (some false, [], true)
    (by decide) fun s hs he => ?_
  simp only [Prod.mk.injEq] at he
  exact ⟨he.1, he.2.1, Option.isNone_iff_eq_none.mp he.2.2⟩

end Rtems.GlobalTask
