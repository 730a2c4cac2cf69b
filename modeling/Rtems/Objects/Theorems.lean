import Rtems.Library.Transition
import Rtems.Objects.Lemmas

/-! # Looking objects up -/

namespace Rtems.Objects

open Transition

variable {C : Type*} {t : Table C} {fr : C → List (Block C)} {c : C} {b : Block C} {node id : Nat}

/-! ## One call -/

theorem Information.get_eq_local {B : Type*} {i : Information B} {o} :
    i.get id = (.objectsLocal, some o) ↔ ∃ e, i.entry id = some e ∧ i.localTable e = some o := by
  unfold Information.get
  cases he : i.entry id with
  | none => simp
  | some e => cases ho : i.localTable e <;> simp [ho]

theorem Information.get_cases {B : Type*} (i : Information B) (id : Nat) :
    i.get id = (.objectsError, none) ∨ ∃ o, i.get id = (.objectsLocal, some o) := by
  unfold Information.get
  cases i.entry id with
  | none => exact Or.inl rfl
  | some e => cases ho : i.localTable e <;> simp [ho]

theorem Table.Numbered.id_eq_add (h : t.Numbered node c) (hb : b.owner = c) (hp : t.Proper b) :
    t.id b = (t.information c).minimumId + (b.number - 1) ∧
      (t.information c).minimumId + b.number ≤ 2 ^ 32 := by
  have h1 := hp.1
  have h2 := hp.2
  have hm := h.maximum_lt
  have hc := h.class_lt
  have hn := h.node_lt
  rw [hb] at h2
  rw [h.id_eq b hb hp, h.minimumId_eq, if_neg (by omega), buildId_eq hc hn (by omega),
    buildId_eq hc hn (by omega)]
  omega

theorem Table.Numbered.entry_eq_some (h : t.Numbered node c) (hid : id < 2 ^ 32) {e}
    (hne : subWord id (t.information c).minimumId ≠ (t.information c).maximum) :
    (t.information c).entry id = some e ↔
      (1 ≤ e ∧ e ≤ (t.information c).maximum) ∧ t.id ⟨c, e⟩ = id := by
  have hm := h.maximum_lt
  have hi : subWord id (t.information c).minimumId < 2 ^ 32 := Nat.mod_lt _ (by omega)
  unfold Information.entry
  simp only
  constructor
  · intro he
    split at he
    · rw [addWord_eq (by omega), Option.some.injEq] at he
      have hp : t.Proper ⟨c, e⟩ := ⟨by simp only; omega, by simp only; omega⟩
      obtain ⟨h1, h2⟩ := h.id_eq_add (b := ⟨c, e⟩) rfl hp
      refine ⟨hp, ?_⟩
      rw [h1]
      unfold subWord at he hi
      simp only at h2 ⊢
      omega
    · cases he
  · rintro ⟨hp, rfl⟩
    obtain ⟨h1, h2⟩ := h.id_eq_add (b := ⟨c, e⟩) rfl hp
    have hs : subWord (t.id ⟨c, e⟩) (t.information c).minimumId = e - 1 := by
      rw [h1, subWord_eq (by omega) (by simp only at h2; omega)]
      simp
    rw [hs, if_pos (by omega), addWord_eq (by omega)]
    congr
    omega

variable [DecidableEq C]

theorem Table.Placed.get_eq (h : t.Placed fr none) (hN : t.Numbered node c) (hid : id < 2 ^ 32)
    (hne : subWord id (t.information c).minimumId ≠ (t.information c).maximum) :
    (t.information c).get id = (.objectsLocal, some b) ↔
      b.owner = c ∧ t.Proper b ∧ b ∉ fr b.owner ∧ t.id b = id := by
  rw [Information.get_eq_local]
  constructor
  · rintro ⟨e, he, ho⟩
    obtain ⟨hp, hid⟩ := (hN.entry_eq_some hid hne).mp he
    obtain ⟨rfl, rfl, hb⟩ := (h.entry_eq_some hp.2).mp ho
    exact ⟨rfl, hb.1, hb.2, hid⟩
  · rintro ⟨rfl, hp, hb, hb'⟩
    exact ⟨b.number, (hN.entry_eq_some hid hne).mpr ⟨hp, hb'⟩,
      (h.entry_eq_some hp.2).mpr ⟨rfl, rfl, hp, hb⟩⟩

/-! ## Runs -/

variable {s s' : State C} {m : Move C}

structure State.Sound (s : State C) (node : Nat) (config : C → Configured) (fr : C → List (Block C)) :
    Prop where
  placed : s.table.Placed fr none
  numbered : ∀ c, s.table.Numbered node c
  maximum : ∀ c, (s.table.information c).maximum = (config c).maximum
  opened : ∀ b, b ∈ s.opened ↔ s.table.Proper b ∧ b ∉ fr b.owner
  nodup : s.opened.Nodup

namespace State.Sound

variable {config : C → Configured}

theorem create (h : s.Sound node config fr) (he : s.step (.create c) = some s') :
    ∃ fr', s'.Sound node config fr' := by
  cases hc : fr c with
  | nil =>
    simp only [State.step, h.placed.allocate_nil hc, Option.elim_none, Option.some.injEq] at he
    subst he
    exact ⟨fr, h⟩
  | cons b l =>
    obtain ⟨ha, hP⟩ := h.placed.create (h.numbered c) hc
    have hbc : b ∈ fr c := by simp [hc]
    obtain ⟨rfl, hp⟩ := h.placed.own hbc
    have hbo : b ∉ s.opened := fun hm => ((h.opened b).mp hm).2 hbc
    have hnd := h.placed.inactive.nodup (c := b.owner) rfl
    rw [hc, List.nodup_cons] at hnd
    have hs : s' = ⟨(s.table.allocate b.owner).1.openObject b.owner b, b :: s.opened⟩ := by
      rw [State.step, ha] at he
      exact (Option.some.inj he).symm
    subst hs
    refine ⟨_, hP, fun c => (h.numbered c).allocate.setEntry, fun c => ?_, fun b' => ?_,
      List.nodup_cons.mpr ⟨hbo, h.nodup⟩⟩
    · simp [Table.openObject, h.maximum c]
    · have hpr : ((s.table.allocate b.owner).1.openObject b.owner b).Proper b' ↔ s.table.Proper b' := by
        simp [Table.openObject, Table.Proper]
      rw [List.mem_cons, h.opened, hpr]
      by_cases hbb : b' = b
      · subst hbb
        simp [hp, hnd.1]
      · by_cases ho : b'.owner = b.owner
        · simp [hbb, ho, hc]
        · simp [hbb, ho]

theorem delete (h : s.Sound node config fr) (he : s.step (.delete b) = some s') :
    ∃ fr', s'.Sound node config fr' := by
  simp only [State.step] at he
  split at he
  · rename_i hb
    cases he
    obtain ⟨hp, hbf⟩ := (h.opened b).mp hb
    refine ⟨_, h.placed.delete (h.numbered b.owner) hp hbf, fun c => (h.numbered c).setEntry.free,
      fun c => ?_, fun b' => ?_, h.nodup.erase b⟩
    · simp [Table.closeObject, h.maximum c]
    · have hpr : ((s.table.closeObject b.owner b).free b.owner b).Proper b' ↔ s.table.Proper b' := by
        simp [Table.closeObject, Table.Proper]
      rw [h.nodup.mem_erase_iff, h.opened, hpr]
      by_cases hbb : b' = b
      · subst hbb
        simp
      · by_cases ho : b'.owner = b.owner
        · simp [hbb, ho]
        · simp [hbb, ho]
  · cases he

theorem step (h : s.Sound node config fr) (he : s.step m = some s') : ∃ fr', s'.Sound node config fr' := by
  cases m with
  | create c => exact h.create he
  | delete b => exact h.delete he

/-- Every state the classes get into after their initialization. -/
theorem of_steps (t₀ : Table C) {cs : List C} (hcs : cs.Nodup) (hall : ∀ c, c ∈ cs)
    (hn : node < 2 ^ 10) (hclass : ∀ c, (config c).theClass < 2 ^ 6)
    (hmax : ∀ c, (config c).maximum < 2 ^ 16)
    (h : Steps State.step (fun _ _ => True) ⟨t₀.initializeClasses node config cs, []⟩ s) :
    ∃ fr, s.Sound node config fr := by
  refine h.invariant (I := fun s => ∃ fr, s.Sound node config fr) ?_ ?_
  · rintro s m s' ⟨fr, hs⟩ - he
    exact hs.step he
  · have hF := (Table.Fresh.nil t₀ node config).initializeClasses hcs (by simp)
    rw [List.append_nil] at hF
    have hall' : ∀ c, c ∈ cs.reverse := fun c => List.mem_reverse.mpr (hall c)
    refine ⟨_, hF.placed hall', fun c => hF.numbered hall' hn (hclass c) (hmax c),
      fun c => hF.maximum c (hall' c), fun b => ?_, List.nodup_nil⟩
    refine iff_of_false (by simp) fun hb => hb.2 (mem_blocks.mpr ⟨rfl, ?_⟩)
    rw [← hF.maximum _ (hall' _)]
    exact hb.1

end State.Sound

/-- An id that does not lead behind the table is found just if it is open. -/
theorem get_opened (t₀ : Table C) {config : C → Configured} {cs : List C} (hcs : cs.Nodup) (hall : ∀ c, c ∈ cs)
    (hn : node < 2 ^ 10) (hclass : ∀ c, (config c).theClass < 2 ^ 6)
    (hmax : ∀ c, (config c).maximum < 2 ^ 16)
    (h : Steps State.step (fun _ _ => True) ⟨t₀.initializeClasses node config cs, []⟩ s)
    (hid : id < 2 ^ 32)
    (hne : subWord id (s.table.information c).minimumId ≠ (config c).maximum) :
    (∀ e, (s.table.information c).entry id = some e → 1 ≤ e ∧ e ≤ (config c).maximum) ∧
      (∀ b, (s.table.information c).get id = (.objectsLocal, some b) ↔
        b ∈ s.opened ∧ b.owner = c ∧ s.table.id b = id) ∧
      ((∀ b ∈ s.opened, b.owner = c → s.table.id b ≠ id) →
        (s.table.information c).get id = (.objectsError, none)) := by
  obtain ⟨fr, hs⟩ := State.Sound.of_steps t₀ hcs hall hn hclass hmax h
  rw [← hs.maximum c] at hne ⊢
  have hget : ∀ b, (s.table.information c).get id = (.objectsLocal, some b) ↔
      b ∈ s.opened ∧ b.owner = c ∧ s.table.id b = id := by
    intro b
    rw [hs.placed.get_eq (hs.numbered c) hid hne, hs.opened]
    tauto
  refine ⟨fun e he => (((hs.numbered c).entry_eq_some hid hne).mp he).1, hget, fun hno => ?_⟩
  rcases (s.table.information c).get_cases id with hg | ⟨b, hg⟩
  · exact hg
  · obtain ⟨hb, hbc, hbi⟩ := (hget b).mp hg
    exact absurd hbi (hno b hb hbc)

def staleTable : Table Unit :=
  ⟨fun _ => ⟨0, 0, 0, 0, fun _ => some ⟨(), 7⟩, false⟩, fun _ => 0, Intrusive.Links.empty⟩

theorem get_opened_twoObjects :
    ∃ s, run State.step [.create (), .create (), .delete ⟨(), 1⟩]
        ⟨staleTable.initializeClasses 1 (fun _ => ⟨5, 2, false⟩) [()], []⟩ = some s ∧
      (s.table.information ()).get (buildId 5 1 2) = (.objectsLocal, some ⟨(), 2⟩) ∧
      (s.table.information ()).get (buildId 5 1 1) = (.objectsError, none) := by
  refine exists_of_map (fun s => (s.opened, s.table.id ⟨(), 2⟩, (s.table.information ()).minimumId)) ([⟨(), 2⟩], buildId 5 1 2, buildId 5 1 1)
    (by decide +kernel) fun s hs he => ?_
  obtain ⟨ho, he⟩ := Prod.mk.inj he
  obtain ⟨hi, hm⟩ := Prod.mk.inj he
  have hget := fun i (hi : i < 2 ^ 32) => get_opened (c := ()) staleTable (List.nodup_singleton ()) (by simp)
    (by decide) (fun _ => by decide) (fun _ => by decide) (.of_run (fun _ _ => trivial) hs) hi
  refine ⟨?_, ?_⟩
  · refine ((hget (buildId 5 1 2) (by decide) (by rw [hm]; decide)).2.1 ⟨(), 2⟩).mpr ⟨?_, rfl, hi⟩
    rw [ho]
    exact List.mem_singleton_self _
  · refine (hget (buildId 5 1 1) (by decide) (by rw [hm]; decide)).2.2 fun b hb _ => ?_
    rw [ho, List.mem_singleton] at hb
    rw [hb, hi]
    decide

/-- An id of `maximum` above `minimum_id` reads behind the table. -/
theorem get_behind_table :
    (∀ n ∈ [0, 1], ((staleTable.initializeClasses 1 (fun _ => ⟨5, n, false⟩) [()]).information
      ()).entry (buildId 5 1 (if n = 0 then 0 else 1) + n) = some (n + 1)) ∧
    ∀ n ∈ [0, 1], ((staleTable.initializeClasses 1 (fun _ => ⟨5, n, false⟩) [()]).information
      ()).get (buildId 5 1 (if n = 0 then 0 else 1) + n) = (.objectsLocal, some ⟨(), 7⟩) := by
  decide +kernel

end Rtems.Objects
