import Rtems.Creation.Model
import Rtems.Objects.Theorems

/-! # The control blocks of threads -/

namespace Rtems.Creation

open Objects (Table Block)
open Function Intrusive Option

variable {cfg : Config} {s s' : System} {c : ThreadClass} {t : Tcb} {node : Nat}
  {fr : ThreadClass → List Tcb} {q : Request}

/-- A `thread_create` extension returns `FALSE`. -/
def System.refused (cfg : Config) (s : System) (c : ThreadClass) (q : Request) : Bool :=
  (s.table.allocate c).2.elim false fun t =>
    (initializeAreas cfg s.resources t q.stackArea q.stackSize q.granted q.isFp).elim false fun r =>
      r.2 && (userExtensionsThreadCreate t cfg.userExtensions r.1).elim false fun r => !r.2

theorem threadInitialize_cases {ok} (h : threadInitialize cfg s c t q = some (s', ok)) :
    (ok = true ∧ s'.table = s.table.openObject c t) ∨
      (ok = false ∧ s'.table = s.table ∧
        initializeAreas cfg s.resources t q.stackArea q.stackSize q.granted q.isFp =
          some (s'.resources, false)) ∨
      (ok = false ∧ s'.table = s.table.openObject c t ∧
        ∃ R R', initializeAreas cfg s.resources t q.stackArea q.stackSize q.granted q.isFp =
          some (R, true) ∧ userExtensionsThreadCreate t cfg.userExtensions R = some (R', false)) := by
  obtain ⟨⟨R, fit⟩, hA, h⟩ := bind_eq_some_iff.mp h
  cases fit with
  | true =>
    obtain ⟨⟨R', accepted⟩, hE, h⟩ := map_eq_some_iff.mp h
    cases accepted with
    | true =>
      cases h
      exact Or.inl ⟨rfl, rfl⟩
    | false =>
      cases h
      exact Or.inr (Or.inr ⟨rfl, rfl, R, R', hA, hE⟩)
  | false =>
    cases h
    exact Or.inr (Or.inl ⟨rfl, rfl, hA⟩)

/-! ## The tables -/

structure Tables (T : Table ThreadClass) (node : Nat) (fr : ThreadClass → List Tcb) : Prop where
  placed : T.Placed fr none
  numbered : ∀ c, T.Numbered node c
  code : ∀ c, (T.information c).theClass = c.code
  isThread : ∀ c, (T.information c).isThread = true

theorem ofCode_code (c : ThreadClass) : ThreadClass.ofCode c.code = some c := by cases c <;> rfl

namespace Tables

variable {T : Table ThreadClass} {l : List Tcb}

section

variable (h : Tables T node fr)

include h

theorem ofCode_id (ht : T.Proper t) :
    ThreadClass.ofCode (Objects.getClass (T.id t)) = some t.owner := by
  have hN := h.numbered t.owner
  have hlt : t.owner.code < 2 ^ 4 := by cases t.owner <;> decide
  have := ht.2
  have := hN.maximum_lt
  rw [hN.id_eq t rfl ht, h.code, Objects.getClass_buildId hlt hN.node_lt (by omega), ofCode_code]

theorem create (hc : fr c = t :: l) :
    Tables ((T.allocate c).1.openObject c t) node (update fr c l) := by
  refine ⟨(h.placed.create (h.numbered c) hc).2, fun d => (h.numbered d).allocate.setEntry,
    fun d => ?_, fun d => ?_⟩
  · exact Objects.setEntry_fields.1.trans (by rw [Objects.information_allocate, h.code])
  · exact Objects.setEntry_fields.2.2.2.trans (by rw [Objects.information_allocate, h.isThread])

theorem giveUp (hc : fr c = t :: l) :
    Tables ((T.allocate c).1.free c t) node (update fr c (l ++ [t])) := by
  obtain ⟨-, hP⟩ := h.placed.allocate_cons hc
  obtain ⟨rfl, -⟩ := h.placed.own (show t ∈ fr c by simp [hc])
  have hF := hP.free
  rw [update_self, update_idem] at hF
  refine ⟨hF, fun d => (h.numbered d).allocate.free, fun d => ?_, fun d => ?_⟩
  · rw [Objects.information_free, Objects.information_allocate, h.code]
  · rw [Objects.information_free, Objects.information_allocate, h.isThread]

theorem delete (ht : T.Proper t) (hf : t ∉ fr t.owner) :
    Tables ((T.closeObject t.owner t).free t.owner t) node
      (update fr t.owner (fr t.owner ++ [t])) := by
  refine ⟨h.placed.delete (h.numbered t.owner) ht hf, fun d => (h.numbered d).setEntry.free,
    fun d => ?_, fun d => ?_⟩
  · exact Objects.setEntry_fields.1.trans (h.code d)
  · exact Objects.setEntry_fields.2.2.2.trans (h.isThread d)

omit h in
theorem initialized (h : Tables s.table node fr) (hc : fr c = t :: l) {ok}
    (he : threadInitialize cfg { s with table := (s.table.allocate c).1 } c t q = some (s', ok)) :
    (ok = true ∧ s'.table = (s.table.allocate c).1.openObject c t) ∨
      (ok = false ∧ s'.table = (s.table.allocate c).1 ∧
        initializeAreas cfg s.resources t q.stackArea q.stackSize q.granted q.isFp =
          some (s'.resources, false)) ∨
      (ok = false ∧ s'.table = (s.table.allocate c).1.openObject c t ∧
        s.refused cfg c q = true) := by
  rcases threadInitialize_cases he with h1 | h1 | ⟨hok, hT, R, R', hA, hE⟩
  · exact Or.inl h1
  · exact Or.inr (Or.inl h1)
  · refine Or.inr (Or.inr ⟨hok, hT, ?_⟩)
    simp [System.refused, (h.placed.allocate_cons hc).1, hA, hE]

theorem tasksFree_eq (ht : T.Proper t) (hid : s.table.id = T.id) :
    tasksFree s t = { s with table := s.table.free t.owner t } := by
  rw [tasksFree, hid, h.ofCode_id ht, elim_some]

end

end Tables

/-! ## The calls that create a thread -/

inductive Ends (cfg : Config) (fr : ThreadClass → List Tcb) (s s' : System) (c : ThreadClass)
    (q : Request) : Bool → Prop
  | created {t : Tcb} {l : List Tcb} (hc : fr c = t :: l)
      (hT : s'.table = (s.table.allocate c).1.openObject c t) : Ends cfg fr s s' c q true
  | givenUp {t : Tcb} {l : List Tcb} (hc : fr c = t :: l)
      (hT : s'.table = (s.table.allocate c).1.free c t)
      (hA : initializeAreas cfg s.resources t q.stackArea q.stackSize q.granted q.isFp =
        some (s'.resources, false)) : Ends cfg fr s s' c q false
  | refused {t : Tcb} {l : List Tcb} (hc : fr c = t :: l)
      (hT : s'.table = ((s.table.allocate c).1.openObject c t).free c t)
      (hr : s.refused cfg c q = true) : Ends cfg fr s s' c q false

theorem taskCreate_cases {q st} (h : Tables s.table node fr)
    (he : taskCreate cfg s q = some (s', st)) :
    (s' = s ∧ st ≠ .successful ∧ st ≠ .unsatisfied) ∨
      (st = .successful ∧ Ends cfg fr s s' .rtemsTasks (q.request cfg) true) ∨
      (st = .unsatisfied ∧ Ends cfg fr s s' .rtemsTasks (q.request cfg) false) := by
  simp only [taskCreate] at he
  split at he
  · cases he
    exact Or.inl ⟨rfl, by simp⟩
  split at he
  · cases he
    exact Or.inl ⟨rfl, by simp⟩
  split at he
  · cases he
    exact Or.inl ⟨rfl, by simp⟩
  cases hc : fr .rtemsTasks with
  | nil =>
    rw [h.placed.allocate_nil hc] at he
    cases he
    exact Or.inl ⟨rfl, by simp⟩
  | cons t l =>
    rw [(h.placed.allocate_cons hc).1] at he
    obtain ⟨⟨s1, ok⟩, hi, he⟩ := map_eq_some_iff.mp he
    obtain ⟨ho, hp⟩ := h.placed.own (show t ∈ fr .rtemsTasks by simp [hc])
    rcases h.initialized hc hi with ⟨rfl, hT⟩ | ⟨rfl, hT, hA⟩ | ⟨rfl, hT, hr⟩
    · cases he
      exact Or.inr (Or.inl ⟨rfl, .created hc hT⟩)
    · cases he
      have hf := h.tasksFree_eq hp (by rw [hT, Objects.id_allocate])
      rw [hf, ho]
      exact Or.inr (Or.inr ⟨rfl, .givenUp hc (by rw [hT]) hA⟩)
    · cases he
      have hf := h.tasksFree_eq hp (by rw [hT]; exact Objects.id_allocate)
      rw [hf, ho]
      exact Or.inr (Or.inr ⟨rfl, .refused hc (by rw [hT]) hr⟩)

theorem pthreadCreate_cases {q e} (h : Tables s.table node fr)
    (he : pthreadCreate cfg s q = some (s', e)) :
    (s' = s ∧ (fr .posixThreads = [] ∨ q.rejected = some e ∨ e = .einval)) ∨
      (e = .success ∧ Ends cfg fr s s' .posixThreads (q.request cfg) true) ∨
      (e = .eagain ∧ Ends cfg fr s s' .posixThreads (q.request cfg) false) := by
  simp only [pthreadCreate] at he
  split at he
  · cases he
    exact Or.inl ⟨rfl, by simp⟩
  cases hj : q.rejected with
  | some e' =>
    rw [hj] at he
    cases he
    exact Or.inl ⟨rfl, by simp⟩
  | none =>
    rw [hj, elim_none] at he
    cases hc : fr .posixThreads with
    | nil =>
      rw [h.placed.allocate_nil hc] at he
      cases he
      exact Or.inl ⟨rfl, by simp⟩
    | cons t l =>
      rw [(h.placed.allocate_cons hc).1] at he
      obtain ⟨⟨s1, ok⟩, hi, he⟩ := map_eq_some_iff.mp he
      rcases h.initialized hc hi with ⟨rfl, hT⟩ | ⟨rfl, hT, hA⟩ | ⟨rfl, hT, hr⟩
      · cases he
        exact Or.inr (Or.inl ⟨rfl, .created hc hT⟩)
      · cases he
        refine Or.inr (Or.inr ⟨rfl, .givenUp hc ?_ hA⟩)
        simp only [posixThreadsFree, hT]
      · cases he
        refine Or.inr (Or.inr ⟨rfl, .refused hc ?_ hr⟩)
        simp only [posixThreadsFree, hT]

theorem Ends.tables {ok} (h : Tables s.table node fr) (hr : s.refused cfg c q = false)
    (he : Ends cfg fr s s' c q ok) :
    ∃ fr', Tables s'.table node fr' := by
  cases he with
  | created hc hT => exact ⟨_, hT ▸ h.create hc⟩
  | givenUp hc hT hA => exact ⟨_, hT ▸ h.giveUp hc⟩
  | refused hc hT hr' => exact absurd (hr'.symm.trans hr) (by decide)

end Rtems.Creation
