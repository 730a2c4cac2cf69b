import Rtems.Creation.Lemmas
import Rtems.Heap.Theorems

/-! # Every control block is in one place -/

namespace Rtems.Creation

open Objects (Table Block)
open Intrusive Transition Option

variable {cfg : Config} {s s' : System} {c : ThreadClass} {t : Tcb} {node : Nat}
  {fr : ThreadClass → List Tcb}

/-- No extension refuses, no id leads behind a table, and POSIX threads call `pthread_exit`. -/
def System.Allowed (cfg : Config) (s : System) : Directive → Prop
  | .taskCreate q => s.refused cfg .rtemsTasks (q.request cfg) = false
  | .taskDelete id => id < 2 ^ 32 ∧ ∀ c ∈ ThreadClass.ofCode (Objects.getClass id),
      subWord id (s.table.information c).minimumId ≠ (s.table.information c).maximum
  | .pthreadCreate q => s.refused cfg .posixThreads (q.request cfg) = false
  | .pthreadExit => s.executing.owner = .posixThreads

instance (cfg : Config) (s : System) (d : Directive) : Decidable (s.Allowed cfg d) := by
  cases d <;> unfold System.Allowed <;> infer_instance

structure System.Sound (s : System) (node : Nat) (fr : ThreadClass → List Tcb) : Prop where
  tables : Tables s.table node fr
  executing : s.table.Proper s.executing ∧ s.executing ∉ fr s.executing.owner

/-! ## One directive -/

theorem System.Sound.threadGet (h : s.Sound node fr) {id}
    (hr : s.Allowed cfg (.taskDelete id)) (ht : (threadGet s id).2 = some t) :
    s.table.Proper t ∧ t ∉ fr t.owner := by
  unfold Creation.threadGet at ht
  split at ht
  · cases ht
    exact h.executing
  · cases hc : ThreadClass.ofCode (Objects.getClass id) with
    | none => simp [hc] at ht
    | some c =>
      rw [hc, elim_some, if_pos (h.tables.isThread c)] at ht
      have hg : (s.table.information c).get id = (.objectsLocal, some t) := by
        rcases (s.table.information c).get_cases id with hg | ⟨b, hg⟩
        · simp [hg] at ht
        · rw [hg] at ht ⊢
          rw [← ht]
      obtain ⟨-, hp, hf, -⟩ :=
        (h.tables.placed.get_eq (h.tables.numbered c) hr.1 (hr.2 c hc)).mp hg
      exact ⟨hp, hf⟩

theorem System.Sound.perform (h : s.Sound node fr) {d} (hd : s.Allowed cfg d)
    (he : s.perform cfg d = some s') :
    ∃ fr', Tables s'.table node fr' := by
  cases d with
  | taskCreate q =>
    obtain ⟨⟨s1, st⟩, hq, rfl⟩ := map_eq_some_iff.mp he
    rcases taskCreate_cases h.tables hq with ⟨rfl, -⟩ | ⟨-, hE⟩ | ⟨-, hE⟩
    · exact ⟨fr, h.tables⟩
    · exact hE.tables h.tables hd
    · exact hE.tables h.tables hd
  | taskDelete id =>
    cases he
    unfold taskDelete
    cases ht : (Creation.threadGet s id).2 with
    | none => exact ⟨fr, h.tables⟩
    | some t =>
      obtain ⟨hp, hf⟩ := h.threadGet hd ht
      have hF := h.tables.tasksFree_eq (s := threadClose cfg s t.owner t) hp rfl
      rw [elim_some, h.tables.ofCode_id hp, elim_some, hF]
      exact ⟨_, h.tables.delete hp hf⟩
  | pthreadCreate q =>
    obtain ⟨⟨s1, e⟩, hq, rfl⟩ := map_eq_some_iff.mp he
    rcases pthreadCreate_cases h.tables hq with ⟨rfl, -⟩ | ⟨-, hE⟩ | ⟨-, hE⟩
    · exact ⟨fr, h.tables⟩
    · exact hE.tables h.tables hd
    · exact hE.tables h.tables hd
  | pthreadExit =>
    cases he
    obtain ⟨hp, hf⟩ := h.executing
    unfold pthreadExit
    rw [h.tables.ofCode_id hp, elim_some]
    have hD := h.tables.delete hp hf
    rw [hd] at hD ⊢
    exact ⟨_, hD⟩

theorem System.Sound.step (h : s.Sound node fr) {m} (hd : s.Allowed cfg m.1)
    (he : s.step cfg m = some s') :
    ∃ fr', s'.Sound node fr' := by
  obtain ⟨s1, hp, he⟩ := bind_eq_some_iff.mp he
  obtain ⟨fr', hT⟩ := h.perform hd hp
  split at he
  · rename_i ho
    cases he
    obtain ⟨ho, hm⟩ := of_decide_eq_true ho
    obtain ⟨-, -, hpr, hf⟩ := (hT.placed.entry_eq_some hm).mp ho
    exact ⟨fr', hT, hpr, hf⟩
  · cases he

/-! ## Runs -/

theorem System.boot_sound (t0 : Table ThreadClass) {maximumTasks maximumPthreads} (R : Resources)
    (hn : node < 2 ^ 10) (ht : maximumTasks < 2 ^ 16) (hp : maximumPthreads < 2 ^ 16) :
    ∃ fr, (System.boot t0 node maximumTasks maximumPthreads R).Sound node fr := by
  let cs : List ThreadClass := [.internalThreads, .rtemsTasks, .posixThreads]
  have hF := (Table.Fresh.nil t0 node (configured maximumTasks maximumPthreads)).initializeClasses
    (show cs.Nodup by decide) (by simp)
  have hall : ∀ c, c ∈ cs.reverse ++ [] := by
    intro c
    cases c <;> decide
  have hnum : ∀ c, (t0.initializeClasses node (configured maximumTasks maximumPthreads) cs).Numbered
      node c := by
    intro c
    refine hF.numbered hall hn ?_ ?_
    · cases c <;> simp [configured]
    · cases c <;> simp [configured] <;> omega
  have hT : Tables (t0.initializeClasses node (configured maximumTasks maximumPthreads) cs) node
      fun c => Objects.blocks c (configured maximumTasks maximumPthreads c).maximum := by
    refine ⟨hF.placed hall, hnum, fun c => ?_, fun c => ?_⟩
    · cases c <;> rfl
    · cases c <;> rfl
  -- the one internal thread is taken and opened
  have hc : Objects.blocks ThreadClass.internalThreads
      (configured maximumTasks maximumPthreads .internalThreads).maximum =
        ⟨ThreadClass.internalThreads, 1⟩ :: [] := rfl
  have hO := hT.create hc
  refine ⟨_, hO, ⟨Nat.le_refl 1, ?_⟩, by simp [System.boot]⟩
  have hm := hF.maximum .internalThreads (hall _)
  simp only [System.boot, Table.openObject, Objects.maximum_setEntry, Objects.information_allocate]
  exact hm.ge

/-- Every control block is on the chain of its class or open in its table. -/
theorem tcb_in_one_place (t₀ : Table ThreadClass) {maximumTasks maximumPthreads : Nat} (R : Resources)
    (hn : node < 2 ^ 10) (ht : maximumTasks < 2 ^ 16) (hp : maximumPthreads < 2 ^ 16)
    (h : Steps (System.step cfg) (fun s m => s.Allowed cfg m.1)
      (System.boot t₀ node maximumTasks maximumPthreads R) s) :
    ∃ inactive : ThreadClass → List Tcb, Represents s.table.inactive (fun c => some (inactive c)) ∧
      ∀ t, s.table.Proper t →
        Xor (t ∈ inactive t.owner)
          (∃ i ≤ (s.table.information t.owner).maximum,
            (s.table.information t.owner).localTable i = some t) ∧
        ∀ c ≠ t.owner, t ∉ inactive c ∧
          ∀ i ≤ (s.table.information c).maximum, (s.table.information c).localTable i ≠ some t := by
  obtain ⟨fr, hs⟩ : ∃ fr, s.Sound node fr := by
    refine h.invariant (I := fun s => ∃ fr, s.Sound node fr) ?_ (System.boot_sound t₀ R hn ht hp)
    rintro s m s' ⟨fr, hs⟩ hd he
    exact hs.step hd he
  have hP := hs.tables.placed
  refine ⟨fr, hP.inactive, fun t hpr => ⟨?_, fun c hc => ⟨fun hm => ?_, fun i hi ho => ?_⟩⟩⟩
  · by_cases hm : t ∈ fr t.owner
    · refine Or.inl ⟨hm, ?_⟩
      rintro ⟨i, hi, ho⟩
      exact ((hP.entry_eq_some hi).mp ho).2.2.2 hm
    · exact Or.inr ⟨⟨t.number, hpr.2, (hP.entry_eq_some hpr.2).mpr ⟨rfl, rfl, hpr, hm⟩⟩, hm⟩
  · exact hc (hP.own hm).1.symm
  · exact hc ((hP.entry_eq_some hi).mp ho).1.symm

def smallConfig : Config where
  workspaceArea := 0
  stackHooks := false
  stackMinimumSize := 16
  stackAlignment := 4
  contextFpSize := 16
  contextFpStart := id
  hardwareFp := false
  attributesRequired := 0
  attributesNotSupported := 0
  maximumExtensions := 1
  userExtensions := [tasksExtension 0 8, posixThreadsExtension 0 8]

def Resources.of (m : Memory) : Resources := ⟨⟨m, []⟩, fun _ => ⟨false, 0, 0, 0, 0, 0⟩⟩

def smallSystem : System :=
  System.boot ⟨fun _ => ⟨0, 0, 0, 0, fun _ => none, false⟩, fun _ => 0, Links.empty⟩ 1 1 1
    (.of (Heap.smallArea.memory fun _ => 0))

def smallTask : Directive := .taskCreate ⟨1, 1, 0, 0, 0⟩
def smallThread : Directive := .pthreadCreate ⟨0, 0, none, 0⟩

theorem tcb_in_one_place_small :
    ∃ s, run (checked (System.step smallConfig) fun s m => s.Allowed smallConfig m.1)
        [(smallTask, ⟨.rtemsTasks, 1⟩), (smallThread, ⟨.posixThreads, 1⟩),
          (.pthreadExit, ⟨.rtemsTasks, 1⟩)] smallSystem = some s ∧
      ∃ inactive : ThreadClass → List Tcb, Represents s.table.inactive (fun c => some (inactive c)) ∧
        (⟨.rtemsTasks, 1⟩ : Tcb) ∉ inactive .rtemsTasks := by
  refine exists_of_map (fun s => (s.isOpen ⟨.rtemsTasks, 1⟩, (s.table.information .rtemsTasks).maximum)) (true, 1)
    (by decide +kernel) fun s hs he => ?_
  obtain ⟨ho, hm⟩ := Prod.mk.inj he
  obtain ⟨inactive, hR, hp⟩ := tcb_in_one_place _ _ (by decide) (by decide) (by decide)
    (Steps.run_checked (s := smallSystem) .refl hs)
  obtain ⟨hx, -⟩ := hp ⟨.rtemsTasks, 1⟩ ⟨Nat.le_refl 1, hm.ge⟩
  obtain ⟨ho, hi⟩ := of_decide_eq_true ho
  refine ⟨inactive, hR, fun hin => ?_⟩
  rcases hx with ⟨-, hno⟩ | ⟨-, hno⟩
  · exact hno ⟨1, hi, ho⟩
  · exact hno hin

/-- The control block of a task goes to the chain of the POSIX threads. -/
theorem task_exits_as_pthread :
    (run (System.step smallConfig) [(smallTask, ⟨.rtemsTasks, 1⟩),
      (.pthreadExit, ⟨.internalThreads, 1⟩)] smallSystem).map (fun s =>
        (s.isOpen ⟨.rtemsTasks, 1⟩, Chain.isEmpty s.table.inactive .rtemsTasks,
          decide (Chain.first s.table.inactive .posixThreads = .obj ⟨.posixThreads, 1⟩),
          decide (s.table.inactive.next (.obj ⟨.posixThreads, 1⟩) = .obj ⟨.rtemsTasks, 1⟩))) =
      some (false, true, true, true) := by
  decide +kernel

end Rtems.Creation
