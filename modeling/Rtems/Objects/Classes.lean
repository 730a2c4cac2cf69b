import Rtems.Objects.Lemmas

/-! # Classes and ids -/

namespace Rtems.Objects

/-- `Objects_Classes`. -/
inductive Class
  | noClass
  | internalThreads
  | rtemsTasks
  | posixThreads
  | rtemsTimers
  | rtemsSemaphores
  | rtemsMessageQueues
  | rtemsPartitions
  | rtemsRegions
  | rtemsPorts
  | rtemsPeriods
  | rtemsExtensions
  | posixKeys
  | posixInterrupts
  | posixMessageQueues
  | posixMutexes
  | posixSemaphores
  | posixConditionVariables
  deriving DecidableEq, Repr

namespace Class

def number : Class → Nat
  | noClass => 0
  | internalThreads => 1
  | rtemsTasks => 2
  | posixThreads => 3
  | rtemsTimers => 4
  | rtemsSemaphores => 5
  | rtemsMessageQueues => 6
  | rtemsPartitions => 7
  | rtemsRegions => 8
  | rtemsPorts => 9
  | rtemsPeriods => 10
  | rtemsExtensions => 11
  | posixKeys => 12
  | posixInterrupts => 13
  | posixMessageQueues => 14
  | posixMutexes => 15
  | posixSemaphores => 16
  | posixConditionVariables => 17

def last : Class := posixConditionVariables

theorem number_le_last (c : Class) : c.number ≤ last.number := by
  cases c <;> decide

theorem number_injective {c d : Class} (h : c.number = d.number) : c = d := by
  cases c <;> cases d <;> first | rfl | cases h

theorem number_eq_zero {c} : c.number = 0 ↔ c = noClass := by
  cases c <;> simp [number]

end Class

def isClassValid (theClass : Nat) : Bool := theClass ≠ 0 ∧ theClass ≤ Class.last.number

/-- No manager has the class `OBJECTS_NO_CLASS`. -/
structure InformationTable (I : Type*) where
  entry : Nat → Option I
  noClass : entry Class.noClass.number = none

def InformationTable.getInformation {I : Type*} (table : InformationTable I) (id : Nat) : Option I :=
  let theClass := getClass id
  if ¬ isClassValid theClass then none else table.entry theClass

/-! ## Ids -/

theorem getNode_buildId {theClass node index} (hc : theClass < 2 ^ 6) (hn : node < 2 ^ 10)
    (hi : index < 2 ^ 16) : getNode (buildId theClass node index) = node := by
  have h10 : nodeValidBits = 2 ^ 10 - 1 := by
    unfold nodeValidBits
    omega
  have hs : (theClass * 2 ^ 26 + node * 2 ^ 16 + index) >>> 16 = theClass * 2 ^ 10 + node := by
    omega
  rw [buildId_eq hc hn hi, getNode, hs, h10, Nat.and_two_pow_sub_one_eq_mod]
  omega

theorem buildId_injective {c d node node' index index'} (hc : c < 2 ^ 6) (hd : d < 2 ^ 6)
    (hn : node < 2 ^ 10) (hn' : node' < 2 ^ 10) (hi : index < 2 ^ 16) (hi' : index' < 2 ^ 16)
    (h : buildId c node index = buildId d node' index') : c = d ∧ node = node' ∧ index = index' := by
  rw [buildId_eq hc hn hi, buildId_eq hd hn' hi'] at h
  omega

theorem Class.number_lt (c : Class) : c.number < 2 ^ 6 :=
  Nat.lt_of_le_of_lt c.number_le_last (by decide)

theorem getInformation_buildId {I : Type*} (table : InformationTable I) {c : Class} {node index}
    (hc : c.number < 2 ^ 4) (hn : node < 2 ^ 10) (hi : index < 2 ^ 16) :
    table.getInformation (buildId c.number node index) = table.entry c.number := by
  unfold InformationTable.getInformation
  rw [getClass_buildId hc hn hi]
  by_cases h0 : c = .noClass
  · subst h0
    exact table.noClass.symm
  · have hv : isClassValid c.number = true :=
      decide_eq_true ⟨fun h => h0 (Class.number_eq_zero.mp h), c.number_le_last⟩
    rw [if_neg (not_not_intro hv)]

/-- The mask drops the bit of the last two classes. -/
theorem number_lt_of_getClass {c : Class} {node index} (hn : node < 2 ^ 10) (hi : index < 2 ^ 16)
    (h : getClass (buildId c.number node index) = c.number) : c.number < 16 := by
  have hs : (c.number * 2 ^ 26 + node * 2 ^ 16 + index) >>> 26 = c.number := by
    omega
  rw [buildId_eq c.number_lt hn hi, getClass, hs] at h
  cases c <;> first | decide | cases h

/-- An id is read as it was built for the first sixteen classes, and for no other. -/
theorem decode_buildId {I : Type*} (table : InformationTable I) :
    (∀ (c : Class) (node index : Nat), node < 2 ^ 10 → index < 2 ^ 16 →
      ((getClass (buildId c.number node index) = c.number ∧
        getNode (buildId c.number node index) = node ∧
        getIndex (buildId c.number node index) = index ∧
        ∀ information, table.entry c.number = some information →
          table.getInformation (buildId c.number node index) = some information) ↔ c.number < 16)) ∧
    ∀ (c d : Class) (node node' index index' : Nat), node < 2 ^ 10 → node' < 2 ^ 10 →
      index < 2 ^ 16 → index' < 2 ^ 16 →
      buildId c.number node index = buildId d.number node' index' →
      c = d ∧ node = node' ∧ index = index' := by
  constructor
  · intro c node index hn hi
    refine ⟨fun h => number_lt_of_getClass hn hi h.1, fun hc => ⟨getClass_buildId hc hn hi,
      getNode_buildId c.number_lt hn hi, getIndex_buildId c.number_lt hn hi, fun information h => ?_⟩⟩
    rw [getInformation_buildId table hc hn hi, h]
  · intro c d node node' index index' hn hn' hi hi' h
    obtain ⟨hcd, hrest⟩ := buildId_injective c.number_lt d.number_lt hn hn' hi hi' h
    exact ⟨Class.number_injective hcd, hrest⟩

def allInstalled : InformationTable Nat where
  entry n := if n = 0 then none else some n
  noClass := rfl

theorem decode_buildId_posixMutexes :
    getClass (buildId Class.posixMutexes.number 1023 65535) = Class.posixMutexes.number ∧
      allInstalled.getInformation (buildId Class.posixMutexes.number 1023 65535) = some 15 := by
  have h := ((decode_buildId allInstalled).1 .posixMutexes 1023 65535 (by decide) (by decide)).mpr (by decide)
  exact ⟨h.1, h.2.2.2 15 rfl⟩

/-- A condition variable is taken for an internal thread. -/
theorem getClass_posixConditionVariables :
    getClass (buildId Class.posixConditionVariables.number 1 1) = Class.internalThreads.number ∧
      allInstalled.entry Class.posixConditionVariables.number = some 17 ∧
      allInstalled.getInformation (buildId Class.posixConditionVariables.number 1 1) = some 1 ∧
      allInstalled.getInformation (buildId Class.posixSemaphores.number 1 1) = none := by
  decide

end Rtems.Objects
