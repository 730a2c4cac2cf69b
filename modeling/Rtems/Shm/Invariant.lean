import Rtems.Library.Placement
import Rtems.Shm.Queue

/-! # Where the envelopes are -/

namespace Rtems.Shm

open Function Option

variable {A P : Type*} {c : Configuration A P} {m m' : Memory P} {l l' : List Nat} {p p' : Point}

def AddFor.owns : AddFor → List Nat
  | .broadcast _ ecb _ => [ecb]
  | _ => []

def GetFor.owns : GetFor → List Nat
  | .broadcast _ ecb _ => [ecb]
  | _ => []

def Point.owns : Point → List Nat
  | .idle => []
  | .adding _ ecb r _ => ecb :: r.owns
  | .getting _ r _ | .fatal r => r.owns
  | .received ecb | .returning ecb | .preamble _ _ ecb | .loop _ ecb _ => [ecb]
  | .copyPreamble _ ecb _ tmpEcb | .copy _ ecb _ tmpEcb => [tmpEcb, ecb]

def AddPoint.isLocked : AddPoint → Bool
  | .next | .queue | .index | .lock _ => false
  | _ => true

def GetPoint.isLocked : GetPoint → Bool
  | .lock => false
  | _ => true

def Point.locks : Point → Option Nat
  | .adding q _ _ p => if p.isLocked then some q else none
  | .getting q _ p => if p.isLocked then some q else none
  | _ => none

/-! ## Queues -/

def AddPoint.Form (m : Memory P) (q ecb : Nat) (l : List Nat) : AddPoint → Prop
  | .test _ => m.Holds q l
  | .link _ => m.Holds q l ∧ l ≠ []
  | .front _ => m.Holds q l ∧ l = []
  | .rear _ => m.Lists q (l ++ [ecb])
  | .unlock => m.Holds q (l ++ [ecb])
  | _ => True

def GetPoint.Form (m : Memory P) (q : Nat) (l : List Nat) : GetPoint → Prop
  | .lock => True
  | .test => m.Holds q l
  | .front ecb => m.Holds q l ∧ ∃ k, l = ecb :: k
  | .last ecb => ∃ k, l = ecb :: k ∧ m.Lists q k ∧ (m.lockedQueues q).front = (m.envelopes ecb).next ∧
      (m.lockedQueues q).rear = (l.getLast?.map linkTo).getD endWord
  | .rear ecb => l = [ecb] ∧ m.Lists q []
  | .next ecb | .unlock (some ecb) => ∃ k, l = ecb :: k ∧ m.Holds q k
  | .unlock none => m.Holds q l ∧ l = []

def Point.Form (m : Memory P) (l : List Nat) : Point → Prop
  | .adding q ecb _ p => p.Form m q ecb l
  | .getting q _ p => p.Form m q l
  | _ => True

theorem AddPoint.Form.congr {q ecb} {p : AddPoint} (h : p.Form m q ecb l)
    (hn : ∀ e, e ∈ l ∨ e = ecb → (m'.envelopes e).next = (m.envelopes e).next)
    (hq : p.isLocked = true → m'.lockedQueues q = m.lockedQueues q) : p.Form m' q ecb l := by
  have hl : ∀ e ∈ l, (m'.envelopes e).next = (m.envelopes e).next := fun e he => hn e (Or.inl he)
  have hle : ∀ e ∈ l ++ [ecb], (m'.envelopes e).next = (m.envelopes e).next :=
    fun e he => hn e (by simpa using he)
  cases p with
  | next | queue | index | lock => exact trivial
  | test => exact Memory.Holds.congr h hl (hq rfl)
  | link | front => exact ⟨h.1.congr hl (hq rfl), h.2⟩
  | rear => exact Memory.Lists.congr h hle (by rw [hq rfl])
  | unlock => exact Memory.Holds.congr h hle (hq rfl)

theorem GetPoint.Form.congr {q} {p : GetPoint} (h : p.Form m q l)
    (hn : ∀ e ∈ l, (m'.envelopes e).next = (m.envelopes e).next)
    (hq : p.isLocked = true → m'.lockedQueues q = m.lockedQueues q) : p.Form m' q l := by
  have ht {k : List Nat} {ecb : Nat} (hk : l = ecb :: k) :
      ∀ e ∈ k, (m'.envelopes e).next = (m.envelopes e).next :=
    fun e he => hn e (hk ▸ List.mem_cons_of_mem ecb he)
  match p with
  | .lock => exact trivial
  | .test => exact Memory.Holds.congr h hn (hq rfl)
  | .front _ => exact ⟨h.1.congr hn (hq rfl), h.2⟩
  | .last ecb =>
    obtain ⟨k, hk, hL, hf, hr⟩ := h
    have hq := hq rfl
    refine ⟨k, hk, hL.congr (ht hk) (by rw [hq]), ?_, by rw [hq]; exact hr⟩
    rw [hq, hn ecb (hk ▸ List.mem_cons_self)]
    exact hf
  | .rear _ => exact ⟨h.1, h.2.congr (by simp) (by rw [hq rfl])⟩
  | .next _ | .unlock (some _) =>
    obtain ⟨k, hk, hH⟩ := h
    exact ⟨k, hk, hH.congr (ht hk) (hq rfl)⟩
  | .unlock none => exact ⟨h.1.congr hn (hq rfl), h.2⟩

theorem Point.Form.congr (h : p.Form m l)
    (hn : ∀ e, e ∈ l ∨ e ∈ p.owns → (m'.envelopes e).next = (m.envelopes e).next)
    (hq : ∀ q, p.locks = some q → m'.lockedQueues q = m.lockedQueues q) : p.Form m' l := by
  cases p with
  | adding q ecb r p =>
    refine AddPoint.Form.congr h (fun e he => hn e (he.imp id ?_)) fun hp => hq q (if_pos hp)
    rintro rfl
    exact List.mem_cons_self
  | getting q r p => exact GetPoint.Form.congr h (fun e he => hn e (Or.inl he)) fun hp => hq q (if_pos hp)
  | _ => exact trivial

def AddPoint.Ready (c : Configuration A P) (n : Nat) (m : Memory P) (ecb : Nat) : AddPoint → Prop
  | .next | .unlock => True
  | .queue | .index => (m.envelopes ecb).next = endWord
  | .lock i | .test i | .link i | .front i => i = c.convert n (linkTo ecb) ∧ (m.envelopes ecb).next = endWord
  | .rear i => i = c.convert n (linkTo ecb)

def Point.Ready (c : Configuration A P) (n : Nat) (m : Memory P) : Point → Prop
  | .adding _ ecb _ p => p.Ready c n m ecb
  | _ => True

theorem Point.Ready.congr {n} (h : p.Ready c n m)
    (hn : ∀ e ∈ p.owns, (m'.envelopes e).next = (m.envelopes e).next) : p.Ready c n m' := by
  cases p with
  | adding q ecb r p =>
    have he := hn ecb List.mem_cons_self
    cases p with
    | next | unlock => exact trivial
    | queue | index => exact he.trans h
    | lock | test | link | front => exact ⟨h.1, he.trans h.2⟩
    | rear => exact h
  | _ => exact trivial

def Point.Valid (c : Configuration A P) (n : Nat) : Point → Prop
  | .adding q _ .returnPacket _ | .adding q _ (.finish _) _ => q = freeEnvPool
  | .adding q _ (.sendPacket _) _ => 1 ≤ q ∧ q ≤ c.maximumNodes
  | .adding q _ (.broadcast _ _ nnum) _ => q = nnum ∧ 1 ≤ nnum ∧ nnum ≤ c.maximumNodes ∧ n ≠ nnum
  | .getting q .getPacket _ => q = freeEnvPool
  | .getting q .receivePacket _ => q = n
  | .getting q (.broadcast _ _ nnum) _ => q = freeEnvPool ∧ 1 ≤ nnum ∧ nnum ≤ c.maximumNodes ∧ n ≠ nnum
  | .preamble _ node _ => 1 ≤ node ∧ node ≤ c.maximumNodes
  | .loop _ _ nnum => 1 ≤ nnum
  | .copyPreamble _ _ nnum _ | .copy _ _ nnum _ => 1 ≤ nnum ∧ nnum ≤ c.maximumNodes ∧ n ≠ nnum
  | _ => True

theorem Point.Valid.locks_le {a q} (h : p.Valid c (c.node a)) (hq : p.locks = some q) :
    q ≤ c.maximumNodes := by
  have hn := c.node_le a
  cases p with
  | adding r ecb f p =>
    obtain ⟨-, he⟩ := Option.ite_none_right_eq_some.mp hq
    obtain rfl := some.inj he
    cases f with
    | returnPacket | finish => exact (show r = freeEnvPool from h) ▸ Nat.zero_le _
    | sendPacket => exact h.2
    | broadcast => exact h.1 ▸ h.2.2.1
  | getting r f p =>
    obtain ⟨-, he⟩ := Option.ite_none_right_eq_some.mp hq
    obtain rfl := some.inj he
    cases f with
    | getPacket => exact (show r = freeEnvPool from h) ▸ Nat.zero_le _
    | receivePacket => exact (show r = c.node a from h) ▸ hn
    | broadcast => exact h.1 ▸ Nat.zero_le _
  | _ => cases hq

/-! ## The system -/

inductive Place (A : Type*)
  | queue (q : Nat)
  | held (n : Nat)
  | call (a : A)
  deriving DecidableEq, Repr

def System.at (s : System A P) (content : Nat → List Nat) : Place A → List Nat
  | .queue q => content q
  | .held n => s.held n
  | .call a => (s.point a).owns

theorem System.point_goto_self [DecidableEq A] {s : System A P} {a} : (s.goto a p).point a = p :=
  update_self ..

theorem System.point_goto_ne [DecidableEq A] {s : System A P} {a b} (hb : b ≠ a) :
    (s.goto a p).point b = s.point b := update_of_ne hb ..

structure Sound (c : Configuration A P) (s : System A P) (content : Nat → List Nat) : Prop where
  placed : Placement c.maximumEnvelopes (s.at content)
  index : ∀ e < c.maximumEnvelopes, (s.memory.envelopes e).index = linkTo e
  locked : ∀ {q a}, s.lock q = some a ↔ (s.point a).locks = some q
  free : ∀ {q}, q ≤ c.maximumNodes → s.lock q = none → s.memory.Holds q (content q)
  form : ∀ {q a}, (s.point a).locks = some q → (s.point a).Form s.memory (content q)
  valid : ∀ a, (s.point a).Valid c (c.node a)
  ready : ∀ a, (s.point a).Ready c (c.node a) s.memory
  log : ∀ {q}, 1 ≤ q → s.added q = s.received q ++ (content q).map s.message

namespace Sound

variable {s s' : System A P} {content : Nat → List Nat} {a b : A} {q : Nat}

section

variable (h : Sound c s content)

include h

theorem not_owned (hb : b ≠ a) {e} (he : e ∈ (s.point b).owns) : e ∉ (s.point a).owns :=
  h.placed.disjoint (p := .call b) (r := .call a) (by simpa using hb) he

theorem not_owned_of_mem {e} (he : e ∈ content q) : e ∉ (s.point a).owns :=
  h.placed.disjoint (p := .queue q) (r := .call a) (by simp) he

theorem not_mem_of_owned {e} (he : e ∈ (s.point a).owns) : e ∉ content q :=
  h.placed.disjoint (p := .call a) (r := .queue q) (by simp) he

theorem not_mem_other {e r} (hr : r ≠ q) (he : e ∈ content r) : e ∉ content q :=
  h.placed.disjoint (p := .queue r) (r := .queue q) (by simpa using hr) he

theorem lt_of_mem {e} (he : e ∈ content q) : e < c.maximumEnvelopes :=
  h.placed.lt (p := .queue q) he

theorem lt_of_owned {e} (he : e ∈ (s.point a).owns) : e < c.maximumEnvelopes :=
  h.placed.lt (p := .call a) he

theorem placed_congr (hh : s'.held = s.held) (ho : ∀ b, (s'.point b).owns = (s.point b).owns) :
    Placement c.maximumEnvelopes (s'.at content) := by
  have hat : s'.at content = s.at content := by
    funext t
    cases t with
    | queue => rfl
    | held n => exact congrFun hh n
    | call b => exact ho b
  exact hat ▸ h.placed

theorem locks_unique (ha : (s.point a).locks = some q) (hb : (s.point b).locks = some q) : b = a :=
  some.inj ((h.locked.mpr hb).symm.trans (h.locked.mpr ha))

variable [DecidableEq A]

theorem locally (p' : Point) (m' : Memory P) (ho : p'.owns = (s.point a).owns)
    (hk : p'.locks = (s.point a).locks)
    (hi : ∀ e, (m'.envelopes e).index = (s.memory.envelopes e).index)
    (hm : ∀ e, e ∉ (s.point a).owns → (m'.envelopes e).packet = (s.memory.envelopes e).packet ∧
      ((∀ q, (s.point a).locks = some q → e ∉ content q) →
        (m'.envelopes e).next = (s.memory.envelopes e).next))
    (hq : ∀ q, (s.point a).locks ≠ some q → m'.lockedQueues q = s.memory.lockedQueues q)
    (hf : ∀ q, p'.locks = some q → p'.Form m' (content q)) (hv : p'.Valid c (c.node a))
    (hr : p'.Ready c (c.node a) m') : Sound c ((s.setMemory m').goto a p') content := by
  have ha : ((s.setMemory m').goto a p').point a = p' := System.point_goto_self
  have hb {b : A} (hb : b ≠ a) : ((s.setMemory m').goto a p').point b = s.point b := System.point_goto_ne hb
  have hsame (b : A) : (((s.setMemory m').goto a p').point b).owns = (s.point b).owns ∧
      (((s.setMemory m').goto a p').point b).locks = (s.point b).locks := by
    by_cases hba : b = a
    · rw [hba, ha]
      exact ⟨ho, hk⟩
    · rw [hb hba]
      exact ⟨rfl, rfl⟩
  refine ⟨h.placed_congr rfl fun b => (hsame b).1, fun e he => (hi e).trans (h.index e he), fun {q b} => ?_, fun {q} hle hl => ?_,
    fun {q b} hbq => ?_, fun b => ?_, fun b => ?_, fun {q} hq1 => ?_⟩
  · rw [(hsame b).2]
    exact h.locked
  · have hl : s.lock q = none := hl
    have hne : (s.point a).locks ≠ some q := fun he => by
      rw [h.locked.mpr he] at hl
      cases hl
    refine (h.free hle hl).congr (fun e he => ?_) (hq q hne)
    refine (hm e (h.not_owned_of_mem he)).2 fun r hr => h.not_mem_other ?_ he
    rintro rfl
    exact hne hr
  · rw [(hsame b).2] at hbq
    by_cases hba : b = a
    · subst hba
      rw [ha]
      exact hf q (hk.trans hbq)
    · have hne : ∀ r, (s.point a).locks = some r → r ≠ q :=
        fun r hr he => hba (h.locks_unique (he ▸ hr) hbq)
      rw [hb hba]
      refine (h.form hbq).congr (fun e he => ?_) fun r hr => hq r fun he => hne r he ?_
      · rcases he with he | he
        · exact (hm e (h.not_owned_of_mem he)).2 fun r hr => h.not_mem_other (hne r hr).symm he
        · exact (hm e (h.not_owned hba he)).2 fun r _ => h.not_mem_of_owned he
      · exact some.inj (hr.symm.trans hbq)
  · by_cases hba : b = a
    · rw [hba, ha]
      exact hv
    · rw [hb hba]
      exact h.valid b
  · by_cases hba : b = a
    · rw [hba, ha]
      exact hr
    · rw [hb hba]
      exact (h.ready b).congr fun e he => (hm e (h.not_owned hba he)).2 fun r _ => h.not_mem_of_owned he
  · refine (h.log hq1).trans (congrArg _ (List.map_congr_left fun e he => ?_))
    exact Prod.ext rfl (hm e (h.not_owned_of_mem he)).1.symm

omit [DecidableEq A] in
theorem pass {p' content'} (hm : s'.memory = s.memory) (ha : s'.point a = p')
    (hb : ∀ b ≠ a, s'.point b = s.point b) (hpl : Placement c.maximumEnvelopes (s'.at content'))
    (hlk : ∀ {q b}, s'.lock q = some b ↔ (s'.point b).locks = some q)
    (hc : ∀ {q b}, b ≠ a → (s.point b).locks = some q → content' q = content q)
    (hfree : ∀ {q}, q ≤ c.maximumNodes → s'.lock q = none → s.memory.Holds q (content' q))
    (hf : ∀ q, p'.locks = some q → p'.Form s.memory (content' q)) (hv : p'.Valid c (c.node a))
    (hr : p'.Ready c (c.node a) s.memory)
    (hlog : ∀ {q}, 1 ≤ q → s'.added q = s'.received q ++ (content' q).map s'.message) :
    Sound c s' content' := by
  refine ⟨hpl, hm ▸ h.index, hlk, hm ▸ hfree, fun {q b} hbq => ?_, fun b => ?_, fun b => ?_, hlog⟩
  · by_cases hba : b = a
    · subst hba
      rw [ha] at hbq ⊢
      exact hm ▸ hf q hbq
    · rw [hb b hba] at hbq ⊢
      rw [hm, hc hba hbq]
      exact h.form hbq
  · by_cases hba : b = a
    · rw [hba, ha]
      exact hv
    · rw [hb b hba]
      exact h.valid b
  · by_cases hba : b = a
    · rw [hba, ha, hm]
      exact hr
    · rw [hb b hba, hm]
      exact h.ready b

theorem lock {p' : Point} (hq : s.lock q = none) (hle : q ≤ c.maximumNodes) (hn : (s.point a).locks = none)
    (hk : p'.locks = some q) (ho : p'.owns = (s.point a).owns)
    (hf : s.memory.Holds q (content q) → p'.Form s.memory (content q)) (hv : p'.Valid c (c.node a))
    (hr : p'.Ready c (c.node a) s.memory) : Sound c ((s.setLock q (some a)).goto a p') content := by
  have ha : ((s.setLock q (some a)).goto a p').point a = p' := System.point_goto_self
  have hb (b : A) (hb : b ≠ a) : ((s.setLock q (some a)).goto a p').point b = s.point b :=
    System.point_goto_ne hb
  refine h.pass rfl ha hb ?_ (fun {r b} => ?_) (fun _ _ => rfl) (fun {r} hr hl => ?_) (fun r hr => ?_) hv hr
    h.log
  · refine h.placed_congr rfl fun b => ?_
    by_cases hba : b = a
    · rw [hba, ha, ho]
    · rw [hb b hba]
  · by_cases hba : b = a
    · subst hba
      rw [ha, hk]
      by_cases hrq : r = q
      · subst hrq
        simp [System.goto, System.setLock]
      · have hl : s.lock r ≠ some b := fun hl => by
          rw [h.locked.mp hl] at hn
          cases hn
        simp [System.goto, System.setLock, hrq, hl, Ne.symm hrq]
    · rw [hb b hba, ← h.locked]
      by_cases hrq : r = q
      · subst hrq
        simp [System.goto, System.setLock, hq, Ne.symm hba]
      · simp [System.goto, System.setLock, hrq]
  · have hrq : r ≠ q := by
      rintro rfl
      simp [System.goto, System.setLock] at hl
    refine h.free hr ?_
    simpa [System.goto, System.setLock, hrq] using hl
  · obtain rfl := some.inj (hk.symm.trans hr)
    exact hf (h.free hle hq)

theorem unlock {p'} (hq : (s.point a).locks = some q) (hm : s'.memory = s.memory)
    (hl : s'.lock = update s.lock q none) (hp : s'.point = update s.point a p')
    (hn : p'.locks = none) (hpl : Placement c.maximumEnvelopes (s'.at (update content q l)))
    (hH : s.memory.Holds q l) (hv : p'.Valid c (c.node a)) (hr : p'.Ready c (c.node a) s.memory)
    (hlog : ∀ {r}, 1 ≤ r → s'.added r = s'.received r ++ (update content q l r).map s'.message) :
    Sound c s' (update content q l) := by
  have ha : s'.point a = p' := by rw [hp, update_self]
  have hb (b : A) (hb : b ≠ a) : s'.point b = s.point b := by rw [hp, update_of_ne hb]
  refine h.pass hm ha hb hpl (fun {r b} => ?_) (fun {r b} hba hbr => ?_) (fun {r} hle hlr => ?_) (fun r hr => ?_)
    hv hr hlog
  · rw [hl]
    by_cases hba : b = a
    · subst hba
      rw [ha, hn]
      by_cases hrq : r = q
      · simp [hrq]
      · have hne : s.lock r ≠ some b := fun he => hrq (some.inj ((h.locked.mp he).symm.trans hq))
        simp [hrq, hne]
    · rw [hb b hba, ← h.locked]
      by_cases hrq : r = q
      · subst hrq
        have hne : s.lock r ≠ some b := fun he => hba (h.locks_unique hq (h.locked.mp he))
        simp [hne]
      · simp [hrq]
  · have hrq : r ≠ q := by
      rintro rfl
      exact hba (h.locks_unique hq hbr)
    rw [update_of_ne hrq]
  · by_cases hrq : r = q
    · subst hrq
      rw [update_self]
      exact hH
    · rw [update_of_ne hrq]
      refine h.free hle ?_
      rwa [hl, update_of_ne hrq] at hlr
  · rw [hn] at hr
    cases hr

theorem outside {p'} (hq : (s.point a).locks = none) (hm : s'.memory = s.memory) (hl : s'.lock = s.lock)
    (hp : s'.point = update s.point a p') (hn : p'.locks = none)
    (hpl : Placement c.maximumEnvelopes (s'.at content)) (hv : p'.Valid c (c.node a))
    (hr : p'.Ready c (c.node a) s.memory) (hadd : s'.added = s.added) (hrec : s'.received = s.received)
    (hca : s'.carries = s.carries) : Sound c s' content := by
  have ha : s'.point a = p' := by rw [hp, update_self]
  have hb (b : A) (hb : b ≠ a) : s'.point b = s.point b := by rw [hp, update_of_ne hb]
  refine h.pass hm ha hb hpl (fun {r b} => ?_) (fun _ _ => rfl) (fun {r} hle hlr => h.free hle (hl ▸ hlr))
    (fun r hr => ?_) hv hr fun {r} hr => ?_
  · rw [hl, h.locked]
    by_cases hba : b = a
    · rw [hba, ha, hn, hq]
    · rw [hb b hba]
  · rw [hn] at hr
    cases hr
  · rw [hadd, hrec, h.log hr]
    refine congrArg _ (List.map_congr_left fun e _ => ?_)
    rw [System.message, System.message, hca, hm]

end

end Sound

end Rtems.Shm
