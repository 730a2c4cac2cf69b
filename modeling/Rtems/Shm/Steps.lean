import Rtems.Shm.Invariant

/-! # The steps of a thread -/

namespace Rtems.Shm.Sound


open Function Option

variable {A P : Type*} [DecidableEq A] {c : Configuration A P} {s s' : System A P} {content : Nat → List Nat}
  {a : A} {q ecb : Nat}

/-! ## `Shm_Locked_queue_Add` -/

section

variable {r : AddFor} {i : Word} (h : Sound c s content)

include h

omit [DecidableEq A] in
theorem at_point {p} (hp : s.point a = p) :
    p.Valid c (c.node a) ∧ p.Ready c (c.node a) s.memory :=
  hp ▸ ⟨h.valid a, h.ready a⟩

omit [DecidableEq A] in
theorem at_locked {p} (hp : s.point a = p) (hk : p.locks = some q) :
    p.Valid c (c.node a) ∧ p.Ready c (c.node a) s.memory ∧ p.Form s.memory (content q) := by
  subst hp
  exact ⟨h.valid a, h.ready a, h.form hk⟩

theorem goto {p'} (ho : p'.owns = (s.point a).owns) (hk : p'.locks = (s.point a).locks)
    (hf : ∀ q, p'.locks = some q → p'.Form s.memory (content q)) (hv : p'.Valid c (c.node a))
    (hr : p'.Ready c (c.node a) s.memory) : Sound c (s.goto a p') content :=
  h.locally p' s.memory ho hk (fun _ => rfl) (fun _ _ => ⟨rfl, fun _ => rfl⟩) (fun _ _ => rfl) hf hv hr

theorem modify {p p' e f} (hp : s.point a = p) (he : e ∈ p.owns)
    (ho : p'.owns = p.owns) (hk : p.locks = none) (hk' : p'.locks = none) (hf : ∀ v, (f v).index = v.index)
    (hv : p'.Valid c (c.node a)) (hr : p'.Ready c (c.node a) (s.memory.modifyEnvelope e f)) :
    Sound c ((s.setMemory (s.memory.modifyEnvelope e f)).goto a p') content := by
  subst hp
  refine h.locally p' _ ho (hk'.trans hk.symm) (Memory.field_modify Envelope.index hf) (fun x hx => ?_)
    (fun _ _ => rfl) (fun q hq => ?_) hv hr
  · have hxe : x ≠ e := fun hxe => hx (hxe ▸ he)
    rw [Memory.envelopes_modify_ne hxe]
    exact ⟨rfl, fun _ => rfl⟩
  · rw [hk'] at hq
    cases hq

theorem add_next (hp : s.point a = .adding q ecb r .next) (he : s.addStep c a q ecb r .next = some s') :
    Sound c s' content := by
  cases he
  have hv := (h.at_point hp).1
  refine h.modify hp List.mem_cons_self rfl rfl rfl (fun _ => rfl) (by cases r <;> exact hv) ?_
  exact Memory.next_setNext_self.trans (by simp)

theorem add_queue (hp : s.point a = .adding q ecb r .queue) (he : s.addStep c a q ecb r .queue = some s') :
    Sound c s' content := by
  cases he
  obtain ⟨hv, hr⟩ := h.at_point hp
  refine h.modify hp List.mem_cons_self rfl rfl rfl (fun _ => rfl) (by cases r <;> exact hv) ?_
  exact Memory.next_setQueue.trans hr

theorem add_index (hp : s.point a = .adding q ecb r .index) (he : s.addStep c a q ecb r .index = some s') :
    Sound c s' content := by
  cases he
  obtain ⟨hv, hr⟩ := h.at_point hp
  have hlt := h.lt_of_owned (a := a) (e := ecb) (hp ▸ List.mem_cons_self)
  refine h.goto (hp ▸ rfl) (hp ▸ rfl) (fun _ hq => nomatch hq) (by cases r <;> exact hv) ⟨?_, hr⟩
  rw [Memory.index, h.index ecb hlt]

theorem add_lock (hp : s.point a = .adding q ecb r (.lock i))
    (he : s.addStep c a q ecb r (.lock i) = some s') : Sound c s' content := by
  obtain ⟨hl, rfl⟩ := ite_some_none_eq_some.mp he
  obtain ⟨hv, hr⟩ := h.at_point hp
  have hv' : (Point.adding q ecb r (.test i)).Valid c (c.node a) := by cases r <;> exact hv
  exact h.lock hl (hv'.locks_le rfl) (hp ▸ rfl) rfl (hp ▸ rfl) id hv' hr

theorem add_test (hp : s.point a = .adding q ecb r (.test i))
    (he : s.addStep c a q ecb r (.test i) = some s') : Sound c s' content := by
  obtain ⟨hv, hr, hf⟩ := h.at_locked hp rfl
  have hH : s.memory.Holds q (content q) := hf
  have hi := hH.list.isEmpty_iff (n := c.node a) fun e he => h.lt_of_mem he
  have hg {p' : AddPoint} (hk : p'.isLocked = true) (hf' : p'.Form s.memory q ecb (content q))
      (hr' : p'.Ready c (c.node a) s.memory ecb) : Sound c (s.goto a (.adding q ecb r p')) content := by
    refine h.goto (hp ▸ rfl) (hp ▸ if_pos hk) (fun q' hq' => ?_) (by cases r <;> exact hv) hr'
    exact some.inj ((if_pos hk).symm.trans hq') ▸ hf'
  simp only [System.addStep] at he
  split at he <;> rename_i hem
  · exact some.inj he ▸ hg rfl ⟨hH, fun hn => hem (hi.mpr hn)⟩ hr
  · exact some.inj he ▸ hg rfl ⟨hH, hi.mp (not_not.mp hem)⟩ hr

omit [DecidableEq A] in
theorem nodup_concat (he : ecb ∈ (s.point a).owns) : (content q ++ [ecb]).Nodup := by
  refine List.nodup_append.mpr ⟨h.placed.nodup (.queue q), List.nodup_singleton ecb, ?_⟩
  rintro x hx y hy rfl
  rw [List.mem_singleton.mp hy] at hx
  exact h.not_mem_of_owned he hx

theorem add_link (hp : s.point a = .adding q ecb r (.link i))
    (he : s.addStep c a q ecb r (.link i) = some s') : Sound c s' content := by
  cases he
  obtain ⟨hv, ⟨rfl, hn⟩, hH, hne⟩ := h.at_locked hp rfl
  have hnd : (content q ++ [ecb]).Nodup := h.nodup_concat (a := a) (hp ▸ List.mem_cons_self)
  have hL := hH.linkRear (n := c.node a) hne (fun e he => h.lt_of_mem he) hnd hn
  obtain ⟨k, z, hk, hz⟩ := hH.rear_eq (n := c.node a) hne fun e he => h.lt_of_mem he
  have hzq : z ∈ content q := by simp [hk]
  rw [hz] at hL ⊢
  refine h.locally _ _ (hp ▸ rfl) (hp ▸ rfl) (Memory.field_modify Envelope.index fun _ => rfl)
    (fun x _ => ⟨Memory.packet_setNext, fun hx => ?_⟩) (fun _ _ => rfl)
    (fun q' hq' => ?_) (by cases r <;> exact hv) rfl
  · have hxz : x ≠ z := by
      rintro rfl
      exact hx q (hp ▸ rfl) hzq
    rw [Memory.setNext, Memory.envelopes_modify_ne hxz]
  · cases hq'
    exact hL

theorem modifyQueue {p' f} (hk : (s.point a).locks = some q)
    (ho : p'.owns = (s.point a).owns) (hk' : p'.locks = some q)
    (hf : p'.Form (s.memory.modifyQueue q f) (content q)) (hv : p'.Valid c (c.node a))
    (hr : p'.Ready c (c.node a) s.memory) :
    Sound c ((s.setMemory (s.memory.modifyQueue q f)).goto a p') content := by
  refine h.locally p' _ ho (hk'.trans hk.symm) (fun _ => rfl) (fun _ _ => ⟨rfl, fun _ => rfl⟩) (fun q' hq' => ?_)
    (fun q' hq' => ?_) hv (hr.congr fun _ _ => rfl)
  · refine Memory.queues_modify_ne ?_
    rintro rfl
    exact hq' hk
  · obtain rfl := some.inj (hk'.symm.trans hq')
    exact hf

theorem add_front (hp : s.point a = .adding q ecb r (.front i))
    (he : s.addStep c a q ecb r (.front i) = some s') : Sound c s' content := by
  cases he
  obtain ⟨hv, ⟨rfl, hn⟩, hf⟩ := h.at_locked hp rfl
  refine h.modifyQueue (hp ▸ rfl) (hp ▸ rfl) rfl ?_ (by cases r <;> exact hv) rfl
  rw [hf.2]
  exact Memory.lists_setFront hn

theorem add_rear (hp : s.point a = .adding q ecb r (.rear i))
    (he : s.addStep c a q ecb r (.rear i) = some s') : Sound c s' content := by
  cases he
  obtain ⟨hv, hr, hf⟩ := h.at_locked hp rfl
  obtain rfl : i = c.convert (c.node a) (linkTo ecb) := hr
  refine h.modifyQueue (hp ▸ rfl) (hp ▸ rfl) rfl ?_ (by cases r <;> exact hv) trivial
  exact Memory.Lists.setRear hf

omit [DecidableEq A] h in
theorem map_message {l : List Nat} {call} (he : ecb ∉ l) :
    l.map (s.noteAdded call q ecb).message = l.map s.message := by
  refine List.map_congr_left fun x hx => ?_
  have hxe : x ≠ ecb := fun hxe => he (hxe ▸ hx)
  exact Prod.ext (update_of_ne hxe ..) rfl

omit h in
theorem update_free {l t} (ht : 1 ≤ t) (hq : q = freeEnvPool) :
    update content q l t = content t := by
  refine update_of_ne ?_ ..
  rintro rfl
  rw [hq] at ht
  exact Nat.not_succ_le_zero 0 ht

omit [DecidableEq A] in
theorem log_noteAdd (he : ecb ∈ (s.point a).owns) (hv : (Point.adding q ecb r .unlock).Valid c (c.node a))
    {t : Nat} (ht : 1 ≤ t) :
    (s.noteAdd q ecb r).added t = (s.noteAdd q ecb r).received t ++
      (update content q (content q ++ [ecb]) t).map (s.noteAdd q ecb r).message := by
  have hn {t : Nat} : ecb ∉ content t := h.not_mem_of_owned he
  have hnote (call : Nat) : (s.noteAdded call q ecb).added t = s.received t ++
      (update content q (content q ++ [ecb]) t).map (s.noteAdded call q ecb).message := by
    by_cases htq : t = q
    · subst htq
      have hm : (s.noteAdded call t ecb).message ecb = (call, (s.memory.envelopes ecb).packet) :=
        Prod.ext (update_self ..) rfl
      rw [update_self, List.map_append, map_message hn, List.map_singleton, hm, ← List.append_assoc,
        ← h.log ht]
      exact update_self ..
    · rw [update_of_ne htq, map_message hn, ← h.log ht]
      exact update_of_ne htq ..
  cases r with
  | returnPacket | finish => exact update_free ht hv ▸ h.log ht
  | sendPacket call | broadcast call => exact hnote call

theorem add_unlock (hp : s.point a = .adding q ecb r .unlock) :
    Sound c (((s.noteAdd q ecb r).setLock q none).goto a r.andThen)
      (update content q (content q ++ [ecb])) := by
  have hv := h.valid a
  have hf := h.form (a := a) (q := q) (hp ▸ rfl)
  rw [hp] at hv hf
  have ho : r.andThen.owns = r.owns := by cases r <;> rfl
  have hn : r.andThen.locks = none := by cases r <;> rfl
  have hm : (((s.noteAdd q ecb r).setLock q none).goto a r.andThen).memory = s.memory := by cases r <;> rfl
  have hpt : (((s.noteAdd q ecb r).setLock q none).goto a r.andThen).point =
      update s.point a r.andThen := by cases r <;> rfl
  refine h.unlock (hp ▸ rfl) hm (by cases r <;> rfl) hpt hn ?_ hf ?_ (by cases r <;> exact trivial)
    fun {t} ht => ?_
  · -- the envelope goes from the thread to the queue
    refine h.placed.move (p := .call a) (r := .queue q) (e := ecb) (by simp) ?_ ?_ fun t ht htq => ?_
    · simp only [System.at, hpt, update_self, ho, hp]
      exact List.Perm.refl _
    · simp only [System.at, update_self]
      exact List.perm_append_comm
    · cases t with
      | queue t => exact update_of_ne (by simpa using htq) ..
      | held => cases r <;> rfl
      | call b =>
        simp only [System.at, hpt]
        rw [update_of_ne (by simpa using ht)]
  · cases r with
    | broadcast => exact Nat.le_succ_of_le hv.2.1
    | _ => exact trivial
  · exact h.log_noteAdd (hp ▸ List.mem_cons_self) hv ht

theorem addStep {p} (hp : s.point a = .adding q ecb r p) (he : s.addStep c a q ecb r p = some s') :
    ∃ content', Sound c s' content' := by
  cases p with
  | next => exact ⟨content, h.add_next hp he⟩
  | queue => exact ⟨content, h.add_queue hp he⟩
  | index => exact ⟨content, h.add_index hp he⟩
  | lock => exact ⟨content, h.add_lock hp he⟩
  | test => exact ⟨content, h.add_test hp he⟩
  | link => exact ⟨content, h.add_link hp he⟩
  | front => exact ⟨content, h.add_front hp he⟩
  | rear => exact ⟨content, h.add_rear hp he⟩
  | unlock => exact ⟨_, some.inj he ▸ h.add_unlock hp⟩

end

/-! ## `Shm_Locked_queue_Get` -/

section

variable {r : GetFor} (h : Sound c s content)

include h

theorem get_goto {p p'} (hp : s.point a = .getting q r p) (hk : p'.isLocked = p.isLocked)
    (hf : p'.isLocked = true → p'.Form s.memory q (content q)) :
    Sound c (s.goto a (.getting q r p')) content := by
  have hv := (h.at_point hp).1
  refine h.goto (hp ▸ rfl) (by rw [hp]; simp [Point.locks, hk]) (fun q' hq' => ?_)
    (by cases r <;> exact hv) trivial
  obtain ⟨hl, he⟩ := Option.ite_none_right_eq_some.mp hq'
  exact some.inj he ▸ hf hl

theorem get_lock (hp : s.point a = .getting q r .lock) (he : s.getStep c a q r .lock = some s') :
    Sound c s' content := by
  obtain ⟨hl, rfl⟩ := ite_some_none_eq_some.mp he
  have hv := (h.at_point hp).1
  have hv' : (Point.getting q r .test).Valid c (c.node a) := by cases r <;> exact hv
  exact h.lock hl (hv'.locks_le rfl) (hp ▸ rfl) rfl (hp ▸ rfl) id hv' trivial

theorem get_test (hp : s.point a = .getting q r .test) (he : s.getStep c a q r .test = some s') :
    Sound c s' content := by
  obtain ⟨-, -, hf⟩ := h.at_locked hp rfl
  have hH : s.memory.Holds q (content q) := hf
  have hfe := hH.list.front_eq_end fun e he => h.lt_of_mem he
  simp only [System.getStep] at he
  split at he <;> rename_i hne
  · cases he
    refine h.get_goto hp rfl fun _ => ⟨hH, ?_⟩
    cases hc : content q with
    | nil =>
      rw [c.endOfList_eq, Memory.front, c.convert_convert] at hne
      exact absurd (hfe.mpr hc) hne
    | cons e k =>
      have hL := hH.list
      rw [hc] at hL
      rw [hL.front_toNat (h.lt_of_mem (by rw [hc]; exact List.mem_cons_self))]
      exact ⟨k, rfl⟩
  · cases he
    refine h.get_goto hp rfl fun _ => ⟨hH, hfe.mp ?_⟩
    rw [c.endOfList_eq, Memory.front, c.convert_convert] at hne
    exact not_not.mp hne

theorem get_front (hp : s.point a = .getting q r (.front ecb))
    (he : s.getStep c a q r (.front ecb) = some s') : Sound c s' content := by
  cases he
  obtain ⟨hv, -, hH, k, hk⟩ := h.at_locked hp rfl
  refine h.modifyQueue (hp ▸ rfl) (hp ▸ rfl) rfl ⟨k, hk, ?_, ?_, ?_⟩ (by cases r <;> exact hv) trivial
  · have hL := hH.list
    rw [hk] at hL
    exact hL.setFront
  · simp [Memory.modifyQueue, Memory.next]
  · rw [← hH.rear]
    simp [Memory.modifyQueue]

theorem get_last (hp : s.point a = .getting q r (.last ecb)) (he : s.getStep c a q r (.last ecb) = some s') :
    Sound c s' content := by
  obtain ⟨-, -, k, hk, hL, hfr, hr⟩ := h.at_locked hp rfl
  have hfe := hL.front_eq_end fun e he => h.lt_of_mem (by rw [hk]; exact List.mem_cons_of_mem _ he)
  simp only [System.getStep, Memory.next, c.endOfList_eq, c.convert_eq_end, ← hfr] at he
  split at he <;> rename_i hne
  · cases he
    obtain rfl := hfe.mp hne
    exact h.get_goto hp rfl fun _ => ⟨hk, hL⟩
  · cases he
    refine h.get_goto hp rfl fun _ => ⟨k, hk, hL, ?_⟩
    rw [hr, hk, List.getLast?_cons]
    cases k with
    | nil => exact absurd (hfe.mpr rfl) hne
    | cons x k => simp [List.getLast?_cons]

theorem get_rear (hp : s.point a = .getting q r (.rear ecb)) (he : s.getStep c a q r (.rear ecb) = some s') :
    Sound c s' content := by
  cases he
  obtain ⟨hv, -, hf⟩ := h.at_locked hp rfl
  refine h.modifyQueue (hp ▸ rfl) (hp ▸ rfl) rfl ⟨[], hf.1, ?_⟩ (by cases r <;> exact hv) trivial
  rw [c.endOfList_eq]
  exact Memory.Holds.setRear hf.2

theorem get_next (hp : s.point a = .getting q r (.next ecb)) (he : s.getStep c a q r (.next ecb) = some s') :
    Sound c s' content := by
  cases he
  obtain ⟨hv, -, k, hk, hH⟩ := h.at_locked hp rfl
  have hnd := h.placed.nodup (.queue q)
  rw [System.at, hk] at hnd
  refine h.locally _ _ (hp ▸ rfl) (hp ▸ rfl) (Memory.field_modify Envelope.index fun _ => rfl)
    (fun x _ => ⟨Memory.packet_setNext, fun hx => ?_⟩) (fun _ _ => rfl) (fun q' hq' => ?_)
    (by cases r <;> exact hv) trivial
  · refine congrArg _ (Memory.envelopes_modify_ne ?_)
    rintro rfl
    exact hx q (hp ▸ rfl) (by rw [hk]; exact List.mem_cons_self)
  · cases hq'
    refine ⟨k, hk, hH.congr (fun e he => congrArg _ (Memory.envelopes_modify_ne ?_)) rfl⟩
    rintro rfl
    exact (List.nodup_cons.mp hnd).1 he

omit [DecidableEq A] in
theorem log_noteGet {k} (hv : (Point.getting q r (.unlock (some ecb))).Valid c (c.node a))
    (hk : content q = ecb :: k) {t} (ht : 1 ≤ t) :
    (s.noteGet q r (some ecb)).added t = (s.noteGet q r (some ecb)).received t ++
      (update content q k t).map (s.noteGet q r (some ecb)).message := by
  cases r with
  | getPacket => exact update_free ht hv ▸ h.log ht
  | broadcast => exact update_free ht hv.1 ▸ h.log ht
  | receivePacket =>
    by_cases htq : t = q
    · subst htq
      have hl := h.log ht
      rw [hk, List.map_cons, List.append_cons] at hl
      rw [update_self]
      refine hl.trans (congrArg (· ++ _) (Eq.symm ?_))
      exact update_self ..
    · rw [update_of_ne htq]
      refine (h.log ht).trans (congrArg (· ++ _) (Eq.symm ?_))
      exact update_of_ne htq ..

theorem get_unlock_some (hp : s.point a = .getting q r (.unlock (some ecb))) :
    ∃ content', Sound c (((s.noteGet q r (some ecb)).setLock q none).goto a (r.andThen (some ecb))) content' := by
  obtain ⟨hv, -, k, hk, hH⟩ := h.at_locked hp rfl
  have ho : (r.andThen (some ecb)).owns = ecb :: r.owns := by cases r <;> rfl
  have hpt : (((s.noteGet q r (some ecb)).setLock q none).goto a (r.andThen (some ecb))).point =
      update s.point a (r.andThen (some ecb)) := by cases r <;> rfl
  refine ⟨update content q k, h.unlock (hp ▸ rfl) (by cases r <;> rfl) (by cases r <;> rfl) hpt
    (by cases r <;> rfl) ?_ hH ?_ (by cases r <;> exact trivial) fun {t} ht => ?_⟩
  · -- the envelope goes from the queue to the thread
    refine h.placed.move (p := .queue q) (r := .call a) (e := ecb) (by simp) ?_ ?_ fun t htq ht => ?_
    · simp only [System.at, update_self, hk]
      exact List.Perm.refl _
    · simp only [System.at, hpt, update_self, ho, hp]
      exact List.Perm.refl _
    · cases t with
      | queue t => exact update_of_ne (by simpa using htq) ..
      | held => cases r <;> rfl
      | call b =>
        simp only [System.at, hpt]
        rw [update_of_ne (by simpa using ht)]
  · cases r with
    | broadcast => exact hv.2
    | _ => exact trivial
  · exact h.log_noteGet hv hk ht

theorem get_unlock_none (hp : s.point a = .getting q r (.unlock none)) :
    Sound c (((s.noteGet q r none).setLock q none).goto a (r.andThen none)) content := by
  obtain ⟨-, -, hf⟩ := h.at_locked hp rfl
  have hpt : (((s.noteGet q r none).setLock q none).goto a (r.andThen none)).point =
      update s.point a (r.andThen none) := by cases r <;> rfl
  have hu : update content q (content q) = content := update_eq_self ..
  suffices hS : Sound c (((s.noteGet q r none).setLock q none).goto a (r.andThen none))
      (update content q (content q)) from hu ▸ hS
  refine h.unlock (hp ▸ rfl) (by cases r <;> rfl) (by cases r <;> rfl) hpt (by cases r <;> rfl) ?_ hf.1
    (by cases r <;> exact trivial) (by cases r <;> exact trivial) ?_
  · rw [hu]
    refine h.placed_congr (by cases r <;> rfl) fun b => ?_
    rw [hpt]
    by_cases hba : b = a
    · rw [hba, update_self, hp]
      cases r <;> rfl
    · rw [update_of_ne hba]
  · rw [hu]
    cases r <;> exact h.log

theorem getStep {p} (hp : s.point a = .getting q r p) (he : s.getStep c a q r p = some s') :
    ∃ content', Sound c s' content' := by
  match p with
  | .lock => exact ⟨content, h.get_lock hp he⟩
  | .test => exact ⟨content, h.get_test hp he⟩
  | .front _ => exact ⟨content, h.get_front hp he⟩
  | .last _ => exact ⟨content, h.get_last hp he⟩
  | .rear _ => exact ⟨content, h.get_rear hp he⟩
  | .next _ => exact ⟨content, h.get_next hp he⟩
  | .unlock (some _) => exact some.inj he ▸ h.get_unlock_some hp
  | .unlock none => exact ⟨content, some.inj he ▸ h.get_unlock_none hp⟩

end

/-! ## The calls -/

section

variable (h : Sound c s content)

include h

theorem giveHeld (hp : s.point a = .returning ecb) :
    Sound c ((s.giveHeld (c.node a) ecb).goto a .idle) content := by
  refine h.outside (hp ▸ rfl) rfl rfl rfl rfl ?_ trivial trivial rfl rfl rfl
  refine h.placed.move (p := .call a) (r := .held (c.node a)) (e := ecb) (by simp) ?_ ?_ fun t ht htn => ?_
  · simp [System.at, System.goto, hp, Point.owns]
  · simp [System.at, System.goto, System.giveHeld]
  · cases t with
    | queue => rfl
    | held n => exact update_of_ne (by simpa using htn) ..
    | call b => exact congrArg Point.owns (update_of_ne (by simpa using ht) ..)

theorem takeHeld {p' calls} (hp : s.point a = .idle) (he : ecb ∈ s.held (c.node a))
    (ho : p'.owns = [ecb]) (hn : p'.locks = none) (hv : p'.Valid c (c.node a))
    (hr : p'.Ready c (c.node a) s.memory) :
    Sound c (System.goto { s.takeHeld (c.node a) ecb with calls := calls } a p') content := by
  refine h.outside (hp ▸ rfl) rfl rfl rfl hn ?_ hv hr rfl rfl rfl
  refine h.placed.move (p := .held (c.node a)) (r := .call a) (e := ecb) (by simp) ?_ ?_ fun t htn ht => ?_
  · simp only [System.at, System.goto, System.takeHeld, update_self]
    exact List.perm_cons_erase he
  · simp only [System.at, System.goto, update_self, ho, hp]
    exact List.Perm.refl _
  · cases t with
    | queue => rfl
    | held n => exact update_of_ne (by simpa using htn) ..
    | call b => exact congrArg Point.owns (update_of_ne (by simpa using ht) ..)

theorem advance (he : s.advance c a = some s') : ∃ content', Sound c s' content' := by
  have hv := h.valid a
  unfold System.advance at he
  cases hp : s.point a with
  | idle | fatal => simp [hp] at he
  | adding q ecb r p =>
    rw [hp] at he
    exact h.addStep hp he
  | getting q r p =>
    rw [hp] at he
    exact h.getStep hp he
  | returning ecb =>
    rw [hp] at he
    exact ⟨content, some.inj he ▸ h.giveHeld hp⟩
  | received ecb =>
    rw [hp] at he
    cases he
    refine ⟨content, ?_⟩
    split
    · exact h.modify hp List.mem_cons_self rfl rfl rfl (fun _ => rfl) trivial trivial
    · exact h.goto (hp ▸ rfl) (hp ▸ rfl) (fun _ hq => nomatch hq) trivial trivial
  | preamble call node ecb =>
    rw [hp] at he hv
    cases he
    refine ⟨content, ?_⟩
    rw [Memory.buildPreamble, Memory.setEndian]
    exact h.modify hp List.mem_cons_self rfl rfl rfl (fun _ => rfl) hv trivial
  | loop call ecb nnum =>
    rw [hp] at he hv
    refine ⟨content, ?_⟩
    dsimp only at he
    split at he <;> rename_i hle
    · split at he <;> rename_i hne
      · cases he
        exact h.goto (hp ▸ rfl) (hp ▸ rfl) (fun _ hq => nomatch hq) ⟨rfl, hv, hle, hne⟩ trivial
      · cases he
        exact h.goto (hp ▸ rfl) (hp ▸ rfl) (fun _ hq => nomatch hq) (Nat.le_succ_of_le hv) trivial
    · cases he
      exact h.goto (hp ▸ rfl) (hp ▸ rfl) (fun _ hq => nomatch hq) rfl trivial
  | copyPreamble call ecb nnum tmpEcb =>
    rw [hp] at he hv
    cases he
    refine ⟨content, ?_⟩
    rw [Memory.buildPreamble, Memory.setEndian]
    exact h.modify hp List.mem_cons_self rfl rfl rfl (fun _ => rfl) hv trivial
  | copy call ecb nnum tmpEcb =>
    rw [hp] at he hv
    cases he
    refine ⟨content, ?_⟩
    exact h.modify hp List.mem_cons_self rfl rfl rfl (fun _ => rfl) ⟨rfl, hv⟩ trivial

omit [DecidableEq A] in
theorem write {packet n} (he : ecb ∈ s.held n) :
    Sound c (s.setMemory (s.memory.setPacket ecb packet)) content := by
  have hn {e : Nat} : ((s.memory.setPacket ecb packet).envelopes e).next = (s.memory.envelopes e).next :=
    Memory.field_modify Envelope.next (f := fun v => { v with packet := packet }) (fun _ => rfl) e
  have hi {e : Nat} : ((s.memory.setPacket ecb packet).envelopes e).index = (s.memory.envelopes e).index :=
    Memory.field_modify Envelope.index (f := fun v => { v with packet := packet }) (fun _ => rfl) e
  refine ⟨h.placed, fun e he => hi.trans (h.index e he), h.locked,
    fun hq hl => (h.free hq hl).congr (fun _ _ => hn) rfl,
    fun hq => (h.form hq).congr (fun _ _ => hn) fun _ _ => rfl, h.valid, fun a => (h.ready a).congr fun _ _ => hn,
    fun {q} hq => ?_⟩
  refine (h.log hq).trans (congrArg _ (List.map_congr_left fun e heq => ?_))
  have hne : e ≠ ecb := by
    rintro rfl
    exact h.placed.disjoint (p := .held n) (r := .queue q) (by simp) he heq
  refine Prod.ext rfl (congrArg Envelope.packet (Eq.symm ?_))
  exact update_of_ne hne ..

theorem step {m} (he : s.step c m = some s') : ∃ content', Sound c s' content' := by
  cases m with
  | getPacket a =>
    obtain ⟨hp, rfl⟩ := ite_some_none_eq_some.mp he
    exact ⟨content, h.goto (hp ▸ rfl) (hp ▸ rfl) (fun _ hq => nomatch hq) rfl trivial⟩
  | receivePacket a =>
    obtain ⟨hp, rfl⟩ := ite_some_none_eq_some.mp he
    exact ⟨content, h.goto (hp ▸ rfl) (hp ▸ rfl) (fun _ hq => nomatch hq) rfl trivial⟩
  | returnPacket a ecb =>
    obtain ⟨⟨hp, hh⟩, rfl⟩ := ite_some_none_eq_some.mp he
    exact ⟨content, h.takeHeld hp hh rfl rfl rfl trivial⟩
  | sendPacket a node ecb =>
    obtain ⟨⟨hp, hh, hn⟩, rfl⟩ := ite_some_none_eq_some.mp he
    refine ⟨content, ?_⟩
    split <;> rename_i hz
    · exact h.takeHeld hp hh rfl rfl ⟨Nat.pos_of_ne_zero hz, hn⟩ trivial
    · exact h.takeHeld hp hh rfl rfl (Nat.le_refl 1) trivial
  | write a ecb packet =>
    obtain ⟨hh, rfl⟩ := ite_some_none_eq_some.mp he
    exact ⟨content, h.write hh⟩
  | advance a => exact h.advance he

end

end Rtems.Shm.Sound
