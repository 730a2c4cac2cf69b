import Rtems.Psignal.Delivery

/-! # Who receives a signal -/

namespace Rtems.Psignal

open Function Transition Option

variable {T : Type*} [DecidableEq T] {s : System T} {mask set : SigSet} {sig signo : Nat}

/-! ## The last pass of `killinfo` -/

def Thread.rank (c : Thread) : Nat :=
  if States.isReady c.currentState then 0 else if c.isInterruptible then 1 else 2

def Thread.NotAfter (c d : Thread) : Prop :=
  c.currentPriority < d.currentPriority ∨ c.currentPriority = d.currentPriority ∧ c.rank ≤ d.rank

theorem Thread.NotAfter.trans {b c d : Thread} (h1 : b.NotAfter c) (h2 : c.NotAfter d) : b.NotAfter d := by
  unfold NotAfter at *
  omega

theorem Thread.notAfter_of_not {c d : Thread} (h : ¬ d.NotAfter c) : c.NotAfter d := by
  unfold NotAfter at *
  omega

/-- The first of the threads that come before all others which are interested. -/
def System.Selects (s : System T) (mask : SigSet) (l : List T) : Option T → Prop
  | none => ∀ t ∈ l, (s.thread t).isInterested mask = false
  | some t => t ∈ l ∧ (s.thread t).isInterested mask = true ∧
      ∀ u ∈ l, (s.thread u).isInterested mask = true → (s.thread t).NotAfter (s.thread u) ∧
        ((s.thread u).NotAfter (s.thread t) → l.idxOf t ≤ l.idxOf u)

theorem System.Selects.unique {l o o'} (h : s.Selects mask l o) (h' : s.Selects mask l o') : o = o' := by
  cases o with
  | none =>
    cases o' with
    | none => rfl
    | some u => exact absurd h'.2.1 (by simp [h u h'.1])
  | some t =>
    cases o' with
    | none => exact absurd h.2.1 (by simp [h' t h.1])
    | some u =>
      obtain ⟨hu, hi⟩ := h.2.2 u h'.1 h'.2.1
      obtain ⟨ht, hi'⟩ := h'.2.2 t h.1 h.2.1
      exact congrArg some ((List.idxOf_inj h.1).mp (Nat.le_antisymm (hi ht) (hi' hu)))

theorem System.Selects.skip {l o t} (h : s.Selects mask l o)
    (ht : (s.thread t).isInterested mask = true → ∃ u, o = some u ∧ (s.thread u).NotAfter (s.thread t)) :
    s.Selects mask (l ++ [t]) o := by
  cases o with
  | none =>
    intro u hu
    rcases List.mem_append.mp hu with hu | hu
    · exact h u hu
    · rw [List.mem_singleton.mp hu]
      cases hi : (s.thread t).isInterested mask with
      | false => rfl
      | true =>
        obtain ⟨_, hn, -⟩ := ht hi
        cases hn
  | some v =>
    refine ⟨List.mem_append_left _ h.1, h.2.1, fun u hu hi => ?_⟩
    rw [List.idxOf_append_of_mem h.1]
    by_cases hl : u ∈ l
    · rw [List.idxOf_append_of_mem hl]
      exact h.2.2 u hl hi
    · obtain rfl := List.mem_singleton.mp ((List.mem_append.mp hu).resolve_left hl)
      obtain ⟨_, hv, hb⟩ := ht hi
      cases hv
      refine ⟨hb, fun _ => ?_⟩
      rw [List.idxOf_append_of_notMem hl]
      exact Nat.le_add_right_of_le (Nat.le_of_lt (List.idxOf_lt_length_of_mem h.1))

theorem System.Selects.take {l o t} (h : s.Selects mask l o)
    (hi : (s.thread t).isInterested mask = true) (ht : ∀ u, o = some u → ¬ (s.thread u).NotAfter (s.thread t)) :
    s.Selects mask (l ++ [t]) (some t) := by
  refine ⟨List.mem_append_right _ (List.mem_singleton_self t), hi, fun u hu hu' => ?_⟩
  rcases List.mem_append.mp hu with hu | hu
  · cases o with
    | none =>
      rw [h u hu] at hu'
      cases hu'
    | some v =>
      have hvu := (h.2.2 u hu hu').1
      exact ⟨(Thread.notAfter_of_not (ht v rfl)).trans hvu, fun hn => absurd (hvu.trans hn) (ht v rfl)⟩
  · rw [List.mem_singleton.mp hu]
    exact ⟨Or.inr ⟨rfl, le_refl _⟩, fun _ => le_refl _⟩

theorem System.Selects.more {l o t} (h : s.Selects mask l o)
    (ht : (s.thread t).currentPriority ≤ 255) : s.Selects mask (l ++ [t]) (s.moreInterested mask o t) := by
  unfold moreInterested
  dsimp only
  split <;> rename_i hlow
  · cases o with
    | none => exact absurd (Nat.le_succ_of_le ht) (Nat.not_le_of_gt hlow)
    | some u => exact h.skip fun _ => ⟨u, rfl, Or.inl hlow⟩
  · split <;> rename_i hi
    · exact h.skip fun hi' => absurd hi' hi
    · have hi := not_not.mp hi
      split <;> rename_i hhigh
      · refine h.take hi fun u hu hn => ?_
        subst hu
        have hhigh : (s.thread t).currentPriority < (s.thread u).currentPriority := hhigh
        unfold Thread.NotAfter at hn
        omega
      · cases o with
        | none => exact absurd (Nat.lt_succ_of_le ht) hhigh
        | some u =>
          -- the priorities are equal
          have hp : (s.thread u).currentPriority = (s.thread t).currentPriority :=
            le_antisymm (Nat.le_of_not_lt hhigh) (Nat.le_of_not_lt hlow)
          have keep (hr : (s.thread u).rank ≤ (s.thread t).rank) : s.Selects mask (l ++ [t]) (some u) :=
            h.skip fun _ => ⟨u, rfl, Or.inr ⟨hp, hr⟩⟩
          have change (hr : (s.thread t).rank < (s.thread u).rank) : s.Selects mask (l ++ [t]) (some t) := by
            refine h.take hi fun v hv hn => ?_
            cases hv
            unfold Thread.NotAfter at hn
            omega
          dsimp only
          split_ifs with h1 h2 h3 h4
          · exact keep (by simp [Thread.rank, h1])
          · refine change ?_
            unfold Thread.rank
            split_ifs <;> simp
          · refine keep ?_
            unfold Thread.rank
            split_ifs <;> simp
          · exact change (by simp [Thread.rank, h1, h2, h3, h4])
          · exact keep (by simp [Thread.rank, h1, h2, h3, h4])

theorem System.Selects.foldl {l1 l o} (h : s.Selects mask l1 o)
    (hp : ∀ t ∈ l, (s.thread t).currentPriority ≤ 255) :
    s.Selects mask (l1 ++ l) (l.foldl (s.moreInterested mask) o) := by
  induction l generalizing l1 o with
  | nil => simpa using h
  | cons t l ih =>
    have := ih (h.more (hp t List.mem_cons_self)) fun u hu => hp u (List.mem_cons_of_mem t hu)
    simpa using this

def WaitQueue.threads (q : WaitQueue T) : List T := q.flatMap fun g => g.1 :: g.2

theorem System.selects_foldl (hp : ∀ t ∈ s.table, (s.thread t).currentPriority ≤ 255) :
    s.Selects mask s.table (s.table.foldl (s.moreInterested mask) none) :=
  Selects.foldl (show s.Selects mask [] none from fun _ ht => nomatch ht) hp

/-- A thread is selected if one is interested, and none comes before it. -/
theorem receiver_minimal (hp : ∀ t ∈ s.table, (s.thread t).currentPriority ≤ 255)
    (he : (s.thread s.executing).isInterested mask = false)
    (hw : ∀ t ∈ s.waitQueue.threads, (s.thread t).accepts mask = false) :
    ((s.receiver mask).isSome ↔ ∃ t ∈ s.table, (s.thread t).isInterested mask = true) ∧
      ∀ t, s.receiver mask = some t → t ∈ s.table ∧ (s.thread t).isInterested mask = true ∧
        ∀ u ∈ s.table, (s.thread u).isInterested mask = true →
          (s.thread t).currentPriority < (s.thread u).currentPriority ∨
            (s.thread t).currentPriority = (s.thread u).currentPriority ∧
              (s.thread t).rank ≤ (s.thread u).rank := by
  have hf : (s.waitQueue.map Prod.fst).find? (fun t => (s.thread t).accepts mask) = none := by
    refine List.find?_eq_none.mpr fun t ht => ?_
    obtain ⟨g, hg, rfl⟩ := List.mem_map.mp ht
    simp [hw g.1 (List.mem_flatMap.mpr ⟨g, hg, List.mem_cons_self⟩)]
  have hr : s.receiver mask = s.table.foldl (s.moreInterested mask) none := by
    simp only [System.receiver, he, hf, Bool.false_eq_true, ↓reduceIte]
  have hS : s.Selects mask s.table (s.receiver mask) := by
    rw [hr]
    exact System.selects_foldl hp
  cases ho : s.receiver mask with
  | none =>
    rw [ho] at hS
    refine ⟨iff_of_false (by simp) ?_, fun t ht => nomatch ht⟩
    rintro ⟨t, ht, hi⟩
    rw [hS t ht] at hi
    cases hi
  | some t =>
    rw [ho] at hS
    refine ⟨iff_of_true rfl ⟨t, hS.1, hS.2.1⟩, fun u hu => ?_⟩
    cases hu
    exact ⟨hS.1, hS.2.1, fun u hu hi => (hS.2.2 u hu hi).1⟩

def threeThreads : System (Option Bool) :=
  (System.initial [none, some false, some true] none 1 (fun _ => 5) fun t =>
    if t = none then signalAllMask else 0).modify (some false) fun c => { c with currentState := States.suspended }

theorem receiver_minimal_threeThreads : threeThreads.receiver (signoToMask 2) = some (some true) ∧
    (threeThreads.thread (some true)).rank ≤ (threeThreads.thread (some false)).rank := by
  have hr : threeThreads.receiver (signoToMask 2) = some (some true) := by decide
  have h := (receiver_minimal (by decide) (by decide) (by decide)).2 _ hr
  refine ⟨hr, ?_⟩
  rcases h.2.2 (some false) (by decide) (by decide) with hlt | hle
  · exact absurd hlt (by decide)
  · exact hle.2

/-- A thread that waits for 2 and does not block 3 is taken for 3 before a ready one of higher priority. -/
theorem receiver_takes_waiting : ∃ s, run System.step
      [.dispatch (some true), .sigtimedwait (signoToMask 2) .forever, .advance, .dispatch none]
      (.initial [none, some false, some true] none 1 (fun t => if t = some true then 5 else 1) fun t =>
        if t = none then signalAllMask else ~~~signoToMask 3) = some s ∧
    (s.thread s.executing).isInterested (signoToMask 3) = false ∧
    (∀ t ∈ s.waitQueue.threads, (s.thread t).option &&& signoToMask 3 = 0) ∧
    s.receiver (signoToMask 3) = some (some true) ∧ (s.thread (some false)).isInterested (signoToMask 3) = true ∧
    (s.thread (some false)).currentPriority < (s.thread (some true)).currentPriority := by
  refine ⟨_, (some_get (by decide +kernel)).symm, ?_⟩
  decide +kernel

/-! ## The threads that wait -/

def Thread.Waits (c : Thread) : Prop :=
  c.isInterruptibleSignal = true ∧ ∃ frames signo, c.frames = .waiting signo :: frames

theorem Thread.isInterruptibleSignal_unblock (c : Thread) : c.unblock.isInterruptibleSignal = false := by
  have h : ~~~States.blocked &&& (States.waitingForSignal ||| States.interruptibleBySignal) = 0 := by decide
  unfold unblock isInterruptibleSignal States.clear
  rw [BitVec.and_assoc, h]
  simp [States.waitingForSignal, States.interruptibleBySignal]

theorem System.unblockThread_waiting {t} (s : System T) (hi : (s.thread t).isInterruptibleSignal = true)
    (ha : (s.thread t).accepts (signoToMask sig) = true) : s.unblockThread t sig =
      ((s.modify t fun c => { c with returnCode := .eintr }.setSigno sig).extract t, true) := by
  unfold unblockThread
  rw [if_pos hi, if_pos ha]

theorem System.sendProcess_waiting {t info}
    (hr : s.disableDispatch.receiver (signoToMask sig) = some t) (hw : (s.thread t).Waits)
    (ha : (s.thread t).accepts (signoToMask sig) = true) :
    ∃ s', s.sendProcess sig info = (s', .ok ()) ∧ (s'.thread t).isInterruptibleSignal = false ∧
      (s'.thread t).frames = .waiting (some sig) :: (s.thread t).frames.tail ∧
      s'.signals.pending = s.signals.pending := by
  obtain ⟨hi, frames, signo, hf⟩ := hw
  let s1 := s.disableDispatch.modify t fun c => { c with doPostTaskSwitchExtension := true }
  have h1 : s1.thread t = { s.thread t with doPostTaskSwitchExtension := true } := update_self ..
  have hu := s1.unblockThread_waiting (by rw [h1]; exact hi) (by rw [h1]; exact ha)
  have he : s.sendProcess sig info = (((s1.unblockThread t sig).1.setSignals
      ((s1.unblockThread t sig).1.signals.hand t sig)).enableDispatch, .ok ()) := by
    unfold sendProcess
    dsimp only
    rw [hr]
    dsimp only
    rw [if_pos (congrArg Prod.snd hu)]
  have ht : (((s1.modify t fun c => { c with returnCode := .eintr }.setSigno sig).extract t).thread t) =
      ({ s1.thread t with returnCode := .eintr }.setSigno sig).unblock := by
    simp [extract, modify]
  refine ⟨_, he, ?_⟩
  rw [hu]
  refine ⟨(congrArg _ ht).trans (Thread.isInterruptibleSignal_unblock _), (congrArg Thread.frames ht).trans ?_, rfl⟩
  rw [h1]
  simp [Thread.setSigno, Thread.unblock, hf]

theorem System.thread_unblockThread_ne {t u} (h : u ≠ t) : (s.unblockThread t sig).1.thread u = s.thread u := by
  unfold unblockThread
  dsimp only
  split_ifs <;> simp [extract, modify, update_of_ne h]

omit [DecidableEq T] in
theorem System.thread_postProcessSignal {info} : (s.postProcessSignal sig info).1.thread = s.thread := by
  unfold postProcessSignal
  dsimp only
  split_ifs <;> rfl

/-- Only the receiver and the caller are changed. -/
theorem System.thread_kill {u} (hu : u ≠ s.executing) (h : (s.kill true sig).1.thread u ≠ s.thread u) :
    isValidSigno sig ∧ (s.signals.vectors sig).handler ≠ .ign ∧ (sig ≠ sigfpe ∧ sig ≠ sigill ∧ sig ≠ sigsegv) ∧
      s.receiver (signoToMask sig) = some u := by
  simp only [kill, killinfo, not_true_eq_false, if_false] at h
  split_ifs at h with h2 h3 h4
  · exact absurd rfl h
  · exact absurd rfl h
  · refine absurd ?_ h
    unfold pthreadKill
    dsimp only
    split_ifs <;> try rfl
    simp only [enableDispatch, sendThread, modify, update_of_ne hu]
    split_ifs <;> exact thread_unblockThread_ne hu
  · have hv : isValidSigno sig := by
      simp only [not_or] at h3
      simpa [h3.1] using h2
    refine ⟨hv, fun hi => h3 (Or.inr hi), by simpa only [not_or] using h4, ?_⟩
    by_contra hr
    refine h ?_
    unfold sendProcess
    dsimp only
    split
    · rw [thread_postProcessSignal]
      rfl
    · rename_i t ht
      have hne : u ≠ t := fun he => hr (he ▸ ht)
      have hm : (((s.disableDispatch.modify t fun c =>
          { c with doPostTaskSwitchExtension := true }).unblockThread t sig).1.thread u) = s.thread u :=
        (thread_unblockThread_ne hne).trans (update_of_ne hne _ _)
      split_ifs
      · exact hm
      · rw [thread_postProcessSignal]
        exact hm

/-- A waiting thread gets the signal just if the first of its priority accepts it, or no other thread that
does not block it comes before. -/
theorem kill_hands_over (hp : ∀ t ∈ s.table, (s.thread t).currentPriority ≤ 255)
    (he : (s.thread s.executing).isInterested (signoToMask sig) = false)
    (hx : s.executing ∉ s.waitQueue.threads) (hw : ∀ t ∈ s.waitQueue.threads, (s.thread t).Waits) :
    (∃ t ∈ s.waitQueue.threads, (s.thread t).accepts (signoToMask sig) = true ∧
      ∃ s', s.kill true sig = (s', .ok ()) ∧ (s'.thread t).isInterruptibleSignal = false ∧
        (s'.thread t).frames = .waiting (some sig) :: (s.thread t).frames.tail ∧
        s'.signals.pending = s.signals.pending) ↔
    isValidSigno sig ∧ (s.signals.vectors sig).handler ≠ .ign ∧ (sig ≠ sigfpe ∧ sig ≠ sigill ∧ sig ≠ sigsegv) ∧
      ((∃ t ∈ s.waitQueue.map Prod.fst, (s.thread t).accepts (signoToMask sig) = true) ∨
        ∃ t ∈ s.waitQueue.threads, s.Selects (signoToMask sig) s.table (some t)) := by
  have hmap : ∀ t ∈ s.waitQueue.map Prod.fst, t ∈ s.waitQueue.threads := by
    intro t ht
    obtain ⟨g, hg, rfl⟩ := List.mem_map.mp ht
    exact List.mem_flatMap.mpr ⟨g, hg, List.mem_cons_self⟩
  have hr : s.receiver (signoToMask sig) = ((s.waitQueue.map Prod.fst).find? fun t =>
      (s.thread t).accepts (signoToMask sig)).or (s.table.foldl (s.moreInterested (signoToMask sig)) none) := by
    simp only [System.receiver, he, Bool.false_eq_true, ↓reduceIte]
    split <;> simp [*]
  constructor
  · rintro ⟨t, ht, -, s', hk, hn, -⟩
    have hc : (s.kill true sig).1.thread t ≠ s.thread t := by
      intro hc
      rw [hk] at hc
      rw [show s'.thread t = _ from hc, (hw t ht).1] at hn
      cases hn
    obtain ⟨hv, hi, hf, hrt⟩ := System.thread_kill (fun h => hx (h ▸ ht)) hc
    refine ⟨hv, hi, hf, ?_⟩
    rw [hr, Option.or_eq_some_iff] at hrt
    rcases hrt with hfind | ⟨-, hfold⟩
    · have ha := List.find?_some hfind
      exact Or.inl ⟨t, List.mem_of_find?_eq_some hfind, ha⟩
    · exact Or.inr ⟨t, ht, hfold ▸ System.selects_foldl hp⟩
  · rintro ⟨hv, hi, hf, hl⟩
    obtain ⟨t, ht, ha, hrt⟩ : ∃ t ∈ s.waitQueue.threads, (s.thread t).accepts (signoToMask sig) = true ∧
        s.receiver (signoToMask sig) = some t := by
      rw [hr]
      cases hfind : (s.waitQueue.map Prod.fst).find? fun t => (s.thread t).accepts (signoToMask sig) with
      | some t =>
        have ha := List.find?_some hfind
        exact ⟨t, hmap t (List.mem_of_find?_eq_some hfind), ha, rfl⟩
      | none =>
        rw [List.find?_eq_none] at hfind
        obtain ⟨t, ht, hS⟩ := hl.resolve_left fun ⟨t, ht, ha⟩ => hfind t ht ha
        refine ⟨t, ht, ?_, (System.selects_foldl hp).unique hS⟩
        simpa [Thread.accepts] using Or.inr (of_decide_eq_true hS.2.1)
    have hk : s.kill true sig = s.sendProcess sig ⟨sig, 0⟩ := by
      have h0 : sig ≠ 0 := by
        rintro rfl
        cases hv
      simp [System.kill, System.killinfo, hv, hi, h0, hf]
    exact ⟨t, ht, ha, hk ▸ System.sendProcess_waiting hrt (hw t ht) ha⟩

def twoWaiting : List (Move (Option Bool)) :=
  [.dispatch (some false), .sigtimedwait (signoToMask 1) .forever, .advance, .dispatch (some true),
    .sigtimedwait (signoToMask 2) .forever, .advance, .dispatch none]

def threeBlocking : System (Option Bool) :=
  .initial [none, some false, some true] none 1 (fun _ => 5) fun _ => signalAllMask

instance (c : Thread) : Decidable c.Waits :=
  match hf : c.frames with
  | .waiting signo :: frames => decidable_of_iff (c.isInterruptibleSignal = true)
      ⟨fun h => ⟨h, frames, signo, hf⟩, And.left⟩
  | [] | .scan _ :: _ | .handler .. :: _ | .taking .. :: _ | .takingProcess .. :: _ | .blocking .. :: _ |
    .stopped :: _ => isFalse fun h => by obtain ⟨-, _, _, h⟩ := h; rw [hf] at h; cases h

theorem kill_hands_over_first : ∃ s, run System.step twoWaiting threeBlocking = some s ∧
    ∃ t s', s.kill true 1 = (s', .ok ()) ∧ (s'.thread t).frames = .waiting (some 1) :: (s.thread t).frames.tail := by
  let s := (run System.step twoWaiting threeBlocking).get (by decide +kernel)
  have he : (s.thread s.executing).isInterested (signoToMask 1) = false := by decide +kernel
  obtain ⟨t, -, -, s', hk, -, hf, -⟩ :=
    (kill_hands_over (s := s) (by decide +kernel) he (by decide +kernel) (by decide +kernel)).mpr
    ⟨by decide, by decide +kernel, by decide, Or.inl (by decide +kernel)⟩
  exact ⟨s, (some_get _).symm, t, s', hk, hf⟩

/-- `some true` waits behind `some false`, and the signal is left pending. -/
theorem kill_misses_second : ∃ s, run System.step (twoWaiting ++ [.kill true 2]) threeBlocking = some s ∧
    (s.thread (some true)).Waits ∧ (s.thread (some true)).accepts (signoToMask 2) = true ∧
    s.signals.isPending 2 = true := by
  let s := (run System.step (twoWaiting ++ [.kill true 2]) threeBlocking).get (by decide +kernel)
  exact ⟨s, (some_get _).symm, by decide +kernel, by decide +kernel, by decide +kernel⟩

/-! ## Signals that are pending already -/

def System.Highest (s : System T) (set : SigSet) (signo : Nat) : Prop :=
  let pending sig := s.signals.isPendingFor s.executing sig = true ∨ s.signals.isPending sig = true
  set &&& signoToMask signo ≠ 0 ∧ pending signo ∧
    ∀ sig, set &&& signoToMask sig ≠ 0 → pending sig → order.idxOf signo ≤ order.idxOf sig

theorem idxOf_find?_le {l : List Nat} {p a b} (h : l.find? p = some a) (hb : p b = true) :
    l.idxOf a ≤ l.idxOf b := by
  induction l with
  | nil => cases h
  | cons c l ih =>
    cases hc : p c with
    | true =>
      rw [List.find?_cons_of_pos hc] at h
      cases h
      simp
    | false =>
      rw [List.find?_cons_of_neg (by simp [hc])] at h
      have hne {d : Nat} (hd : p d = true) : c ≠ d := fun h => by simp [h, hd] at hc
      rw [List.idxOf_cons_ne _ (hne (List.find?_some h)), List.idxOf_cons_ne _ (hne hb)]
      exact Nat.succ_le_succ (ih h)

theorem find?_of_getHighest {p} (hs : set &&& signoToMask (getHighest p) ≠ 0) :
    order.find? (fun sig => p &&& signoToMask sig ≠ 0) = some (getHighest p) := by
  cases hf : order.find? fun sig => p &&& signoToMask sig ≠ 0 with
  | some a => rw [getHighest, hf, getD_some]
  | none =>
    rw [getHighest, hf] at hs
    exact absurd BitVec.and_zero hs

theorem Signals.take_pending {g : Signals T} {t} (seen : Option Nat) (hp : g.isPendingFor t signo = true) :
    (g.take t signo seen).pending = g.pending ∧ (g.take t signo seen).signalsPending =
      update g.signalsPending t (g.signalsPending t &&& ~~~signoToMask signo) := by
  have hfound := clearSignals_found hp
  rcases g.clearSignals_cases signalAllMask false with h | ⟨-, -, h⟩ | ⟨h, -⟩ | ⟨h, -⟩
  · rw [h] at hfound
    cases hfound
  · unfold take
    rw [h]
    exact ⟨rfl, rfl⟩
  · cases h
  · cases h

theorem System.advance_taking {seen frames}
    (hf : (s.thread s.executing).frames = .taking signo seen :: frames) :
    s.advance = some ((s.setSignals (s.signals.take s.executing signo seen)).pop s.executing) := by
  unfold advance
  dsimp only
  rw [hf]

theorem System.frames_push {t frame} : ((s.push t frame).thread t).frames = frame :: (s.thread t).frames := by
  simp [push, modify]

/-- The highest signal is taken just if it is the highest pending for the thread. -/
theorem sigtimedwait_takes_highest (s : System T) (set : SigSet) (timeout : Timeout) :
    (∃ signo seen s', s.Highest set signo ∧
      ((s.sigtimedwait set timeout).thread s.executing).frames =
        .taking signo seen :: (s.thread s.executing).frames ∧
      (s.sigtimedwait set timeout).advance = some s' ∧
      (s'.thread s.executing).frames = (s.thread s.executing).frames ∧
      (∀ sig, isValidSigno sig → (s'.signals.isPendingFor s.executing sig = true ↔
        sig ≠ signo ∧ s.signals.isPendingFor s.executing sig = true)) ∧
      s'.signals.pending = s.signals.pending ∧
      ∀ t ≠ s.executing, s'.signals.signalsPending t = s.signals.signalsPending t) ↔
    set &&& signoToMask (getHighest (s.signals.signalsPending s.executing)) ≠ 0 ∧
      ∀ sig, set &&& signoToMask sig ≠ 0 → s.signals.isPending sig = true →
        order.idxOf (getHighest (s.signals.signalsPending s.executing)) ≤ order.idxOf sig := by
  constructor
  · rintro ⟨signo, seen, s', ⟨hs, -, hp⟩, hf, -⟩
    have hsigno : signo = getHighest (s.signals.signalsPending s.executing) := by
      unfold System.sigtimedwait at hf
      dsimp only at hf
      split at hf
      · cases System.frames_push.symm.trans hf
        rfl
      · split at hf <;> cases System.frames_push.symm.trans hf
    exact hsigno ▸ ⟨hs, fun sig hm hpe => hp sig hm (Or.inr hpe)⟩
  rintro ⟨hs, hp⟩
  have hfind := find?_of_getHighest hs
  generalize getHighest (s.signals.signalsPending s.executing) = signo at hs hp hfind
  have hpend : s.signals.isPendingFor s.executing signo = true := List.find?_some hfind
  have hv : isValidSigno signo := isValidSigno_of_mem hs
  have hset : set &&& s.signals.signalsPending s.executing ≠ 0 := by
    refine ne_zero_of_mem ((and_mask_ne_zero hv).mpr ?_)
    rw [BitVec.getLsbD_and, (and_mask_ne_zero hv).mp hs, (and_mask_ne_zero hv).mp (of_decide_eq_true hpend)]
    rfl
  let seen := (s.signals.fate signo).thread s.executing
  have he : s.sigtimedwait set timeout = s.push s.executing (.taking signo seen) := by
    have hh : getHighest (s.signals.signalsPending s.executing) = signo := congrArg (·.getD 0) hfind
    unfold System.sigtimedwait
    rw [if_pos hset, hh]
  have hf : ((s.push s.executing (.taking signo seen)).thread s.executing).frames =
    .taking signo seen :: (s.thread s.executing).frames := System.frames_push
  obtain ⟨hP, hT⟩ := Signals.take_pending seen hpend
  rw [he]
  refine ⟨signo, seen, _, ⟨hs, Or.inl hpend, fun sig hm hpe => ?_⟩, hf, System.advance_taking hf, ?_,
    fun sig hsig => ?_, hP, fun t ht => (congrFun hT t).trans (update_of_ne ht _ _)⟩
  · exact hpe.elim (idxOf_find?_le hfind) (hp sig hm)
  · simp [System.push, System.pop, System.setSignals, System.modify]
  · have hb := and_not_mask (x := s.signals.signalsPending s.executing) hv hsig
    refine Iff.trans ?_ (hb.trans (and_congr_right fun _ => decide_eq_true_iff.symm))
    refine decide_eq_true_iff.trans (iff_of_eq (congrArg (· &&& signoToMask sig ≠ 0) ?_))
    exact (congrFun hT s.executing).trans (update_self _ _ _)

theorem sigtimedwait_takes_highest_two :
    ∃ s signo, run System.step [.pthreadKill (some ()) 1, .pthreadKill (some ()) 2] (alone 1) = some s ∧
      s.Highest (signoToMask 1) signo := by
  let s := (run System.step [.pthreadKill (some ()) 1, .pthreadKill (some ()) 2] (alone 1)).get (by decide +kernel)
  have h0 : s.signals.pending = 0 := by decide +kernel
  obtain ⟨signo, -, -, h, -⟩ := (sigtimedwait_takes_highest s (signoToMask 1) .forever).mpr
    ⟨by decide +kernel, fun sig _ hp => by simp [Signals.isPending, h0] at hp⟩
  exact ⟨s, signo, (some_get _).symm, h⟩

/-- A wait for 2 takes 1, and one pending for the process is cleared. -/
theorem sigtimedwait_takes_other :
    (run System.step [.pthreadKill (some ()) 1, .pthreadKill (some ()) 2, .sigtimedwait (signoToMask 2) .forever,
      .advance] (alone 1)).map (fun s => (s.signals.isPendingFor () 1, s.signals.isPendingFor () 2)) =
        some (false, true) ∧
    (run System.step [.kill true 2, .sigtimedwait (signoToMask 2) .forever, .advance, .advance] (alone 1)).map
      (fun s => (s.signals.isPending 2, (s.thread ()).frames)) = some (false, [.waiting none]) := by
  decide +kernel

end Rtems.Psignal
