import Rtems.Shm.Steps

/-! # Packets arrive once and in order -/

namespace Rtems.Shm

open Function Transition Option

variable {A P : Type*} {c : Configuration A P}

/-! ## What a call has still to do -/

def Configuration.others (c : Configuration A P) (n nnum : Nat) : List Nat :=
  (List.range' nnum (c.maximumNodes + 1 - nnum)).filter (· ≠ n)

theorem Configuration.others_step {n nnum} (h : nnum ≤ c.maximumNodes) :
    c.others n nnum = if n ≠ nnum then nnum :: c.others n (nnum + 1) else c.others n (nnum + 1) := by
  have hr : c.maximumNodes + 1 - nnum = (c.maximumNodes + 1 - (nnum + 1)) + 1 := by omega
  unfold others
  rw [hr, List.range'_succ, List.filter_cons]
  by_cases hn : n = nnum <;> simp [hn, eq_comm]

theorem Configuration.others_end {n nnum} (h : ¬ nnum ≤ c.maximumNodes) : c.others n nnum = [] := by
  have hr : c.maximumNodes + 1 - nnum = 0 := by omega
  simp [others, hr]

def Call.targets (c : Configuration A P) (d : Call A P) : List Nat :=
  if d.node ≠ 0 then [d.node] else c.others (c.node d.caller) 1

theorem Call.count_targets {d : Call A P} {m} (hm : 1 ≤ m) (hle : m ≤ c.maximumNodes) :
    (d.targets c).count m = if d.node = m ∨ d.node = 0 ∧ m ≠ c.node d.caller then 1 else 0 := by
  unfold targets
  split <;> rename_i h0
  · rw [List.count_singleton]
    simp [h0]
  · have hn : (c.others (c.node d.caller) 1).Nodup := (List.nodup_range' _).filter _
    have hm' : m ∈ c.others (c.node d.caller) 1 ↔ m ≠ c.node d.caller := by
      unfold Configuration.others
      rw [List.mem_filter, List.mem_range'_1, decide_eq_true_iff]
      exact and_iff_right (by omega)
    have h0 : d.node = 0 := not_not.mp h0
    have hnm : ¬ 0 = m := by omega
    rw [List.Nodup.count hn, h0]
    simp only [hm', hnm, false_or, true_and]

def AddFor.call : AddFor → Option Nat
  | .returnPacket => none
  | .sendPacket call | .broadcast call _ _ | .finish call => some call

def GetFor.call : GetFor → Option Nat
  | .broadcast call _ _ => some call
  | _ => none

/-- The call of `Shm_Send_packet` that a thread makes. -/
def Point.call : Point → Option Nat
  | .adding _ _ r _ => r.call
  | .getting _ r _ | .fatal r => r.call
  | .preamble call _ _ | .loop call _ _ | .copyPreamble call _ _ _ | .copy call _ _ _ => some call
  | _ => none

def Point.left (c : Configuration A P) (n : Nat) : Point → List Nat
  | .preamble _ node _ => [node]
  | .adding q _ (.sendPacket _) _ => [q]
  | .loop _ _ nnum | .copyPreamble _ _ nnum _ | .copy _ _ nnum _ | .adding _ _ (.broadcast _ _ nnum) _
  | .getting _ (.broadcast _ _ nnum) _ | .fatal (.broadcast _ _ nnum) => c.others n nnum
  | _ => []

def Point.carried : Point → List Nat
  | .preamble _ _ ecb | .adding _ ecb (.sendPacket _) _ | .loop _ ecb _ | .copyPreamble _ ecb _ _
  | .copy _ ecb _ _ | .getting _ (.broadcast _ ecb _) _ | .fatal (.broadcast _ ecb _) => [ecb]
  | .adding _ tmpEcb (.broadcast _ ecb _) _ => [tmpEcb, ecb]
  | _ => []

theorem Point.carried_subset {p : Point} {e} (h : e ∈ p.carried) : e ∈ p.owns := by
  cases p with
  | adding q x r p => cases r <;> simp_all [Point.carried, Point.owns, AddFor.owns]
  | getting q r p => cases r <;> simp_all [Point.carried, Point.owns, GetFor.owns]
  | fatal r => cases r <;> simp_all [Point.carried, Point.owns, GetFor.owns]
  | _ => simp_all [Point.carried, Point.owns]

/-! ## What is noted of the calls -/

def System.left (c : Configuration A P) (s : System A P) (id : Nat) (d : Call A P) : List Nat :=
  if (s.point d.caller).call = some id then (s.point d.caller).left c (c.node d.caller) else []

structure Logged (c : Configuration A P) (s : System A P) : Prop where
  caller : ∀ {a id}, (s.point a).call = some id → ∃ d, s.calls[id]? = some d ∧ d.caller = a ∧
    ∀ e ∈ (s.point a).carried, (s.memory.envelopes e).packet = d.packet
  entry : ∀ {q x}, x ∈ s.added q → ∃ d, s.calls[x.1]? = some d ∧ x.2 = d.packet
  count : ∀ {id d}, s.calls[id]? = some d → ∀ q,
    (s.added q).countP (fun x => x.1 = id) + (s.left c id d).count q = (d.targets c).count q

namespace Logged

variable [DecidableEq A] {s s' : System A P} {content : Nat → List Nat} {a : A} {p p' : Point}

section

variable (h : Logged c s)

include h

section

variable (hS : Sound c s content)

include hS

theorem move (hp : s.point a = p) (hcalls : s'.calls = s.calls)
    (hadd : s'.added = s.added) (hpt : s'.point = update s.point a p')
    (hm : ∀ e ∉ p.owns, (s'.memory.envelopes e).packet = (s.memory.envelopes e).packet)
    (hc : p'.call = p.call ∧ p'.left c (c.node a) = p.left c (c.node a) ∨
      p'.call = none ∧ p.left c (c.node a) = [])
    (hk : ∀ x, p'.call ≠ none → (∀ e ∈ p.carried, (s.memory.envelopes e).packet = x) →
      ∀ e ∈ p'.carried, (s'.memory.envelopes e).packet = x) : Logged c s' := by
  subst hp
  have ha : s'.point a = p' := by rw [hpt, update_self]
  have hb {b : A} (hb : b ≠ a) : s'.point b = s.point b := by rw [hpt, update_of_ne hb]
  refine ⟨fun {b id} hid => ?_, fun {q x} hx => ?_, fun {id d} hd q => ?_⟩
  · rw [hcalls]
    by_cases hba : b = a
    · subst hba
      rw [ha] at hid ⊢
      have hc' : p'.call = (s.point b).call := by
        rcases hc with hc | hc
        · exact hc.1
        · rw [hc.1] at hid
          cases hid
      obtain ⟨d, hd, hdc, hpk⟩ := h.caller (hc'.symm.trans hid)
      exact ⟨d, hd, hdc, hk d.packet (by rw [hid]; simp) hpk⟩
    · rw [hb hba] at hid ⊢
      obtain ⟨d, hd, hdc, hpk⟩ := h.caller hid
      exact ⟨d, hd, hdc, fun e he => (hm e (hS.not_owned hba (Point.carried_subset he))).trans (hpk e he)⟩
  · rw [hadd] at hx
    rw [hcalls]
    exact h.entry hx
  · rw [hcalls] at hd
    have hl : s'.left c id d = s.left c id d := by
      unfold System.left
      by_cases hda : d.caller = a
      · rw [hda, ha]
        rcases hc with ⟨hc, hl⟩ | ⟨hc, hl⟩
        · rw [hc, hl]
        · simp [hc, hl]
      · rw [hb hda]
    rw [hadd, hl]
    exact h.count hd q

omit hS in
theorem add {q ecb id r} (hp : s.point a = .adding q ecb r .unlock) (hr : r.call = some id)
    (he : ecb ∈ (Point.adding q ecb r .unlock).carried)
    (hc : r.andThen.call = none ∨ r.andThen.call = some id)
    (hl : (Point.adding q ecb r .unlock).left c (c.node a) =
      q :: if r.andThen.call = some id then r.andThen.left c (c.node a) else [])
    (hk : ∀ e ∈ r.andThen.carried, e ∈ (Point.adding q ecb r .unlock).carried)
    (hcalls : s'.calls = s.calls) (hm : s'.memory = s.memory) (hpt : s'.point = update s.point a r.andThen)
    (hadd : s'.added = update s.added q (s.added q ++ [(id, (s.memory.envelopes ecb).packet)])) :
    Logged c s' := by
  have hid : (s.point a).call = some id := by
    rw [hp]
    exact hr
  obtain ⟨d, hd, hda, hpk⟩ := h.caller hid
  rw [hp] at hpk
  have ha : s'.point a = r.andThen := by rw [hpt, update_self]
  have hb {b : A} (hb : b ≠ a) : s'.point b = s.point b := by rw [hpt, update_of_ne hb]
  have hn (i t : Nat) : (s'.added t).countP (fun x => x.1 = i) =
      (s.added t).countP (fun x => x.1 = i) + if t = q ∧ id = i then 1 else 0 := by
    rw [hadd]
    by_cases htq : t = q
    · by_cases hi : id = i <;> simp [htq, hi]
    · simp [htq]
  refine ⟨fun {b i} hi => ?_, fun {t x} hx => ?_, fun {i d'} hd' t => ?_⟩
  · rw [hcalls, hm]
    by_cases hba : b = a
    · subst hba
      rw [ha] at hi ⊢
      obtain rfl : id = i := by
        rcases hc with hc | hc
        · cases hc.symm.trans hi
        · exact some.inj (hc.symm.trans hi)
      exact ⟨d, hd, hda, fun e he => hpk e (hk e he)⟩
    · rw [hb hba] at hi ⊢
      exact h.caller hi
  · rw [hcalls]
    by_cases htq : t = q
    · subst htq
      rw [hadd, update_self, List.mem_append, List.mem_singleton] at hx
      rcases hx with hx | rfl
      · exact h.entry hx
      · exact ⟨d, hd, hpk ecb he⟩
    · rw [hadd, update_of_ne htq] at hx
      exact h.entry hx
  · rw [hcalls] at hd'
    have hcount := h.count hd' t
    rw [hn]
    by_cases hi : id = i
    · subst hi
      obtain rfl : d' = d := some.inj (hd'.symm.trans hd)
      have hl' : s.left c id d' = q :: s'.left c id d' := by
        unfold System.left
        rw [hda, ha, if_pos hid, hp, hl]
      rw [hl', List.count_cons] at hcount
      rw [← hcount]
      by_cases htq : t = q
      · simp [htq]
        omega
      · simp [htq, Ne.symm htq]
    · have hl' : s'.left c i d' = s.left c i d' := by
        unfold System.left
        by_cases hdc : d'.caller = a
        · have hne : r.andThen.call ≠ some i := by
            rcases hc with hc | hc
            · simp [hc]
            · simpa [hc] using hi
          rw [hdc, ha, if_neg hne, if_neg]
          simpa [hid] using hi
        · rw [hb hdc]
      rw [hl', if_neg fun h => hi h.2]
      exact hcount

omit hS in
theorem start {d} (hda : d.caller = a) (hpa : (s.point a).call = none)
    (hcalls : s'.calls = s.calls ++ [d]) (hadd : s'.added = s.added) (hm : s'.memory = s.memory)
    (hpt : s'.point = update s.point a p') (hc : p'.call = some s.calls.length)
    (hl : p'.left c (c.node a) = d.targets c) (hk : ∀ e ∈ p'.carried, (s.memory.envelopes e).packet = d.packet) :
    Logged c s' := by
  have ha : s'.point a = p' := by rw [hpt, update_self]
  have hb {b : A} (hb : b ≠ a) : s'.point b = s.point b := by rw [hpt, update_of_ne hb]
  have hold {i : Nat} {d' : Call A P} (hd : s.calls[i]? = some d') : s'.calls[i]? = some d' := by
    rw [hcalls, List.getElem?_append_left (List.getElem?_eq_some_iff.mp hd).1, hd]
  have hnew : s'.calls[s.calls.length]? = some d := by rw [hcalls]; simp
  refine ⟨fun {b i} hi => ?_, fun {q x} hx => ?_, fun {i d'} hd' q => ?_⟩
  · by_cases hba : b = a
    · subst hba
      rw [ha] at hi ⊢
      obtain rfl := some.inj (hc.symm.trans hi)
      exact ⟨d, hnew, hda, hm ▸ hk⟩
    · rw [hb hba] at hi ⊢
      obtain ⟨d', hd', hdc, hpk⟩ := h.caller hi
      exact ⟨d', hold hd', hdc, hm ▸ hpk⟩
  · rw [hadd] at hx
    obtain ⟨d', hd', hpk⟩ := h.entry hx
    exact ⟨d', hold hd', hpk⟩
  · rw [hadd]
    by_cases hi : i = s.calls.length
    · subst hi
      obtain rfl := some.inj (hnew.symm.trans hd')
      have hz : (s.added q).countP (fun x => x.1 = s.calls.length) = 0 := by
        refine List.countP_eq_zero.mpr fun x hx hxi => ?_
        obtain ⟨d', hx', -⟩ := h.entry hx
        rw [of_decide_eq_true hxi] at hx'
        simp at hx'
      rw [hz, Nat.zero_add, System.left, hda, ha, if_pos hc, hl]
    · have hd' : s.calls[i]? = some d' := by
        rw [hcalls] at hd'
        have hlt := (List.getElem?_eq_some_iff.mp hd').1
        simp only [List.length_append, List.length_singleton] at hlt
        rwa [List.getElem?_append_left (by omega)] at hd'
      have hl' : s'.left c i d' = s.left c i d' := by
        unfold System.left
        by_cases hdc : d'.caller = a
        · rw [hdc, ha, hpa, hc, if_neg (by simpa using Ne.symm hi), if_neg (by simp)]
        · rw [hb hdc]
      rw [hl']
      exact h.count hd' q

theorem keep (hp : s.point a = p) {w}
    (hm : ∀ e, (w.envelopes e).packet = (s.memory.envelopes e).packet) (hc : p'.call = p.call)
    (hl : p'.left c (c.node a) = p.left c (c.node a)) (hk : p'.carried = p.carried) :
    Logged c ((s.setMemory w).goto a p') :=
  h.move hS hp rfl rfl rfl (fun e _ => hm e) (Or.inl ⟨hc, hl⟩)
    fun _ _ hx e he => (hm e).trans (hx e (hk ▸ he))

theorem addStep {q ecb r p}
    (hp : s.point a = .adding q ecb r p) (he : s.addStep c a q ecb r p = some s') : Logged c s' := by
  have hkeep {p' : AddPoint} {w : Memory P}
      (hm : ∀ e, (w.envelopes e).packet = (s.memory.envelopes e).packet) :
      Logged c ((s.setMemory w).goto a (.adding q ecb r p')) :=
    h.keep hS hp hm rfl (by cases r <;> rfl) (by cases r <;> rfl)
  have hq {m' : Memory P} {e : Nat} {w : Word} (x : Nat) :
      ((m'.setQueue c (c.node a) e w).envelopes x).packet = (m'.envelopes x).packet :=
    Memory.field_modify Envelope.packet (f := fun v => { v with queue := c.convert (c.node a) w })
      (fun _ => rfl) x
  cases p with
  | next => exact some.inj he ▸ hkeep fun _ => Memory.packet_setNext
  | queue => exact some.inj he ▸ hkeep hq
  | index => exact some.inj he ▸ hkeep (w := s.memory) fun _ => rfl
  | lock i =>
    obtain ⟨-, rfl⟩ := ite_some_none_eq_some.mp he
    exact h.move hS hp rfl rfl rfl (fun _ _ => rfl) (Or.inl ⟨rfl, by cases r <;> rfl⟩)
      fun _ _ hx e he => hx e (by cases r <;> exact he)
  | test =>
    simp only [System.addStep] at he
    split at he
    · exact some.inj he ▸ hkeep (w := s.memory) fun _ => rfl
    · exact some.inj he ▸ hkeep (w := s.memory) fun _ => rfl
  | link => exact some.inj he ▸ hkeep fun _ => Memory.packet_setNext
  | front => exact some.inj he ▸ hkeep fun _ => rfl
  | rear => exact some.inj he ▸ hkeep fun _ => rfl
  | unlock =>
    cases he
    have hv := hS.valid a
    rw [hp] at hv
    cases r with
    | returnPacket | finish =>
      exact h.move hS hp rfl rfl rfl (fun _ _ => rfl) (Or.inr ⟨rfl, rfl⟩) fun _ hc => absurd rfl hc
    | sendPacket call =>
      exact h.add hp rfl List.mem_cons_self (Or.inl rfl) rfl (by intro _ he; cases he) rfl rfl rfl rfl
    | broadcast call orig nnum =>
      obtain ⟨rfl, -, hle, hne⟩ := hv
      refine h.add hp rfl List.mem_cons_self (Or.inr rfl) ?_ (fun _ he => List.mem_cons_of_mem _ he) rfl rfl rfl rfl
      refine (Configuration.others_step hle).trans ((if_pos hne).trans ?_)
      exact (congrArg (_ :: ·) (if_pos rfl)).symm

theorem getStep {q r p}
    (hp : s.point a = .getting q r p) (he : s.getStep c a q r p = some s') : Logged c s' := by
  have hkeep {p' : GetPoint} {w : Memory P}
      (hm : ∀ e, (w.envelopes e).packet = (s.memory.envelopes e).packet) :
      Logged c ((s.setMemory w).goto a (.getting q r p')) :=
    h.keep hS hp hm rfl (by cases r <;> rfl) (by cases r <;> rfl)
  cases p with
  | lock =>
    obtain ⟨-, rfl⟩ := ite_some_none_eq_some.mp he
    exact h.move hS hp rfl rfl rfl (fun _ _ => rfl) (Or.inl ⟨rfl, by cases r <;> rfl⟩)
      fun _ _ hx e he => hx e (by cases r <;> exact he)
  | test =>
    simp only [System.getStep] at he
    split at he
    · exact some.inj he ▸ hkeep (w := s.memory) fun _ => rfl
    · exact some.inj he ▸ hkeep (w := s.memory) fun _ => rfl
  | front => exact some.inj he ▸ hkeep fun _ => rfl
  | last =>
    simp only [System.getStep] at he
    split at he
    · exact some.inj he ▸ hkeep (w := s.memory) fun _ => rfl
    · exact some.inj he ▸ hkeep (w := s.memory) fun _ => rfl
  | rear => exact some.inj he ▸ hkeep fun _ => rfl
  | next => exact some.inj he ▸ hkeep fun _ => Memory.packet_setNext
  | unlock o =>
    cases he
    have hc : (r.andThen o).call = r.call ∧ (r.andThen o).left c (c.node a) =
        (Point.getting q r (.unlock o)).left c (c.node a) := by
      cases r <;> cases o <;> exact ⟨rfl, rfl⟩
    have hk : (r.andThen o).carried = (Point.getting q r (.unlock o)).carried := by
      cases r <;> cases o <;> rfl
    have hm : (s.noteGet q r o).memory = s.memory ∧ (s.noteGet q r o).calls = s.calls ∧
        (s.noteGet q r o).added = s.added ∧ (s.noteGet q r o).point = s.point := by
      cases r <;> cases o <;> exact ⟨rfl, rfl, rfl, rfl⟩
    refine h.move hS hp hm.2.1 hm.2.2.1 ?_ (fun e _ => ?_) (Or.inl hc) fun x _ hx e he => ?_
    · exact congrArg (update · a (r.andThen o)) hm.2.2.2
    · exact congrArg (fun m => (m.envelopes e).packet) hm.1
    · exact (congrArg (fun m => (m.envelopes e).packet) hm.1).trans (hx e (hk ▸ he))

theorem advance (he : s.advance c a = some s') : Logged c s' := by
  unfold System.advance at he
  cases hp : s.point a with
  | idle | fatal => simp [hp] at he
  | adding q ecb r p =>
    rw [hp] at he
    exact h.addStep hS hp he
  | getting q r p =>
    rw [hp] at he
    exact h.getStep hS hp he
  | returning ecb =>
    rw [hp] at he
    cases he
    exact h.move hS hp rfl rfl rfl (fun _ _ => rfl) (Or.inr ⟨rfl, rfl⟩) fun _ hc => absurd rfl hc
  | received ecb =>
    rw [hp] at he
    cases he
    split
    · refine h.move hS hp rfl rfl rfl (fun e he => ?_) (Or.inr ⟨rfl, rfl⟩) fun _ hc => absurd rfl hc
      refine congrArg Envelope.packet (update_of_ne ?_ ..)
      rintro rfl
      exact he List.mem_cons_self
    · exact h.keep (w := s.memory) hS hp (fun _ => rfl) rfl rfl rfl
  | preamble call node ecb =>
    rw [hp] at he
    cases he
    exact h.keep hS hp (fun _ => Memory.packet_setEndian) rfl rfl rfl
  | loop call ecb nnum =>
    rw [hp] at he
    dsimp only at he
    split at he <;> rename_i hle
    · split at he <;> rename_i hne
      · cases he
        exact h.keep (w := s.memory) hS hp (fun _ => rfl) rfl rfl rfl
      · cases he
        refine h.keep (w := s.memory) hS hp (fun _ => rfl) rfl ?_ rfl
        exact ((Configuration.others_step hle).trans (if_neg hne)).symm
    · cases he
      refine h.move hS hp rfl rfl rfl (fun _ _ => rfl) (Or.inl ⟨rfl, ?_⟩)
        fun _ _ _ e he => absurd he List.not_mem_nil
      exact (Configuration.others_end hle).symm
  | copyPreamble call ecb nnum tmpEcb =>
    rw [hp] at he
    cases he
    exact h.keep hS hp (fun _ => Memory.packet_setEndian) rfl rfl rfl
  | copy call ecb nnum tmpEcb =>
    rw [hp] at he
    cases he
    have hpk (e : Nat) : ((s.memory.setPacket tmpEcb (s.memory.envelopes ecb).packet).envelopes e).packet =
        if e = tmpEcb then (s.memory.envelopes ecb).packet else (s.memory.envelopes e).packet := by
      by_cases het : e = tmpEcb <;> simp [Memory.setPacket, Memory.modifyEnvelope, het]
    refine h.move hS hp rfl rfl rfl (fun e he => (hpk e).trans (if_neg ?_)) (Or.inl ⟨rfl, rfl⟩)
      fun x _ hx e he => ?_
    · rintro rfl
      exact he List.mem_cons_self
    · refine (hpk e).trans ?_
      split <;> rename_i het
      · exact hx ecb List.mem_cons_self
      · rcases List.mem_cons.mp he with he | he
        · exact absurd he het
        · exact hx e he

theorem step {m : Move A P} (he : s.step c m = some s') :
    Logged c s' := by
  cases m with
  | getPacket a =>
    obtain ⟨hp, rfl⟩ := ite_some_none_eq_some.mp he
    exact h.keep (w := s.memory) hS hp (fun _ => rfl) rfl rfl rfl
  | receivePacket a =>
    obtain ⟨hp, rfl⟩ := ite_some_none_eq_some.mp he
    exact h.keep (w := s.memory) hS hp (fun _ => rfl) rfl rfl rfl
  | returnPacket a ecb =>
    obtain ⟨⟨hp, -⟩, rfl⟩ := ite_some_none_eq_some.mp he
    exact h.move hS hp rfl rfl rfl (fun _ _ => rfl) (Or.inr ⟨rfl, rfl⟩) fun _ hc => absurd rfl hc
  | sendPacket a node ecb =>
    obtain ⟨⟨hp, -⟩, rfl⟩ := ite_some_none_eq_some.mp he
    refine h.start rfl (by rw [hp]; rfl) rfl rfl rfl rfl ?_ ?_ ?_
    · split <;> rfl
    · unfold Call.targets
      split <;> rfl
    · split <;> simp [Point.carried]
  | write a ecb packet =>
    obtain ⟨hh, rfl⟩ := ite_some_none_eq_some.mp he
    refine ⟨fun {b id} hid => ?_, h.entry, h.count⟩
    obtain ⟨d, hd, hda, hpk⟩ := h.caller hid
    refine ⟨d, hd, hda, fun e he => ?_⟩
    have hne : e ≠ ecb := by
      rintro rfl
      exact hS.placed.disjoint (p := .held (c.node a)) (r := .call b) (by simp) hh (Point.carried_subset he)
    exact (congrArg Envelope.packet (update_of_ne hne ..)).trans (hpk e he)
  | advance a => exact h.advance hS he

end

end

omit [DecidableEq A] in
theorem initial {zero} : Logged c (System.initial c zero) where
  caller := fun h => by simp [System.initial, Point.call] at h
  entry := fun h => absurd h List.not_mem_nil
  count := fun h => by simp [System.initial] at h

end Logged

/-! ## Nodes -/

structure Bounded (c : Configuration A P) (s : System A P) : Prop where
  calls : ∀ d ∈ s.calls, d.node ≤ c.maximumNodes
  held : ∀ {n e}, e ∈ s.held n → 1 ≤ n ∧ n ≤ c.maximumNodes

section

variable [DecidableEq A] {s s' : System A P} {a : A} {q : Nat}

theorem System.addStep_frame {ecb r p} (he : s.addStep c a q ecb r p = some s') :
    s'.calls = s.calls ∧ s'.held = s.held := by
  cases p with
  | lock =>
    obtain ⟨-, rfl⟩ := ite_some_none_eq_some.mp he
    exact ⟨rfl, rfl⟩
  | test =>
    simp only [System.addStep] at he
    split at he <;> exact some.inj he ▸ ⟨rfl, rfl⟩
  | unlock => cases r <;> exact some.inj he ▸ ⟨rfl, rfl⟩
  | _ => exact some.inj he ▸ ⟨rfl, rfl⟩

theorem System.getStep_frame {r p} (he : s.getStep c a q r p = some s') :
    s'.calls = s.calls ∧ s'.held = s.held := by
  cases p with
  | lock =>
    obtain ⟨-, rfl⟩ := ite_some_none_eq_some.mp he
    exact ⟨rfl, rfl⟩
  | test | last =>
    simp only [System.getStep] at he
    split at he <;> exact some.inj he ▸ ⟨rfl, rfl⟩
  | unlock o => cases r <;> cases o <;> exact some.inj he ▸ ⟨rfl, rfl⟩
  | _ => exact some.inj he ▸ ⟨rfl, rfl⟩

theorem System.advance_frame (he : s.advance c a = some s') :
    s'.calls = s.calls ∧ ∀ n, n ≠ c.node a → s'.held n = s.held n := by
  unfold System.advance at he
  split at he
  · cases he
  · cases he
  · exact (System.addStep_frame he).imp_right fun h n _ => congrFun h n
  · exact (System.getStep_frame he).imp_right fun h n _ => congrFun h n
  · cases he
    split <;> exact ⟨rfl, fun _ _ => rfl⟩
  · cases he
    exact ⟨rfl, fun _ hn => update_of_ne hn ..⟩
  · exact some.inj he ▸ ⟨rfl, fun _ _ => rfl⟩
  · split at he
    · split at he <;> exact some.inj he ▸ ⟨rfl, fun _ _ => rfl⟩
    · exact some.inj he ▸ ⟨rfl, fun _ _ => rfl⟩
  · exact some.inj he ▸ ⟨rfl, fun _ _ => rfl⟩
  · exact some.inj he ▸ ⟨rfl, fun _ _ => rfl⟩

theorem Bounded.step (h : Bounded c s) {m} (he : s.step c m = some s') : Bounded c s' := by
  have htake {a : A} {ecb n e : Nat} (hm : e ∈ (s.takeHeld (c.node a) ecb).held n) :
      1 ≤ n ∧ n ≤ c.maximumNodes := by
    by_cases hn : n = c.node a
    · exact hn ▸ ⟨c.node_pos a, c.node_le a⟩
    · have hh : (s.takeHeld (c.node a) ecb).held n = s.held n := update_of_ne hn ..
      exact h.held (hh ▸ hm)
  cases m with
  | getPacket a | receivePacket a =>
    obtain ⟨-, rfl⟩ := ite_some_none_eq_some.mp he
    exact ⟨h.calls, h.held⟩
  | write a ecb packet =>
    obtain ⟨-, rfl⟩ := ite_some_none_eq_some.mp he
    exact ⟨h.calls, h.held⟩
  | returnPacket a ecb =>
    obtain ⟨-, rfl⟩ := ite_some_none_eq_some.mp he
    exact ⟨h.calls, htake⟩
  | sendPacket a node ecb =>
    obtain ⟨⟨-, -, hle⟩, rfl⟩ := ite_some_none_eq_some.mp he
    refine ⟨fun d hd => ?_, htake⟩
    rcases List.mem_append.mp hd with hd | hd
    · exact h.calls d hd
    · exact List.mem_singleton.mp hd ▸ hle
  | advance a =>
    obtain ⟨hc, hh⟩ := System.advance_frame he
    refine ⟨hc ▸ h.calls, fun {n e} hm => ?_⟩
    by_cases hn : n = c.node a
    · exact hn ▸ ⟨c.node_pos a, c.node_le a⟩
    · exact h.held (hh n hn ▸ hm)

end

theorem Call.le_of_mem_targets {d : Call A P} {q} (hd : d.node ≤ c.maximumNodes)
    (hq : q ∈ d.targets c) : q ≤ c.maximumNodes := by
  unfold targets at hq
  split at hq
  · exact List.mem_singleton.mp hq ▸ hd
  · have := List.mem_range'_1.mp (List.mem_filter.mp hq).1
    omega

theorem Sound.queue_le {s : System A P} {content} (h : Sound c s content) (hl : Logged c s)
    (hb : Bounded c s) {q e} (he : e ∈ content q) : q ≤ c.maximumNodes := by
  cases q with
  | zero => exact Nat.zero_le _
  | succ q =>
    have hx : s.message e ∈ s.added (q + 1) := by
      rw [h.log (Nat.succ_pos q)]
      exact List.mem_append_right _ (List.mem_map_of_mem he)
    obtain ⟨d, hd, -⟩ := hl.entry hx
    have hpos : 0 < (s.added (q + 1)).countP (fun x => x.1 = (s.message e).1) :=
      List.countP_pos_iff.mpr ⟨_, hx, by simp⟩
    have hc := hl.count hd (q + 1)
    exact Call.le_of_mem_targets (hb.calls d (List.mem_of_getElem? hd)) (List.count_pos_iff.mp (by omega))

/-! ## Every run -/

theorem Sound.initial {zero} :
    Sound c (System.initial c zero) fun q => if q = freeEnvPool then List.range c.maximumEnvelopes else [] := by
  obtain ⟨hF, hO, hI⟩ := Memory.initEnvelopes_free (n := 1) (fun q hq => Memory.holds_initQueues (n := 1)
    (m := ⟨fun _ => ⟨0, 0, 0⟩, fun _ => ⟨0, 0, 0, 0, zero⟩⟩) hq) (Nat.le_refl c.maximumEnvelopes)
  have hat {t : Place A} {e : Nat} : e ∈ (System.initial c zero).at
      (fun q => if q = freeEnvPool then List.range c.maximumEnvelopes else []) t ↔
        t = .queue freeEnvPool ∧ e < c.maximumEnvelopes := by
    cases t with
    | queue q => by_cases hq : q = freeEnvPool <;> simp [System.at, hq]
    | held | call => simp [System.at, System.initial, Point.owns]
  refine ⟨⟨fun t => ?_, fun h => (hat.mp h).2, fun h h' => (hat.mp h).1.trans (hat.mp h').1.symm,
    fun h => ⟨_, hat.mpr ⟨rfl, h⟩⟩⟩, hI, ?_, fun {q} hq _ => ?_, ?_, fun _ => trivial, fun _ => trivial,
    fun {q} hq => ?_⟩
  · cases t with
    | queue q =>
      change (if q = freeEnvPool then _ else _ : List Nat).Nodup
      split
      · exact List.nodup_range
      · exact List.nodup_nil
    | held | call => exact List.nodup_nil
  · simp [System.initial, Point.locks]
  · split <;> rename_i hq0
    · exact hq0 ▸ hF
    · exact hO q hq hq0
  · simp [System.initial, Point.locks]
  · rw [if_neg (show q ≠ freeEnvPool from Nat.ne_of_gt hq)]
    rfl

inductive Location
  | free
  | receive (n : Nat)
  | node (n : Nat)
  deriving DecidableEq, Repr

def System.Located (c : Configuration A P) (s : System A P) (content : Nat → List Nat) (e : Nat) :
    Location → Prop
  | .free => e ∈ content freeEnvPool
  | .receive n => 1 ≤ n ∧ n ≤ c.maximumNodes ∧ e ∈ content n
  | .node n => 1 ≤ n ∧ n ≤ c.maximumNodes ∧ (e ∈ s.held n ∨ ∃ a, c.node a = n ∧ e ∈ (s.point a).owns)

def Place.location (c : Configuration A P) : Place A → Location
  | .queue 0 => .free
  | .queue (q + 1) => .receive (q + 1)
  | .held n => .node n
  | .call a => .node (c.node a)

theorem Sound.located {s content} (h : Sound c s content) (hl : Logged c s) (hb : Bounded c s) {e l} :
    s.Located c content e l ↔ ∃ t, e ∈ s.at content t ∧ t.location c = l := by
  constructor
  · intro he
    match l, he with
    | .free, he => exact ⟨.queue 0, he, rfl⟩
    | .receive (n + 1), ⟨_, _, he⟩ => exact ⟨.queue (n + 1), he, rfl⟩
    | .node n, ⟨_, _, .inl he⟩ => exact ⟨.held n, he, rfl⟩
    | .node n, ⟨_, _, .inr ⟨a, ha, he⟩⟩ => exact ⟨.call a, he, congrArg _ ha⟩
  · rintro ⟨t, he, rfl⟩
    match t with
    | .queue 0 => exact he
    | .queue (q + 1) => exact ⟨Nat.succ_pos q, h.queue_le hl hb he, he⟩
    | .held n => exact ⟨(hb.held he).1, (hb.held he).2, Or.inl he⟩
    | .call a => exact ⟨c.node_pos a, c.node_le a, Or.inr ⟨a, rfl, he⟩⟩

variable [DecidableEq A]

/-- Envelopes are in one place, and packets received once and in order. -/
theorem envelopes_accounted {zero : P} {s : System A P}
    (h : Steps (System.step c) (fun _ _ => True) (System.initial c zero) s) :
    ∃ content : Nat → List Nat,
      (∀ e < c.maximumEnvelopes, ∃! l, s.Located c content e l) ∧
      (∀ q ≤ c.maximumNodes, s.lock q = none → s.memory.Holds q (content q)) ∧
      (∀ n, 1 ≤ n → n ≤ c.maximumNodes → s.added n = s.received n ++ (content n).map s.message) ∧
      (∀ n, ∀ x ∈ s.added n, ∃ d, s.calls[x.1]? = some d ∧ x.2 = d.packet) ∧
      ∀ id d, s.calls[id]? = some d → ∀ n, 1 ≤ n → n ≤ c.maximumNodes →
        (s.added n).countP (fun x => x.1 = id) ≤
            (if d.node = n ∨ d.node = 0 ∧ n ≠ c.node d.caller then 1 else 0) ∧
          ((s.point d.caller).call ≠ some id → (s.added n).countP (fun x => x.1 = id) =
            if d.node = n ∨ d.node = 0 ∧ n ≠ c.node d.caller then 1 else 0) := by
  obtain ⟨⟨content, hS⟩, hL, hB⟩ := h.invariant
    (I := fun s => (∃ content, Sound c s content) ∧ Logged c s ∧ Bounded c s)
    (fun ⟨⟨_, hS⟩, hL, hB⟩ _ he => ⟨hS.step he, hL.step hS he, hB.step he⟩)
    ⟨⟨_, Sound.initial⟩, Logged.initial, fun _ hd => absurd hd List.not_mem_nil,
      fun he => absurd he List.not_mem_nil⟩
  refine ⟨content, fun e he => ?_, fun q hq hl => hS.free hq hl, fun n hn _ => hS.log hn,
    fun n x hx => hL.entry hx, fun id d hd n hn hle => ?_⟩
  · obtain ⟨t, ht, hu⟩ := hS.placed.existsUnique he
    refine ⟨t.location c, (hS.located hL hB).mpr ⟨t, ht, rfl⟩, fun l hl => ?_⟩
    obtain ⟨t', ht', rfl⟩ := (hS.located hL hB).mp hl
    rw [hu t' ht']
  · have hc := hL.count hd n
    rw [Call.count_targets hn hle] at hc
    refine ⟨by omega, fun hp => ?_⟩
    rw [← hc, System.left, if_neg hp]
    simp

def twoNodes : Configuration Bool Nat where
  maximumNodes := 2
  maximumEnvelopes := 3
  convert := fun n w => if n = 1 then w else w.reverse
  format := fun n => if n = 1 then 0 else 1
  convertPacket := id
  node := fun a => if a then 2 else 1
  involutive := fun n w => by dsimp only; split <;> simp
  end_fixed := fun n => by split <;> decide +kernel
  envelopes_pos := by decide
  envelopes_lt := by decide
  node_pos := by decide
  node_le := by decide

def broadcast : List (Move Bool Nat) :=
  [.getPacket false] ++ List.replicate 7 (.advance false) ++ [.write false 0 5, .sendPacket false 0 0] ++
    List.replicate 27 (.advance false) ++ [.receivePacket true] ++ List.replicate 9 (.advance true)

theorem envelopes_accounted_broadcast :
    ∃ s, run (System.step twoNodes) broadcast (System.initial twoNodes 0) = some s ∧
      s.received 2 = [(0, 5)] ∧ s.held 2 = [1] ∧ ∃ content : Nat → List Nat,
        (∃! l, s.Located twoNodes content 1 l) ∧ s.added 2 = s.received 2 ++ (content 2).map s.message := by
  refine exists_of_map (fun s => (s.received 2, s.held 2)) ([(0, 5)], [1])
    (by decide +kernel) fun s hs he => ?_
  obtain ⟨hr, hh⟩ := Prod.mk.inj he
  obtain ⟨content, hu, -, ha, -⟩ := envelopes_accounted (.of_run (fun _ _ => trivial) hs)
  exact ⟨hr, hh, content, hu 1 (by decide), ha 2 (by decide) (by decide)⟩

end Rtems.Shm
