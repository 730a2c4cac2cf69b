import Rtems.CoreMsg.Model
import Rtems.Library.Transition

/-! # Buffers, sizes and messages -/

namespace Rtems.CoreMsg

open Function Transition Option

variable {T B : Type*}

/-! ## The buffers -/

section

variable {W : Workspace} {memory : Nat → Buffer B} {disc : ThreadQueue.Discipline} {cfg : Configuration}
  {r : Request} {q : Control T B} {count size : Nat}

def Fits (count size : Nat) : Prop := count * ((size + 3) / 4 * 4 + 16) < 2 ^ 32

theorem Fits.nodeSize_eq (hf : Fits count size) (hc : count ≠ 0) :
    nodeSize size = (size + 3) / 4 * 4 + 16 := by
  have h1 : (size + 3) / 4 * 4 + 16 < 2 ^ 32 :=
    lt_of_le_of_lt (Nat.le_mul_of_pos_left _ (Nat.pos_of_ne_zero hc)) hf
  have ha : allocatedMessageSize size = (size + 3) / 4 * 4 := by
    unfold allocatedMessageSize
    split
    · rw [addWord_eq (by omega)]
      omega
    · omega
  rw [nodeSize, ha, addWord_eq (by omega)]

theorem Fits.required_eq (hf : Fits count size) : messageBufferingRequired count size = count * nodeSize size := by
  refine Nat.mod_eq_of_lt ?_
  by_cases hc : count = 0
  · simp [hc]
  · rw [hf.nodeSize_eq hc]
    exact hf

theorem coreInitialize_apart (hi : coreInitialize W memory disc count size = some q) (hf : Fits count size) :
    q.inactiveMessages.length = count ∧
      (∀ b ∈ q.inactiveMessages, q.messageBuffers ≤ b ∧
        b + 12 + size ≤ q.messageBuffers + messageBufferingRequired count size) ∧
      q.inactiveMessages.Pairwise fun b b' => b + 12 + size ≤ b' := by
  obtain ⟨a, ha, rfl⟩ := map_eq_some_iff.mp hi
  have hr := hf.required_eq
  have hw := W.below _ a ha
  rw [hr] at hw
  simp only [Partition.addresses_eq_map hw]
  refine ⟨by simp, fun b hb => ?_, ?_⟩
  · obtain ⟨k, hk, rfl⟩ := List.mem_map.mp hb
    have hk := List.mem_range.mp hk
    have hn := hf.nodeSize_eq (by omega)
    have hk' : (k + 1) * nodeSize size ≤ count * nodeSize size := Nat.mul_le_mul_right _ hk
    rw [Nat.succ_mul] at hk'
    omega
  · refine List.pairwise_map.mpr (List.pairwise_lt_range.imp_of_mem fun {j k} _ hk hjk => ?_)
    have hn := hf.nodeSize_eq (by have := List.mem_range.mp hk; omega)
    have hk' : (j + 1) * nodeSize size ≤ k * nodeSize size := Nat.mul_le_mul_right _ hjk
    rw [Nat.succ_mul] at hk'
    omega

theorem mem_addresses_of_pairwise {a n c} (hn : n < 2 ^ 32)
    (hp : (Partition.addresses n (c + 1) a).Pairwise (· < ·)) : a + c * n ∈ Partition.addresses n (c + 1) a := by
  induction c generalizing a with
  | zero => simp [Partition.addresses]
  | succ c ih =>
    obtain ⟨hlt, hp⟩ := List.pairwise_cons.mp hp
    have he : addWord a n = a + n := by
      have := hlt _ List.mem_cons_self
      unfold addWord at *
      omega
    refine List.mem_cons_of_mem _ ?_
    rw [show a + (c + 1) * n = addWord a n + c * n by rw [he, Nat.succ_mul]; omega]
    exact ih hp

/-- Buffers that have room and increase are not laid out around the end of memory. -/
theorem coreInitialize_fits (hi : coreInitialize W memory disc count size = some q)
    (hb : ∀ b ∈ q.inactiveMessages, b + 12 + size ≤ q.messageBuffers + messageBufferingRequired count size)
    (hp : q.inactiveMessages.Pairwise fun b b' => b + 12 + size ≤ b') : Fits count size := by
  obtain ⟨a, ha, rfl⟩ := map_eq_some_iff.mp hi
  have hn : nodeSize size < 2 ^ 32 := Nat.mod_lt _ (by omega)
  cases count with
  | zero => simp [Fits]
  | succ c =>
    have hl := hb _ (mem_addresses_of_pairwise hn (hp.imp fun h => by omega))
    simp only [messageBufferingRequired, Nat.succ_mul] at hl
    have he : nodeSize size = (size + 3) / 4 * 4 + 16 := by
      have hle : 12 + size ≤ nodeSize size := by omega
      revert hle
      unfold nodeSize allocatedMessageSize addWord
      split <;> omega
    rw [Fits, ← he, Nat.succ_mul]
    omega

theorem create_eq_ok (h : create W memory cfg r = .ok q) :
    coreInitialize W memory r.discipline r.count r.maxMessageSize = some q := by
  simp only [create] at h
  iterate 7 split at h <;> [cases h; skip]
  split at h
  · obtain rfl := Except.ok.inj h
    assumption
  · cases h

/-- There is room for all buffers just if the size needed does not wrap. -/
theorem message_buffers_fit (h : create W memory cfg r = .ok q) :
    W.allocate (messageBufferingRequired r.count r.maxMessageSize) = some q.messageBuffers ∧
      (q.inactiveMessages.length = r.count ∧
        (∀ b ∈ q.inactiveMessages, q.messageBuffers ≤ b ∧ b + 12 + r.maxMessageSize ≤
          q.messageBuffers + messageBufferingRequired r.count r.maxMessageSize) ∧
        q.inactiveMessages.Pairwise (fun b b' => b + 12 + r.maxMessageSize ≤ b') ↔
      Fits r.count r.maxMessageSize) := by
  have hi := create_eq_ok h
  refine ⟨?_, fun hf => coreInitialize_fits hi (fun b hb => (hf.2.1 b hb).2) hf.2.2, coreInitialize_apart hi⟩
  obtain ⟨a, ha, rfl⟩ := map_eq_some_iff.mp hi
  exact ha

end

def smallWorkspace : Workspace where
  allocate n := if n ≤ 4096 then some 8192 else none
  below := by
    intro n a h
    obtain ⟨hn, rfl⟩ := ite_some_none_eq_some.mp h
    omega

def someConfiguration : Configuration := ⟨false, 64, true, true⟩

def tenMessages : Request := ⟨true, 10, 6, false, .fifo⟩

theorem message_buffers_fit_tenMessages :
    ∃ q : Control Unit Nat, create smallWorkspace (fun _ => ⟨0, id⟩) someConfiguration tenMessages = .ok q ∧
      q.inactiveMessages.length = 10 := by
  have hf : Fits tenMessages.count tenMessages.maxMessageSize := by
    unfold Fits
    decide
  obtain ⟨q, hq⟩ : ∃ q : Control Unit Nat,
      create smallWorkspace (fun _ => ⟨0, id⟩) someConfiguration tenMessages = .ok q := ⟨_, rfl⟩
  exact ⟨q, hq, ((message_buffers_fit hq).2.mpr hf).1⟩

/-- For one message of 4294967295 bytes 16 are asked for. -/
theorem message_buffers_wrap :
    messageBufferingRequired 1 0xffffffff = 16 ∧
      ((create smallWorkspace (fun _ => ⟨0, id⟩) someConfiguration ⟨true, 1, 0xffffffff, false, .fifo⟩ :
        Except CreateError (Control Unit Nat)).toOption.map fun q => (q.maximumMessageSize, q.inactiveMessages)) =
        some (0xffffffff, [8192]) := by
  decide +kernel

/-! ## Sizes -/

section

variable {s s' : System T B} {source : Nat → B} {size : Nat} {urgent : Bool}

theorem length_copied : (copied source size).length = size := by
  simp [copied]

theorem copied_copyBuffer (destination : Nat → B) :
    copied (copyBuffer source destination size) size = copied source size := by
  refine List.map_congr_left fun i hi => ?_
  exact if_pos (List.mem_range.mp hi)

inductive System.Stepped (s : System T B) : Move T B → System T B → Prop
  | refused {source : Nat → B} {size : Nat} {urgent : Bool} : Stepped s (.submit source size urgent) s
  | handed {source : Nat → B} {size : Nat} {urgent : Bool} {t : T} {ts : List T}
      (hs : size ≤ s.queue.maximumMessageSize) (hw : s.queue.waitQueue = t :: ts) :
      Stepped s (.submit source size urgent)
        { s with
          queue := { s.queue with waitQueue := ts }
          accepted := s.accepted ++ [⟨copied source size, urgent⟩]
          received := s.received ++ [(some s.accepted.length, ⟨t, size, copied source size⟩)] }
  | stored {source : Nat → B} {size b : Nat} {urgent : Bool} {bs : List Nat}
      (hs : size ≤ s.queue.maximumMessageSize) (hw : s.queue.waitQueue = [])
      (hn : s.queue.numberOfPendingMessages ≠ s.queue.maximumPendingMessages)
      (hb : s.queue.inactiveMessages = b :: bs) :
      Stepped s (.submit source size urgent)
        { s with
          queue := { s.queue with
            inactiveMessages := bs
            contents := update s.queue.contents b
              ⟨size, copyBuffer source (s.queue.contents b).buffer size⟩
            numberOfPendingMessages := addWord s.queue.numberOfPendingMessages 1
            pendingMessages :=
              if urgent then b :: s.queue.pendingMessages else s.queue.pendingMessages ++ [b] }
          tag := update s.tag b s.accepted.length
          accepted := s.accepted ++ [⟨copied source size, urgent⟩] }
  | broadcast {source : Nat → B} {size : Nat} :
      Stepped s (.broadcast source size)
        { s with
          queue := { s.queue with waitQueue := [] }
          received := s.received ++ (s.queue.broadcast source size).2.1.map fun d => (none, d) }
  | got {priority : T → Nat} {t : T} {wait : Bool} {n b : Nat} {bs : List Nat}
      (hn : s.queue.numberOfPendingMessages = n + 1) (hb : s.queue.pendingMessages = b :: bs) :
      Stepped s (.receive priority t wait)
        { s with
          queue := { s.queue with
            numberOfPendingMessages := n
            pendingMessages := bs
            inactiveMessages := s.queue.inactiveMessages ++ [b] }
          received := s.received ++ [(some (s.tag b), ⟨t, (s.queue.contents b).size,
            copied (s.queue.contents b).buffer (s.queue.contents b).size⟩)] }
  | waits {priority : T → Nat} {t : T} {wait : Bool} {ts : List T}
      (h : s.queue.numberOfPendingMessages = 0 ∨ s.queue.pendingMessages = []) :
      Stepped s (.receive priority t wait) { s with queue := { s.queue with waitQueue := ts } }
  | fails {priority : T → Nat} {t : T} {wait : Bool}
      (h : s.queue.numberOfPendingMessages = 0 ∨ s.queue.pendingMessages = []) :
      Stepped s (.receive priority t wait) s
  | timeout {t : T} {ts : List T} (ht : s.queue.waitQueue ≠ []) :
      Stepped s (.timeout t) { s with queue := { s.queue with waitQueue := ts } }
  | flush : Stepped s .flush (s.discard s.queue.flushSupport.1)
  | nothing (hn : s.queue.numberOfPendingMessages = 0) : Stepped s .flush (s.discard s.queue)
  | close : Stepped s .close { s.discard s.queue.flushSupport.1 with isOpen := false }
  | wake (hn : s.queue.numberOfPendingMessages = 0) :
      Stepped s .close { s.discard { s.queue with waitQueue := [] } with isOpen := false }

theorem System.stepped_submit (s : System T B) (source : Nat → B) (size : Nat) (urgent : Bool) :
    s.Stepped (.submit source size urgent) (s.submit source size urgent) := by
  by_cases hs : size > s.queue.maximumMessageSize
  · simp only [submit, Control.submit, if_pos hs]
    exact .refused
  have hs' := Nat.le_of_not_lt hs
  cases hw : s.queue.waitQueue with
  | cons t ts =>
    simp only [submit, Control.submit, if_neg hs, hw]
    exact .handed hs' hw
  | nil =>
    by_cases hn : s.queue.numberOfPendingMessages = s.queue.maximumPendingMessages
    · simp only [submit, Control.submit, if_neg hs, hw, if_pos hn]
      exact .refused
    cases hb : s.queue.inactiveMessages with
    | nil =>
      simp only [submit, Control.submit, if_neg hs, hw, if_neg hn, hb]
      exact .refused
    | cons b bs =>
      have h : s.Stepped (.submit source size urgent) _ := .stored hs' hw hn hb
      simp only [submit, Control.submit, if_neg hs, hw, if_neg hn, hb, List.headD_cons]
      simpa only [hw] using h

theorem System.stepped_receive (s : System T B) (priority : T → Nat) (t : T) (wait : Bool) :
    s.Stepped (.receive priority t wait) (s.receive priority t wait) := by
  have hno (h : s.queue.numberOfPendingMessages = 0 ∨ s.queue.pendingMessages = [])
      (he : s.queue.seize priority t wait =
        if wait then (s.queue.enqueue priority t, .successful, none) else (s.queue, .unsatisfiedNowait, none)) :
      s.Stepped (.receive priority t wait) (s.receive priority t wait) := by
    unfold receive
    rw [he]
    cases wait with
    | true => exact .waits h
    | false => exact .fails h
  cases hn : s.queue.numberOfPendingMessages with
  | zero => exact hno (Or.inl hn) (by simp only [Control.seize, hn])
  | succ n =>
    cases hb : s.queue.pendingMessages with
    | nil => exact hno (Or.inr hb) (by simp only [Control.seize, hn, hb])
    | cons b bs =>
      simp only [receive, Control.seize, hn, hb, List.head?_cons, map_some]
      exact .got hn hb

theorem System.stepped [DecidableEq T] {m} (he : s.step m = some s') : s.Stepped m s' := by
  unfold System.step at he
  split at he
  case isFalse => cases he
  cases m with
  | submit source size urgent =>
    cases he
    exact s.stepped_submit source size urgent
  | broadcast source size =>
    cases he
    exact .broadcast
  | receive priority t wait =>
    dsimp only at he
    split at he
    · cases he
    · cases he
      exact s.stepped_receive priority t wait
  | timeout t =>
    dsimp only at he
    split at he
    · rename_i ht
      cases he
      exact .timeout (List.ne_nil_of_mem ht)
    · cases he
  | flush =>
    cases he
    unfold Control.flush
    split
    · exact .flush
    · rename_i hn
      exact .nothing (not_not.mp hn)
  | close =>
    cases he
    unfold Control.close
    split
    · exact .close
    · rename_i hn
      exact .wake (not_not.mp hn)

theorem System.Stepped.maximumMessageSize_eq {m} (hs : s.Stepped m s') :
    s'.queue.maximumMessageSize = s.queue.maximumMessageSize := by
  cases hs <;> rfl

/-! ## Sizes -/

structure System.Reported (s : System T B) : Prop where
  stored : ∀ b ∈ s.queue.pendingMessages, (s.queue.contents b).size ≤ s.queue.maximumMessageSize
  received : ∀ x ∈ s.received, x.2.size = x.2.bytes.length ∧ x.2.size ≤ s.queue.maximumMessageSize

/-- No message is broadcast to a thread that is too long. -/
def System.Fits (s : System T B) : Move T B → Prop
  | .broadcast _ size => s.queue.waitQueue = [] ∨ size ≤ s.queue.maximumMessageSize
  | _ => True

instance (s : System T B) (m : Move T B) : Decidable (s.Fits m) := by
  cases m <;> unfold System.Fits <;> infer_instance

theorem System.Reported.deliver (h : s.Reported) {l}
    (hl : ∀ x ∈ l, x.2.size = x.2.bytes.length ∧ x.2.size ≤ s.queue.maximumMessageSize) :
    ∀ x ∈ s.received ++ l, x.2.size = x.2.bytes.length ∧ x.2.size ≤ s.queue.maximumMessageSize := by
  intro x hx
  rcases List.mem_append.mp hx with hx | hx
  · exact h.received x hx
  · exact hl x hx

theorem System.Reported.stepped {m} (h : s.Reported) (hm : s.Fits m) (hs : s.Stepped m s') :
    s'.Reported := by
  cases hs with
  | refused | fails => exact h
  | handed hs hw => exact ⟨h.stored, h.deliver (by simp [length_copied, hs])⟩
  | stored hs hw hn hb =>
    rename_i source size b urgent bs
    refine ⟨fun b' hb' => ?_, h.received⟩
    by_cases he : b' = b
    · subst he
      simpa using hs
    · simp only [update_of_ne he]
      refine h.stored b' ?_
      cases urgent <;> simpa [he] using hb'
  | broadcast =>
    refine ⟨h.stored, h.deliver fun x hx => ?_⟩
    obtain ⟨d, hd, rfl⟩ := List.mem_map.mp hx
    obtain ⟨t, ht, rfl⟩ := List.mem_map.mp hd
    have hm := hm.resolve_left (List.ne_nil_of_mem ht)
    exact ⟨by rw [if_neg (Nat.not_lt.mpr hm), length_copied], hm⟩
  | got hn hb =>
    have hb' := h.stored _ (hb ▸ List.mem_cons_self)
    exact ⟨fun b' hb' => h.stored b' (hb ▸ List.mem_cons_of_mem _ hb'), h.deliver (by simp [length_copied, hb'])⟩
  | waits | timeout | nothing | wake => exact ⟨h.stored, h.received⟩
  | flush | close =>
    refine ⟨fun b hb => ?_, h.received⟩
    cases hb

end

theorem System.too_long [DecidableEq T] {s s' : System T B} {m} (hm : ¬ s.Fits m) (he : s.step m = some s') :
    ∃ x ∈ s'.received, x.2.bytes.length < x.2.size ∧ s.queue.maximumMessageSize < x.2.size := by
  cases stepped he with
  | broadcast =>
    obtain ⟨hw, hs⟩ := not_or.mp hm
    obtain ⟨t, ht⟩ := List.exists_mem_of_ne_nil _ hw
    have hs := Nat.lt_of_not_le hs
    refine ⟨_, List.mem_append_right _ (List.mem_map_of_mem (List.mem_map_of_mem ht)), ?_, hs⟩
    rw [if_pos hs, length_copied]
    exact hs
  | _ => exact absurd trivial hm

/-- The size reported is that received, but not when a message too long for a waiter is broadcast. -/
theorem reported_size_eq_copied [DecidableEq T] {q : Control T B} {s : System T B} (hq : q.pendingMessages = [])
    (h : Steps System.step System.Fits (.start q) s) :
    (∀ x ∈ s.received, x.2.size = x.2.bytes.length ∧ x.2.size ≤ q.maximumMessageSize) ∧
      ∀ m s', ¬ s.Fits m → s.step m = some s' →
        ∃ x ∈ s'.received, x.2.bytes.length < x.2.size ∧ q.maximumMessageSize < x.2.size := by
  obtain ⟨hR, hmax⟩ : s.Reported ∧ s.queue.maximumMessageSize = q.maximumMessageSize := by
    refine h.invariant (I := fun s => s.Reported ∧ s.queue.maximumMessageSize = q.maximumMessageSize) ?_
      ⟨⟨?_, ?_⟩, rfl⟩
    · rintro s m s' ⟨hR, hmax⟩ hm he
      have hs := System.stepped he
      exact ⟨hR.stepped hm hs, hs.maximumMessageSize_eq.trans hmax⟩
    · simp [System.start, hq]
    · simp [System.start]
  exact hmax ▸ ⟨hR.received, fun m s' => System.too_long⟩

def smallQueue : Control Bool Nat := ⟨.fifo, 2, 0, 4, 8192, [], [8192, 8212], fun _ => ⟨0, id⟩, []⟩

def sentAndBroadcast (size : Nat) : List (Move Bool Nat) :=
  [.submit (· + 5) 3 true, .receive (fun _ => 0) true false, .receive (fun _ => 0) false true,
    .broadcast (· + 7) size]

theorem reported_size_eq_copied_broadcast :
    ∃ s, run (checked System.step System.Fits) (sentAndBroadcast 4) (.start smallQueue) = some s ∧
      s.received = [(some 0, ⟨true, 3, [5, 6, 7]⟩), (none, ⟨false, 4, [7, 8, 9, 10]⟩)] ∧
      ∀ x ∈ s.received, x.2.size = x.2.bytes.length ∧ x.2.size ≤ 4 := by
  refine exists_of_map System.received [(some 0, ⟨true, 3, [5, 6, 7]⟩), (none, ⟨false, 4, [7, 8, 9, 10]⟩)]
    (by decide +kernel) fun s hs he => ?_
  exact ⟨he, (reported_size_eq_copied (q := smallQueue) rfl (.run_checked .refl hs)).1⟩

/-- Of six bytes that are broadcast four are copied. -/
theorem reported_size_too_large :
    (run System.step (sentAndBroadcast 6) (.start smallQueue)).map System.received =
      some [(some 0, ⟨true, 3, [5, 6, 7]⟩), (none, ⟨false, 6, [7, 8, 9, 10]⟩)] := by
  decide +kernel

/-! ## Messages -/

section

variable {s s' : System T B} {l : List Nat} {A : List (Message B)} {n : Nat} {u : Bool}

/-- The urgent messages, the last one first, and then the others. -/
def Ordered (A : List (Message B)) (l : List Nat) : Prop :=
  ∃ us ns, l = us ++ ns ∧ us.Pairwise (· > ·) ∧ ns.Pairwise (· < ·) ∧
    (∀ n ∈ us, A[n]?.map Message.urgent = some true) ∧ ∀ n ∈ ns, A[n]?.map Message.urgent = some false

theorem getElem?_concat {x} (h : A[n]? = some x) (y : Message B) : (A ++ [y])[n]? = some x := by
  rw [List.getElem?_append_left (List.getElem?_eq_some_iff.mp h).1, h]

theorem urgent_concat (h : A[n]?.map Message.urgent = some u) (y : Message B) :
    n < A.length ∧ (A ++ [y])[n]?.map Message.urgent = some u := by
  obtain ⟨x, hx, hu⟩ := map_eq_some_iff.mp h
  exact ⟨(List.getElem?_eq_some_iff.mp hx).1, by rw [getElem?_concat hx, map_some, hu]⟩

theorem Ordered.add (h : Ordered A l) (y : Message B) :
    Ordered (A ++ [y]) l ∧
      Ordered (A ++ [y]) (if y.urgent then A.length :: l else l ++ [A.length]) := by
  obtain ⟨us, ns, rfl, hu, hn, hu', hn'⟩ := h
  have hu1 := fun n h => (urgent_concat (hu' n h) y).2
  have hn1 := fun n h => (urgent_concat (hn' n h) y).2
  have hy : (A ++ [y])[A.length]?.map Message.urgent = some y.urgent := by simp
  refine ⟨⟨us, ns, rfl, hu, hn, hu1, hn1⟩, ?_⟩
  cases hb : y.urgent with
  | true =>
    refine ⟨A.length :: us, ns, rfl, .cons (fun n h => (urgent_concat (hu' n h) y).1) hu, hn, ?_, hn1⟩
    intro n h
    rcases List.mem_cons.mp h with rfl | h
    · rw [hy, hb]
    · exact hu1 n h
  | false =>
    refine ⟨us, ns ++ [A.length], by simp, hu, ?_, hu1, ?_⟩
    · refine List.pairwise_append.mpr ⟨hn, List.pairwise_singleton .., fun n h m hm => ?_⟩
      rw [List.mem_singleton.mp hm]
      exact (urgent_concat (hn' n h) y).1
    · intro n h
      rcases List.mem_append.mp h with h | h
      · exact hn1 n h
      · rw [List.mem_singleton.mp h, hy, hb]

theorem Ordered.tail (h : Ordered A (n :: l)) : Ordered A l := by
  obtain ⟨us, ns, he, hu, hn, hu', hn'⟩ := h
  cases us with
  | nil =>
    obtain rfl : n :: l = ns := he
    exact ⟨[], l, rfl, .nil, hn.of_cons, hu', fun m hm => hn' m (List.mem_cons_of_mem n hm)⟩
  | cons m us =>
    cases he
    exact ⟨us, ns, rfl, hu.of_cons, hn, fun m hm => hu' m (List.mem_cons_of_mem n hm), hn'⟩

namespace System

def places (s : System T B) (n : Nat) : Nat :=
  (s.queue.pendingMessages.map s.tag).count n + (s.received.filterMap Prod.fst).count n + s.discarded.count n

structure Sound (s : System T B) : Prop where
  number : s.queue.numberOfPendingMessages = s.queue.pendingMessages.length
  total : s.queue.pendingMessages.length + s.queue.inactiveMessages.length = s.queue.maximumPendingMessages
  bound : s.queue.maximumPendingMessages < 2 ^ 32
  nodup : (s.queue.pendingMessages ++ s.queue.inactiveMessages).Nodup
  idle : s.queue.pendingMessages ≠ [] → s.queue.waitQueue = []
  once : ∀ n, s.places n = if n < s.accepted.length then 1 else 0
  stored : ∀ b ∈ s.queue.pendingMessages, ∃ u, s.accepted[s.tag b]? =
    some ⟨copied (s.queue.contents b).buffer (s.queue.contents b).size, u⟩
  whole : ∀ n d, (some n, d) ∈ s.received → d.size = d.bytes.length ∧ ∃ u, s.accepted[n]? = some ⟨d.bytes, u⟩
  ordered : Ordered s.accepted (s.queue.pendingMessages.map s.tag)

variable (h : s.Sound)

include h

theorem Sound.pending_eq_nil (hp : s.queue.numberOfPendingMessages = 0 ∨ s.queue.pendingMessages = []) :
    s.queue.pendingMessages = [] := by
  rcases hp with hp | hp
  · exact List.length_eq_zero_iff.mp (h.number ▸ hp)
  · exact hp

theorem Sound.rewait {ts} (hp : s.queue.pendingMessages = [] ∨ ts = []) :
    Sound { s with queue := { s.queue with waitQueue := ts } } := by
  refine ⟨h.number, h.total, h.bound, h.nodup, fun hne => ?_, h.once, h.stored, h.whole, h.ordered⟩
  rcases hp with hp | hp
  · exact absurd hp hne
  · exact hp

theorem Sound.shut : Sound { s with isOpen := false } :=
  ⟨h.number, h.total, h.bound, h.nodup, h.idle, h.once, h.stored, h.whole, h.ordered⟩

theorem Sound.flush : (s.discard s.queue.flushSupport.1).Sound := by
  refine ⟨rfl, ?_, h.bound, h.nodup, fun hne => absurd rfl hne, fun n => ?_, ?_, h.whole, ?_⟩
  · have ht := h.total
    simp only [discard, Control.flushSupport, List.length_append, List.length_nil]
    omega
  · refine Eq.trans ?_ (h.once n)
    simp only [places, discard, Control.flushSupport, List.count_append, List.map_nil, List.count_nil]
    omega
  · simp [discard, Control.flushSupport]
  · exact ⟨[], [], rfl, .nil, .nil, by simp, by simp⟩

theorem Sound.stored_concat (y : Message B) {b} (hb : b ∈ s.queue.pendingMessages) :
    ∃ u, (s.accepted ++ [y])[s.tag b]? = some ⟨copied (s.queue.contents b).buffer (s.queue.contents b).size, u⟩ :=
  (h.stored b hb).imp fun _ hu => getElem?_concat hu y

theorem Sound.whole_concat (y : Message B) {d} (hd : (some n, d) ∈ s.received) :
    d.size = d.bytes.length ∧ ∃ u, (s.accepted ++ [y])[n]? = some ⟨d.bytes, u⟩ :=
  (h.whole n d hd).imp_right (Exists.imp fun _ hu => getElem?_concat hu y)

omit h in
theorem count_received (R : List (Option Nat × Delivery T B)) (k : Nat) (d : Delivery T B) :
    ((R ++ [(some k, d)]).filterMap Prod.fst).count n =
      (R.filterMap Prod.fst).count n + if k = n then 1 else 0 := by
  simp [List.filterMap_append, List.count_append, List.count_singleton]

theorem Sound.handed {source size t ts} (hw : s.queue.waitQueue = t :: ts) :
    Sound { s with
      queue := { s.queue with waitQueue := ts }
      accepted := s.accepted ++ [⟨copied source size, u⟩]
      received := s.received ++ [(some s.accepted.length, ⟨t, size, copied source size⟩)] } := by
  refine ⟨h.number, h.total, h.bound, h.nodup, fun hp => ?_, fun n => ?_, fun b hb => h.stored_concat _ hb,
    fun n d hd => ?_, (h.ordered.add _).1⟩
  · rw [h.idle hp] at hw
    cases hw
  · have hn := h.once n
    simp only [places, count_received, List.length_append, List.length_singleton] at hn ⊢
    split_ifs at hn ⊢ <;> omega
  · rcases List.mem_append.mp hd with hd | hd
    · exact h.whole_concat _ hd
    · obtain ⟨hn, rfl⟩ := Prod.mk.inj (List.mem_singleton.mp hd)
      cases hn
      exact ⟨length_copied.symm, u, by simp⟩

theorem Sound.store {source size b bs} (hw : s.queue.waitQueue = [])
    (hb : s.queue.inactiveMessages = b :: bs) :
    Sound { s with
      queue := { s.queue with
        inactiveMessages := bs
        contents := update s.queue.contents b
          ⟨size, copyBuffer source (s.queue.contents b).buffer size⟩
        numberOfPendingMessages := addWord s.queue.numberOfPendingMessages 1
        pendingMessages := if u then b :: s.queue.pendingMessages else s.queue.pendingMessages ++ [b] }
      tag := update s.tag b s.accepted.length
      accepted := s.accepted ++ [⟨copied source size, u⟩] } := by
  have hnd := h.nodup
  have ht := h.total
  have hbd := h.bound
  rw [hb] at hnd ht
  rw [List.length_cons] at ht
  have hbp : b ∉ s.queue.pendingMessages := fun hp => (List.nodup_append.mp hnd).2.2 b hp b List.mem_cons_self rfl
  have hmem : ∀ b', b' ∈ (if u then b :: s.queue.pendingMessages else s.queue.pendingMessages ++ [b]) →
      b' = b ∨ b' ∈ s.queue.pendingMessages := by
    cases u <;> simp [or_comm]
  have htag : s.queue.pendingMessages.map (update s.tag b s.accepted.length) =
      s.queue.pendingMessages.map s.tag :=
    List.map_congr_left fun b' hb' => update_of_ne (ne_of_mem_of_not_mem hb' hbp) ..
  have hmap : (if u then b :: s.queue.pendingMessages else s.queue.pendingMessages ++ [b]).map
      (update s.tag b s.accepted.length) =
      if u then s.accepted.length :: s.queue.pendingMessages.map s.tag
      else s.queue.pendingMessages.map s.tag ++ [s.accepted.length] := by
    cases u <;> simp [htag]
  refine ⟨?_, ?_, hbd, ?_, fun _ => hw, fun n => ?_, fun b' hb' => ?_, fun n d hd => h.whole_concat _ hd, ?_⟩
  · have hn := h.number
    rw [addWord_eq (by omega), hn]
    cases u <;> simp
  · cases u <;> simp <;> omega
  · refine (List.Perm.nodup_iff ?_).mpr hnd
    cases u with
    | true => exact List.perm_middle.symm
    | false => simp
  · have hn := h.once n
    simp only [places, hmap, List.length_append, List.length_singleton] at hn ⊢
    have hc : (if u then s.accepted.length :: s.queue.pendingMessages.map s.tag
        else s.queue.pendingMessages.map s.tag ++ [s.accepted.length]).count n =
        (s.queue.pendingMessages.map s.tag).count n + if s.accepted.length = n then 1 else 0 := by
      cases u <;> simp [List.count_append, List.count_cons]
    rw [hc]
    split_ifs at hn ⊢ <;> omega
  · rcases hmem b' hb' with rfl | hp
    · refine ⟨u, ?_⟩
      simp only [update_self, copied_copyBuffer]
      simp
    · have hne : b' ≠ b := ne_of_mem_of_not_mem hp hbp
      simp only [update_of_ne hne]
      exact h.stored_concat _ hp
  · have := (h.ordered.add ⟨copied source size, u⟩).2
    simpa only [hmap] using this

theorem Sound.got {k b bs t} (hn : s.queue.numberOfPendingMessages = k + 1)
    (hb : s.queue.pendingMessages = b :: bs) :
    Sound { s with
      queue := { s.queue with
        numberOfPendingMessages := k
        pendingMessages := bs
        inactiveMessages := s.queue.inactiveMessages ++ [b] }
      received := s.received ++ [(some (s.tag b), ⟨t, (s.queue.contents b).size,
        copied (s.queue.contents b).buffer (s.queue.contents b).size⟩)] } := by
  have hnum := h.number
  have ht := h.total
  have hnd := h.nodup
  have ho := h.ordered
  rw [hb] at hnum ht hnd ho
  rw [List.length_cons] at hnum ht
  refine ⟨?_, ?_, h.bound, ?_, fun _ => h.idle (by simp [hb]), fun n => ?_, fun b' hb' => ?_, fun n d hd => ?_,
    ho.tail⟩
  · exact Nat.succ.inj (hn.symm.trans hnum)
  · simp only [List.length_append, List.length_singleton]
    omega
  · refine (List.Perm.nodup_iff ?_).mp hnd
    rw [← List.append_assoc]
    exact (List.perm_append_singleton b _).symm
  · have hn := h.once n
    simp only [places, count_received, hb, List.map_cons, List.count_cons, beq_iff_eq] at hn ⊢
    omega
  · exact h.stored b' (hb ▸ List.mem_cons_of_mem b hb')
  · rcases List.mem_append.mp hd with hd | hd
    · exact h.whole n d hd
    · obtain ⟨hn, rfl⟩ := Prod.mk.inj (List.mem_singleton.mp hd)
      cases hn
      exact ⟨length_copied.symm, h.stored b (hb ▸ List.mem_cons_self)⟩

theorem Sound.stepped {m} (hs : s.Stepped m s') : s'.Sound := by
  cases hs with
  | refused | fails => exact h
  | handed hs hw => exact h.handed hw
  | stored hs hw hn hb => exact h.store hw hb
  | broadcast =>
    have hr : Sound { s with queue := { s.queue with waitQueue := [] } } := h.rewait (Or.inr rfl)
    refine ⟨hr.number, hr.total, hr.bound, hr.nodup, hr.idle, fun n => ?_, hr.stored, fun n d hd => ?_, hr.ordered⟩
    · rw [← hr.once n]
      simp [places, List.filterMap_append, List.filterMap_map]
    · rcases List.mem_append.mp hd with hd | hd
      · exact h.whole n d hd
      · obtain ⟨d', -, he⟩ := List.mem_map.mp hd
        cases he
  | got hn hb => exact h.got hn hb
  | waits hp => exact h.rewait (Or.inl (h.pending_eq_nil hp))
  | timeout ht => exact h.rewait (Or.inl (not_not.mp fun hp => ht (h.idle hp)))
  | flush => exact h.flush
  | close => exact h.flush.shut
  | nothing hn =>
    have hp := h.pending_eq_nil (Or.inl hn)
    simpa [discard, hp] using h
  | wake hn =>
    have hp := h.pending_eq_nil (Or.inl hn)
    have hr : Sound { s with queue := { s.queue with waitQueue := [] } } := h.rewait (Or.inr rfl)
    simpa [discard, hp] using hr.shut

end System

end

/-- A message is in one place, and pending ones are received in order. -/
theorem messages_in_one_place [DecidableEq T] {W : Workspace} {memory : Nat → Buffer B}
    {disc : ThreadQueue.Discipline} {count size : Nat} {q : Control T B} {s : System T B}
    (hi : coreInitialize W memory disc count size = some q) (hf : Fits count size)
    (h : Steps System.step (fun _ _ => True) (.start q) s) :
    s.queue.numberOfPendingMessages = s.queue.pendingMessages.length ∧
      s.queue.pendingMessages.length + s.queue.inactiveMessages.length = s.queue.maximumPendingMessages ∧
      (s.queue.pendingMessages ≠ [] → s.queue.waitQueue = []) ∧
      (∀ n, s.places n = if n < s.accepted.length then 1 else 0) ∧
      (∀ n d, (some n, d) ∈ s.received → d.size = d.bytes.length ∧ ∃ u, s.accepted[n]? = some ⟨d.bytes, u⟩) ∧
      Ordered s.accepted (s.queue.pendingMessages.map s.tag) ∧
      ∀ priority t wait b bs s', s.queue.pendingMessages = b :: bs →
        s.step (.receive priority t wait) = some s' →
        ∃ d, s'.received = s.received ++ [(some (s.tag b), d)] := by
  have hS : s.Sound := by
    refine h.invariant (fun hS _ he => hS.stepped (System.stepped he)) ?_
    obtain ⟨hl, -, hp⟩ := coreInitialize_apart hi hf
    obtain ⟨a, -, rfl⟩ := map_eq_some_iff.mp hi
    have hnd := hp.imp fun {b b'} (hbb : b + 12 + size ≤ b') => (by omega : b ≠ b')
    refine ⟨rfl, ?_, ?_, hnd, fun hne => absurd rfl hne, fun n => rfl, ?_, ?_, [], [], rfl, .nil, .nil, ?_, ?_⟩
    · exact (Nat.zero_add _).trans hl
    · exact lt_of_le_of_lt (Nat.le_mul_of_pos_right _ (by omega)) hf
    all_goals simp [System.start]
  refine ⟨hS.number, hS.total, hS.idle, hS.once, hS.whole, hS.ordered, fun priority t wait b bs s' hb he => ?_⟩
  generalize hm : Move.receive priority t wait = m at he
  cases System.stepped he with
  | got hn hb' =>
    obtain ⟨rfl, rfl⟩ := List.cons.inj (hb.symm.trans hb')
    exact ⟨_, rfl⟩
  | waits hp | fails hp =>
    rw [hS.pending_eq_nil hp] at hb
    cases hb
  | refused | handed | stored | broadcast | timeout | flush | nothing | close | wake => cases hm

theorem messages_in_one_place_urgent :
    ∃ q s, coreInitialize smallWorkspace (fun _ => ⟨0, id⟩) .fifo 2 4 = some q ∧
      run System.step [.submit (· + 5) 3 false, .submit (· + 7) 2 true, .receive (fun _ => 0) true false]
        (.start q : System Bool Nat) = some s ∧
      s.received = [(some 1, ⟨true, 2, [7, 8]⟩)] ∧ s.places 0 = 1 := by
  obtain ⟨q, hq⟩ : ∃ q : Control Bool Nat,
      coreInitialize smallWorkspace (fun _ => ⟨0, id⟩) .fifo 2 4 = some q := ⟨_, rfl⟩
  have h : (run System.step [.submit (· + 5) 3 false, .submit (· + 7) 2 true, .receive (fun _ => 0) true false]
      (.start q : System Bool Nat)).map (fun s => (s.received, s.accepted.length)) =
        some ([(some 1, ⟨true, 2, [7, 8]⟩)], 2) := by
    cases hq
    decide +kernel
  obtain ⟨s, hs, he⟩ := map_eq_some_iff.mp h
  simp only [Prod.mk.injEq] at he
  have hf : Fits 2 4 := by
    unfold Fits
    decide
  have hp := (messages_in_one_place hq hf (.of_run (fun _ _ => trivial) hs)).2.2.2.1 0
  exact ⟨q, s, hq, hs, he.1, hp.trans (by rw [he.2]; rfl)⟩

end Rtems.CoreMsg
