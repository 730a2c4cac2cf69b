import Rtems.Mpci.Send

/-! # The callouts of the MPCI layer -/

namespace Rtems.Mpci

open Thread ThreadQueue Transition

section

variable {Q T : Type*} [DecidableEq Q] [DecidableEq T]

def Packet.afterCallout (N : Node Q T) (p : Packet) : Packet :=
  if p.timeout = mpciDefaultTimeout then { p with timeout := N.defaultTimeout } else p

/-- The callout leaves other contents in the packet. -/
def sendRequestPacket (N : Node Q T) (callout : Packet → Packet) (K : Kernel Q T) (p : Packet)
    (extraState : States) (fuel : Nat) : Packet × Option (Kernel Q T) :=
  let executing := K.sched.executing
  let p := (callout (p.request N K.sched)).afterCallout N
  (p, (K.block N.remote p.timeout fuel).map fun K =>
    merge K executing extraState (K.sched.control executing).currentState)

/-- The caller blocks with the time-out that the callout leaves. -/
theorem sendRequestPacket_interval (N : Node Q T) (callout : Packet → Packet) (s : System Q T) (p : Packet)
    (extraState : States) (fuel : Nat) (hN : N.defaultTimeout ≠ mpciDefaultTimeout) :
    ((sendRequestPacket N callout s.kernel p extraState fuel).1 = callout (p.request N s.kernel.sched) ∧
        (sendRequestPacket N callout s.kernel p extraState fuel).1.timeout = p.interval N ↔
      (callout (p.request N s.kernel.sched)).timeout = p.interval N) ∧
    ((callout (p.request N s.kernel.sched)).timeout = p.interval N →
      (sendRequestPacket N callout s.kernel p extraState fuel).2 =
        (s.sendRequestPacket N p extraState fuel).map System.kernel) := by
  have ha (hc : (callout (p.request N s.kernel.sched)).timeout = p.interval N) :
      (callout (p.request N s.kernel.sched)).afterCallout N = callout (p.request N s.kernel.sched) := by
    refine if_neg ?_
    rw [hc, Packet.interval]
    split <;> assumption
  refine ⟨⟨fun ⟨he, ht⟩ => he ▸ ht, fun hc => ?_⟩, fun hc => ?_⟩
  · exact ⟨ha hc, (congrArg Packet.timeout (ha hc)).trans hc⟩
  · have hi : (p.request N s.kernel.sched).interval N = p.interval N := rfl
    simp only [sendRequestPacket, System.sendRequestPacket, ha hc, hc, hi, Option.map_map]
    rfl

end

theorem sendRequestPacket_interval_response :
    (sendRequestPacket oneNode (·.response 13) oneCaller onePacket States.ready 19).1.timeout = 1 := by
  exact ((sendRequestPacket_interval oneNode (·.response 13) (.start oneCaller) onePacket States.ready 19
    (by decide)).1.mpr rfl).2

/-- The packet is used again, and the caller has no timer. -/
theorem sendRequestPacket_reused :
    ((sendRequestPacket oneNode ({ · with timeout := 0 }) oneCaller onePacket States.ready 19).2.map fun K =>
        (K.isWaiting (), K.timers.state ())) = some (true, .inactive) ∧
      ((sendRequestPacket oneNode id oneCaller onePacket States.ready 19).2.map fun K =>
        (K.isWaiting (), K.timers.state ())) = some (true, .active) ∧
      (sendRequestPacket oneNode id oneCaller { onePacket with timeout := mpciDefaultTimeout }
        States.ready 19).1.timeout = 5 := by
  decide +kernel

/-! ## `receive_packet` -/

/-- Which classes have a function in `_MPCI_Packet_processors`. -/
structure Classes (P : Type*) where
  theClass : P → Nat
  isRegistered : Nat → Bool

def isValidPacketClass (theClass : Nat) : Bool := theClass ≤ 7

inductive ServerPoint
  /-- Before or in `_CORE_semaphore_Seize`. -/
  | waiting
  /-- Before `_MPCI_Receive_packet`. -/
  | receiving
  /-- After `_Internal_error_Occurred`. -/
  | halted
  deriving DecidableEq, Repr

structure Server (P : Type*) where
  queue : List P
  count : Nat
  point : ServerPoint
  receivePacket : Option P
  processed : List P
  arrived : List P
  deriving DecidableEq, Repr

inductive ServerMove (P : Type*)
  | arrive (p : P)
  /-- `_MPCI_Announce`. -/
  | announce
  | go
  deriving DecidableEq, Repr

namespace Server

variable {P : Type*} {C : Classes P} {s s' : Server P} {q : List P}

def initial : Server P := ⟨[], 0, .waiting, none, [], []⟩

/-- `_MPCI_Receive_server` goes on. -/
def go (C : Classes P) (s : Server P) : Option (Server P) :=
  match s.point, s.queue with
  | .waiting, _ => if s.count = 0 then none else some { s with count := s.count - 1, point := .receiving }
  | .receiving, [] => some { s with point := .waiting, receivePacket := none }
  | .receiving, p :: q =>
    let s := { s with queue := q, receivePacket := some p }
    if isValidPacketClass (C.theClass p) then
      if C.isRegistered (C.theClass p) then some { s with processed := s.processed ++ [p] }
      else some { s with point := .halted }
    else some { s with point := .waiting, receivePacket := none }
  | .halted, _ => none

def step (C : Classes P) (s : Server P) : ServerMove P → Option (Server P)
  | .arrive p => some { s with queue := s.queue ++ [p], arrived := s.arrived ++ [p] }
  | .announce => some { s with count := addWord s.count 1 }
  | .go => s.go C

def Proper (C : Classes P) (_ : Server P) : ServerMove P → Prop
  | .arrive p => isValidPacketClass (C.theClass p) = true ∧ C.isRegistered (C.theClass p) = true
  | _ => True

instance (C : Classes P) (s : Server P) (m : ServerMove P) : Decidable (s.Proper C m) := by
  cases m <;> unfold Proper <;> infer_instance

structure Sound (C : Classes P) (s : Server P) : Prop where
  arrived : s.processed ++ s.queue = s.arrived
  proper : ∀ p ∈ s.queue, isValidPacketClass (C.theClass p) = true ∧ C.isRegistered (C.theClass p) = true
  running : s.point ≠ .halted

theorem go_cons {p} (hp : s.point = .receiving) (hq : s.queue = p :: q)
    (hc : isValidPacketClass (C.theClass p) = true ∧ C.isRegistered (C.theClass p) = true) :
    s.go C = some { s with queue := q, receivePacket := some p, processed := s.processed ++ [p] } := by
  simp only [go, hp, hq, hc.1, hc.2, if_true]

theorem Sound.go (h : s.Sound C) (he : s.go C = some s') : s'.Sound C := by
  cases hp : s.point with
  | waiting =>
    simp only [Server.go, hp] at he
    split at he
    · cases he
    · cases he
      exact ⟨h.arrived, h.proper, ServerPoint.noConfusion⟩
  | receiving =>
    cases hq : s.queue with
    | nil =>
      simp only [Server.go, hp, hq] at he
      cases he
      exact ⟨hq ▸ h.arrived, hq ▸ h.proper, ServerPoint.noConfusion⟩
    | cons p q =>
      have hP := h.proper
      have hA := h.arrived
      rw [hq] at hP hA
      rw [go_cons hp hq (hP p List.mem_cons_self)] at he
      cases he
      refine ⟨?_, fun x hx => hP x (List.mem_cons_of_mem p hx), h.running⟩
      rw [← hA]
      exact List.append_assoc ..
  | halted => exact absurd hp h.running

theorem Sound.step {m} (h : s.Sound C) (hm : s.Proper C m) (he : s.step C m = some s') :
    s'.Sound C := by
  cases m with
  | arrive p =>
    cases he
    refine ⟨?_, fun x hx => ?_, h.running⟩
    · rw [← h.arrived, List.append_assoc]
    · rcases List.mem_append.mp hx with hx | hx
      · exact h.proper x hx
      · exact List.mem_singleton.mp hx ▸ hm
  | announce =>
    cases he
    exact ⟨h.arrived, h.proper, h.running⟩
  | go => exact h.go he

theorem Sound.drain (h : s.Sound C) (hp : s.point = .receiving) :
    ∃ s', run (Server.step C) (List.replicate (s.queue.length + 1) .go) s = some s' ∧ s'.point = .waiting ∧
      s'.queue = [] ∧ s'.processed = s.arrived := by
  induction hq : s.queue generalizing s with
  | nil =>
    refine ⟨{ s with point := .waiting, receivePacket := none }, ?_, rfl, hq, ?_⟩
    · simp [run, Server.step, Server.go, hp, hq]
    · have := h.arrived
      rw [hq, List.append_nil] at this
      exact this
  | cons p q ih =>
    have he := go_cons hp hq (h.proper p (hq ▸ List.mem_cons_self))
    obtain ⟨s', hr, hs'⟩ := ih (h.go he) hp rfl
    refine ⟨s', ?_, hs'⟩
    change (s.go C).bind _ = some s'
    rw [he]
    exact hr

end Server

/-- Each packet is passed to its processor once, in order. -/
theorem receiveServer_drains {P : Type*} {C : Classes P} {s : Server P}
    (h : Steps (Server.step C) (Server.Proper C) .initial s) :
    s.processed ++ s.queue = s.arrived ∧ s.point ≠ .halted ∧
      (∀ s', s.point = .receiving → s.go C = some s' → s'.point = .waiting → s.queue = []) ∧
      (s.point = .receiving →
        ∃ s', run (Server.step C) (List.replicate (s.queue.length + 1) .go) s = some s' ∧
          s'.point = .waiting ∧ s'.queue = [] ∧ s'.processed = s.arrived) := by
  have hS : s.Sound C := by
    refine h.invariant (fun hS hm he => hS.step hm he) ⟨rfl, ?_, ServerPoint.noConfusion⟩
    simp [Server.initial]
  refine ⟨hS.arrived, hS.running, fun s' hp he hw => ?_, hS.drain⟩
  cases hq : s.queue with
  | nil => rfl
  | cons p q =>
    rw [Server.go_cons hp hq (hS.proper p (hq ▸ List.mem_cons_self))] at he
    cases he
    exact absurd (hp.symm.trans hw) ServerPoint.noConfusion

def eventClasses : Classes Nat := ⟨id, (· = 6)⟩

theorem receiveServer_drains_events :
    ∃ s, run (checked (Server.step eventClasses) (Server.Proper eventClasses))
        [.arrive 6, .arrive 6, .announce, .go] .initial = some s ∧
      ∃ s', run (Server.step eventClasses) [.go, .go, .go] s = some s' ∧ s'.processed = [6, 6] := by
  refine ⟨⟨[6, 6], 0, .receiving, none, [], [6, 6]⟩, by decide, ?_⟩
  have hr : run (checked (Server.step eventClasses) (Server.Proper eventClasses))
      [.arrive 6, .arrive 6, .announce, .go] .initial = some ⟨[6, 6], 0, .receiving, none, [], [6, 6]⟩ := by
    decide
  obtain ⟨s', hs', -, -, hd⟩ := (receiveServer_drains (.run_checked .refl hr)).2.2.2 rfl
  exact ⟨s', hs', hd⟩

theorem receiveServer_stops :
    run (Server.step eventClasses) [.arrive 8, .arrive 6, .announce, .go, .go] .initial =
        some ⟨[6], 0, .waiting, none, [], [8, 6]⟩ ∧
      (⟨[6], 0, .waiting, none, [], [8, 6]⟩ : Server Nat).go eventClasses = none := by
  decide

end Rtems.Mpci
