import Rtems.Library.Segment
import Rtems.Library.Transition
import Rtems.Status
import Rtems.Words
import Mathlib.Data.List.Nodup
import Mathlib.Data.List.Perm.Basic

/-! # The list of terminals -/

namespace Rtems.Termios

open Function Transition Option

abbrev Device.Name := Nat × Nat

structure Entry (A : Type*) where
  forw : Option A
  back : Option A
  refcount : Nat
  name : Device.Name
  deriving DecidableEq, Repr

def Entry.setRefcount {A : Type*} (e : Entry A) (n : Nat) : Entry A := { e with refcount := n }

structure Descriptor (A : Type*) where
  name : Device.Name
  data1 : A
  deriving DecidableEq, Repr

structure Devices (A : Type*) where
  memory : A → Option (Entry A)
  ttyHead : Option A
  ttyTail : Option A
  opened : List (Descriptor A)

namespace Devices

variable {A : Type*} [DecidableEq A]

def initial : Devices A := ⟨fun _ => none, none, none, []⟩

variable (s : Devices A)

def modify (a : A) (f : Entry A → Entry A) : Devices A :=
  { s with memory := update s.memory a ((s.memory a).map f) }

def search (name : Device.Name) : Nat → Option A → Option (Option A)
  | _, none => some none
  | 0, some _ => none
  | fuel + 1, some a =>
    (s.memory a).bind fun e => if e.name = name then some (some a) else search name fuel e.forw

def addTty (a : A) (name : Device.Name) : Devices A :=
  { s with
    memory := update s.memory a (some ⟨s.ttyHead, none, 0, name⟩)
    ttyHead := some a
    ttyTail := if s.ttyTail = none then some a else s.ttyTail }

def attach (a : A) (name : Device.Name) : Devices A :=
  { s.modify a fun e => e.setRefcount (addWord e.refcount 1) with
    opened := ⟨name, a⟩ :: s.opened }

/-- `rtems_termios_open`; `block` is what `calloc` returns. -/
def termiosOpen (name : Device.Name) (block : Option A) (fuel : Nat) : Option (Devices A × Status) :=
  (s.search name fuel s.ttyHead).map fun tty =>
    match tty, block with
    | some a, _ => (s.attach a name, .successful)
    | none, none => (s, .noMemory)
    | none, some a => ((s.addTty a name).attach a name, .successful)

def removeTty (a : A) (e : Entry A) : Option (Devices A) :=
  if (∀ b, e.forw = some b → s.memory b ≠ none) ∧ (∀ b, e.back = some b → s.memory b ≠ none) then
    let s := match e.forw with
      | none => { s with ttyTail := e.back }
      | some b => s.modify b fun f => { f with back := e.back }
    let s := match e.back with
      | none => { s with ttyHead := e.forw }
      | some b => s.modify b fun f => { f with forw := e.forw }
    some { s with memory := update s.memory a none }
  else none

def leave (d : Descriptor A) (e : Entry A) (refcount : Nat) : Option (Devices A) :=
  let s := { s.modify d.data1 fun e => e.setRefcount refcount with opened := s.opened.erase d }
  if refcount = 0 then s.removeTty d.data1 (e.setRefcount refcount) else some s

def termiosClose (d : Descriptor A) : Option (Devices A) :=
  (s.memory d.data1).bind fun e => s.leave d e (subWord e.refcount 1)

end Devices

inductive DeviceMove (A : Type*)
  | termiosOpen (name : Device.Name) (block : Option A) (fuel : Nat)
  | termiosClose (d : Descriptor A)
  deriving DecidableEq, Repr

namespace Devices

variable {A : Type*} [DecidableEq A]

variable (s : Devices A)

/-- `calloc` returns fresh blocks, and open descriptors are closed. -/
def step : DeviceMove A → Option (Devices A)
  | .termiosOpen name block fuel =>
    if block.all fun a => (s.memory a).isNone then (s.termiosOpen name block fuel).map Prod.fst else none
  | .termiosClose d => if d ∈ s.opened then s.termiosClose d else none

def openCount (name : Device.Name) : Nat := s.opened.countP fun d => d.name = name

/-- No count overflows, and the terminal removed is the first of the list. -/
def Allowed : DeviceMove A → Prop
  | .termiosOpen name .. => s.openCount name < 2 ^ 31 - 1
  | .termiosClose d => (s.memory d.data1).map Entry.refcount = some 1 → s.ttyHead = some d.data1

instance (s : Devices A) (m : DeviceMove A) : Decidable (s.Allowed m) := by
  cases m <;> unfold Allowed <;> infer_instance

/-! ## The list -/

def nameOf (a : A) : Option Device.Name := (s.memory a).map Entry.name

def forw (s : Devices A) (a : A) : Option A := (s.memory a).bind Entry.forw

def Lists (l : List A) : Prop := Segment some s.forw s.ttyHead l none

structure Matches (s : Devices A) (l : List A) : Prop where
  lists : s.Lists l
  entry : ∀ a ∈ l, ∃ e, s.memory a = some e ∧ e.back = none ∧ 0 < e.refcount ∧
    e.refcount = s.opened.countP (fun d => d.data1 = a)
  nodup : (l.map s.nameOf).Nodup
  descriptor : ∀ d ∈ s.opened, d.data1 ∈ l ∧ s.nameOf d.data1 = some d.name
  few : ∀ name, s.openCount name < 2 ^ 31

variable {s s' : Devices A} {l : List A} {a b : A} {name : Device.Name} {fuel : Nat}

theorem initial_matches : (initial : Devices A).Matches [] where
  lists := rfl
  entry := by simp
  nodup := by simp
  descriptor := by simp [initial]
  few := by simp [initial, openCount]

omit [DecidableEq A] in
theorem search_eq {p r} (hl : Segment some s.forw p l none) (he : s.search name fuel p = some r) :
    r = l.find? fun a => s.nameOf a = some name := by
  induction l generalizing p fuel with
  | nil =>
    obtain rfl : p = none := hl
    cases fuel <;> exact (some.inj he).symm
  | cons a l ih =>
    obtain ⟨rfl, hl⟩ := hl
    cases fuel with
    | zero => cases he
    | succ fuel =>
      obtain ⟨e, hm, he⟩ := bind_eq_some_iff.mp he
      have hn : s.nameOf a = some e.name := by rw [nameOf, hm, map_some]
      rw [forw, hm, bind_some] at hl
      split at he <;> rename_i hc
      · rw [List.find?_cons_of_pos (by simp [hn, hc]), some.inj he]
      · rw [List.find?_cons_of_neg (by simp [hn, hc])]
        exact ih hl he

omit [DecidableEq A] in
theorem search_total {p} (hl : Segment some s.forw p l none) (hm : ∀ a ∈ l, s.memory a ≠ none)
    (hf : l.length ≤ fuel) : ∃ r, s.search name fuel p = some r := by
  induction l generalizing p fuel with
  | nil =>
    obtain rfl : p = none := hl
    cases fuel <;> exact ⟨none, rfl⟩
  | cons a l ih =>
    obtain ⟨rfl, hl⟩ := hl
    obtain ⟨e, he⟩ := Option.ne_none_iff_exists'.mp (hm a List.mem_cons_self)
    rw [forw, he, bind_some] at hl
    cases fuel with
    | zero => exact absurd hf (Nat.not_succ_le_zero _)
    | succ fuel =>
      rw [search, he, bind_some]
      split
      · exact ⟨_, rfl⟩
      · exact ih hl (fun b hb => hm b (List.mem_cons_of_mem a hb)) (Nat.le_of_succ_le_succ hf)

section Modify

variable {f : Entry A → Entry A}

theorem memory_modify_ne (hb : b ≠ a) : (s.modify a f).memory b = s.memory b := update_of_ne hb ..

theorem nameOf_modify (hf : ∀ e, (f e).name = e.name) : (s.modify a f).nameOf = s.nameOf := by
  funext b
  unfold nameOf
  by_cases hb : b = a
  · subst hb
    simp only [modify, update_self, map_map, comp_def, hf]
  · rw [memory_modify_ne hb]

theorem forw_modify (hf : ∀ e, (f e).forw = e.forw) : (s.modify a f).forw = s.forw := by
  funext b
  unfold forw
  by_cases hb : b = a
  · subst hb
    simp only [modify, update_self, Option.bind_map, comp_def, hf]
  · rw [memory_modify_ne hb]

end Modify

namespace Matches

variable (h : s.Matches l)

include h

theorem allocated (ha : a ∈ l) : s.memory a ≠ none := by
  obtain ⟨e, he, -⟩ := h.entry a ha
  simp [he]

theorem refcount_le {e} (ha : a ∈ l) (he : s.memory a = some e) :
    e.refcount ≤ s.openCount e.name := by
  obtain ⟨e', he', -, -, hc⟩ := h.entry a ha
  obtain rfl : e' = e := some.inj (he'.symm.trans he)
  rw [hc, openCount]
  refine List.countP_mono_left fun d hd hda => decide_eq_true ?_
  obtain rfl := of_decide_eq_true hda
  have hn := (h.descriptor d hd).2
  rw [nameOf, he'] at hn
  exact (some.inj hn).symm

theorem open_iff : some name ∈ l.map s.nameOf ↔ 0 < s.openCount name := by
  unfold openCount
  rw [List.countP_pos_iff, List.mem_map]
  constructor
  · rintro ⟨a, ha, hn⟩
    obtain ⟨e, he, -, hp, hr⟩ := h.entry a ha
    rw [hr, List.countP_pos_iff] at hp
    obtain ⟨d, hd, hda⟩ := hp
    obtain rfl := of_decide_eq_true hda
    refine ⟨d, hd, decide_eq_true ?_⟩
    rw [(h.descriptor d hd).2] at hn
    exact some.inj hn
  · rintro ⟨d, hd, hn⟩
    exact ⟨d.data1, (h.descriptor d hd).1, (h.descriptor d hd).2.trans (by rw [of_decide_eq_true hn])⟩

theorem few_attach (hf : s.openCount name < 2 ^ 31 - 1) (other : Device.Name) :
    (s.attach a name).openCount other < 2 ^ 31 := by
  have hlt := h.few other
  by_cases hn : name = other
  · subst hn
    have hc : (s.attach a name).openCount name = s.openCount name + 1 := by simp [openCount, Devices.attach]
    omega
  · have hc : (s.attach a name).openCount other = s.openCount other := by simp [openCount, Devices.attach, hn]
    omega

theorem attach (ha : a ∈ l) (hn : s.nameOf a = some name)
    (hf : s.openCount name < 2 ^ 31 - 1) : (s.attach a name).Matches l := by
  have hm : (s.attach a name).nameOf = s.nameOf := nameOf_modify fun _ => rfl
  have hw : (s.attach a name).forw = s.forw := forw_modify fun _ => rfl
  refine ⟨h.lists.congr fun b _ => congrFun hw b, fun b hb => ?_, hm ▸ h.nodup, fun d hd => ?_,
    fun other => h.few_attach hf other⟩
  · obtain ⟨e, he, hb', hp, hr⟩ := h.entry b hb
    by_cases hba : b = a
    · subst hba
      have hw : addWord e.refcount 1 = e.refcount + 1 := by
        have hle := h.refcount_le hb he
        have hlt := h.few e.name
        exact addWord_eq (by omega)
      refine ⟨e.setRefcount (e.refcount + 1), ?_, hb', Nat.succ_pos _, ?_⟩
      · rw [← hw]
        simp [Devices.attach, modify, he]
      · simp [Entry.setRefcount, Devices.attach, hr]
    · refine ⟨e, ?_, hb', hp, ?_⟩
      · rw [← he]
        exact memory_modify_ne hba
      · simp [hr, Devices.attach, Ne.symm hba]
  · rw [hm]
    rcases List.mem_cons.mp hd with rfl | hd
    · exact ⟨ha, hn⟩
    · exact h.descriptor d hd

theorem addTty (ha : s.memory a = none) (hn : some name ∉ l.map s.nameOf)
    (hf : s.openCount name < 2 ^ 31 - 1) : ((s.addTty a name).attach a name).Matches (a :: l) := by
  have hal : a ∉ l := fun hl => h.allocated hl ha
  have ht : ((s.addTty a name).attach a name).memory a = some ⟨s.ttyHead, none, 1, name⟩ := by
    simp [Devices.attach, Devices.addTty, modify, Entry.setRefcount, addWord]
  have hb {b : A} (hb : b ∈ l) : ((s.addTty a name).attach a name).memory b = s.memory b := by
    have hba : b ≠ a := fun he => hal (he ▸ hb)
    simp [Devices.attach, Devices.addTty, modify, hba]
  have hm : l.map ((s.addTty a name).attach a name).nameOf = l.map s.nameOf :=
    List.map_congr_left fun b hbl => by rw [nameOf, hb hbl, nameOf]
  have hna : ((s.addTty a name).attach a name).nameOf a = some name := by rw [nameOf, ht]; rfl
  have hda : ∀ d ∈ s.opened, d.data1 ≠ a := fun d hd he => hal (he ▸ (h.descriptor d hd).1)
  refine ⟨⟨rfl, ?_⟩, fun b hbl => ?_, ?_, fun d hd => ?_, fun other => h.few_attach hf other⟩
  · rw [forw, ht]
    exact h.lists.congr fun b hbl => by rw [forw, hb hbl, forw]
  · rcases List.mem_cons.mp hbl with rfl | hbl
    · refine ⟨_, ht, rfl, Nat.one_pos, ?_⟩
      have hz : s.opened.countP (fun d => decide (d.data1 = b)) = 0 :=
        List.countP_eq_zero.mpr fun d hd => by simpa using hda d hd
      simp [Devices.attach, Devices.addTty, hz]
    · obtain ⟨e, he, hb', hp, hr⟩ := h.entry b hbl
      have hba : a ≠ b := fun he => hal (he ▸ hbl)
      refine ⟨e, (hb hbl).trans he, hb', hp, ?_⟩
      simp [Devices.attach, Devices.addTty, hr, hba]
  · rw [List.map_cons, hm, hna]
    exact List.nodup_cons.mpr ⟨hn, h.nodup⟩
  · rcases List.mem_cons.mp hd with rfl | hd
    · exact ⟨List.mem_cons_self, hna⟩
    · obtain ⟨hdl, hdn⟩ := h.descriptor d hd
      refine ⟨List.mem_cons_of_mem a hdl, ?_⟩
      rw [nameOf, hb hdl]
      exact hdn

theorem found {r} (hr : s.search name fuel s.ttyHead = some r) :
    (∃ a ∈ l, r = some a ∧ s.nameOf a = some name) ∨ r = none ∧ some name ∉ l.map s.nameOf := by
  obtain rfl := search_eq h.lists hr
  cases hl : l.find? fun a => s.nameOf a = some name with
  | some a => exact Or.inl ⟨a, List.mem_of_find?_eq_some hl, rfl, by simpa using List.find?_some hl⟩
  | none =>
    refine Or.inr ⟨rfl, fun hm => ?_⟩
    obtain ⟨a, ha, hn⟩ := List.mem_map.mp hm
    exact absurd (List.find?_eq_none.mp hl a ha) (by simpa using hn)

theorem termiosOpen {block c} (hb : ∀ a, block = some a → s.memory a = none)
    (hf : s.openCount name < 2 ^ 31 - 1) (he : s.termiosOpen name block fuel = some (s', c)) :
    ∃ l', s'.Matches l' := by
  obtain ⟨r, hr, he⟩ := map_eq_some_iff.mp he
  rcases h.found hr with ⟨a, ha, rfl, hn⟩ | ⟨rfl, hn⟩
  · obtain ⟨rfl, -⟩ := Prod.mk.inj he
    exact ⟨l, h.attach ha hn hf⟩
  · cases block with
    | none =>
      obtain ⟨rfl, -⟩ := Prod.mk.inj he
      exact ⟨l, h⟩
    | some a =>
      obtain ⟨rfl, -⟩ := Prod.mk.inj he
      exact ⟨a :: l, h.addTty (hb a rfl) hn hf⟩

theorem termiosOpen_again {block c} (hp : 0 < s.openCount name)
    (he : s.termiosOpen name block fuel = some (s', c)) :
    ∃ a ∈ l, s.nameOf a = some name ∧ s' = s.attach a name ∧ c = .successful := by
  obtain ⟨r, hr, he⟩ := map_eq_some_iff.mp he
  rcases h.found hr with ⟨a, ha, rfl, hn⟩ | ⟨-, hn⟩
  · cases he
    exact ⟨a, ha, hn, rfl, rfl⟩
  · exact absurd (h.open_iff.mpr hp) hn

omit h in
theorem countP_opened {d} (hd : d ∈ s.opened) (b : A) :
    s.opened.countP (fun d' => d'.data1 = b) =
      (s.opened.erase d).countP (fun d' => d'.data1 = b) + if d.data1 = b then 1 else 0 := by
  rw [(List.perm_cons_erase hd).countP_eq, List.countP_cons]
  simp

theorem detach {d e} (hd : d ∈ s.opened) (he : s.memory d.data1 = some e) (hr : 1 < e.refcount) :
    Matches { s.modify d.data1 fun e' => e'.setRefcount (e.refcount - 1) with opened := s.opened.erase d } l := by
  have hm : (s.modify d.data1 fun e' => e'.setRefcount (e.refcount - 1)).nameOf = s.nameOf :=
    nameOf_modify fun _ => rfl
  have hw : (s.modify d.data1 fun e' => e'.setRefcount (e.refcount - 1)).forw = s.forw :=
    forw_modify fun _ => rfl
  refine ⟨h.lists.congr fun b _ => congrFun hw b, fun b hb => ?_, hm ▸ h.nodup,
    fun d' hd' => hm ▸ h.descriptor d' (List.mem_of_mem_erase hd'),
    fun name => Nat.lt_of_le_of_lt List.erase_sublist.countP_le (h.few name)⟩
  obtain ⟨f, hf, hb', hp, hc⟩ := h.entry b hb
  by_cases hbd : b = d.data1
  · subst hbd
    obtain rfl : f = e := some.inj (hf.symm.trans he)
    refine ⟨f.setRefcount (f.refcount - 1), by simp [modify, hf], hb', Nat.sub_pos_of_lt hr, ?_⟩
    rw [countP_opened hd, if_pos rfl] at hc
    simp [Entry.setRefcount, hc]
  · refine ⟨f, (memory_modify_ne hbd).trans hf, hb', hp, ?_⟩
    rw [hc, countP_opened hd, if_neg (Ne.symm hbd), Nat.add_zero]

theorem tail {d e k} (hl : l = d.data1 :: k) (hd : d ∈ s.opened)
    (he : s.memory d.data1 = some e) (hr : e.refcount = 1) (hm : ∀ b ∈ k, s'.memory b = s.memory b)
    (ht : s'.ttyHead = e.forw) (ho : s'.opened = s.opened.erase d) : s'.Matches k := by
  subst hl
  obtain ⟨e', he', -, -, hc⟩ := h.entry _ List.mem_cons_self
  obtain rfl : e' = e := some.inj (he'.symm.trans he)
  have hn : ∀ b ∈ k, s'.nameOf b = s.nameOf b := fun b hb => by rw [nameOf, hm b hb, nameOf]
  -- no descriptor of the terminal is left
  have hz : ∀ d' ∈ s.opened.erase d, d'.data1 ≠ d.data1 := by
    rw [countP_opened hd, if_pos rfl, hr] at hc
    have hc : (s.opened.erase d).countP (fun d' => d'.data1 = d.data1) = 0 := by omega
    intro d' hd'
    simpa using List.countP_eq_zero.mp hc d' hd'
  refine ⟨?_, fun b hb => ?_, ?_, fun d' hd' => ?_, fun name => ?_⟩
  · have hlist := h.lists.2
    rw [forw, he'] at hlist
    rw [Lists, ht]
    exact hlist.congr fun b hb => by rw [forw, hm b hb, forw]
  · obtain ⟨f, hf, hb', hp, hc'⟩ := h.entry b (List.mem_cons_of_mem _ hb)
    have hne : d.data1 ≠ b := by
      rintro rfl
      exact (List.nodup_cons.mp h.nodup).1 (List.mem_map_of_mem hb)
    refine ⟨f, (hm b hb).trans hf, hb', hp, ?_⟩
    rw [hc', countP_opened hd, if_neg hne, Nat.add_zero, ho]
  · rw [List.map_congr_left hn]
    exact (List.nodup_cons.mp h.nodup).2
  · rw [ho] at hd'
    obtain ⟨hdl, hdn⟩ := h.descriptor d' (List.mem_of_mem_erase hd')
    have hdk := (List.mem_cons.mp hdl).resolve_left (hz d' hd')
    exact ⟨hdk, (hn _ hdk).trans hdn⟩
  · rw [openCount, ho]
    exact Nat.lt_of_le_of_lt List.erase_sublist.countP_le (h.few name)

theorem removeTty {d e k} (hl : l = d.data1 :: k) (hd : d ∈ s.opened)
    (he : s.memory d.data1 = some e) (hr : e.refcount = 1) : ∃ s', s.leave d e 0 = some s' ∧ s'.Matches k := by
  subst hl
  obtain ⟨e', he', hb, -⟩ := h.entry _ List.mem_cons_self
  obtain rfl : e' = e := some.inj (he'.symm.trans he)
  have hlist := h.lists.2
  rw [forw, he', bind_some] at hlist
  have hne : ∀ b ∈ k, b ≠ d.data1 := by
    rintro b hb rfl
    exact (List.nodup_cons.mp h.nodup).1 (List.mem_map_of_mem hb)
  simp only [leave, if_true, Devices.removeTty, Entry.setRefcount, hb]
  cases k with
  | nil =>
    have hf : e'.forw = none := hlist
    simp only [hf]
    exact ⟨_, rfl, h.tail rfl hd he hr (by simp) (by simp [hf]) rfl⟩
  | cons c k =>
    have hf : e'.forw = some c := hlist.1
    obtain ⟨f, hc, hcb, -⟩ := h.entry c (List.mem_cons_of_mem _ List.mem_cons_self)
    have hcd := hne c List.mem_cons_self
    simp only [hf]
    refine ⟨_, if_pos ⟨?_, by simp⟩, h.tail rfl hd he hr (fun b hbk => ?_) (by simp [hf]) rfl⟩
    · by_cases hbc : b = c
      · subst hbc
        simp [modify, hcd, hc, ← hcb]
      · simp [modify, hne b hbk, hbc]
    · rintro b hb
      cases hb
      simp [modify, hcd, hc]

theorem termiosClose {d} (hd : d ∈ s.opened) (ha : s.Allowed (.termiosClose d)) :
    ∃ s' l', s.termiosClose d = some s' ∧ s'.Matches l' := by
  obtain ⟨e, he, -, hp, -⟩ := h.entry d.data1 (h.descriptor d hd).1
  have hle := h.refcount_le (h.descriptor d hd).1 he
  have hlt := h.few e.name
  have hw : subWord e.refcount 1 = e.refcount - 1 := subWord_eq hp (by omega)
  rw [Devices.termiosClose, he, bind_some, hw]
  by_cases hr : e.refcount = 1
  · have ht : s.ttyHead = some d.data1 := ha (by rw [he, map_some, hr])
    have hlist := h.lists
    cases hl : l with
    | nil =>
      rw [hl] at hlist
      exact absurd (ht.symm.trans hlist) (by simp)
    | cons a k =>
      rw [hl] at hlist
      obtain rfl : d.data1 = a := some.inj (ht.symm.trans hlist.1)
      obtain ⟨s', hs, hM⟩ := h.removeTty hl hd he hr
      rw [hr, Nat.sub_self]
      exact ⟨s', k, hs, hM⟩
  · rw [leave, if_neg (by omega)]
    exact ⟨_, l, rfl, h.detach hd he (by omega)⟩

end Matches

theorem Matches.step {m} (h : s.Matches l) (hm : s.Allowed m) (he : s.step m = some s') :
    ∃ l', s'.Matches l' := by
  cases m with
  | termiosOpen name block fuel =>
    obtain ⟨hb, he⟩ := Option.ite_none_right_eq_some.mp he
    obtain ⟨⟨s1, c⟩, hs, rfl⟩ := map_eq_some_iff.mp he
    refine h.termiosOpen (fun a ha => ?_) hm hs
    rw [ha] at hb
    exact Option.isNone_iff_eq_none.mp hb
  | termiosClose d =>
    obtain ⟨hd, he⟩ := Option.ite_none_right_eq_some.mp he
    obtain ⟨s1, l', hs, hM⟩ := h.termiosClose hd hm
    exact ⟨l', some.inj (hs.symm.trans he) ▸ hM⟩

end Devices

open Devices

/-- One terminal for each device that is open, none for others. -/
theorem devices_listed {A : Type*} [DecidableEq A] {s : Devices A}
    (h : Steps Devices.step Devices.Allowed initial s) :
    ∃ l, s.Lists l ∧ (∀ l', s.Lists l' → l' = l) ∧
      (∀ a ∈ l, s.nameOf a ≠ none) ∧
      (∀ name, l.countP (fun a => s.nameOf a = some name) = if 0 < s.openCount name then 1 else 0) ∧
      (∀ d ∈ s.opened, s.Allowed (.termiosClose d) → s.termiosClose d ≠ none) ∧
      ∀ name block fuel, 0 < s.openCount name →
        (l.length ≤ fuel → s.termiosOpen name block fuel ≠ none) ∧
        ∀ s' c, s.termiosOpen name block fuel = some (s', c) →
          ∃ a ∈ l, s.nameOf a = some name ∧ s' = s.attach a name ∧ c = .successful := by
  obtain ⟨l, hl⟩ : ∃ l, s.Matches l := by
    refine h.invariant (I := fun s => ∃ l, s.Matches l) ?_ ⟨[], initial_matches⟩
    rintro s m s' ⟨l, hl⟩ hm he
    exact hl.step hm he
  refine ⟨l, hl.lists, fun l' hl' => hl.lists.unique (fun _ _ => some.inj) (by simp) hl',
    fun a ha => ?_, fun name => ?_, fun d hd ha => ?_, fun name block fuel hp => ⟨fun hf => ?_, ?_⟩⟩
  · rw [nameOf, ne_eq, map_eq_none_iff]
    exact hl.allocated ha
  · have hc : l.countP (fun a => s.nameOf a = some name) = (l.map s.nameOf).count (some name) := by
      rw [List.count, List.countP_map]
      exact List.countP_congr fun a _ => by simp
    rw [hc, List.Nodup.count hl.nodup]
    simp only [hl.open_iff]
  · obtain ⟨s', -, hs, -⟩ := hl.termiosClose hd ha
    simp [hs]
  · obtain ⟨r, hr⟩ : ∃ r, s.search name fuel s.ttyHead = some r :=
      search_total hl.lists (fun a ha => hl.allocated ha) hf
    simp [Devices.termiosOpen, hr]
  · exact fun s' c he => hl.termiosOpen_again hp he

theorem devices_listed_shared :
    ∃ s : Devices Nat, run (checked Devices.step Devices.Allowed)
        [.termiosOpen (0, 0) (some 8) 0, .termiosOpen (0, 1) (some 16) 1, .termiosOpen (0, 1) none 1,
          .termiosClose ⟨(0, 1), 16⟩, .termiosClose ⟨(0, 1), 16⟩] initial = some s ∧
      s.openCount (0, 0) = 1 ∧ ∃ l, s.Lists l ∧ l.countP (fun a => s.nameOf a = some (0, 0)) = 1 ∧
        l.countP (fun a => s.nameOf a = some (0, 1)) = 0 := by
  refine exists_of_map (fun s => (s.openCount (0, 0), s.openCount (0, 1))) (1, 0) (by decide +kernel)
    fun s hs he => ?_
  obtain ⟨h₀, h₁⟩ := Prod.mk.inj he
  obtain ⟨l, hl, -, -, hc, -⟩ := devices_listed (.run_checked .refl hs)
  exact ⟨h₀, l, hl, (hc (0, 0)).trans (by rw [h₀]; rfl), (hc (0, 1)).trans (by rw [h₁]; rfl)⟩

/-- A terminal that is not the first takes those before it along. -/
theorem close_drops_tty :
    ((run Devices.step [.termiosOpen (0, 0) (some 8) 0, .termiosOpen (0, 1) (some 16) 1,
        .termiosClose ⟨(0, 0), 8⟩] (initial : Devices Nat)).map fun s => (s.ttyHead, s.openCount (0, 1))) =
      some (none, 1) ∧
    ((run Devices.step [.termiosOpen (0, 0) (some 8) 0, .termiosOpen (0, 1) (some 16) 1,
        .termiosClose ⟨(0, 0), 8⟩, .termiosOpen (0, 1) (some 24) 0] (initial : Devices Nat)).map Devices.opened) =
      some [⟨(0, 1), 24⟩, ⟨(0, 1), 16⟩] := by
  decide +kernel

end Rtems.Termios
