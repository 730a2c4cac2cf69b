import Rtems.Library.Linked
import Mathlib.Data.List.Nodup
import Mathlib.Logic.Function.Basic

/-! # Intrusive lists -/

namespace Intrusive

open Function

inductive Node (C α : Type*)
  | head (c : C)
  | tail (c : C)
  | obj (a : α)
  | null
  deriving DecidableEq, Repr

structure Links (C α : Type*) where
  next : Node C α → Node C α
  previous : Node C α → Node C α

variable {C α : Type*}

namespace Links

variable [DecidableEq C] [DecidableEq α]

def setNext (L : Links C α) (n v : Node C α) : Links C α :=
  { L with next := update L.next n v }

def setPrevious (L : Links C α) (n v : Node C α) : Links C α :=
  { L with previous := update L.previous n v }

variable {L : Links C α} {n k v : Node C α}

@[simp] theorem next_setNext : (L.setNext n v).next n = v := by simp [setNext]

@[simp] theorem previous_setPrevious : (L.setPrevious n v).previous n = v := by simp [setPrevious]

@[simp] theorem previous_setNext : (L.setNext n v).previous = L.previous := rfl

@[simp] theorem next_setPrevious : (L.setPrevious n v).next = L.next := rfl

theorem next_setNext_ne (h : k ≠ n) : (L.setNext n v).next k = L.next k := by simp [setNext, h]

theorem previous_setPrevious_ne (h : k ≠ n) :
    (L.setPrevious n v).previous k = L.previous k := by simp [setPrevious, h]

end Links

def nodes (c : C) (l : List α) : List (Node C α) := Node.head c :: (l.map Node.obj ++ [Node.tail c])

structure Holds (L : Links C α) (c : C) (l : List α) : Prop where
  linked : Linked L.next L.previous (nodes c l)
  stop : L.next (.tail c) = .null

instance [DecidableEq C] [DecidableEq α] (L : Links C α) (c : C) (l : List α) : Decidable (Holds L c l) :=
  have : Decidable (Linked L.next L.previous (nodes c l)) := inferInstanceAs (Decidable (List.IsChain ..))
  decidable_of_iff (Linked L.next L.previous (nodes c l) ∧ L.next (.tail c) = .null)
    ⟨fun h => ⟨h.1, h.2⟩, fun h => ⟨h.linked, h.stop⟩⟩

structure Represents (L : Links C α) (ch : C → Option (List α)) : Prop where
  holds : ∀ {c l}, ch c = some l → Holds L c l
  nodup : ∀ {c l}, ch c = some l → l.Nodup
  disjoint : ∀ {c d l k a}, ch c = some l → ch d = some k → a ∈ l → a ∈ k → c = d

def Off (ch : C → Option (List α)) (a : α) : Prop := ∀ d k, ch d = some k → a ∉ k

def Links.empty : Links C α where
  next
    | .head c => .tail c
    | _ => .null
  previous
    | .tail c => .head c
    | _ => .null

theorem Links.empty_represents {ch} (h : ∀ {c l}, ch c = some l → l = []) :
    Represents (Links.empty : Links C α) ch := by
  refine ⟨fun {c l} hc => ?_, fun hc => ?_, fun hc _ ha => ?_⟩
  · obtain rfl := h hc
    exact ⟨Linked.cons_cons_iff.mpr ⟨⟨rfl, rfl⟩, Linked.singleton _⟩, rfl⟩
  · obtain rfl := h hc
    exact List.nodup_nil
  · obtain rfl := h hc
    cases ha

/-! ## One list -/

theorem nodes_nodup {c : C} {l : List α} (h : l.Nodup) : (nodes c l).Nodup := by
  have hm : (l.map (Node.obj (C := C))).Nodup := h.map fun _ _ he => Node.obj.inj he
  simp [nodes, List.nodup_append, hm]

theorem mem_nodes {c l} {n : Node C α} :
    n ∈ nodes c l ↔ n = .head c ∨ n = .tail c ∨ ∃ a ∈ l, n = .obj a := by
  simp only [nodes, List.mem_cons, List.mem_append, List.mem_map, List.not_mem_nil, or_false]
  rw [or_comm (a := ∃ a ∈ l, Node.obj a = n)]
  exact or_congr_right (or_congr_right (exists_congr fun a => and_congr_right fun _ => eq_comm))

def pred (c : C) (l : List α) : Node C α :=
  match l.getLast? with
  | none => .head c
  | some a => .obj a

def succ (c : C) : List α → Node C α
  | [] => .tail c
  | a :: _ => .obj a

@[simp] theorem pred_nil (c : C) : pred c ([] : List α) = .head c := rfl

@[simp] theorem pred_concat (c : C) (l : List α) (a : α) : pred c (l ++ [a]) = .obj a := by
  simp [pred]

@[simp] theorem pred_singleton (c : C) (a : α) : pred c [a] = .obj a := rfl

@[simp] theorem succ_nil (c : C) : succ c ([] : List α) = .tail c := rfl

@[simp] theorem succ_cons (c : C) (a : α) (l : List α) : succ c (a :: l) = .obj a := rfl

theorem nodes_split (c : C) (l1 l2 : List α) :
    ∃ k1 k2, nodes c (l1 ++ l2) = k1 ++ pred c l1 :: succ c l2 :: k2 ∧
      Node.head c :: l1.map Node.obj = k1 ++ [pred c l1] ∧
      l2.map Node.obj ++ [Node.tail c] = succ c l2 :: k2 := by
  have h1 : ∃ k1, Node.head c :: l1.map Node.obj = k1 ++ [pred c l1] := by
    rcases List.eq_nil_or_concat' l1 with rfl | ⟨l, a, rfl⟩
    · exact ⟨[], rfl⟩
    · exact ⟨Node.head c :: l.map Node.obj, by simp⟩
  have h2 : ∃ k2, l2.map Node.obj ++ [Node.tail c] = succ c l2 :: k2 := by
    cases l2 with
    | nil => exact ⟨[], rfl⟩
    | cons a l => exact ⟨l.map Node.obj ++ [Node.tail c], rfl⟩
  obtain ⟨k1, h1⟩ := h1
  obtain ⟨k2, h2⟩ := h2
  refine ⟨k1, k2, ?_, h1, h2⟩
  rw [nodes, List.map_append, List.append_assoc, ← List.cons_append, h1, h2, List.append_assoc,
    List.singleton_append]

theorem pred_mem (c : C) (l1 l2 : List α) : pred c l1 ∈ nodes c (l1 ++ l2) := by
  obtain ⟨k1, k2, h, -⟩ := nodes_split c l1 l2
  rw [h]; simp

theorem succ_mem (c : C) (l1 l2 : List α) : succ c l2 ∈ nodes c (l1 ++ l2) := by
  obtain ⟨k1, k2, h, -⟩ := nodes_split c l1 l2
  rw [h]; simp

theorem linked_unique {L : Links C α} {c n} {l k : List α}
    (h : Linked L.next L.previous (n :: (l.map Node.obj ++ [Node.tail c])))
    (h' : Linked L.next L.previous (n :: (k.map Node.obj ++ [Node.tail c]))) : l = k := by
  induction l generalizing n k with
  | nil =>
    cases k with
    | nil => rfl
    | cons b k =>
      have h1 := (Linked.cons_cons_iff.mp h).1.1
      have h2 := (Linked.cons_cons_iff.mp h').1.1
      rw [h1] at h2
      cases h2
  | cons a l ih =>
    obtain ⟨h1, h⟩ := Linked.cons_cons_iff.mp h
    cases k with
    | nil =>
      have h2 := (Linked.cons_cons_iff.mp h').1.1
      rw [h1.1] at h2
      cases h2
    | cons b k =>
      obtain ⟨h2, h'⟩ := Linked.cons_cons_iff.mp h'
      obtain rfl : a = b := Node.obj.inj (h1.1.symm.trans h2.1)
      rw [ih h h']

theorem Holds.unique {L : Links C α} {c l k} (h : Holds L c l) (h' : Holds L c k) : l = k :=
  linked_unique h.linked h'.linked

theorem tail_ne_pred (c : C) (l : List α) : Node.tail c ≠ pred c l := by
  unfold pred
  split <;> simp

theorem outside_ne {c} {n : Node C α} (l1 l2 : List α) (h1 : n ≠ .head c) (h2 : n ≠ .tail c)
    (h3 : ∀ x, n = .obj x → x ∉ l1 ++ l2) : n ≠ pred c l1 ∧ n ≠ succ c l2 := by
  have hout : n ∉ nodes c (l1 ++ l2) := by
    rw [mem_nodes]
    rintro (h | h | ⟨x, hx, h⟩)
    · exact h1 h
    · exact h2 h
    · exact h3 x h hx
  exact ⟨fun h => hout (h ▸ pred_mem c l1 l2), fun h => hout (h ▸ succ_mem c l1 l2)⟩

namespace Holds

variable {L L' : Links C α} {c : C} {l l1 l2 : List α} {a b : α}

theorem link (h : Holds L c (l1 ++ l2)) :
    L.next (pred c l1) = succ c l2 ∧ L.previous (succ c l2) = pred c l1 := by
  obtain ⟨k1, k2, he, -⟩ := nodes_split c l1 l2
  exact Linked.mid (he ▸ h.linked)

theorem next_head (h : Holds L c l) : L.next (.head c) = succ c l :=
  (show Holds L c ([] ++ l) from h).link.1

theorem previous_tail (h : Holds L c l) : L.previous (.tail c) = pred c l := by
  rw [← List.append_nil l] at h
  exact h.link.2

theorem next_obj (h : Holds L c (l1 ++ a :: l2)) : L.next (.obj a) = succ c l2 := by
  rw [List.append_cons] at h
  simpa using h.link.1

theorem previous_obj (h : Holds L c (l1 ++ a :: l2)) : L.previous (.obj a) = pred c l1 := h.link.2

theorem split (h : Holds L c (l1 ++ a :: l2)) : Linked L.next L.previous
    (Node.head c :: (l1.map Node.obj ++ Node.obj a :: (l2.map Node.obj ++ [Node.tail c]))) := by
  simpa [nodes] using h.linked

theorem congr (h : Holds L c l) (hn : ∀ n ∈ nodes c l, L'.next n = L.next n)
    (hp : ∀ n ∈ nodes c l, L'.previous n = L.previous n) : Holds L' c l := by
  refine ⟨h.linked.congr (fun n hm => hn n ((List.dropLast_sublist _).mem hm))
    fun n hm => hp n (List.mem_of_mem_tail hm), ?_⟩
  rw [hn _ (by simp [nodes]), h.stop]

end Holds

def Links.find (L : Links C α) (p : α → Bool) : Nat → Node C α → Option α
  | 0, _ => none
  | fuel + 1, .obj a => if p a then some a else L.find p fuel (L.next (.obj a))
  | _ + 1, _ => none

theorem Holds.find_succ {L} {c : C} {l1 l2} {p : α → Bool} {fuel}
    (h : Holds L c (l1 ++ l2)) (hf : l2.length < fuel) : L.find p fuel (succ c l2) = l2.find? p := by
  induction l2 generalizing l1 fuel with
  | nil =>
    cases fuel with
    | zero => rfl
    | succ fuel => rfl
  | cons a l ih =>
    cases fuel with
    | zero => cases hf
    | succ fuel =>
      have hn := h.next_obj
      rw [List.append_cons] at h
      simp only [succ_cons, Links.find, List.find?_cons, hn, ih h (Nat.lt_of_succ_lt_succ hf)]
      cases p a with
      | false => rfl
      | true => rfl

/-! ## Changing lists -/

section Change

variable {L L' : Links C α} {ch ch' : C → Option (List α)}

theorem Represents.mono (hR : Represents L ch) (h : ∀ {c l}, ch' c = some l → ch c = some l) :
    Represents L ch' :=
  ⟨fun hc => hR.holds (h hc), fun hc => hR.nodup (h hc), fun hc hd => hR.disjoint (h hc) (h hd)⟩

theorem Represents.change (hR : Represents L ch)
    (hl : ∀ {c l}, ch' c = some l → Holds L' c l ∨ ch c = some l ∧
      (∀ n ∈ nodes c l, L'.next n = L.next n) ∧ ∀ n ∈ nodes c l, L'.previous n = L.previous n)
    (hnd : ∀ {c l}, ch' c = some l → l.Nodup)
    (hd : ∀ {c d l k a}, ch' c = some l → ch' d = some k → a ∈ l → a ∈ k → c = d) :
    Represents L' ch' := by
  refine ⟨fun hc => ?_, hnd, hd⟩
  rcases hl hc with hl | ⟨hc', hn, hp⟩
  · exact hl
  · exact (hR.holds hc').congr hn hp

theorem Represents.empty (hn : ∀ c, L.next (.head c) = .tail c)
    (hp : ∀ c, L.previous (.tail c) = .head c) (hs : ∀ c, L.next (.tail c) = .null) :
    Represents L fun _ => some [] := by
  refine ⟨fun {c l} hc => ?_, fun {c l} hc => ?_, fun {c d l k a} hc _ ha => ?_⟩
  all_goals cases hc
  · exact ⟨Linked.cons_cons_iff.mpr ⟨⟨hn c, hp c⟩, Linked.singleton _⟩, hs c⟩
  · exact List.nodup_nil
  · cases ha

variable [DecidableEq C] {c : C} {l l' : List α}

theorem Represents.change_one (hR : Represents L ch) (hl : Holds L' c l') (hnd : l'.Nodup)
    (hnew : ∀ a ∈ l', a ∈ (ch c).getD [] ∨ Off ch a)
    (hn : ∀ n, n ≠ .head c → n ≠ .tail c → (∀ a, n = .obj a → a ∉ (ch c).getD [] ∧ a ∉ l') →
      L'.next n = L.next n)
    (hp : ∀ n, n ≠ .head c → n ≠ .tail c → (∀ a, n = .obj a → a ∉ (ch c).getD [] ∧ a ∉ l') →
      L'.previous n = L.previous n) :
    Represents L' (update ch c (some l')) := by
  have hsep : ∀ {d k a}, d ≠ c → ch d = some k → a ∈ k → a ∉ (ch c).getD [] ∧ a ∉ l' := by
    intro d k a hdc hd ha
    have hold : a ∉ (ch c).getD [] := by
      cases hc : ch c with
      | none => simp
      | some l => exact fun hal => hdc (hR.disjoint hd hc ha hal)
    refine ⟨hold, fun hal => ?_⟩
    rcases hnew a hal with h | h
    · exact hold h
    · exact h d k hd ha
  refine hR.change (fun {d k} hd => ?_) (fun {d k} hd => ?_) fun {d e k j a} hd he hak haj => ?_
  · by_cases hdc : d = c
    · subst hdc
      rw [update_self, Option.some.injEq] at hd
      exact Or.inl (hd ▸ hl)
    · rw [update_of_ne hdc] at hd
      have hframe : ∀ n ∈ nodes d k, n ≠ .head c ∧ n ≠ .tail c ∧
          ∀ a, n = .obj a → a ∉ (ch c).getD [] ∧ a ∉ l' := by
        intro n hm
        rcases mem_nodes.mp hm with rfl | rfl | ⟨a, ha, rfl⟩
        · simp [hdc]
        · simp [hdc]
        · refine ⟨by simp, by simp, fun b hb => ?_⟩
          rw [← Node.obj.inj hb]
          exact hsep hdc hd ha
      refine Or.inr ⟨hd, fun n hm => ?_, fun n hm => ?_⟩
      · obtain ⟨h1, h2, h3⟩ := hframe n hm
        exact hn n h1 h2 h3
      · obtain ⟨h1, h2, h3⟩ := hframe n hm
        exact hp n h1 h2 h3
  · by_cases hdc : d = c
    · subst hdc
      rw [update_self, Option.some.injEq] at hd
      exact hd ▸ hnd
    · rw [update_of_ne hdc] at hd
      exact hR.nodup hd
  · by_cases hdc : d = c <;> by_cases hec : e = c
    · rw [hdc, hec]
    · rw [hdc, update_self, Option.some.injEq] at hd
      rw [update_of_ne hec] at he
      exact absurd (hd ▸ hak) (hsep hec he haj).2
    · rw [hec, update_self, Option.some.injEq] at he
      rw [update_of_ne hdc] at hd
      exact absurd (he ▸ haj) (hsep hdc hd hak).2
    · rw [update_of_ne hdc] at hd
      rw [update_of_ne hec] at he
      exact hR.disjoint hd he hak haj

theorem Represents.off_without {a l1 l2} (hR : Represents L ch)
    (hc : ch c = some (l1 ++ a :: l2)) : Off (update ch c (some (l1 ++ l2))) a := by
  intro d k hd ha
  by_cases hdc : d = c
  · subst hdc
    rw [update_self, Option.some.injEq] at hd
    subst hd
    exact ((Linked.mem_without (hR.nodup hc)).mp ha).2 rfl
  · rw [update_of_ne hdc] at hd
    exact hdc (hR.disjoint hd hc ha (by simp))

end Change

/-! ## Handing a list over -/

section HandOver

variable {L L' : Links C α} {ch : C → Option (List α)} {c d e : C} {l l1 l2 : List α} {a b : α}
  {n : Node C α}

theorem pred_cons_cons (c : C) (a b : α) (l : List α) : pred c (a :: b :: l) = pred c (b :: l) := by
  simp [pred, List.getLast?_cons_cons]

theorem pred_cons (a : α) (l : List α) : ∃ b ∈ a :: l, ∀ c : C, pred c (a :: l) = .obj b := by
  obtain ⟨k, b, hb⟩ := List.eq_nil_or_concat' (a :: l) |>.resolve_left (by simp)
  exact ⟨b, by rw [hb]; simp, fun c => by rw [hb, pred_concat]⟩

theorem linked_tail (h : Linked L.next L.previous (Node.obj a :: (l.map Node.obj ++ [Node.tail d])))
    (hnd : (a :: l).Nodup) (ht : L'.next (pred e (a :: l)) = .tail e)
    (ht' : L'.previous (.tail e) = pred e (a :: l))
    (hn : ∀ x ∈ a :: l, .obj x ≠ pred e (a :: l) → L'.next (.obj x) = L.next (.obj x))
    (hp : ∀ x ∈ l, L'.previous (.obj x) = L.previous (.obj x)) :
    Linked L'.next L'.previous (Node.obj a :: (l.map Node.obj ++ [Node.tail e])) := by
  induction l generalizing a with
  | nil => exact Linked.cons_cons_iff.mpr ⟨⟨ht, ht'⟩, Linked.singleton _⟩
  | cons b l ih =>
    obtain ⟨⟨h1, h2⟩, h3⟩ := Linked.cons_cons_iff.mp h
    obtain ⟨hab, hnd'⟩ := List.nodup_cons.mp hnd
    have hne : Node.obj a ≠ pred e (b :: l) := by
      obtain ⟨x, hx, he⟩ := pred_cons b l
      rw [he]
      rintro ⟨⟩
      exact hab hx
    refine Linked.cons_cons_iff.mpr ⟨⟨?_, ?_⟩, ih h3 hnd' ht ht' (fun x hx => hn x (by simp [hx]))
      fun x hx => hp x (by simp [hx])⟩
    · rw [hn a (by simp) hne, h1]
    · rw [hp b (by simp), h2]

theorem Holds.of_linked (h : Linked L.next L.previous (n :: (l.map Node.obj ++ [Node.tail d])))
    (hnd : l.Nodup) (hf : L'.next (.head e) = succ e l) (hf' : L'.previous (succ e l) = .head e)
    (ht : L'.next (pred e l) = .tail e) (ht' : L'.previous (.tail e) = pred e l)
    (hs : L'.next (.tail e) = .null)
    (hn : ∀ x ∈ l, .obj x ≠ pred e l → L'.next (.obj x) = L.next (.obj x))
    (hp : ∀ x ∈ l, .obj x ≠ succ e l → L'.previous (.obj x) = L.previous (.obj x)) : Holds L' e l := by
  refine ⟨?_, hs⟩
  cases l with
  | nil => exact Linked.cons_cons_iff.mpr ⟨⟨hf, hf'⟩, Linked.singleton _⟩
  | cons a l =>
    have hl := (Linked.cons_cons_iff.mp h).2
    refine Linked.cons_cons_iff.mpr ⟨⟨hf, hf'⟩, linked_tail hl hnd ht ht' hn fun x hx =>
      hp x (by simp [hx]) ?_⟩
    rintro ⟨⟩
    exact (List.nodup_cons.mp hnd).1 hx

theorem pred_eq (c : C) (l : List α) : pred c l = .head c ∨ ∃ a ∈ l, pred c l = .obj a := by
  cases l with
  | nil => exact Or.inl rfl
  | cons a l =>
    obtain ⟨b, hb, h⟩ := pred_cons a l
    exact Or.inr ⟨b, hb, h c⟩

theorem succ_eq (c : C) (l : List α) : succ c l = .tail c ∨ ∃ a ∈ l, succ c l = .obj a := by
  cases l with
  | nil => exact Or.inl rfl
  | cons a l => exact Or.inr ⟨a, by simp, rfl⟩

theorem Represents.ne_place (hR : Represents L ch) (hc : ch c = some (l1 ++ l2)) {x} {k : List α}
    (hx : x ≠ c) (hk : ch x = some k) (hm : n ∈ nodes x k) : n ≠ pred c l1 ∧ n ≠ succ c l2 := by
  refine outside_ne l1 l2 ?_ ?_ fun y hy hyl => ?_
  · rintro rfl
    rcases mem_nodes.mp hm with h | h | ⟨z, -, h⟩ <;> simp at h
    exact hx h.symm
  · rintro rfl
    rcases mem_nodes.mp hm with h | h | ⟨z, -, h⟩ <;> simp at h
    exact hx h.symm
  · subst hy
    rcases mem_nodes.mp hm with h | h | ⟨z, hz, h⟩ <;> simp at h
    subst h
    exact hx (hR.disjoint hk hc hz hyl)

theorem Represents.ne_around (hR : Represents L ch) (hc : ch c = some (l1 ++ a :: l2)) {x} {k : List α}
    (hx : x ≠ c) (hk : ch x = some k) (hm : n ∈ nodes x k) : n ≠ pred c l1 ∧ n ≠ succ c l2 :=
  ⟨(hR.ne_place hc hx hk hm).1, (hR.ne_place (hc.trans (by rw [List.append_cons])) hx hk hm).2⟩

variable [DecidableEq C]

/-- `c` and `e` are changed, `d` is out of use. -/
def handOver (ch : C → Option (List α)) (c d e : C) (lc le : List α) : C → Option (List α) :=
  update (update (update ch c (some lc)) e (some le)) d none

theorem handOver_eq_some {x k lc le} (h : handOver ch c d e lc le x = some k) :
    x ≠ d ∧ (x = e ∧ k = le ∨ x ≠ e ∧ (x = c ∧ k = lc ∨ x ≠ c ∧ ch x = some k)) := by
  unfold handOver at h
  by_cases hxd : x = d
  · simp [hxd] at h
  · refine ⟨hxd, ?_⟩
    rw [update_of_ne hxd] at h
    by_cases hxe : x = e
    · subst hxe
      exact Or.inl ⟨rfl, by simpa using h.symm⟩
    · rw [update_of_ne hxe] at h
      by_cases hxc : x = c
      · subst hxc
        exact Or.inr ⟨hxe, Or.inl ⟨rfl, by simpa using h.symm⟩⟩
      · exact Or.inr ⟨hxe, Or.inr ⟨hxc, by rwa [update_of_ne hxc] at h⟩⟩

theorem Represents.disjoint_handOver (hR : Represents L ch) (hc : ch c = some (l1 ++ a :: l2))
    (hd : ch d = some (b :: l)) (hcd : c ≠ d) {x y k j z}
    (hx : handOver ch c d e (l1 ++ b :: l2) l x = some k)
    (hy : handOver ch c d e (l1 ++ b :: l2) l y = some j) (hzk : z ∈ k) (hzj : z ∈ j) : x = y := by
  have hmem : z ∈ l1 ++ b :: l2 → z = b ∨ z ∈ l1 ++ a :: l2 := by
    intro hz
    simp only [List.mem_append, List.mem_cons] at hz ⊢
    tauto
  have hbl := (List.nodup_cons.mp (hR.nodup hd)).1
  have hcl : z ∈ l1 ++ b :: l2 → z ∉ l := by
    intro hz hzl
    rcases hmem hz with rfl | hz
    · exact hbl hzl
    · exact hcd (hR.disjoint hc hd hz (by simp [hzl]))
  have hcx : ∀ {x k}, x ≠ c → x ≠ d → ch x = some k → z ∈ l1 ++ b :: l2 → z ∉ k := by
    intro v m hvc hvd hv hz hzm
    rcases hmem hz with rfl | hz
    · exact hvd (hR.disjoint hv hd hzm (by simp))
    · exact hvc (hR.disjoint hv hc hzm hz)
  have hlx : ∀ {x k}, x ≠ d → ch x = some k → z ∈ l → z ∉ k := fun hxd hx hz hzk =>
    hxd (hR.disjoint hx hd hzk (by simp [hz]))
  obtain ⟨hxd, ⟨rfl, rfl⟩ | ⟨-, ⟨rfl, rfl⟩ | ⟨hxc, hx'⟩⟩⟩ := handOver_eq_some hx <;>
    obtain ⟨hyd, ⟨rfl, rfl⟩ | ⟨-, ⟨rfl, rfl⟩ | ⟨hyc, hy'⟩⟩⟩ := handOver_eq_some hy
  · rfl
  · exact absurd hzk (hcl hzj)
  · exact absurd hzj (hlx hyd hy' hzk)
  · exact absurd hzj (hcl hzk)
  · rfl
  · exact absurd hzj (hcx hyc hyd hy' hzk)
  · exact absurd hzk (hlx hxd hx' hzj)
  · exact absurd hzk (hcx hxc hxd hx' hzj)
  · exact hR.disjoint hx' hy' hzk hzj

/-- An object makes room for the first one of another list, the others go to a third. -/
theorem Represents.handOver (hR : Represents L ch) (hc : ch c = some (l1 ++ a :: l2))
    (hd : ch d = some (b :: l)) (he : ch e = some []) (hcd : c ≠ d)
    (h1 : L'.next (pred c l1) = .obj b) (h2 : L'.previous (.obj b) = pred c l1)
    (h3 : L'.next (.obj b) = succ c l2) (h4 : L'.previous (succ c l2) = .obj b)
    (hf : L'.next (.head e) = succ e l) (hf' : L'.previous (succ e l) = .head e)
    (ht : L'.next (pred e l) = .tail e) (ht' : L'.previous (.tail e) = pred e l)
    (hn : ∀ n, n ≠ pred c l1 → n ≠ .obj b → n ≠ .head e → n ≠ pred e l → L'.next n = L.next n)
    (hp : ∀ n, n ≠ succ c l2 → n ≠ .obj b → n ≠ .tail e → n ≠ succ e l →
      L'.previous n = L.previous n) :
    Represents L' (Intrusive.handOver ch c d e (l1 ++ b :: l2) l) := by
  have hce : c ≠ e := by
    rintro rfl
    simp [he] at hc
  obtain ⟨hbl, hl⟩ := List.nodup_cons.mp (hR.nodup hd)
  -- the objects that move are on no list but `d`
  have hmove : ∀ {n x k}, x ≠ d → x ≠ e → ch x = some k → n ∈ nodes x k →
      n ≠ .obj b ∧ n ≠ .head e ∧ n ≠ .tail e ∧ n ≠ pred e l ∧ n ≠ succ e l := by
    intro n x k hx hxe hk hm
    have hobj : ∀ y ∈ b :: l, n ≠ .obj y := by
      rintro y hy rfl
      rcases mem_nodes.mp hm with h | h | ⟨z, hz, h⟩ <;> simp at h
      subst h
      exact hx (hR.disjoint hk hd hz hy)
    obtain ⟨hh, ht⟩ := hR.ne_place (show ch e = some ([] ++ []) from he) hxe hk hm
    refine ⟨hobj b (by simp), hh, ht, ?_, ?_⟩
    · rcases pred_eq e l with h | ⟨y, hy, h⟩ <;> rw [h]
      · exact hh
      · exact hobj y (by simp [hy])
    · rcases succ_eq e l with h | ⟨y, hy, h⟩ <;> rw [h]
      · exact ht
      · exact hobj y (by simp [hy])
  have hLc : Holds L' c (l1 ++ b :: l2) := by
    have hH := hR.holds hc
    have hmem : ∀ n ∈ Node.head c :: (l1.map Node.obj ++ l2.map Node.obj ++ [Node.tail c]),
        n ∈ nodes c (l1 ++ a :: l2) := by
      intro n hm
      simp only [nodes, List.map_append, List.map_cons, List.mem_cons, List.mem_append] at hm ⊢
      tauto
    refine ⟨?_, ?_⟩
    · have hnd := nodes_nodup (c := c) (hR.nodup hc)
      simp only [nodes, List.map_append, List.map_cons, List.append_assoc, List.cons_append] at hnd ⊢
      refine hH.split.replace_node hnd (fun n hm hne => ?_) (fun n hm hne => ?_) (hH.previous_obj ▸ h1)
        (h2.trans hH.previous_obj.symm) (h3.trans hH.next_obj.symm) (hH.next_obj ▸ h4)
      · obtain ⟨m1, m2, -, m4, -⟩ := hmove hcd hce hc (hmem n hm)
        exact hn n (hH.previous_obj ▸ hne) m1 m2 m4
      · obtain ⟨m1, -, m3, -, m5⟩ := hmove hcd hce hc (hmem n hm)
        exact hp n (hH.next_obj ▸ hne) m1 m3 m5
    · obtain ⟨m1, m2, -, m4, -⟩ := hmove hcd hce hc (show Node.tail c ∈ _ by simp [nodes])
      rw [hn _ (tail_ne_pred c l1) m1 m2 m4, hH.stop]
  have hLe : Holds L' e l := by
    have hb := (Linked.cons_cons_iff.mp (hR.holds hd).linked).2
    have hx : ∀ x ∈ l, Node.obj x ∈ nodes d (b :: l) ∧ Node.obj (C := C) x ≠ .obj b := by
      refine fun x hx => ⟨by simp [nodes, hx], ?_⟩
      rintro ⟨⟩
      exact hbl hx
    refine Holds.of_linked hb hl hf hf' ht ht' ?_ (fun x hxl hne => ?_) fun x hxl hne => ?_
    · have hcute := (hR.ne_around hc hce.symm he (show Node.tail e ∈ nodes e [] by simp [nodes])).1
      rw [hn _ hcute (by simp) (by simp) (tail_ne_pred e l), (hR.holds he).stop]
    · exact hn _ (hR.ne_around hc hcd.symm hd (hx x hxl).1).1 (hx x hxl).2 (by simp) hne
    · exact hp _ (hR.ne_around hc hcd.symm hd (hx x hxl).1).2 (hx x hxl).2 (by simp) hne
  refine hR.change (fun {x k} hx => ?_) (fun {x k} hx => ?_) (hR.disjoint_handOver hc hd hcd)
  · obtain ⟨hxd, ⟨rfl, rfl⟩ | ⟨hxe, ⟨rfl, rfl⟩ | ⟨hxc, hx'⟩⟩⟩ := handOver_eq_some hx
    · exact Or.inl hLe
    · exact Or.inl hLc
    · refine Or.inr ⟨hx', fun n hm => ?_, fun n hm => ?_⟩
      · obtain ⟨m1, m2, -, m4, -⟩ := hmove hxd hxe hx' hm
        exact hn n (hR.ne_around hc hxc hx' hm).1 m1 m2 m4
      · obtain ⟨m1, -, m3, -, m5⟩ := hmove hxd hxe hx' hm
        exact hp n (hR.ne_around hc hxc hx' hm).2 m1 m3 m5
  · obtain ⟨-, ⟨rfl, rfl⟩ | ⟨-, ⟨rfl, rfl⟩ | ⟨-, hx'⟩⟩⟩ := handOver_eq_some hx
    · exact hl
    · have hb : b ∉ l1 ++ a :: l2 := fun hm => hcd (hR.disjoint hc hd hm (by simp))
      have hnd := Linked.nodup_without (hR.nodup hc)
      exact List.nodup_middle.mpr (List.nodup_cons.mpr ⟨fun hm => hb (by grind), hnd⟩)
    · exact hR.nodup hx'

end HandOver

end Intrusive
