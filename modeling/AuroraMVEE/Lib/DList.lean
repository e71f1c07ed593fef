import Mathlib

/-!
# Doubly linked lists on a heap

A heap holds, at each address that is allocated, a cell with an entry and two pointers.  A
segment is a list of addresses and entries such that the cell at each address holds the
entry beside it, and points to its neighbours in the list.  Addresses and entries are of any
type; a null pointer is `none`.

* `Seg` — segments, with the rule by which two segments are one (`seg_append`) and the rule
  that a segment is where it was if its cells are (`Seg.congr`).
* `Seg.setNext`, `Seg.setPrev` — the two pointer writes: at the last cell of a segment, and at
  its first.
* `Seg.reaches_iff`, `Seg.acyclic`, `Seg.next_iff_prev` — what following the pointers comes to.
-/

namespace DList

variable {A E : Type}

/-- A cell of a doubly linked list. -/
structure Cell (A E : Type) where
  entry : E
  next : Option A
  prev : Option A
  deriving DecidableEq, Repr

/-- The allocated cells. -/
abbrev Heap (A E : Type) := A → Option (Cell A E)

/-! ## Segments -/

/-- The first address of a list, or else the pointer to what follows it. -/
def front : List (A × E) → Option A → Option A
  | [], q => q
  | x :: _, _ => some x.1

/-- The last address of a list, or else the pointer to what precedes it. -/
def back : Option A → List (A × E) → Option A
  | p, [] => p
  | _, x :: l => back (some x.1) l

/-- On the heap `h` the list stands behind `p` and before `q`. -/
def Seg (h : Heap A E) : Option A → List (A × E) → Option A → Prop
  | _, [], _ => True
  | p, x :: l, q => h x.1 = some ⟨x.2, front l q, p⟩ ∧ Seg h (some x.1) l q

/-- The addresses of a list. -/
def addrs (l : List (A × E)) : List A := l.map Prod.fst

@[simp] theorem front_nil (q : Option A) : front ([] : List (A × E)) q = q := rfl

@[simp] theorem front_cons (x : A × E) (l : List (A × E)) (q : Option A) :
    front (x :: l) q = some x.1 := rfl

@[simp] theorem back_nil (p : Option A) : back p ([] : List (A × E)) = p := rfl

@[simp] theorem back_cons (p : Option A) (x : A × E) (l : List (A × E)) :
    back p (x :: l) = back (some x.1) l := rfl

@[simp] theorem front_append (l m : List (A × E)) (q : Option A) :
    front (l ++ m) q = front l (front m q) := by
  cases l <;> rfl

@[simp] theorem back_append (p : Option A) (l m : List (A × E)) :
    back p (l ++ m) = back (back p l) m := by
  induction l generalizing p with
  | nil => rfl
  | cons x l ih => exact ih (some x.1)

/-- Unless it is empty, a list has a last node. -/
theorem exists_last (x : A × E) (l : List (A × E)) : ∃ l' y, x :: l = l' ++ [y] :=
  ⟨_, _, (List.dropLast_append_getLast (List.cons_ne_nil x l)).symm⟩

@[simp] theorem addrs_nil : addrs ([] : List (A × E)) = [] := rfl

@[simp] theorem addrs_cons (x : A × E) (l : List (A × E)) : addrs (x :: l) = x.1 :: addrs l := rfl

@[simp] theorem addrs_append (l m : List (A × E)) : addrs (l ++ m) = addrs l ++ addrs m :=
  List.map_append

/-- Where the addresses are all different, none stands on both sides. -/
theorem notMem_left {l m : List (A × E)} (hnodup : (addrs (l ++ m)).Nodup) {a : A}
    (ha : a ∈ addrs m) : a ∉ addrs l := by
  rw [addrs_append] at hnodup
  exact fun hmem => List.disjoint_of_nodup_append hnodup hmem ha

/-- A list that ends with the address `a`. -/
theorem exists_of_back {p : Option A} {l : List (A × E)} {a : A} (h : back p l = some a) :
    (l = [] ∧ p = some a) ∨ ∃ l' e, l = l' ++ [(a, e)] := by
  cases l with
  | nil => exact .inl ⟨rfl, h⟩
  | cons x l =>
    right
    obtain ⟨l', y, hlast⟩ := exists_last x l
    rw [hlast, back_append, back_cons, back_nil] at h
    obtain rfl := Option.some.inj h
    exact ⟨l', y.2, hlast⟩

variable {h h' : Heap A E} {p q : Option A} {l m : List (A × E)} {x : A × E}

theorem Seg.head (hs : Seg h p (x :: l) q) : h x.1 = some ⟨x.2, front l q, p⟩ := hs.1

theorem Seg.tail (hs : Seg h p (x :: l) q) : Seg h (some x.1) l q := hs.2

/-- Two segments are one if each stands where the other ends. -/
theorem seg_append : Seg h p (l ++ m) q ↔ Seg h p l (front m q) ∧ Seg h (back p l) m q := by
  induction l generalizing p with
  | nil => exact ⟨fun hm => ⟨trivial, hm⟩, And.right⟩
  | cons x l ih =>
    show (h x.1 = some ⟨x.2, front (l ++ m) q, p⟩ ∧ Seg h (some x.1) (l ++ m) q) ↔
      (h x.1 = some ⟨x.2, front l (front m q), p⟩ ∧ Seg h (some x.1) l (front m q)) ∧
        Seg h (back (some x.1) l) m q
    rw [front_append, ih, and_assoc]

/-- A segment is read off its own cells. -/
theorem Seg.congr (hs : Seg h p l q) (hsame : ∀ a ∈ addrs l, h' a = h a) : Seg h' p l q := by
  induction l generalizing p with
  | nil => trivial
  | cons x l ih =>
    refine ⟨(hsame x.1 List.mem_cons_self).trans hs.head, ih hs.tail ?_⟩
    intro a ha
    exact hsame a (List.mem_cons_of_mem x.1 ha)

/-- Every cell of a segment is allocated. -/
theorem Seg.isSome (hs : Seg h p l q) {a : A} (ha : a ∈ addrs l) : (h a).isSome := by
  induction l generalizing p with
  | nil => exact absurd ha List.not_mem_nil
  | cons x l ih =>
    rcases List.mem_cons.1 ha with rfl | ha
    · rw [hs.head]
      rfl
    · exact ih hs.tail ha

/-- Every cell of a segment holds its entry. -/
theorem Seg.entry (hs : Seg h p l q) (hx : x ∈ l) : (h x.1).map Cell.entry = some x.2 := by
  induction l generalizing p with
  | nil => exact absurd hx List.not_mem_nil
  | cons y l ih =>
    rcases List.mem_cons.1 hx with rfl | hx
    · rw [hs.head]
      rfl
    · exact ih hs.tail hx

/-! ## Writing pointers -/

section

variable [DecidableEq A]

/-- A write beside a segment. -/
theorem Seg.update (hs : Seg h p l q) {a : A} (hnew : a ∉ addrs l) (c : Option (Cell A E)) :
    Seg (Function.update h a c) p l q := by
  apply hs.congr
  intro b hb
  exact Function.update_of_ne (ne_of_mem_of_not_mem hb hnew) _ _

/-- The next pointer of the last cell is written. -/
theorem Seg.setNext {a : A} {e : E} (hs : Seg h p (l ++ [(a, e)]) q) (hnew : a ∉ addrs l)
    (q' : Option A) :
    Seg (Function.update h a (some ⟨e, q', back p l⟩)) p (l ++ [(a, e)]) q' := by
  obtain ⟨hinit, -⟩ := seg_append.1 hs
  apply seg_append.2
  constructor
  · exact hinit.update hnew _
  · exact ⟨Function.update_self a _ h, trivial⟩

/-- The previous pointer of the first cell is written. -/
theorem Seg.setPrev {a : A} {e : E} (hs : Seg h p ((a, e) :: l) q) (hnew : a ∉ addrs l)
    (p' : Option A) :
    Seg (Function.update h a (some ⟨e, front l q, p'⟩)) p' ((a, e) :: l) q := by
  constructor
  · exact Function.update_self a _ h
  · exact hs.tail.update hnew _

end

/-! ## Following pointers -/

/-- The cell at `a` points forward to `b`. -/
def Next (h : Heap A E) (a b : A) : Prop := ∃ c, h a = some c ∧ c.next = some b

/-- The cell at `b` points back to `a`. -/
def Prev (h : Heap A E) (b a : A) : Prop := ∃ c, h b = some c ∧ c.prev = some a

/-- From `a` one comes to `b` by following next pointers. -/
def Reaches (h : Heap A E) : A → A → Prop := Relation.ReflTransGen (Next h)

/-- The first cell of a segment points to the second, and nowhere else. -/
theorem Seg.next_iff (hs : Seg h p (x :: l) q) {b : A} : Next h x.1 b ↔ front l q = some b := by
  unfold Next
  rw [hs.head]
  constructor
  · rintro ⟨c, hc, hb⟩
    obtain rfl := Option.some.inj hc
    exact hb
  · intro hb
    exact ⟨_, rfl, hb⟩

/-- What is reached from the start of a list is what is in it. -/
theorem Seg.reaches_iff (hs : Seg h p (x :: l) none) {b : A} :
    Reaches h x.1 b ↔ b ∈ addrs (x :: l) := by
  induction l generalizing p x with
  | nil =>
    constructor
    · intro hb
      rcases Relation.ReflTransGen.cases_head hb with rfl | ⟨c, hc, -⟩
      · exact List.mem_cons_self
      · exact absurd (hs.next_iff.1 hc) (by simp)
    · intro hb
      obtain rfl := List.mem_singleton.1 hb
      exact .refl
  | cons y l ih =>
    constructor
    · intro hb
      rcases Relation.ReflTransGen.cases_head hb with rfl | ⟨c, hc, hcb⟩
      · exact List.mem_cons_self
      · obtain rfl : y.1 = c := Option.some.inj (hs.next_iff.1 hc)
        exact List.mem_cons_of_mem x.1 ((ih hs.tail).1 hcb)
    · intro hb
      rcases List.mem_cons.1 hb with rfl | hb
      · exact .refl
      · exact .head (hs.next_iff.2 rfl) ((ih hs.tail).2 hb)

/-- From no cell of a list does one come back to it. -/
theorem Seg.acyclic (hs : Seg h p l none) (hnodup : (addrs l).Nodup) {a : A} (ha : a ∈ addrs l) :
    ¬ Relation.TransGen (Next h) a a := by
  induction l generalizing p with
  | nil => exact absurd ha List.not_mem_nil
  | cons x l ih =>
    obtain ⟨hx, hl⟩ := List.nodup_cons.1 hnodup
    rcases List.mem_cons.1 ha with rfl | ha
    · intro hloop
      obtain ⟨b, hb, hba⟩ := Relation.TransGen.head'_iff.1 hloop
      cases l with
      | nil => exact absurd (hs.next_iff.1 hb) (by simp)
      | cons y l =>
        obtain rfl : y.1 = b := Option.some.inj (hs.next_iff.1 hb)
        exact hx (hs.tail.reaches_iff.1 hba)
    · exact ih hs.tail hl ha

/-- In a list, two cells point forward to each other exactly as they point back. -/
theorem Seg.next_iff_prev (hs : Seg h none l none) {a b : A} (ha : a ∈ addrs l) (hb : b ∈ addrs l) :
    Next h a b ↔ Prev h b a := by
  constructor
  · intro hnext
    obtain ⟨x, hx, rfl⟩ := List.mem_map.1 ha
    obtain ⟨l₁, l₂, rfl⟩ := List.append_of_mem hx
    have hrest := (seg_append.1 hs).2
    have hfront := hrest.next_iff.1 hnext
    cases l₂ with
    | nil => exact absurd hfront (by simp)
    | cons y l₂ =>
      obtain rfl : y.1 = b := Option.some.inj hfront
      exact ⟨_, hrest.tail.head, rfl⟩
  · rintro ⟨c, hc, hprev⟩
    obtain ⟨y, hy, rfl⟩ := List.mem_map.1 hb
    obtain ⟨l₁, l₂, rfl⟩ := List.append_of_mem hy
    obtain ⟨hinit, hrest⟩ := seg_append.1 hs
    rw [hrest.head] at hc
    obtain rfl := Option.some.inj hc
    rcases exists_of_back hprev with ⟨-, hnone⟩ | ⟨l', e, rfl⟩
    · exact absurd hnone (by simp)
    · exact (seg_append.1 hinit).2.next_iff.2 rfl

end DList
