import Mathlib

/-!
# Searching a list for the first entry that covers a point

Each entry of a list covers some points, and a search returns the first entry that covers
the point it is given.  In a list whose entries have no point in common the order does not
matter (`find_eq_some_iff`), and taking an entry out takes its points out, and no others
(`find_eraseP`).  Entries and points are of any type.
-/

namespace Cover

variable {α β : Type} {cov : α → β → Bool} {l : List α} {e : α} {x : β}

/-- The first entry that covers `x`. -/
def find (cov : α → β → Bool) (l : List α) (x : β) : Option α := l.find? fun e => cov e x

/-- Two entries cover no point in common. -/
def Apart (cov : α → β → Bool) (e f : α) : Prop := ∀ x, cov e x = true → cov f x = false

/-- No two entries of the list have a point in common. -/
def Disjoint (cov : α → β → Bool) (l : List α) : Prop := l.Pairwise (Apart cov)

theorem Apart.symm {f : α} (h : Apart cov e f) : Apart cov f e := fun x hf => by
  cases he : cov e x with
  | false => rfl
  | true => exact absurd ((h x he).symm.trans hf) (by decide)

instance : Std.Symm (Apart cov) := ⟨fun _ _ => Apart.symm⟩

/-- What a search finds is in the list, and covers the point. -/
theorem mem_of_find (h : find cov l x = some e) : e ∈ l ∧ cov e x = true :=
  ⟨List.mem_of_find?_eq_some h, List.find?_some (p := fun e => cov e x) h⟩

theorem find_eq_none_iff : find cov l x = none ↔ ∀ e ∈ l, cov e x = false := by
  simp [find]

/-- A search finds the one entry with the property it looks for. -/
theorem find?_eq_some_of_only {p : α → Bool} (he : e ∈ l) (hp : p e = true)
    (honly : ∀ f ∈ l, p f = true → f = e) : l.find? p = some e := by
  obtain ⟨f, hf⟩ := Option.isSome_iff_exists.1 (List.find?_isSome.2 ⟨e, he, hp⟩)
  rw [hf, honly f (List.mem_of_find?_eq_some hf) (List.find?_some hf)]

/-- Two entries of such a list that cover one point are one entry. -/
theorem Disjoint.eq_of_covers (h : Disjoint cov l) {f : α} (he : e ∈ l) (hf : f ∈ l)
    (hex : cov e x = true) (hfx : cov f x = true) : e = f := by
  by_contra hne
  have hapart : Apart cov e f := List.Pairwise.forall h he hf hne
  rw [hapart x hex] at hfx
  exact absurd hfx (by decide)

/-- In such a list a search finds the one entry there is. -/
theorem Disjoint.find_eq_some_iff (h : Disjoint cov l) :
    find cov l x = some e ↔ e ∈ l ∧ cov e x = true := by
  exact ⟨mem_of_find, fun ⟨he, hex⟩ =>
    find?_eq_some_of_only he hex fun f hf hfx => h.eq_of_covers hf he hfx hex⟩

/-- Where the first entry with the property `p` is taken out, its points are no longer
found, and at all others the search goes on as before. -/
theorem Disjoint.find_eraseP (h : Disjoint cov l) {p : α → Bool} (he : l.find? p = some e)
    (x : β) : find cov (l.eraseP p) x = if cov e x then none else find cov l x := by
  obtain ⟨hp, as, bs, rfl, has⟩ := List.find?_eq_some_iff_append.1 he
  have hskip : ∀ a ∈ as, ¬ p a = true := fun a ha => by simpa using has a ha
  have herase : (as ++ e :: bs).eraseP p = as ++ bs := by
    rw [List.eraseP_append_right _ hskip, List.eraseP_cons_of_pos hp]
  rw [herase]
  cases hx : cov e x with
  | true =>
    rw [if_pos rfl, find_eq_none_iff]
    intro f hf
    rcases List.pairwise_append.1 h with ⟨-, hright, hcross⟩
    rcases List.mem_append.1 hf with hf | hf
    · exact (hcross f hf e (by simp)).symm x hx
    · exact List.rel_of_pairwise_cons hright hf x hx
  | false =>
    rw [if_neg (by decide)]
    unfold find
    rw [List.find?_append, List.find?_append, List.find?_cons_of_neg (by simpa using hx)]

/-- Once the points of `e` are out, nothing is found at a point that no other entry covers. -/
theorem Disjoint.none_without_iff (h : Disjoint cov l) (he : e ∈ l) :
    (if cov e x then none else find cov l x) = none ↔ ∀ f ∈ l, cov f x = true → f = e := by
  by_cases hx : cov e x = true
  · rw [if_pos hx]
    exact iff_of_true rfl fun f hf hfx => h.eq_of_covers hf he hfx hx
  · rw [if_neg hx, find_eq_none_iff]
    constructor
    · intro hnone f hf hfx
      rw [hnone f hf] at hfx
      exact absurd hfx (by decide)
    · intro honly f hf
      rw [← Bool.not_eq_true]
      intro hfx
      rw [honly f hf hfx] at hfx
      exact hx hfx

end Cover
