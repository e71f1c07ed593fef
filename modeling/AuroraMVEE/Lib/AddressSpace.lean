import Mathlib

/-!
# Address spaces as partial maps

An address space gives each mapped address the area it belongs to.  Three
operations change it on a region, a decidable set of addresses: `map` puts one
area there, `unmap` takes what is there away, and `modify` changes the areas that
are there.  `All ok` says that every mapped address lies in an area that is `ok`;
the rules say exactly when each operation keeps it.  Addresses and areas are of
any type.
-/

/-- An address space: the area each mapped address belongs to. -/
abbrev AddressSpace (A P : Type) : Type := A → Option P

namespace AddressSpace

variable {A P : Type} (σ : AddressSpace A P) (r : A → Prop) [DecidablePred r]

/-- Put the area `p` on the region, in place of what was there. -/
def map (p : P) : AddressSpace A P := fun x => if r x then some p else σ x

/-- Take the region away. -/
def unmap : AddressSpace A P := fun x => if r x then none else σ x

/-- Change the areas on the region. -/
def modify (f : P → P) : AddressSpace A P := fun x => if r x then (σ x).map f else σ x

/-- Every mapped address lies in an area that is `ok`. -/
def All (ok : P → Prop) : Prop := ∀ x p, σ x = some p → ok p

variable {σ r} {ok : P → Prop}

/-- Mapping keeps `All` exactly if the new area is `ok`, or the region is empty. -/
theorem all_map_iff (h : All σ ok) (p : P) : All (map σ r p) ok ↔ ((∃ x, r x) → ok p) := by
  constructor
  · rintro hall ⟨x, hx⟩
    exact hall x p (by rw [map, if_pos hx])
  · intro hp x q hq
    by_cases hx : r x
    · rw [map, if_pos hx] at hq
      obtain rfl := Option.some.inj hq
      exact hp ⟨x, hx⟩
    · rw [map, if_neg hx] at hq
      exact h x q hq

/-- Unmapping keeps `All`. -/
theorem All.unmap (h : All σ ok) : All (unmap σ r) ok := by
  intro x q hq
  by_cases hx : r x
  · rw [AddressSpace.unmap, if_pos hx] at hq
    exact absurd hq (by simp)
  · rw [AddressSpace.unmap, if_neg hx] at hq
    exact h x q hq

/-- A change keeps `All` exactly if every area it changes stays `ok`. -/
theorem all_modify_iff (h : All σ ok) (f : P → P) :
    All (modify σ r f) ok ↔ ∀ x p, r x → σ x = some p → ok (f p) := by
  constructor
  · intro hall x p hx hp
    exact hall x (f p) (by rw [modify, if_pos hx, hp]; rfl)
  · intro hf x q hq
    by_cases hx : r x
    · rw [modify, if_pos hx] at hq
      obtain ⟨p, hp, rfl⟩ := Option.map_eq_some_iff.1 hq
      exact hf x p hx hp
    · rw [modify, if_neg hx] at hq
      exact h x q hq

end AddressSpace
