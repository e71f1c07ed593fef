import AuroraMVEE.Lib.Program

/-!
# Programs put together from parts

To show something of a large program one goes through its text.  `Composed part m` says
that `m` is put together from programs that `part` admits, by `pure`, `bind` and `if`, so
that the text is gone through once; what such programs have in common is then a matter of
the parts alone.

* `Composed.within` — where every part keeps to a preorder, the whole does.
* `Composed.stays` — where no part leaves the process, the whole does not.
* `Blind π m` — what `m` returns, how it ends, and what the view `π` shows of the state
  afterwards depends on nothing but what `π` showed before.
* `Composed.blind` — where every part is blind, the whole is.
-/

namespace Outcome

variable {σ τ α : Type}

/-- The ending, with the state seen through `f`. -/
def map (f : σ → τ) : Outcome σ α → Outcome τ α
  | .ret a s => .ret a (f s)
  | .hung s => .hung (f s)
  | .exited c s => .exited c (f s)

@[simp] theorem map_ret (f : σ → τ) (a : α) (s : σ) : (Outcome.ret a s).map f = .ret a (f s) := rfl

@[simp] theorem map_hung (f : σ → τ) (s : σ) : (Outcome.hung s : Outcome σ α).map f = .hung (f s) := rfl

@[simp] theorem map_exited (f : σ → τ) (c : Int) (s : σ) :
    (Outcome.exited c s : Outcome σ α).map f = .exited c (f s) := rfl

theorem ret_of_map {f : σ → τ} {o : Outcome σ α} {a : α} {t : τ} (h : o.map f = .ret a t) :
    ∃ s, o = .ret a s ∧ f s = t := by
  cases o with
  | ret b s =>
    rw [map_ret, ret.injEq] at h
    obtain ⟨rfl, rfl⟩ := h
    exact ⟨s, rfl, rfl⟩
  | hung s => simp at h
  | exited c s => simp at h

end Outcome

namespace Prog

variable {σ τ α β : Type}

/-! ## Composition -/

/-- `m` is put together from parts. -/
inductive Composed (part : (α : Type) → Prog σ α → Prop) : (α : Type) → Prog σ α → Prop
  | of {α : Type} {m : Prog σ α} (h : part α m) : Composed part α m
  | pure {α : Type} (a : α) : Composed part α (pure a)
  | bind {α β : Type} {m : Prog σ α} {f : α → Prog σ β} (hm : Composed part α m)
      (hf : ∀ a, Composed part β (f a)) : Composed part β (m >>= f)
  | ite {α : Type} {c : Prop} [Decidable c] {m m' : Prog σ α} (hm : Composed part α m)
      (hm' : Composed part α m') : Composed part α (if c then m else m')

/-- What keeps to a relation keeps to a weaker one. -/
theorem Within.mono {R R' : σ → σ → Prop} {m : Prog σ α} (h : Within R m)
    (hR : ∀ s s', R s s' → R' s s') : Within R' m := fun s =>
  wp_mono (P := ⟨fun _ => R s, R s, fun _ => R s⟩) (fun _ s' hs => hR s s' hs)
    (fun s' hs => hR s s' hs) (fun _ s' hs => hR s s' hs) (h s)

/-- The program never leaves the process. -/
def Stays (m : Prog σ α) : Prop := ∀ s c s', m s ≠ .exited c s'

theorem Stays.bind {m : Prog σ α} {f : α → Prog σ β} (hm : Stays m) (hf : ∀ a, Stays (f a)) :
    Stays (m >>= f) := by
  intro s c s' h
  rw [bind_apply] at h
  cases hs : m s with
  | ret a t =>
    rw [hs] at h
    exact hf a t c s' h
  | hung t => simp [hs] at h
  | exited d t => exact hm s d t hs

namespace Composed

variable {part : (α : Type) → Prog σ α → Prop} {m : Prog σ α}

/-- Where no part leaves the process, the whole does not. -/
theorem stays (h : Composed part α m) (hpart : ∀ α m, part α m → Stays m) : Stays m := by
  induction h with
  | of h => exact hpart _ _ h
  | pure a => exact fun s c s' h => by simp at h
  | bind _ _ ihm ihf => exact ihm.bind ihf
  | @ite _ c _ _ _ _ _ ihm ihm' =>
    by_cases hc : c
    · rwa [if_pos hc]
    · rwa [if_neg hc]

/-- What every part keeps to, the whole keeps to. -/
theorem within {R : σ → σ → Prop} [IsPreorder σ R] (h : Composed part α m)
    (hpart : ∀ α m, part α m → Within R m) : Within R m := by
  induction h with
  | of h => exact hpart _ _ h
  | pure a => exact .pure a
  | bind _ _ ihm ihf => exact .bind ihm ihf
  | ite _ _ ihm ihm' => exact .ite ihm ihm'

end Composed

/-! ## Blindness -/

/-- Nothing of the run that the view shows depends on what the view does not show. -/
def Blind (π : σ → τ) (m : Prog σ α) : Prop := ∀ s s', π s = π s' → (m s).map π = (m s').map π

namespace Blind

variable {π : σ → τ}

protected theorem pure (a : α) : Blind π (pure a) := fun _ _ h => congrArg (Outcome.ret a) h

protected theorem gets {f : σ → α} (hf : ∀ s s', π s = π s' → f s = f s') : Blind π (gets f) := by
  intro s s' h
  rw [gets_apply, gets_apply, Outcome.map_ret, Outcome.map_ret, hf s s' h, h]

protected theorem modify {f : σ → σ} (hf : ∀ s s', π s = π s' → π (f s) = π (f s')) :
    Blind π (modify f) := fun s s' h => congrArg (Outcome.ret ()) (hf s s' h)

/-- Where the view is itself a state, it is enough to compare with a start in that state. -/
theorem of_view {π : σ → σ} {m : Prog σ α} (h : ∀ s, (m (π s)).map π = (m s).map π) : Blind π m := by
  intro s s' hs
  rw [← h s, ← h s', hs]

protected theorem bind {m : Prog σ α} {f : α → Prog σ β} (hm : Blind π m) (hf : ∀ a, Blind π (f a)) :
    Blind π (m >>= f) := by
  intro s s' h
  have hfirst := hm s s' h
  rw [bind_apply, bind_apply]
  -- the first halves end alike
  cases hs : m s with
  | ret a t =>
    cases hs' : m s' with
    | ret a' t' =>
      rw [hs, hs', Outcome.map_ret, Outcome.map_ret, Outcome.ret.injEq] at hfirst
      obtain ⟨rfl, ht⟩ := hfirst
      exact hf a t t' ht
    | hung t' => simp [hs, hs'] at hfirst
    | exited c t' => simp [hs, hs'] at hfirst
  | hung t =>
    cases hs' : m s' with
    | hung t' =>
      rw [hs, hs', Outcome.map_hung, Outcome.map_hung, Outcome.hung.injEq] at hfirst
      exact congrArg Outcome.hung hfirst
    | ret a' t' => simp [hs, hs'] at hfirst
    | exited c t' => simp [hs, hs'] at hfirst
  | exited c t =>
    cases hs' : m s' with
    | exited c' t' =>
      rw [hs, hs', Outcome.map_exited, Outcome.map_exited, Outcome.exited.injEq] at hfirst
      obtain ⟨rfl, ht⟩ := hfirst
      exact congrArg (Outcome.exited c) ht
    | ret a' t' => simp [hs, hs'] at hfirst
    | hung t' => simp [hs, hs'] at hfirst

protected theorem ite {c : Prop} [Decidable c] {m m' : Prog σ α} (hm : Blind π m)
    (hm' : Blind π m') : Blind π (if c then m else m') := by
  by_cases h : c
  · rwa [if_pos h]
  · rwa [if_neg h]

end Blind

/-- Where every part is blind, the whole is. -/
theorem Composed.blind {part : (α : Type) → Prog σ α → Prop} {m : Prog σ α} {π : σ → τ}
    (h : Composed part α m) (hpart : ∀ α m, part α m → Blind π m) : Blind π m := by
  induction h with
  | of h => exact hpart _ _ h
  | pure a => exact .pure a
  | bind _ _ ihm ihf => exact .bind ihm ihf
  | ite _ _ ihm ihm' => exact .ite ihm ihm'

end Prog
