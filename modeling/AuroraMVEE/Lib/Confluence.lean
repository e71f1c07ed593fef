import AuroraMVEE.Lib.Machine

/-!
# Machines whose steps can be reordered

Where two steps from one state lead to the same state, or to states that one further
step each brings together again, it does not matter in which order things happen.

* `Diamond` — the condition, on the states that an invariant holds of.
* `Diamond.join` — any two runs from one state can be continued to a common one, after equally
  many steps on both sides.
* `Diamond.descent` — if one run has come to a state without a step, every other is on its way to
  the same state, and comes there after as many steps.
-/

namespace Machine

variable {σ ε : Type} {M : Machine σ ε} {I : σ → Prop}

/-- Two steps from a state with `I` lead to the same state, or can be joined by one more each. -/
def Diamond (M : Machine σ ε) (I : σ → Prop) : Prop :=
  ∀ s e f a b, I s → M.step s e a → M.step s f b → a = b ∨ ∃ e' f' c, M.step a f' c ∧ M.step b e' c

/-- A state without a step has no run but the empty one. -/
theorem Run.eq_of_final {s t : σ} {es : List ε} (h : M.Run s es t) (hs : ∀ e u, ¬ M.step s e u) :
    t = s ∧ es = [] := by
  induction h with
  | nil => exact ⟨rfl, rfl⟩
  | snoc _ hlast ih =>
      obtain ⟨rfl, -⟩ := ih
      exact absurd hlast (hs _ _)

section

variable (hdiamond : M.Diamond I) (hkeep : ∀ s e t, I s → M.step s e t → I t)

include hdiamond hkeep

/-- One step against a run: the run passes through it, or it is still to be made at its end. -/
theorem Diamond.strip {s a b : σ} {e : ε} {fs : List ε} (hs : I s) (hstep : M.step s e a)
    (hrun : M.Run s fs b) :
    (∃ gs, M.Run a gs b ∧ 1 + gs.length = fs.length) ∨
      ∃ gs h c, M.Run a gs c ∧ M.step b h c ∧ gs.length = fs.length := by
  induction hrun with
  | nil => exact .inr ⟨[], e, a, .nil, hstep, rfl⟩
  | snoc hinit hlast ih =>
      rcases ih with ⟨gs, hgs, hlen⟩ | ⟨gs, h, c, hgs, hc, hlen⟩
      · refine .inl ⟨_, .snoc hgs hlast, ?_⟩
        simp only [List.length_append, List.length_singleton]
        omega
      · have ht := hinit.invariant hs hkeep
        rcases hdiamond _ _ _ _ _ ht hc hlast with rfl | ⟨e', f', d, hcd, hbd⟩
        · refine .inl ⟨gs, hgs, ?_⟩
          simp only [List.length_append, List.length_singleton]
          omega
        · refine .inr ⟨_, e', d, .snoc hgs hcd, hbd, ?_⟩
          simp only [List.length_append, List.length_singleton]
          omega

/-- **Two runs from one state can be joined**, after equally many steps on both sides. -/
theorem Diamond.join {s a b : σ} {es fs : List ε} (hs : I s) (ha : M.Run s es a)
    (hb : M.Run s fs b) :
    ∃ es' fs' c, M.Run a es' c ∧ M.Run b fs' c ∧ es.length + es'.length = fs.length + fs'.length := by
  induction ha with
  | nil => exact ⟨fs, [], b, hb, .nil, by simp⟩
  | snoc hinit hlast ih =>
      obtain ⟨gs, hs', c, hgs, hbc, hlen⟩ := ih
      have ht := hinit.invariant hs hkeep
      rcases hdiamond.strip hkeep ht hlast hgs with ⟨ks, hks, hlen'⟩ | ⟨ks, h, d, hks, hcd, hlen'⟩
      · refine ⟨ks, hs', c, hks, hbc, ?_⟩
        simp only [List.length_append, List.length_singleton]
        omega
      · refine ⟨ks, hs' ++ [h], d, hks, .snoc hbc hcd, ?_⟩
        simp only [List.length_append, List.length_singleton]
        omega

/-- **Every run descends to the same end.**  If one run has come to a state without a step, any
other can be continued to that state, and has then as many steps. -/
theorem Diamond.descent {s a b : σ} {es fs : List ε} (hs : I s) (ha : M.Run s es a)
    (hfinal : ∀ e u, ¬ M.step a e u) (hb : M.Run s fs b) :
    ∃ fs', M.Run b fs' a ∧ es.length = fs.length + fs'.length := by
  obtain ⟨es', fs', c, hac, hbc, hlen⟩ := hdiamond.join hkeep hs ha hb
  obtain ⟨rfl, rfl⟩ := hac.eq_of_final hfinal
  exact ⟨fs', hbc, by simpa using hlen⟩

end

end Machine
