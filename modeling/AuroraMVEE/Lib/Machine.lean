import Mathlib

/-!
# Machines that take labelled steps

A machine is a step relation with labels; a run is a list of labels with the
states they lead through.  The one theorem a development needs of it is that a
property which holds at the start and is kept by every step holds at the end of
every run (`Machine.Run.invariant`).  `Machine.restrict` keeps the steps that
meet a condition on the state before and the label: its runs are the runs all
of whose steps meet the condition.  Where the condition is exactly what a step
must meet to keep a property, the property holds all along a run exactly if the
run is one of the restricted machine (`Machine.Run.always_iff`, and
`Machine.Run.always_iff_along` with a second property carried along).  The same
goes for what each step does by itself (`Machine.Run.eachStep_iff`).  Two machines are compared step
by step: with the same labels (`Machine.Run.simulates`), or with any number of steps for one
(`Machine.Run.refines`).
-/

/-- A state machine whose steps carry labels. -/
structure Machine (σ ε : Type) where
  /-- `step s e s'`: under the label `e` the machine can go from `s` to `s'`. -/
  step : σ → ε → σ → Prop

namespace Machine

variable {σ ε : Type} {M : Machine σ ε}

/-- The runs of a machine, with their labels in order. -/
inductive Run (M : Machine σ ε) (s : σ) : List ε → σ → Prop
  | nil : Run M s [] s
  | snoc {t u : σ} {es : List ε} {e : ε} : Run M s es t → M.step t e u → Run M s (es ++ [e]) u

/-- The machine with only the steps that meet the condition `ok`. -/
def restrict (M : Machine σ ε) (ok : σ → ε → Prop) : Machine σ ε where
  step s e s' := M.step s e s' ∧ ok s e

/-- The label determines the next state. -/
def Deterministic (M : Machine σ ε) : Prop := ∀ s e t t', M.step s e t → M.step s e t' → t = t'

theorem Deterministic.restrict (h : M.Deterministic) (ok : σ → ε → Prop) :
    (M.restrict ok).Deterministic := fun _ _ _ _ h₁ h₂ => h _ _ _ _ h₁.1 h₂.1

/-- **The invariant rule.**  A property that holds at the start and that every
step keeps holds at the end of every run. -/
theorem Run.invariant {I : σ → Prop} {s u : σ} {es : List ε} (hrun : M.Run s es u) (hs : I s)
    (hstep : ∀ t e t', I t → M.step t e t' → I t') : I u := by
  induction hrun with
  | nil => exact hs
  | snoc _ hlast ih => exact hstep _ _ _ ih hlast

/-- The same for a property that keeps count of the steps taken. -/
theorem Run.invariant_length {I : ℕ → σ → Prop} {s u : σ} {es : List ε} (hrun : M.Run s es u)
    (hs : I 0 s) (hstep : ∀ n t e t', I n t → M.step t e t' → I (n + 1) t') : I es.length u := by
  induction hrun with
  | nil => exact hs
  | snoc _ hlast ih =>
      rw [List.length_append]
      exact hstep _ _ _ _ ih hlast

/-- **The simulation rule.**  If every step is matched by a step of another machine with the
same label, from related states to related states, then so is every run. -/
theorem Run.simulates {τ : Type} {N : Machine τ ε} {R : σ → τ → Prop} {s u : σ} {t : τ}
    {es : List ε} (hrun : M.Run s es u) (hs : R s t)
    (hstep : ∀ s t e s', R s t → M.step s e s' → ∃ t', N.step t e t' ∧ R s' t') :
    ∃ t', N.Run t es t' ∧ R u t' := by
  induction hrun with
  | nil => exact ⟨t, .nil, hs⟩
  | snoc _ hlast ih =>
      obtain ⟨t₁, hrun₁, hR⟩ := ih
      obtain ⟨t₂, hlast₂, hR'⟩ := hstep _ _ _ _ hR hlast
      exact ⟨t₂, .snoc hrun₁ hlast₂, hR'⟩

theorem Run.single {s u : σ} {e : ε} (h : M.step s e u) : M.Run s [e] u := .snoc .nil h

theorem Run.append {s t u : σ} {es fs : List ε} (h : M.Run s es t) (h' : M.Run t fs u) :
    M.Run s (es ++ fs) u := by
  induction h' with
  | nil => simpa using h
  | snoc _ hlast ih =>
      rw [← List.append_assoc]
      exact .snoc ih hlast

/-- **The refinement rule.**  If every step is matched by a run of another machine, from related
states to related states, then so is every run. -/
theorem Run.refines {τ δ : Type} {N : Machine τ δ} {R : σ → τ → Prop} {s u : σ} {t : τ}
    {es : List ε} (hrun : M.Run s es u) (hs : R s t)
    (hstep : ∀ s t e s', R s t → M.step s e s' → ∃ ds t', N.Run t ds t' ∧ R s' t') :
    ∃ ds t', N.Run t ds t' ∧ R u t' := by
  induction hrun with
  | nil => exact ⟨[], t, .nil, hs⟩
  | snoc _ hlast ih =>
      obtain ⟨ds₁, t₁, hrun₁, hR⟩ := ih
      obtain ⟨ds₂, t₂, hrun₂, hR'⟩ := hstep _ _ _ _ hR hlast
      exact ⟨_, t₂, hrun₁.append hrun₂, hR'⟩

/-- The last step of a run. -/
theorem Run.last {s u : σ} {es : List ε} {e : ε} (h : M.Run s (es ++ [e]) u) :
    ∃ t, M.Run s es t ∧ M.step t e u := by
  generalize hfs : es ++ [e] = fs at h
  cases h with
  | nil => exact absurd hfs (by simp)
  | snoc hinit hlast =>
      obtain ⟨rfl, he⟩ := List.append_inj' hfs rfl
      obtain rfl : e = _ := by simpa using he
      exact ⟨_, hinit, hlast⟩

/-- In a machine whose labels determine the next state, they determine the run. -/
theorem Run.unique (hdet : M.Deterministic) {s t t' : σ}
    {es : List ε} (h : M.Run s es t) (h' : M.Run s es t') : t = t' := by
  induction h generalizing t' with
  | nil =>
      generalize hes : ([] : List ε) = es at h'
      cases h' with
      | nil => rfl
      | snoc _ _ => exact absurd hes (by simp)
  | snoc _ hlast ih =>
      obtain ⟨v, hv, hstep⟩ := h'.last
      obtain rfl := ih hv
      exact hdet _ _ _ _ hlast hstep

/-- A run all of whose labels are allowed in any state is a run of the restricted machine. -/
theorem Run.to_restrict {ok : σ → ε → Prop} {s u : σ} {es : List ε} (h : M.Run s es u)
    (hok : ∀ e ∈ es, ∀ t, ok t e) : (M.restrict ok).Run s es u := by
  induction h with
  | nil => exact .nil
  | snoc _ hlast ih =>
      exact .snoc (ih fun e he => hok e (by simp [he])) ⟨hlast, hok _ (by simp) _⟩

/-- A run of the restricted machine is a run of the machine. -/
theorem Run.of_restrict {ok : σ → ε → Prop} {s u : σ} {es : List ε}
    (h : (M.restrict ok).Run s es u) : M.Run s es u := by
  induction h with
  | nil => exact .nil
  | snoc _ hlast ih => exact .snoc ih hlast.1

/-- Every state the labels lead through has the property. -/
def Always (M : Machine σ ε) (I : σ → Prop) (s : σ) (es : List ε) : Prop :=
  ∀ fs t, fs <+: es → M.Run s fs t → I t

/-- **The exactness rule.**  If each step keeps `I` exactly where it is `ok`, as long as `I`
has held and with it what the steps that keep `I` keep besides, then `I` holds all along a
run exactly if every step of the run is `ok`. -/
theorem Run.always_iff_along (hdet : M.Deterministic) {I J : σ → Prop}
    {ok : σ → ε → Prop} {s u : σ} {es : List ε} (hrun : M.Run s es u) (hs : I s) (hj : J s)
    (hkeep : ∀ t e t', I t → J t → M.step t e t' → I t' → J t')
    (hstep : ∀ t e t', I t → J t → M.step t e t' → (I t' ↔ ok t e)) :
    M.Always I s es ↔ (M.restrict ok).Run s es u := by
  -- along such a run the rest holds too
  have hrest : ∀ {fs t}, M.Run s fs t → M.Always I s fs → J t := by
    intro fs t hr
    induction hr with
    | nil => exact fun _ => hj
    | snoc hinit hlast ih =>
        intro h
        have hbefore := ih fun fs t hfs hr => h fs t (hfs.trans (List.prefix_append _ _)) hr
        exact hkeep _ _ _ (h _ _ (List.prefix_append _ _) hinit) hbefore hlast
          (h _ _ (List.prefix_refl _) (.snoc hinit hlast))
  induction hrun with
  | nil =>
      refine ⟨fun _ => .nil, fun _ fs t hfs hr => ?_⟩
      obtain rfl := List.prefix_nil.1 hfs
      exact hr.unique hdet .nil ▸ hs
  | snoc hinit hlast ih =>
      constructor
      · intro h
        have hbefore : M.Always I s _ := fun fs t hfs hr =>
          h fs t (hfs.trans (List.prefix_append _ _)) hr
        have ht := h _ _ (List.prefix_append _ _) hinit
        have hu := h _ _ (List.prefix_refl _) (.snoc hinit hlast)
        exact .snoc (ih.1 hbefore) ⟨hlast, (hstep _ _ _ ht (hrest hinit hbefore) hlast).1 hu⟩
      · intro h fs v hfs hr
        obtain ⟨t, hinit', hlast', hok⟩ := h.last
        obtain rfl := hinit'.of_restrict.unique hdet hinit
        have hbefore := ih.2 hinit'
        rcases List.prefix_concat_iff.1 hfs with rfl | hfs
        · obtain rfl := hr.unique hdet (.snoc hinit hlast)
          exact (hstep _ _ _ (hbefore _ _ (List.prefix_refl _) hinit) (hrest hinit hbefore) hlast).2
            hok
        · exact hbefore fs v hfs hr

/-- The same, where nothing else is needed. -/
theorem Run.always_iff (hdet : M.Deterministic) {I : σ → Prop}
    {ok : σ → ε → Prop} {s u : σ} {es : List ε} (hrun : M.Run s es u) (hs : I s)
    (hstep : ∀ t e t', I t → M.step t e t' → (I t' ↔ ok t e)) :
    M.Always I s es ↔ (M.restrict ok).Run s es u :=
  hrun.always_iff_along hdet (J := fun _ => True) hs trivial (fun _ _ _ _ _ _ _ => trivial)
    fun t e t' ht _ => hstep t e t' ht

/-! ## Properties of the steps -/

/-- Every step that the labels lead through has the property. -/
def EachStep (M : Machine σ ε) (P : σ → ε → σ → Prop) (s : σ) (es : List ε) : Prop :=
  ∀ fs e t t', fs ++ [e] <+: es → M.Run s fs t → M.step t e t' → P t e t'

/-- **The exactness rule for steps.**  If a step has the property exactly where it is `ok`, then
all steps of a run have it exactly if each of them is. -/
theorem Run.eachStep_iff (hdet : M.Deterministic) {P : σ → ε → σ → Prop} {ok : σ → ε → Prop}
    {s u : σ} {es : List ε} (hrun : M.Run s es u)
    (hstep : ∀ t e t', M.step t e t' → (P t e t' ↔ ok t e)) :
    M.EachStep P s es ↔ (M.restrict ok).Run s es u := by
  induction hrun with
  | nil => exact ⟨fun _ => .nil, fun _ fs e t t' h => absurd h (by simp)⟩
  | snoc hinit hlast ih =>
      constructor
      · intro h
        have hbefore : M.EachStep P s _ := fun fs e t t' hfs =>
          h fs e t t' (hfs.trans (List.prefix_append _ _))
        have hdone := h _ _ _ _ (List.prefix_refl _) hinit hlast
        exact .snoc (ih.1 hbefore) ⟨hlast, (hstep _ _ _ hlast).1 hdone⟩
      · intro h fs e v v' hfs hr hs
        obtain ⟨t, hinit', hlast', hok⟩ := h.last
        obtain rfl := hinit'.of_restrict.unique hdet hinit
        rcases List.prefix_concat_iff.1 hfs with heq | hfs
        · obtain ⟨rfl, he⟩ := List.append_inj' heq rfl
          obtain rfl : e = _ := by simpa using he
          obtain rfl := hr.unique hdet hinit
          exact (hstep _ _ _ hs).2 hok
        · exact ih.2 hinit' fs e v v' hfs hr hs

/-- A run, and what its steps add up to. -/
inductive Total (M : Machine σ ε) (amount : σ → ε → ℕ) (s : σ) : List ε → σ → ℕ → Prop
  | nil : Total M amount s [] s 0
  | snoc {t u : σ} {es : List ε} {e : ε} {n : ℕ} :
      Total M amount s es t n → M.step t e u → Total M amount s (es ++ [e]) u (n + amount t e)

theorem Total.run {amount : σ → ε → ℕ} {s t : σ} {es : List ε} {n : ℕ}
    (h : M.Total amount s es t n) : M.Run s es t := by
  induction h with
  | nil => exact .nil
  | snoc _ hlast ih => exact .snoc ih hlast

/-- A counter that each step moves by its amount has moved by the total. -/
theorem Total.counter {amount : σ → ε → ℕ} {count : σ → ℕ} {s t : σ} {es : List ε} {n : ℕ}
    (h : M.Total amount s es t n)
    (hstep : M.EachStep (fun t e u => count u = count t + amount t e) s es) :
    count t = count s + n := by
  induction h with
  | nil => rfl
  | snoc hinit hlast ih =>
      have hbefore := ih fun fs e t u hfs => hstep fs e t u (hfs.trans (List.prefix_append _ _))
      rw [hstep _ _ _ _ (List.prefix_refl _) hinit.run hlast, hbefore, Nat.add_assoc]

end Machine
