import Mathlib

/-!
# Sequential programs with a blocking call and an early exit

A program over a state type `σ` either returns a value, blocks for ever in a
system call that cannot come back, or leaves the whole process.  Nothing here
mentions a particular program: the file fixes the monad, the weakest
precondition `wp` with one postcondition for each of the three endings, and the
rules by which a development computes it.

* `Prog`, `Outcome` — programs and the ways a run ends; `Prog` is a lawful
  monad, so `do` blocks mean what they say.
* `wp` — the weakest precondition of a `Post`, with `wp_bind` and `wp_mono`.
* `Keeps π m` — `m` returns and does not change the view `π` of the state; `KeepsOr E π m` if
  it may also leave the process with a code in `E`.
* `Within R m` — however `m` ends, `R` leads from the state before to the state after; `Frame π m`
  where the view `π` is what it was.
* `Via π c m P` — reasoning through a view: from every state seen as `c` the
  program meets `P`, where `P` too speaks of the view only.  This is how a
  large state is hidden from an argument that needs a small part of it.
-/

/-- How a run of a program ends. -/
inductive Outcome (σ α : Type) where
  /-- It returned `a` in state `s`. -/
  | ret (a : α) (s : σ)
  /-- It blocked in a call that cannot return. -/
  | hung (s : σ)
  /-- It left the process with an exit code. -/
  | exited (code : Int) (s : σ)

/-- A program: a state transformer with three endings. -/
def Prog (σ α : Type) : Type := σ → Outcome σ α

namespace Outcome

variable {σ α : Type}

/-- The state in which the run ended, whichever way it ended. -/
def state : Outcome σ α → σ
  | .ret _ s => s
  | .hung s => s
  | .exited _ s => s

/-- The value it returned, if it did. -/
def val? : Outcome σ α → Option α
  | .ret a _ => some a
  | _ => none

theorem eq_ret_of_val? {o : Outcome σ α} {a : α} (h : o.val? = some a) : o = .ret a o.state := by
  cases o with
  | ret b s => exact congrArg (Outcome.ret · s) (Option.some.inj h)
  | hung s => exact absurd h (by simp [val?])
  | exited code s => exact absurd h (by simp [val?])

/-- Did the run block? -/
def isHung : Outcome σ α → Bool
  | .hung _ => true
  | _ => false

theorem isHung_eq_false_iff {o : Outcome σ α} : o.isHung = false ↔ ∀ s, o ≠ .hung s := by
  cases o with
  | ret a s => simp [isHung]
  | hung s => simp [isHung]
  | exited code s => simp [isHung]

end Outcome

namespace Prog

variable {σ τ α β : Type}

instance : Monad (Prog σ) where
  pure a := fun s => .ret a s
  bind m f := fun s => match m s with
    | .ret a s' => f a s'
    | .hung s' => .hung s'
    | .exited c s' => .exited c s'

@[simp] theorem pure_apply (a : α) (s : σ) : (pure a : Prog σ α) s = .ret a s := rfl

theorem bind_apply (m : Prog σ α) (f : α → Prog σ β) (s : σ) :
    (m >>= f) s = match m s with
      | .ret a s' => f a s'
      | .hung s' => .hung s'
      | .exited c s' => .exited c s' := rfl

/-- A program that returned hands its value and state to the rest. -/
theorem bind_of_ret {m : Prog σ α} {s s' : σ} {a : α} (h : m s = .ret a s') (f : α → Prog σ β) :
    (m >>= f) s = f a s' := by
  rw [bind_apply, h]

theorem id_map_eq (x : Prog σ α) : id <$> x = x := by
  funext s
  show (x >>= fun a => pure (id a)) s = x s
  rw [bind_apply]
  cases x s <;> rfl

theorem bind_assoc_eq {γ : Type} (x : Prog σ α) (f : α → Prog σ β) (g : β → Prog σ γ) :
    x >>= f >>= g = x >>= fun a => f a >>= g := by
  funext s
  simp only [bind_apply]
  cases x s <;> rfl

instance : LawfulMonad (Prog σ) :=
  LawfulMonad.mk' (Prog σ) id_map_eq (fun _ _ => rfl) bind_assoc_eq

/-- Change the state and return nothing. -/
def modify (f : σ → σ) : Prog σ Unit := fun s => .ret () (f s)

/-- Look at the state. -/
def gets (f : σ → α) : Prog σ α := fun s => .ret (f s) s

@[simp] theorem modify_apply (f : σ → σ) (s : σ) : modify f s = .ret () (f s) := rfl

@[simp] theorem gets_apply (f : σ → α) (s : σ) : gets f s = .ret (f s) s := rfl

/-! ## Weakest preconditions -/

/-- A postcondition: one condition for each way a run can end. -/
structure Post (σ α : Type) where
  ret : α → σ → Prop
  hung : σ → Prop
  exited : Int → σ → Prop

/-- The ending `o` meets the postcondition. -/
def Post.holds (P : Post σ α) : Outcome σ α → Prop
  | .ret a s => P.ret a s
  | .hung s => P.hung s
  | .exited c s => P.exited c s

/-- The states from which `m` ends as `P` asks. -/
def wp (m : Prog σ α) (P : Post σ α) (s : σ) : Prop := P.holds (m s)

/-- The postcondition of the first half of a sequence. -/
def Post.andThen (P : Post σ β) (f : α → Prog σ β) : Post σ α where
  ret a s := wp (f a) P s
  hung := P.hung
  exited := P.exited

theorem wp_bind (m : Prog σ α) (f : α → Prog σ β) (P : Post σ β) (s : σ) :
    wp (m >>= f) P s ↔ wp m (P.andThen f) s := by
  unfold wp
  rw [bind_apply]
  cases m s <;> rfl

theorem wp_mono {m : Prog σ α} {P Q : Post σ α} {s : σ} (hr : ∀ a s, P.ret a s → Q.ret a s)
    (hh : ∀ s, P.hung s → Q.hung s) (he : ∀ c s, P.exited c s → Q.exited c s)
    (h : wp m P s) : wp m Q s := by
  unfold wp Post.holds at *
  cases hm : m s with
  | ret a s' => rw [hm] at h; exact hr a s' h
  | hung s' => rw [hm] at h; exact hh s' h
  | exited c s' => rw [hm] at h; exact he c s' h

/-- To run `m` from `s` is to meet the postcondition that pins its ending down. -/
theorem wp_of_eq_ret {m : Prog σ α} {P : Post σ α} {s s' : σ} {a : α} (h : m s = .ret a s')
    (hP : P.ret a s') : wp m P s := by
  unfold wp
  rw [h]
  exact hP

theorem ret_of_wp {m : Prog σ α} {P : Post σ α} {s s' : σ} {a : α} (hw : wp m P s)
    (h : m s = .ret a s') : P.ret a s' := by
  unfold wp at hw
  rwa [h] at hw

theorem hung_of_wp {m : Prog σ α} {P : Post σ α} {s s' : σ} (hw : wp m P s)
    (h : m s = .hung s') : P.hung s' := by
  unfold wp at hw
  rwa [h] at hw

theorem exited_of_wp {m : Prog σ α} {P : Post σ α} {s s' : σ} {c : Int} (hw : wp m P s)
    (h : m s = .exited c s') : P.exited c s' := by
  unfold wp at hw
  rwa [h] at hw

/-- What the postcondition says of every ending holds in the state the run ends in. -/
theorem state_of_wp {m : Prog σ α} {P : Post σ α} {Q : σ → Prop} {s : σ} (hw : wp m P s)
    (hr : ∀ a s', P.ret a s' → Q s') (hh : ∀ s', P.hung s' → Q s')
    (he : ∀ c s', P.exited c s' → Q s') : Q (m s).state := by
  cases hm : m s with
  | ret a s' => exact hr a s' (ret_of_wp hw hm)
  | hung s' => exact hh s' (hung_of_wp hw hm)
  | exited c s' => exact he c s' (exited_of_wp hw hm)

/-- A program that can only return `a` does. -/
theorem val?_of_wp {m : Prog σ α} {s : σ} {a : α}
    (h : wp m ⟨fun b _ => b = a, fun _ => False, fun _ _ => False⟩ s) : (m s).val? = some a := by
  cases hm : m s with
  | ret b s' => exact congrArg some (ret_of_wp h hm)
  | hung s' => exact (hung_of_wp h hm).elim
  | exited c s' => exact (exited_of_wp h hm).elim

/-! ## Reasoning through a view of the state -/

/-- `m` returns, and the view `π` of the state is what it was. -/
def Keeps (π : σ → τ) (m : Prog σ α) : Prop :=
  ∀ s, ∃ a s', m s = .ret a s' ∧ π s' = π s

theorem keeps_pure (π : σ → τ) (a : α) : Keeps π (pure a) := fun s => ⟨a, s, rfl, rfl⟩

theorem keeps_gets (π : σ → τ) (f : σ → α) : Keeps π (gets f) := fun s => ⟨f s, s, rfl, rfl⟩

theorem keeps_modify {π : σ → τ} {f : σ → σ} (h : ∀ s, π (f s) = π s) : Keeps π (modify f) :=
  fun s => ⟨(), f s, rfl, h s⟩

theorem Keeps.bind {π : σ → τ} {m : Prog σ α} {f : α → Prog σ β} (hm : Keeps π m)
    (hf : ∀ a, Keeps π (f a)) : Keeps π (m >>= f) := by
  intro s
  obtain ⟨a, s', h, hπ⟩ := hm s
  obtain ⟨b, s'', h', hπ'⟩ := hf a s'
  exact ⟨b, s'', by rw [bind_of_ret h, h'], hπ'.trans hπ⟩

theorem Keeps.ite {π : σ → τ} {c : Prop} [Decidable c] {m m' : Prog σ α} (hm : Keeps π m)
    (hm' : Keeps π m') : Keeps π (if c then m else m') := by
  by_cases h : c
  · rwa [if_pos h]
  · rwa [if_neg h]

/-- `m` leaves the view `π` of the state alone, and returns or leaves the process with a code
in `E`. -/
def KeepsOr (E : Set Int) (π : σ → τ) (m : Prog σ α) : Prop :=
  ∀ s, ∃ s', π s' = π s ∧ ((∃ a, m s = .ret a s') ∨ ∃ c ∈ E, m s = .exited c s')

theorem Keeps.orExits {π : σ → τ} {m : Prog σ α} (h : Keeps π m) (E : Set Int) : KeepsOr E π m := by
  intro s
  obtain ⟨a, s', hm, hπ⟩ := h s
  exact ⟨s', hπ, .inl ⟨a, hm⟩⟩

theorem KeepsOr.bind {E : Set Int} {π : σ → τ} {m : Prog σ α} {f : α → Prog σ β}
    (hm : KeepsOr E π m) (hf : ∀ a, KeepsOr E π (f a)) : KeepsOr E π (m >>= f) := by
  intro s
  obtain ⟨s', hπ, ⟨a, h⟩ | ⟨c, hc, h⟩⟩ := hm s
  · obtain ⟨s'', hπ', hend⟩ := hf a s'
    rw [bind_of_ret h]
    exact ⟨s'', hπ'.trans hπ, hend⟩
  · exact ⟨s', hπ, .inr ⟨c, hc, by rw [bind_apply, h]⟩⟩

theorem KeepsOr.ite {E : Set Int} {π : σ → τ} {c : Prop} [Decidable c] {m m' : Prog σ α}
    (hm : c → KeepsOr E π m) (hm' : ¬ c → KeepsOr E π m') : KeepsOr E π (if c then m else m') := by
  by_cases h : c
  · rw [if_pos h]; exact hm h
  · rw [if_neg h]; exact hm' h

/-- However the run ends, the view `π` is what it was at `s`. -/
def Post.kept (π : σ → τ) (s : σ) : Post σ α where
  ret _ s' := π s' = π s
  hung s' := π s' = π s
  exited _ s' := π s' = π s

/-- However `m` ends, the view `π` is what it was. -/
def Frame (π : σ → τ) (m : Prog σ α) : Prop := ∀ s, wp m (.kept π s) s

/-- However `m` ends, `R` leads from the state it started in to the one it ends in. -/
def Within (R : σ → σ → Prop) (m : Prog σ α) : Prop :=
  ∀ s, wp m ⟨fun _ => R s, R s, fun _ => R s⟩ s

namespace Within

variable {R : σ → σ → Prop}

theorem of_apply {m : Prog σ α} (h : ∀ s, ∃ a s', m s = .ret a s' ∧ R s s') : Within R m := fun s => by
  obtain ⟨a, s', hm, hR⟩ := h s
  exact wp_of_eq_ret hm hR

theorem modify {f : σ → σ} (h : ∀ s, R s (f s)) : Within R (modify f) := fun s => h s

protected theorem pure [Std.Refl R] (a : α) : Within R (pure a) := fun s => Std.Refl.refl s

protected theorem gets [Std.Refl R] (f : σ → α) : Within R (gets f) := fun s => Std.Refl.refl s

protected theorem bind [IsTrans σ R] {m : Prog σ α} {f : α → Prog σ β} (hm : Within R m)
    (hf : ∀ a, Within R (f a)) : Within R (m >>= f) := fun s => by
  rw [wp_bind]
  refine wp_mono (P := ⟨fun _ => R s, R s, fun _ => R s⟩) (fun a s' hs => ?_)
    (fun s' hs => hs) (fun _ s' hs => hs) (hm s)
  exact wp_mono (P := ⟨fun _ => R s', R s', fun _ => R s'⟩)
    (fun b s'' hs' => IsTrans.trans _ _ _ hs hs') (fun s'' hs' => IsTrans.trans _ _ _ hs hs')
    (fun _ s'' hs' => IsTrans.trans _ _ _ hs hs') (hf a s')

protected theorem ite {c : Prop} [Decidable c] {m m' : Prog σ α} (hm : Within R m)
    (hm' : Within R m') : Within R (if c then m else m') := by
  by_cases h : c
  · rwa [if_pos h]
  · rwa [if_neg h]

theorem of_ret {m : Prog σ α} {s s' : σ} {a : α} (h : Within R m) (hm : m s = .ret a s') : R s s' :=
  ret_of_wp (h s) hm

theorem of_hung {m : Prog σ α} {s s' : σ} (h : Within R m) (hm : m s = .hung s') : R s s' :=
  hung_of_wp (h s) hm

theorem of_exited {m : Prog σ α} {s s' : σ} {c : Int} (h : Within R m) (hm : m s = .exited c s') :
    R s s' := exited_of_wp (h s) hm

/-- Whatever the ending. -/
theorem state {m : Prog σ α} (h : Within R m) (s : σ) : R s (m s).state :=
  state_of_wp (h s) (fun _ _ hs => hs) (fun _ hs => hs) fun _ _ hs => hs

end Within

/-- A frame is what lies within equality of the view. -/
theorem frame_iff_within {π : σ → τ} {m : Prog σ α} :
    Frame π m ↔ Within (fun s s' => π s' = π s) m := Iff.rfl

/-- From every state seen as `c` the program meets `P`, a postcondition on the view. -/
def Via (π : σ → τ) (c : τ) (m : Prog σ α) (P : Post τ α) : Prop :=
  ∀ s, π s = c → wp m ⟨fun a s' => P.ret a (π s'), fun s' => P.hung (π s'),
    fun code s' => P.exited code (π s')⟩ s

section Via

variable {π : σ → τ} {c c' : τ} {P : Post τ β}

theorem Via.pure {b : β} (h : P.ret b c) : Via π c (pure b) P := by
  rintro s rfl
  exact h

theorem Via.keeps {m : Prog σ α} {f : α → Prog σ β} (hm : Keeps π m)
    (hf : ∀ a, Via π c (f a) P) : Via π c (m >>= f) P := by
  rintro s rfl
  obtain ⟨a, s', h, hπ⟩ := hm s
  rw [wp_bind]
  exact wp_of_eq_ret h (hf a s' hπ)

/-- The rule for a step that may leave the process. -/
theorem Via.keepsOr {E : Set Int} {m : Prog σ α} {f : α → Prog σ β} (hm : KeepsOr E π m)
    (hexit : ∀ code ∈ E, P.exited code c) (hf : ∀ a, Via π c (f a) P) : Via π c (m >>= f) P := by
  rintro s rfl
  obtain ⟨s', hπ, ⟨a, h⟩ | ⟨code, hcode, h⟩⟩ := hm s
  · rw [wp_bind]
    exact wp_of_eq_ret h (hf a s' hπ)
  · unfold wp
    rw [bind_apply, h]
    show P.exited code (π s')
    rw [hπ]
    exact hexit code hcode

theorem Via.ite {b : Prop} [Decidable b] {m m' : Prog σ β} (hm : b → Via π c m P)
    (hm' : ¬ b → Via π c m' P) : Via π c (if b then m else m') P := by
  by_cases h : b
  · rw [if_pos h]; exact hm h
  · rw [if_neg h]; exact hm' h

/-- The rule for a step with several endings: each is met by the rest. -/
theorem Via.bind {m : Prog σ α} {f : α → Prog σ β} {R : Post τ α} (hm : Via π c m R)
    (hret : ∀ a c', R.ret a c' → Via π c' (f a) P) (hhung : ∀ c', R.hung c' → P.hung c')
    (hexit : ∀ code c', R.exited code c' → P.exited code c') : Via π c (m >>= f) P := by
  intro s hs
  rw [wp_bind]
  exact wp_mono (fun a s' h => hret a _ h s' rfl) (fun s' h => hhung _ h)
    (fun code s' h => hexit code _ h) (hm s hs)

/-- What holds of the view at every ending holds of it in the state the run ends in. -/
theorem Via.state {m : Prog σ β} {Q : τ → Prop}
    (h : Via π c m ⟨fun _ => Q, Q, fun _ => Q⟩) {s : σ} (hs : π s = c) : Q (π (m s).state) :=
  state_of_wp (h s hs) (fun _ _ h => h) (fun _ h => h) fun _ _ h => h

end Via

end Prog
