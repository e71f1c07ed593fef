import AuroraMVEE.Service
import AuroraMVEE.Compare

/-!
# Nothing is released before the verdict

An executor that finds the two calls different should refuse with both variants
still at their entry stops, and nothing changed.  All of them do that but two:
`rseq` and `fadvise64` resume both variants and return `-1` afterwards
(`refuses_untouched_iff`).
-/

namespace Aurora

variable {ρ : Type}

/-- The executor refused, and neither variant nor the mapping table has changed. -/
def RefusesUntouched (K : Kernel ρ) (c : Syscall) (w : World ρ) : Prop :=
  ∃ w', execSyscall K c w = .ret (-1) w' ∧ w'.proc = w.proc ∧ w'.mappings = w.mappings

/-- The scalars that `rseq` and `fadvise64` compare. -/
def scalarsCompared : Syscall → List (Fin 6)
  | .rseq => [1, 2, 3]
  | .fadvise64 => [0, 1, 2, 3]
  | _ => []

/-- What all executors but `rseq` and `fadvise64` have in common: they compare, and only
then go on; or they compare nothing. -/
theorem execSyscall_shape (K : Kernel ρ) {c : Syscall} (h : c ≠ .rseq) (h' : c ≠ .fadvise64) :
    (∃ body, execSyscall K c = guarded (verdict c) body) ∨
      (verdict c : Mon ρ Bool) = (do return true) := by
  cases c
  case rseq => exact absurd rfl h
  case fadvise64 => exact absurd rfl h'
  case getuid | geteuid | getgid | getegid | brk | set_robust_list | set_tid_address | getpid =>
    exact .inr rfl
  all_goals exact .inl ⟨_, rfl⟩

/-- A failed comparison leaves the variants and the table alone, unless it is one of
the two that have released them already. -/
theorem refusesUntouched_of_verdict (K : Kernel ρ) {c : Syscall} {w w' : World ρ} (h : c ≠ .rseq)
    (h' : c ≠ .fadvise64) (hv : verdict c w = .ret false w') : RefusesUntouched K c w := by
  rcases execSyscall_shape K h h' with ⟨body, hbody⟩ | hnone
  · obtain ⟨b, β, hβ⟩ := readOnly_verdict c w
    obtain ⟨rfl, rfl⟩ : false = b ∧ w' = w.withBufs β := by simpa using hv.symm.trans hβ
    exact ⟨w.withBufs β, by rw [hbody, guarded_false hv], rfl, rfl⟩
  · rw [hnone] at hv
    exact absurd hv (by simp)

/-- `rseq` and `fadvise64` move a variant that stands at its entry stop. -/
theorem released_first {eq : Mon ρ Bool} (heq : ReadOnly eq) {w : World ρ} (hw : (w.ctl .master).AtEntry)
    {r : Int} {w' : World ρ} (hrun : (do
      let e ← eq
      resumeVariantFromWait .master
      resumeVariantFromWait .replica
      return if e then 0 else -1 : Mon ρ Int) w = .ret r w') : w'.proc ≠ w.proc := by
  obtain ⟨b, β, hβ⟩ := heq w
  rw [Prog.bind_of_ret hβ] at hrun
  have hw' : w' = _ := (Outcome.ret.inj hrun).2.symm
  intro hproc
  have hmaster : w'.proc .master = (w.proc .master).resume := by
    rw [hw']
    simp
  have hstop := stopped_of_atEntry hw
  have hres := Tracee.resume_entry (show (w.proc .master).loc = .entry from hw.loc) hstop
  have hloc := congrArg Tracee.loc ((hmaster.symm.trans (congrFun hproc .master)).symm.trans hres)
  exact absurd ((show (w.proc .master).loc = .entry from hw.loc).symm.trans hloc) (by simp)

/-- **Nothing is released before the verdict.**  With both variants at their entry
stops, a failed comparison refuses and changes nothing, if and only if it is not the
comparison of a `rseq` or `fadvise64` whose scalars differ. -/
theorem refuses_untouched_iff (K : Kernel ρ) (c : Syscall) {w : World ρ}
    (hw : ∀ v, (w.ctl v).AtEntry) :
    (∀ w', verdict c w = .ret false w' → RefusesUntouched K c w) ↔
      (c = .rseq ∨ c = .fadvise64 → w.SameArgs (scalarsCompared c)) := by
  have hfirst : ∀ ks, (verdict c : Mon ρ Bool) = argsEq ks → execSyscall K c = (do
      let e ← argsEq ks
      resumeVariantFromWait .master
      resumeVariantFromWait .replica
      return if e then 0 else -1 : Mon ρ Int) →
      ((∀ w', verdict c w = .ret false w' → RefusesUntouched K c w) ↔ w.SameArgs ks) := by
    intro ks hv hexec
    constructor
    · intro h
      by_contra hdiff
      obtain ⟨β, hfalse⟩ := (decides_argsEq ks w).ret_false hdiff
      obtain ⟨w', hrun, hproc, -⟩ := h _ (by rw [hv, hfalse])
      rw [hexec] at hrun
      exact released_first (.gets _) (hw .master) hrun hproc
    · intro hsame w' hfalse
      rw [hv] at hfalse
      exact absurd (((decides_argsEq ks w).iff_of_ret hfalse).2 hsame) (by decide)
  by_cases hr : c = .rseq
  · subst hr
    simpa [scalarsCompared] using hfirst [1, 2, 3] rfl rfl
  by_cases hf : c = .fadvise64
  · subst hf
    simpa [scalarsCompared] using hfirst [0, 1, 2, 3] rfl rfl
  · exact ⟨fun _ h => absurd h (by simp [hr, hf]), fun _ w' hv =>
      refusesUntouched_of_verdict K hr hf hv⟩

/-! ## Two calls of `rseq` that differ -/

/-- A `rseq` whose length is 32 in the master and 0 in the replica. -/
def rseqDiffers : World Unit :=
  .standing (fun v => callRegs Syscall.rseq.nr ![0, if v = .master then 32 else 0, 0, 0, 0, 0])
    (fun _ _ => none) ()

/-- The comparison fails, `-1` is returned, and both kernels are at work. -/
theorem rseq_released :
    (∃ w, verdict .rseq rseqDiffers = .ret false w) ∧
      ∃ w, execSyscall (.returning 0) .rseq rseqDiffers = .ret (-1) w ∧
        ∀ v, (w.proc v).loc = .kernel := by
  exact ⟨⟨_, Outcome.eq_ret_of_val? (by decide +kernel)⟩,
    _, Outcome.eq_ret_of_val? (by decide +kernel), Who.forall_iff.2 (by decide +kernel)⟩

/-- So the equivalence gives what it says here: the scalars differ. -/
theorem refuses_untouched_rseq : ¬ ∀ w', verdict .rseq rseqDiffers = .ret false w' →
    RefusesUntouched (.returning 0) .rseq rseqDiffers := fun h =>
  absurd ((refuses_untouched_iff (.returning 0) .rseq (atEntry_standing _ _ _)).1 h (.inl rfl))
    (by decide)

end Aurora
