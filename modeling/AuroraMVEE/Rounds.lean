import AuroraMVEE.Served
import AuroraMVEE.Verdicts
import AuroraMVEE.Lib.Machine

/-!
# Calls in sequence

For what a sequence of calls does to the kernel's own state, the schedule between two
rendezvous does not matter.  A round takes the two variants from their entry stops,
with any registers and memories, through an executor that accepts the call, and lets
each kernel that is still at work finish, in either order.  `rounds` is the machine of
these, over any kernel state; what a particular kernel does is left to the theorems
that use it.
-/

namespace Aurora

variable {ρ : Type}

/-- A call the two variants come to make, and the kernel it is made under. -/
structure Round (ρ : Type) where
  call : Syscall
  kernel : Kernel ρ
  regs : Who → Regs
  mem : Who → Mem
  /-- The variant whose kernel is done first, where both are still at work. -/
  first : Who

/-- Both variants come to an entry stop, and the monitor has seen both stops. -/
def World.arriveAt (w : World ρ) (regs : Who → Regs) (mem : Who → Mem) : World ρ :=
  { w with
    proc := fun v => { w.proc v with
      loc := .entry, alive := true, reported := true, traced := true,
      regs := regs v, mem := mem v }
    var := fun v => { w.var v with syscallInfo := .ofEntry (regs v) } }

/-- The kernel of `v`, if it is at work, finishes. -/
def World.finishCall (K : Kernel ρ) (v : Who) (w : World ρ) : World ρ :=
  if (w.proc v).loc = .kernel then w.advance K v else w

/-- The kernels that are still at work finish. -/
def World.settle (K : Kernel ρ) (first : Who) (w : World ρ) : World ρ :=
  (w.finishCall K first).finishCall K first.other

/-- The world in which the round's executor starts. -/
def Round.start (e : Round ρ) (w : World ρ) : World ρ := w.arriveAt e.regs e.mem

/-- The machine of accepted calls. -/
def rounds (ρ : Type) : Machine (World ρ) (Round ρ) where
  step w e w' := (∀ v, e.regs v .origRax = e.call.nr) ∧
    ∃ w₁, execSyscall e.kernel e.call (e.start w) = .ret 0 w₁ ∧ w' = w₁.settle e.kernel e.first

/-- Where an accepted round leads. -/
def Round.next (e : Round ρ) (w : World ρ) : World ρ :=
  (execSyscall e.kernel e.call (e.start w)).state.settle e.kernel e.first

theorem rounds_step_iff {w w' : World ρ} {e : Round ρ} : (rounds ρ).step w e w' ↔
    (∀ v, e.regs v .origRax = e.call.nr) ∧
      (execSyscall e.kernel e.call (e.start w)).val? = some 0 ∧ w' = e.next w := by
  constructor
  · rintro ⟨hnr, w₁, hrun, rfl⟩
    exact ⟨hnr, by rw [hrun]; rfl, by rw [Round.next, hrun]; rfl⟩
  · rintro ⟨hnr, hret, rfl⟩
    exact ⟨hnr, _, Outcome.eq_ret_of_val? hret, rfl⟩

theorem rounds_deterministic : (rounds ρ).Deterministic := fun _ _ _ _ h h' =>
  (rounds_step_iff.1 h).2.2.trans (rounds_step_iff.1 h').2.2.symm

/-- Both variants make the call `c` with the arguments `args`. -/
def Round.alike (c : Syscall) (K : Kernel ρ) (args : Fin 6 → Word) : Round ρ :=
  ⟨c, K, fun _ => callRegs c.nr args, fun _ _ => none, .master⟩

theorem step_alike {c : Syscall} {K : Kernel ρ} {args : Fin 6 → Word} {w : World ρ}
    (h : (execSyscall K c ((Round.alike c K args).start w)).val? = some 0) :
    (rounds ρ).step w (.alike c K args) ((Round.alike c K args).next w) :=
  rounds_step_iff.2 ⟨fun _ => rfl, h, rfl⟩

section

variable {w : World ρ} {e : Round ρ}

theorem start_atEntry (w : World ρ) (e : Round ρ) (v : Who) : ((e.start w).ctl v).AtEntry :=
  ⟨rfl, rfl, rfl, rfl⟩

theorem start_rendezvous (w : World ρ) {e : Round ρ} (h : ∀ v, e.regs v .origRax = e.call.nr) :
    Rendezvous e.call (e.start w).ctl := ⟨start_atEntry w e, h⟩

@[simp] theorem start_os (w : World ρ) (e : Round ρ) : (e.start w).os = w.os := rfl

@[simp] theorem start_mappings (w : World ρ) (e : Round ρ) : (e.start w).mappings = w.mappings := rfl

@[simp] theorem start_regs (w : World ρ) (e : Round ρ) (v : Who) :
    ((e.start w).proc v).regs = e.regs v := rfl

@[simp] theorem start_arg (w : World ρ) (e : Round ρ) (v : Who) (k : Fin 6) :
    ((e.start w).var v).syscallInfo.arg k = e.regs v (argReg k) := rfl

end

/-! ## What finishing does to the kernel state -/

/-- A variant at work in the kernel. -/
structure Tracee.AtWork (t : Tracee) : Prop where
  loc : t.loc = .kernel
  alive : t.alive = true

theorem finishCall_of_atWork {w : World ρ} {v : Who} (K : Kernel ρ) (h : (w.proc v).AtWork) :
    w.finishCall K v =
      { w.setProc v ((w.proc v).finish (K.syscall v (w.proc v) w.os).1) with
        os := (K.syscall v (w.proc v) w.os).2 } := by
  unfold World.finishCall World.advance
  rw [if_pos h.loc, if_pos h.alive, h.loc]

theorem finishCall_of_ne {w : World ρ} {v : Who} (K : Kernel ρ) (h : (w.proc v).loc ≠ .kernel) :
    w.finishCall K v = w := if_neg h

/-- The table is the monitor's own. -/
@[simp] theorem settle_mappings (K : Kernel ρ) (first : Who) (w : World ρ) :
    (w.settle K first).mappings = w.mappings := by
  have hadvance : ∀ (v : Who) (w : World ρ), (w.finishCall K v).mappings = w.mappings := by
    intro v w
    unfold World.finishCall World.advance
    split_ifs
    · split <;> rfl
    · rfl
    · rfl
  unfold World.settle
  rw [hadvance, hadvance]

/-- Both kernels at work: one call after the other. -/
theorem settle_os_both {w : World ρ} (K : Kernel ρ) (v : Who) (h : ∀ u, (w.proc u).AtWork) :
    (w.settle K v).os =
      (K.syscall v.other (w.proc v.other) (K.syscall v (w.proc v) w.os).2).2 := by
  unfold World.settle
  rw [finishCall_of_atWork K (h v), finishCall_of_atWork]
  · simp [World.setProc]
  · simpa [World.setProc] using h v.other

/-- The two variants after that, each with the answer to its own call. -/
theorem settle_proc_both {w : World ρ} (K : Kernel ρ) (v : Who) (h : ∀ u, (w.proc u).AtWork) :
    (w.settle K v).proc v = (w.proc v).finish (K.syscall v (w.proc v) w.os).1 ∧
      (w.settle K v).proc v.other = (w.proc v.other).finish
        (K.syscall v.other (w.proc v.other) (K.syscall v (w.proc v) w.os).2).1 := by
  unfold World.settle
  rw [finishCall_of_atWork K (h v), finishCall_of_atWork]
  · simp [World.setProc]
  · simpa [World.setProc] using h v.other

/-- Only one of the two kernels at work. -/
theorem settle_os_one {w : World ρ} (K : Kernel ρ) (first : Who) {v : Who} (h : (w.proc v).AtWork)
    (ho : (w.proc v.other).loc ≠ .kernel) :
    (w.settle K first).os = (K.syscall v (w.proc v) w.os).2 := by
  unfold World.settle
  by_cases hv : first = v
  · subst hv
    rw [finishCall_of_atWork K h, finishCall_of_ne]
    simpa [World.setProc] using ho
  · obtain rfl := Who.eq_other_of_ne hv
    rw [finishCall_of_ne K ho, Who.other_other, finishCall_of_atWork K h]

/-- Neither of them. -/
theorem settle_of_ne {w : World ρ} (K : Kernel ρ) (first : Who) (h : ∀ v, (w.proc v).loc ≠ .kernel) :
    w.settle K first = w := by
  unfold World.settle
  rw [finishCall_of_ne K (h first), finishCall_of_ne K (h first.other)]

/-! ## Calls both variants make -/

theorem atWork_resume {w : World ρ} {v : Who} (hv : (w.ctl v).AtEntry) :
    (w.proc v).resume.AtWork := by
  rw [resume_atEntry hv]
  exact ⟨rfl, hv.alive⟩

theorem resumeBoth_apply (w : World ρ) :
    ∃ w₁, (resumeBoth : Mon ρ Int) w = .ret 0 w₁ ∧ (∀ v, w₁.proc v = (w.proc v).resume) ∧
      w₁.os = w.os ∧ w₁.mappings = w.mappings :=
  ⟨_, rfl, Who.forall_iff.2 ⟨by simp, by simp⟩, rfl, rfl⟩

/-- The kernel state once both variants have made their call. -/
theorem os_resumeBoth {w w₁ : World ρ} (K : Kernel ρ) (first : Who) (hat : ∀ v, (w.ctl v).AtEntry)
    (hrun : (resumeBoth : Mon ρ Int) w = .ret 0 w₁) :
    (w₁.settle K first).os = (K.syscall first.other (w.proc first.other).resume
      (K.syscall first (w.proc first).resume w.os).2).2 := by
  obtain ⟨w₂, h₂, hproc, hos, -⟩ := resumeBoth_apply w
  obtain ⟨-, rfl⟩ := Outcome.ret.inj (hrun.symm.trans h₂)
  rw [settle_os_both K first fun v => by rw [hproc v]; exact atWork_resume (hat v), hproc, hproc, hos]

/-- The variants once both have made their call. -/
theorem proc_resumeBoth {w w₁ : World ρ} (K : Kernel ρ) (first : Who) (hat : ∀ v, (w.ctl v).AtEntry)
    (hrun : (resumeBoth : Mon ρ Int) w = .ret 0 w₁) :
    (w₁.settle K first).proc first =
        (w.proc first).resume.finish (K.syscall first (w.proc first).resume w.os).1 ∧
      (w₁.settle K first).proc first.other =
        (w.proc first.other).resume.finish (K.syscall first.other (w.proc first.other).resume
          (K.syscall first (w.proc first).resume w.os).2).1 := by
  obtain ⟨w₂, h₂, hproc, hos, -⟩ := resumeBoth_apply w
  obtain ⟨-, rfl⟩ := Outcome.ret.inj (hrun.symm.trans h₂)
  have hboth := settle_proc_both K first fun v => by
    rw [hproc v]
    exact atWork_resume (hat v)
  rwa [hproc, hproc, hos] at hboth

/-! ## Calls that are seen through -/

theorem plan_loc_of_seenThrough : ∀ c ∈ seenThrough, ∀ v, (c.plan v).loc = .user := by
  intro c hc v
  simp only [seenThrough, List.mem_cons, List.not_mem_nil, or_false] at hc
  rcases hc with rfl | rfl | rfl | rfl | rfl | rfl | rfl | rfl | rfl | rfl | rfl | rfl | rfl | rfl |
    rfl | rfl | rfl | rfl | rfl <;> cases v <;> rfl

/-- After such a call no kernel is at work, so the executor's own result is that of the round. -/
theorem seenThrough_round {w w' : World ρ} {e : Round ρ} (hc : e.call ∈ seenThrough)
    (hne : e.call ≠ .access) (hstep : (rounds ρ).step w e w') :
    ServedBy e.kernel e.call (e.start w) w' := by
  obtain ⟨hnr, w₁, hrun, rfl⟩ := hstep
  have hat := start_atEntry w e
  have hserved := execSyscall_served (hat .master) (hat .replica) hc hrun fun h => absurd h hne
  have hpost := Prog.ret_of_wp
    (execSyscall_follows e.kernel e.call (start_rendezvous w hnr) _ rfl) hrun
  rcases hpost.1 rfl with hdone | ⟨⟨hacc, -⟩, -⟩
  · have huser : ∀ v, (w₁.proc v).loc ≠ .kernel := by
      intro v
      have hloc : (w₁.proc v).loc = _ := (hdone v).loc
      rw [hloc, plan_loc_of_seenThrough _ hc v]
      decide
    rw [settle_of_ne e.kernel e.first huser]
    exact hserved
  · exact absurd hacc hne

end Aurora
