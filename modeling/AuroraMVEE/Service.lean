import AuroraMVEE.Control

/-!
# What servicing one system call does

Every executor, started with both variants at the same entry stop, follows a
plan: which number each kernel executes, whether the executor itself takes the
variant through its exit stop, and how much it adds to `syscallNum`.
`Syscall.plan` is that table, read off the executors; `execSyscall_follows` says
that each of them keeps to it whatever the kernel answers, and lists the ways it
can fail.  All theorems about schedules rest on this one.
-/

namespace Aurora

variable {ρ : Type}

/-- The part of a plan that concerns one variant. -/
structure Plan where
  /-- Where the variant is left: in the kernel, or back in its own code. -/
  loc : Loc
  /-- The system call number its kernel executes. -/
  nr : Word
  /-- What is added to `syscallNum`. -/
  counted : Word
  /-- Is the variant marked as running again? -/
  marked : Bool

/-- The table of plans. -/
def Syscall.plan (c : Syscall) : Who → Plan
  | .master => match c with
    | .openat | .close | .set_tid_address | .read | .write | .pread64 | .newfstatat | .access
    | .unlink | .utimensat | .fchown | .fchmod | .getpid | .bind | .listen | .accept4 | .poll
    | .getsockname | .pselect6 | .mmap => ⟨.user, c.nr, 1, true⟩
    | .getrandom => ⟨.user, c.nr, 0, true⟩
    | .shutdown => ⟨.kernel, c.nr, 1, false⟩
    | _ => ⟨.kernel, c.nr, 0, true⟩
  | .replica => match c with
    | .openat | .close | .set_tid_address | .write => ⟨.user, c.nr, 1, true⟩
    | .pread64 | .newfstatat | .access | .unlink | .utimensat | .fchown | .fchmod | .getpid
    | .bind | .listen | .accept4 | .poll | .getsockname | .pselect6 =>
        ⟨.user, Syscall.getpid.nr, 1, true⟩
    | .read => ⟨.user, Syscall.lseek.nr, 1, true⟩
    | .getrandom => ⟨.user, Syscall.getpid.nr, 0, true⟩
    | .shutdown => ⟨.kernel, c.nr, 1, false⟩
    | _ => ⟨.kernel, c.nr, 0, true⟩

/-- The control state `y` is what the plan makes of `x`. -/
structure Plan.Done (p : Plan) (x y : Ctl) : Prop where
  loc : y.loc = p.loc
  alive : y.alive = true
  reported : y.reported = false
  traced : y.traced = true
  entries : y.entries = x.entries
  ran : y.ran = x.ran ++ [p.nr]
  state : y.state = if p.marked then .running else x.state
  num : y.num = x.num + p.counted

/-- At most the planned call has run. -/
def Plan.Within (p : Plan) (x y : Ctl) : Prop := y.ran = x.ran ∨ y.ran = x.ran ++ [p.nr]

/-- A variant that stands still, or is gone, and will not be heard of again unless
something is done to it. -/
def Ctl.Silenced (x : Ctl) : Prop :=
  x.reported = true ∧ (x.alive = true → x.loc ≠ .user ∧ x.loc ≠ .kernel)

theorem Ctl.Silenced.not_running {w : World ρ} {v : Who} (h : (w.ctl v).Silenced) :
    (w.proc v).running = false := by
  cases ha : (w.proc v).alive with
  | false => simp [Tracee.running, ha]
  | true =>
    have hstill : (w.proc v).loc ≠ .user ∧ (w.proc v).loc ≠ .kernel := h.2 ha
    cases hl : (w.proc v).loc <;> simp_all [Tracee.running]

/-- The calls whose executor copies as many bytes as the kernel, or the program, says. -/
def sizedCalls : List Syscall := [.read, .pread64, .getrandom, .accept4, .getsockname]

/-- The endings of an executor that was given the plans `p` in control state `C`:
it succeeded and the plans were followed; it succeeded although a variant is gone
(`drops`); it failed; it blocked (`hangs`); or a copy faulted (`faults`), with both alive.  It never
makes a kernel execute anything but the planned call. -/
def servicePost (p : Who → Plan) (drops hangs faults : Prop) (C : Who → Ctl) :
    Prog.Post (Who → Ctl) Int where
  ret r C' := (r = 0 → (∀ v, (p v).Done (C v) (C' v)) ∨ (drops ∧ ∀ v, (C' v).Silenced)) ∧
    ∀ v, (p v).Within (C v) (C' v)
  hung C' := hangs ∧ ∀ v, (p v).Within (C v) (C' v)
  exited code C' := (faults ∧ code = SIGSEGV_STATUS) ∧ (∀ v, (C' v).alive = true) ∧
    ∀ v, (p v).Within (C v) (C' v)

/-! ## Through a call -/

section Through

variable {w : World ρ} {v : Who}

/-- What the kernel makes of the call `v` stands at. -/
def Kernel.answer (K : Kernel ρ) (v : Who) (w : World ρ) : SysResult × ρ :=
  K.syscall v (w.proc v).resume w.os

/-- The world after `v` was resumed at its entry stop and waited for. -/
def World.through (w : World ρ) (K : Kernel ρ) (v : Who) : World ρ :=
  { (w.setProc v { (w.proc v).resume.finish (K.answer v w).1 with reported := true }).setVar v
      { w.var v with state := .running } with os := (K.answer v w).2 }

@[simp] theorem through_os (K : Kernel ρ) : (w.through K v).os = (K.answer v w).2 := rfl

@[simp] theorem through_mappings (K : Kernel ρ) : (w.through K v).mappings = w.mappings := rfl

@[simp] theorem through_bufs (K : Kernel ρ) : (w.through K v).bufs = w.bufs := rfl

@[simp] theorem through_proc_self (K : Kernel ρ) : (w.through K v).proc v =
    { (w.proc v).resume.finish (K.answer v w).1 with reported := true } := by
  simp [World.through]

@[simp] theorem through_proc_of_ne (K : Kernel ρ) {u : Who} (h : u ≠ v) :
    (w.through K v).proc u = w.proc u := by
  simp [World.through, h]

@[simp] theorem through_var_self (K : Kernel ρ) :
    (w.through K v).var v = { w.var v with state := .running } := by
  simp [World.through]

@[simp] theorem through_var_of_ne (K : Kernel ρ) {u : Who} (h : u ≠ v) :
    (w.through K v).var u = w.var u := by
  simp [World.through, h]

theorem stopped_of_atEntry (hv : (w.ctl v).AtEntry) : (w.proc v).stopped = true :=
  Tracee.stopped_entry hv.loc hv.alive hv.traced

theorem stopped_of_atExit (hv : (w.ctl v).AtExit) : (w.proc v).stopped = true :=
  Tracee.stopped_exit hv.loc hv.alive hv.traced

/-- Released at its entry stop, a variant is in the kernel. -/
theorem resume_atEntry (hv : (w.ctl v).AtEntry) : (w.proc v).resume =
    { w.proc v with loc := .kernel, reported := false,
                    ran := (w.proc v).ran ++ [(w.proc v).regs .origRax] } :=
  Tracee.resume_entry hv.loc (stopped_of_atEntry hv)

/-- Released at its exit stop, a variant is back in its own code. -/
theorem resume_atExit (hv : (w.ctl v).AtExit) : (w.proc v).resume =
    { w.proc v with loc := .user, reported := false } :=
  Tracee.resume_exit hv.loc (stopped_of_atExit hv)

/-- `resumeVariantFromWait(v)` and `waitVariant(v)`, at an entry stop. -/
theorem resumeAndWait_apply (K : Kernel ρ) (hv : (w.ctl v).AtEntry) :
    resumeAndWait K v w =
      .ret (match (K.answer v w).1 with | .died => -1 | .ret _ _ _ _ => 0) (w.through K v) := by
  have hres := resume_atEntry hv
  have hloc : (w.proc v).resume.loc = .kernel := by rw [hres]
  have halive : (w.proc v).resume.alive = true := by rw [hres]; exact hv.alive
  have hrun : (w.proc v).resume.running = true := by simp [Tracee.running, hloc, halive]
  have hwait : resumeAndWait K v w = waitVariant K v ((w.setProc v (w.proc v).resume).setVar v
      { w.var v with state := .running }) := by
    unfold resumeAndWait resumeVariantFromWait ptrace assign
    simp [Prog.bind_apply]
  have hadv : World.advance K v ((w.setProc v (w.proc v).resume).setVar v
      { w.var v with state := .running }) = { (w.setProc v ((w.proc v).resume.finish
        (K.answer v w).1)).setVar v { w.var v with state := .running } with os := (K.answer v w).2 } := by
    simp [World.advance, hloc, halive, Kernel.answer, World.setProc, World.setVar]
  have hreport : World.report v { (w.setProc v ((w.proc v).resume.finish
      (K.answer v w).1)).setVar v { w.var v with state := .running } with os := (K.answer v w).2 } =
        w.through K v := by
    simp [World.report, World.through, World.setProc, World.setVar]
  rw [hwait, waitVariant, if_pos (by simpa using hrun), hadv, hreport]
  cases hans : (K.answer v w).1 with
  | died => simp [Tracee.finish, Tracee.die, halive, Tracee.waitStatus, checkVariantExit]
  | ret rax rcx r11 mem => simp [Tracee.finish, halive, Tracee.waitStatus, checkVariantExit]

/-- `if (waitVariant(v) != 0) return -1`, where `v` comes to its exit stop. -/
theorem resumeAndWait_or_ret {K : Kernel ρ} (hv : (w.ctl v).AtEntry) {rax rcx r11 : Word} {mem : Mem}
    (hans : (K.answer v w).1 = .ret rax rcx r11 mem) (f : Mon ρ Int) :
    (resumeAndWait K v >>= fun r => if r ≠ 0 then pure (-1) else f) w = f (w.through K v) := by
  rw [Prog.bind_of_ret (resumeAndWait_apply K hv), hans]
  rfl

/-- `if (waitVariant(v) != 0) return -1`, where `v` does not survive its call. -/
theorem resumeAndWait_or_died {K : Kernel ρ} (hv : (w.ctl v).AtEntry)
    (hans : (K.answer v w).1 = .died) (f : Mon ρ Int) :
    (resumeAndWait K v >>= fun r => if r ≠ 0 then pure (-1) else f) w =
      .ret (-1) (w.through K v) := by
  rw [Prog.bind_of_ret (resumeAndWait_apply K hv), hans]
  rfl

/-- A variant that came to its exit stop. -/
theorem through_proc_ret {K : Kernel ρ} (hv : (w.ctl v).AtEntry) {rax rcx r11 : Word} {mem : Mem}
    (hans : (K.answer v w).1 = .ret rax rcx r11 mem) :
    (w.through K v).proc v = { w.proc v with
      loc := .exit, reported := true, ran := (w.proc v).ran ++ [(w.proc v).regs .origRax],
      regs := Tracee.retRegs (w.proc v).regs rax rcx r11, mem := mem } := by
  simp [resume_atEntry hv, hans, Tracee.finish]

/-- What `requestSyscallInfo` finds there: the return value, and nothing of the arguments. -/
theorem through_syscallInfo {K : Kernel ρ} (hv : (w.ctl v).AtEntry) {rax rcx r11 : Word} {mem : Mem}
    (hans : (K.answer v w).1 = .ret rax rcx r11 mem) :
    ((w.through K v).proc v).syscallInfo =
      .ofExit (Tracee.retRegs (w.proc v).regs rax rcx r11) := by
  rw [through_proc_ret hv hans]
  exact Tracee.syscallInfo_exit rfl (Tracee.stopped_exit rfl hv.alive hv.traced)

@[simp] theorem retRegs_rax (regs : Regs) (rax rcx r11 : Word) :
    Tracee.retRegs regs rax rcx r11 .rax = rax := by
  simp [Tracee.retRegs]

/-- The control view of a variant that came to its exit stop. -/
theorem ctl_through_ret {K : Kernel ρ} (hv : (w.ctl v).AtEntry) {rax rcx r11 : Word} {mem : Mem}
    (hans : (K.answer v w).1 = .ret rax rcx r11 mem) :
    (w.through K v).ctl = Function.update w.ctl v (w.ctl v).finished := by
  funext u
  by_cases hu : u = v
  · subst hu
    simp [World.ctl, resume_atEntry hv, hans, Tracee.finish, Tracee.retRegs, Ctl.finished]
  · simp [World.ctl, hu]

theorem through_atExit {K : Kernel ρ} (hv : (w.ctl v).AtEntry) {rax rcx r11 : Word} {mem : Mem}
    (hans : (K.answer v w).1 = .ret rax rcx r11 mem) : ((w.through K v).ctl v).AtExit := by
  rw [ctl_through_ret hv hans, Function.update_self]
  exact hv.finished

/-- The control view of a variant that did not. -/
theorem ctl_through_died {K : Kernel ρ} (hv : (w.ctl v).AtEntry)
    (hans : (K.answer v w).1 = .died) :
    (w.through K v).ctl = Function.update w.ctl v (w.ctl v).lost := by
  have ha : (w.proc v).alive = true := hv.alive
  funext u
  by_cases hu : u = v
  · subst hu
    simp [World.ctl, resume_atEntry hv, hans, Tracee.finish, Tracee.die, ha, Ctl.lost]
  · simp [World.ctl, hu]

end Through

/-! ## The moves of the control view -/

section Moves

variable {β : Type} {C : Who → Ctl} {P : Prog.Post (Who → Ctl) β} {v : Who}

/-- `setSyscall` shows in the view as the new call number. -/
theorem via_setSyscall {call : Word} {f : Unit → Mon ρ β} (hv : (C v).AtEntry ∨ (C v).AtExit)
    (h : Prog.Via World.ctl (Function.update C v { C v with origRax := call }) (f ()) P) :
    Prog.Via World.ctl C (setSyscall v call >>= f) P := by
  rintro w rfl
  rw [Prog.wp_bind]
  refine h (w.setProc v ((w.proc v).pokeUser .origRax call)) ?_
  have hs : (w.proc v).stopped = true := by
    rcases hv with hv | hv <;> obtain ⟨hl, ha, -, ht⟩ := hv <;>
      simp only [World.ctl] at hl ha ht <;> simp [Tracee.stopped, hl, ha, ht]
  rw [ctl_setProc]
  simp [Tracee.pokeUser, hs, World.ctl]

/-- Resuming from an entry stop: the kernel goes to work. -/
theorem ctl_resume_entry {w : World ρ} (hv : (w.ctl v).AtEntry) :
    (w.setProc v (w.proc v).resume).ctl = Function.update w.ctl v (w.ctl v).enterKernel := by
  obtain ⟨hl, ha, -, ht⟩ := hv
  simp only [World.ctl] at hl ha ht
  have hs : (w.proc v).stopped = true := by simp [Tracee.stopped, hl, ha, ht]
  rw [ctl_setProc]
  simp [Tracee.resume, hs, hl, World.ctl, Ctl.enterKernel]

/-- Resuming from an exit stop: back to user code. -/
theorem ctl_resume_exit {w : World ρ} (hv : (w.ctl v).AtExit) :
    (w.setProc v (w.proc v).resume).ctl = Function.update w.ctl v (w.ctl v).enterUser := by
  obtain ⟨hl, ha, -, ht⟩ := hv
  simp only [World.ctl] at hl ha ht
  have hs : (w.proc v).stopped = true := by simp [Tracee.stopped, hl, ha, ht]
  rw [ctl_setProc]
  simp [Tracee.resume, hs, hl, World.ctl, Ctl.enterUser]

theorem via_resumeFromWait_entry {f : Unit → Mon ρ β} (hv : (C v).AtEntry)
    (h : Prog.Via World.ctl (Function.update C v { (C v).enterKernel with state := .running })
      (f ()) P) : Prog.Via World.ctl C (resumeVariantFromWait v >>= f) P := by
  rintro w rfl
  rw [Prog.wp_bind]
  refine h _ ?_
  rw [ctl_setVar, ctl_resume_entry hv]
  simp [Ctl.enterKernel, World.ctl]

theorem via_resumeFromWait_exit {f : Unit → Mon ρ β} (hv : (C v).AtExit)
    (h : Prog.Via World.ctl (Function.update C v { (C v).enterUser with state := .running })
      (f ()) P) : Prog.Via World.ctl C (resumeVariantFromWait v >>= f) P := by
  rintro w rfl
  rw [Prog.wp_bind]
  refine h _ ?_
  rw [ctl_setVar, ctl_resume_exit hv]
  simp [Ctl.enterUser, World.ctl]

theorem via_resumeFromExit_entry {f : Unit → Mon ρ β} (hv : (C v).AtEntry)
    (h : Prog.Via World.ctl (Function.update C v { (C v).enterKernel with num := (C v).num + 1 })
      (f ()) P) : Prog.Via World.ctl C (resumeVariantFromExit v >>= f) P := by
  rintro w rfl
  rw [Prog.wp_bind]
  refine h _ ?_
  rw [ctl_setVar, ctl_resume_entry hv]
  simp [Ctl.enterKernel, World.ctl]

theorem via_resumeFromExit_exit {f : Unit → Mon ρ β} (hv : (C v).AtExit)
    (h : Prog.Via World.ctl (Function.update C v { (C v).enterUser with num := (C v).num + 1 })
      (f ()) P) : Prog.Via World.ctl C (resumeVariantFromExit v >>= f) P := by
  rintro w rfl
  rw [Prog.wp_bind]
  refine h _ ?_
  rw [ctl_setVar, ctl_resume_exit hv]
  simp [Ctl.enterUser, World.ctl]

/-- Running a variant through its call: it comes to its exit stop, or it is lost. -/
theorem via_resumeAndWait {K : Kernel ρ} {f : Int → Mon ρ β} (hv : (C v).AtEntry)
    (hret : Prog.Via World.ctl (Function.update C v (C v).finished) (f 0) P)
    (hlost : ¬ K.Returns → Prog.Via World.ctl (Function.update C v (C v).lost) (f (-1)) P) :
    Prog.Via World.ctl C (resumeAndWait K v >>= f) P := by
  rintro w rfl
  rw [Prog.wp_bind]
  refine Prog.wp_of_eq_ret (resumeAndWait_apply K hv) ?_
  cases hres : (K.answer v w).1 with
  | died => exact hlost (fun hK => hK v _ _ hres) _ (ctl_through_died hv hres)
  | ret rax rcx r11 mem => exact hret _ (ctl_through_ret hv hres)

/-- `if (waitVariant(v) != 0) return -1`, or the same with `== -1`, after the resume. -/
theorem via_resumeAndWait_or {K : Kernel ρ} {C : Who → Ctl} {P : Prog.Post (Who → Ctl) Int}
    {v : Who} {f : Int → Mon ρ Int} (hv : (C v).AtEntry) (hfail : f (-1) = pure (-1))
    (hlost : ¬ K.Returns → P.ret (-1) (Function.update C v (C v).lost))
    (hret : Prog.Via World.ctl (Function.update C v (C v).finished) (f 0) P) :
    Prog.Via World.ctl C (resumeAndWait K v >>= f) P := by
  refine via_resumeAndWait hv hret fun hK => ?_
  rw [hfail]
  exact .pure (hlost hK)

/-- Waiting for a variant at a stop the monitor has seen: only its death comes back. -/
theorem via_waitVariant_seen {K : Kernel ρ} {C : Who → Ctl} {P : Prog.Post (Who → Ctl) Int}
    {v : Who} (hv : (C v).AtEntry)
    (hkilled : K.killed v = true → P.ret (-1) (Function.update C v { C v with alive := false }))
    (hhung : P.hung C) : Prog.Via World.ctl C (waitVariant K v) P := by
  rintro w rfl
  obtain ⟨hl, ha, hr, -⟩ := hv
  simp only [World.ctl] at hl ha hr
  have hrun : (w.proc v).running = false := by simp [Tracee.running, hl]
  unfold Prog.wp waitVariant
  rw [hrun, hr, ha, if_neg (by simp), if_neg (by simp), if_pos rfl]
  by_cases hk : K.killed v
  · rw [if_pos hk]
    have hctl : ((w.kill v).report v).ctl =
        Function.update w.ctl v { w.ctl v with alive := false } := by
      rw [World.report, World.kill, ctl_setProc, ctl_setProc]
      simp [Tracee.die, ha, World.ctl, hr]
    show P.ret (-1) ((w.kill v).report v).ctl
    rw [hctl]
    exact hkilled hk
  · rw [if_neg hk]
    exact hhung

end Moves

/-! ## How an executor can end -/

/-- The control states of master and replica, side by side. -/
def pair {α : Type} (x y : α) : Who → α
  | .master => x
  | .replica => y

@[simp] theorem pair_master {α : Type} (x y : α) : pair x y .master = x := rfl

@[simp] theorem pair_replica {α : Type} (x y : α) : pair x y .replica = y := rfl

@[simp] theorem update_pair_master {α : Type} (x y z : α) :
    Function.update (pair x y) .master z = pair z y := by
  funext v; cases v <;> rfl

@[simp] theorem update_pair_replica {α : Type} (x y z : α) :
    Function.update (pair x y) .replica z = pair x z := by
  funext v; cases v <;> rfl

theorem pair_eta {α : Type} (C : Who → α) : pair (C .master) (C .replica) = C := by
  funext v; cases v <;> rfl

/-- Both variants stopped at the entry of the call `c`. -/
structure Rendezvous (c : Syscall) (C : Who → Ctl) : Prop where
  atEntry : ∀ v, (C v).AtEntry
  call : ∀ v, (C v).origRax = c.nr

/-- The registers of a process about to make the call `nr`. -/
def callRegs (nr : Word) (args : Fin 6 → Word) : Regs
  | .origRax => nr
  | .rdi => args 0
  | .rsi => args 1
  | .rdx => args 2
  | .r10 => args 3
  | .r8 => args 4
  | .r9 => args 5
  | _ => 0

/-- Both variants at an entry stop, and both structs up to date. -/
def World.standing (regs : Who → Regs) (mem : Who → Mem) (o : ρ) : World ρ where
  proc v := ⟨.entry, true, true, true, PTRACE_O_TRACESYSGOOD, regs v, mem v, 1, []⟩
  var v := ⟨.running, 0, .ofEntry (regs v)⟩
  mappings := []
  bufs _ _ := 0
  os := o
  image := .compact

theorem atEntry_standing (regs : Who → Regs) (mem : Who → Mem) (o : ρ) (v : Who) :
    ((World.standing regs mem o).ctl v).AtEntry := ⟨rfl, rfl, rfl, rfl⟩

theorem rendezvous_standing (c : Syscall) (args : Who → Fin 6 → Word) (mem : Who → Mem) (o : ρ) :
    Rendezvous c (World.standing (fun v => callRegs c.nr (args v)) mem o).ctl :=
  ⟨atEntry_standing _ _ _, fun _ => rfl⟩

/-- A kernel under which every call returns `rax`, and no variant does anything else. -/
def Kernel.returning (rax : Word) : Kernel Unit where
  syscall _ t o := (.ret rax 0 0 t.mem, o)
  user _ _ _ := .died
  killed _ := false
  junk := .stopped

section Endings

variable {p : Who → Plan} {drops hangs faults : Prop} {x y x' y' : Ctl} {K : Kernel ρ}

theorem servicePost_fail (hx : (p .master).Within x x') (hy : (p .replica).Within y y') :
    (servicePost p drops hangs faults (pair x y)).ret (-1) (pair x' y') :=
  ⟨fun h => absurd h (by decide), Who.forall_iff.2 ⟨hx, hy⟩⟩

theorem servicePost_done (hx : (p .master).Done x x') (hy : (p .replica).Done y y') :
    (servicePost p drops hangs faults (pair x y)).ret 0 (pair x' y') :=
  ⟨fun _ => .inl (Who.forall_iff.2 ⟨hx, hy⟩), Who.forall_iff.2 ⟨.inr hx.ran, .inr hy.ran⟩⟩

theorem via_guarded {C : Who → Ctl} {eq : Mon ρ Bool} {body : Mon ρ Int} (heq : Silent eq)
    (hbody : Prog.Via World.ctl C body (servicePost p drops hangs faults C)) :
    Prog.Via World.ctl C (guarded eq body) (servicePost p drops hangs faults C) :=
  .keeps heq fun _ => .ite (fun _ => hbody) fun _ =>
    .pure ⟨fun h => absurd h (by decide), fun _ => .inl rfl⟩

end Endings

/-! ## The two halves of an executor that sees the call through -/

section Halves

variable {P : Prog.Post (Who → Ctl) Int} {x y : Ctl} {K : Kernel ρ} {g : Int → Mon ρ Int}

/-- A variant whose call has run to its exit stop, there resumed and counted. -/
def Ctl.completed (x : Ctl) (call call' : Word) : Ctl :=
  { ({ ({ x with origRax := call } : Ctl).finished with origRax := call' } : Ctl).enterUser with
    num := x.num + 1 }

theorem Ctl.AtEntry.done_completed (hx : x.AtEntry) (call call' : Word) :
    Plan.Done ⟨.user, call, 1, true⟩ x (x.completed call call') :=
  ⟨rfl, hx.alive, rfl, hx.traced, rfl, rfl, rfl, rfl⟩

theorem Ctl.AtEntry.with_origRax (hy : y.AtEntry) (call : Word) :
    ({ y with origRax := call } : Ctl).AtEntry :=
  ⟨hy.loc, hy.alive, hy.reported, hy.traced⟩

/-- The master makes its call. -/
theorem via_masterHalf (hx : x.AtEntry) (hfail : g (-1) = pure (-1))
    (hlost : ¬ K.Returns → P.ret (-1) (pair x.lost y))
    (h : Prog.Via World.ctl (pair x.finished y) (g 0) P) :
    Prog.Via World.ctl (pair x y) (resumeAndWait K .master >>= g) P := by
  refine via_resumeAndWait_or (by simpa using hx) hfail ?_ ?_ <;> rwa [update_pair_master]

/-- The replica makes the call it stands at. -/
theorem via_replicaHalf (hy : y.AtEntry) (hfail : g (-1) = pure (-1))
    (hlost : ¬ K.Returns → P.ret (-1) (pair x y.lost))
    (h : Prog.Via World.ctl (pair x y.finished) (g 0) P) :
    Prog.Via World.ctl (pair x y) (resumeAndWait K .replica >>= g) P := by
  refine via_resumeAndWait_or (by simpa using hy) hfail ?_ ?_ <;> rwa [update_pair_replica]

/-- The replica is given another call number. -/
theorem via_substitute {call : Word} {g : Unit → Mon ρ Int} (hy : y.AtEntry)
    (h : Prog.Via World.ctl (pair x { y with origRax := call }) (g ()) P) :
    Prog.Via World.ctl (pair x y) (setSyscall .replica call >>= g) P := by
  refine via_setSyscall (.inl (by simpa using hy)) ?_
  rwa [update_pair_replica]

/-- Both leave their exit stops. -/
theorem via_leaveBoth {x y : Ctl} (hx : x.AtExit) (hy : y.AtExit)
    (h : P.ret 0 (pair { x.enterUser with num := x.num + 1 } { y.enterUser with num := y.num + 1 })) :
    Prog.Via World.ctl (pair x y) (do
      resumeVariantFromExit .master
      resumeVariantFromExit .replica
      return 0 : Mon ρ Int) P := by
  refine via_resumeFromExit_exit (by simpa using hx) ?_
  rw [update_pair_master]
  refine via_resumeFromExit_exit (by simpa using hy) ?_
  rw [update_pair_replica]
  exact .pure h

/-- The three endings of `runMasterReplicateRet`. -/
theorem via_runMasterReplicateRet (hx : x.AtEntry) (hy : y.AtEntry)
    (hmaster : ¬ K.Returns → P.ret (-1) (pair x.lost y))
    (hreplica : ¬ K.Returns → P.ret (-1)
      (pair x.finished ({ y with origRax := Syscall.getpid.nr } : Ctl).lost))
    (hdone : P.ret 0 (pair (x.completed x.origRax x.origRax)
      (y.completed Syscall.getpid.nr Syscall.getpid.nr))) :
    Prog.Via World.ctl (pair x y) (runMasterReplicateRet K) P := by
  refine via_masterHalf hx rfl hmaster ?_
  refine .keeps (silent_requestSyscallInfo _) fun _ => .keeps (silent_syscallInfoOf _) fun info => ?_
  refine via_substitute hy (via_replicaHalf (hy.with_origRax _) rfl hreplica ?_)
  refine .keeps (silent_setSyscallReturnValue _ _) fun _ => ?_
  exact via_leaveBoth hx.finished (hy.with_origRax _).finished hdone

/-- The three endings of `runBothCopyMasterRet`. -/
theorem via_runBothCopyMasterRet (hx : x.AtEntry) (hy : y.AtEntry)
    (hmaster : ¬ K.Returns → P.ret (-1) (pair x.lost y))
    (hreplica : ¬ K.Returns → P.ret (-1) (pair x.finished y.lost))
    (hdone : P.ret 0 (pair (x.completed x.origRax x.origRax) (y.completed y.origRax y.origRax))) :
    Prog.Via World.ctl (pair x y) (runBothCopyMasterRet K) P := by
  refine via_masterHalf hx rfl hmaster ?_
  refine .keeps (silent_requestSyscallInfo _) fun _ => .keeps (silent_syscallInfoOf _) fun info => ?_
  refine via_replicaHalf hy rfl hreplica ?_
  refine .keeps (silent_setSyscallReturnValue _ _) fun _ => ?_
  exact via_leaveBoth hx.finished hy.finished hdone

end Halves

/-! ## The executors, one by one -/

section Executors

variable {drops hangs faults : Prop} {x y : Ctl} {K : Kernel ρ} {p : Who → Plan}

/-- What a plan says when both variants see the call through and are counted. -/
structure SeesThrough (p : Who → Plan) (x : Ctl) (call : Word) : Prop where
  master : p .master = ⟨.user, x.origRax, 1, true⟩
  replica : p .replica = ⟨.user, call, 1, true⟩

namespace SeesThrough

variable {call : Word} (h : SeesThrough p x call)

include h

theorem masterLost : (servicePost p drops hangs faults (pair x y)).ret (-1) (pair x.lost y) :=
  servicePost_fail (.inr (by rw [h.master]; rfl)) (.inl rfl)

/-- The executor gives up between the two calls. -/
theorem between (call' : Word) : (servicePost p drops hangs faults (pair x y)).ret (-1)
    (pair x.finished { y with origRax := call' }) :=
  servicePost_fail (.inr (by rw [h.master]; rfl)) (.inl rfl)

theorem replicaLost : (servicePost p drops hangs faults (pair x y)).ret (-1)
    (pair x.finished ({ y with origRax := call } : Ctl).lost) :=
  servicePost_fail (.inr (by rw [h.master]; rfl)) (.inr (by rw [h.replica]; rfl))

/-- A copy may fault between the two calls, or behind them. -/
theorem faulted (hf : faults) (hx : x.AtEntry) {y' : Ctl} (hy : y'.alive = true)
    (hy' : y'.ran = y.ran ∨ y'.ran = y.ran ++ [call]) :
    ∀ code ∈ ({SIGSEGV_STATUS} : Set Int),
      (servicePost p drops hangs faults (pair x y)).exited code (pair x.finished y') := by
  rintro code rfl
  exact ⟨⟨hf, rfl⟩, Who.forall_iff.2 ⟨hx.alive, hy⟩,
    Who.forall_iff.2 ⟨.inr (by rw [h.master]; rfl), by rw [h.replica]; exact hy'⟩⟩

theorem done (hx : x.AtEntry) (hy : y.AtEntry) (m r : Word) :
    (servicePost p drops hangs faults (pair x y)).ret 0
      (pair (x.completed x.origRax m) (y.completed call r)) :=
  servicePost_done (by rw [h.master]; exact hx.done_completed _ _)
    (by rw [h.replica]; exact hy.done_completed _ _)

end SeesThrough

/-- `runMasterReplicateRet` as an executor's body. -/
theorem follows_masterOnly (h : SeesThrough p x Syscall.getpid.nr) (hx : x.AtEntry)
    (hy : y.AtEntry) : Prog.Via World.ctl (pair x y) (runMasterReplicateRet K)
      (servicePost p drops hangs faults (pair x y)) :=
  via_runMasterReplicateRet hx hy (fun _ => h.masterLost) (fun _ => h.replicaLost) (h.done hx hy _ _)

/-- `runBothCopyMasterRet` as an executor's body. -/
theorem follows_both (h : SeesThrough p x y.origRax) (hx : x.AtEntry) (hy : y.AtEntry) :
    Prog.Via World.ctl (pair x y) (runBothCopyMasterRet K)
      (servicePost p drops hangs faults (pair x y)) :=
  via_runBothCopyMasterRet hx hy (fun _ => h.masterLost) (fun _ => h.replicaLost) (h.done hx hy _ _)

theorem Ctl.silenced_lost (x : Ctl) : x.lost.Silenced := ⟨rfl, fun h => absurd h (by simp [Ctl.lost])⟩

theorem Ctl.AtEntry.silenced (h : x.AtEntry) : x.Silenced :=
  ⟨h.reported, fun _ => ⟨by simp [h.loc], by simp [h.loc]⟩⟩

theorem Ctl.AtExit.silenced (h : x.AtExit) : x.Silenced :=
  ⟨h.reported, fun _ => ⟨by simp [h.loc], by simp [h.loc]⟩⟩

/-- `access` drops the result: it may report success with a variant gone. -/
theorem follows_access (hd : ¬ K.Returns → drops) (h : SeesThrough p x Syscall.getpid.nr) (hx : x.AtEntry)
    (hy : y.AtEntry) : Prog.Via World.ctl (pair x y) (do
      let _ ← runMasterReplicateRet K
      return 0) (servicePost p drops hangs faults (pair x y)) := by
  refine .bind (R := ⟨fun _ C' => (servicePost p drops hangs faults (pair x y)).ret 0 C', fun _ => False,
    fun _ _ => False⟩) ?_ (fun _ _ h => .pure h) (fun _ h => h.elim) (fun _ _ h => h.elim)
  have hm : (servicePost p drops hangs faults (pair x y)).ret (-1) (pair x.lost y) := h.masterLost
  have hr : (servicePost p drops hangs faults (pair x y)).ret (-1)
    (pair x.finished ({ y with origRax := Syscall.getpid.nr } : Ctl).lost) := h.replicaLost
  have hdone : (servicePost p drops hangs faults (pair x y)).ret 0
    (pair (x.completed x.origRax x.origRax) (y.completed Syscall.getpid.nr Syscall.getpid.nr)) :=
    h.done hx hy _ _
  refine via_runMasterReplicateRet hx hy (fun hK => ⟨fun _ => .inr ⟨hd hK, ?_⟩, hm.2⟩)
    (fun hK => ⟨fun _ => .inr ⟨hd hK, ?_⟩, hr.2⟩) hdone
  · exact Who.forall_iff.2 ⟨x.silenced_lost, hy.silenced⟩
  · exact Who.forall_iff.2 ⟨hx.finished.silenced, Ctl.silenced_lost _⟩

/-- Both variants make the call on their own. -/
theorem follows_resumeBoth (hp : ∀ v, p v = ⟨.kernel, (pair x y v).origRax, 0, true⟩)
    (hx : x.AtEntry) (hy : y.AtEntry) :
    Prog.Via World.ctl (pair x y) (resumeBoth : Mon ρ Int)
      (servicePost p drops hangs faults (pair x y)) := by
  refine via_resumeFromWait_entry (by simpa using hx) ?_
  rw [update_pair_master]
  refine via_resumeFromWait_entry (by simpa using hy) ?_
  rw [update_pair_replica]
  refine .pure (servicePost_done ?_ ?_)
  · rw [hp .master]; exact ⟨rfl, hx.alive, rfl, hx.traced, rfl, rfl, rfl, (BitVec.add_zero _).symm⟩
  · rw [hp .replica]; exact ⟨rfl, hy.alive, rfl, hy.traced, rfl, rfl, rfl, (BitVec.add_zero _).symm⟩

/-- Both are resumed, and only then the verdict decides. -/
theorem follows_releaseFirst {eq : Mon ρ Bool} (heq : Silent eq)
    (hp : ∀ v, p v = ⟨.kernel, (pair x y v).origRax, 0, true⟩) (hx : x.AtEntry) (hy : y.AtEntry) :
    Prog.Via World.ctl (pair x y) (do
      let e ← eq
      resumeVariantFromWait .master
      resumeVariantFromWait .replica
      return if e then 0 else -1) (servicePost p drops hangs faults (pair x y)) := by
  refine .keeps heq fun e => via_resumeFromWait_entry (by simpa using hx) ?_
  rw [update_pair_master]
  refine via_resumeFromWait_entry (by simpa using hy) ?_
  rw [update_pair_replica]
  refine .pure ?_
  cases e
  · exact servicePost_fail (.inr (by rw [hp .master]; rfl)) (.inr (by rw [hp .replica]; rfl))
  · refine servicePost_done ?_ ?_
    · rw [hp .master]
      exact ⟨rfl, hx.alive, rfl, hx.traced, rfl, rfl, rfl, (BitVec.add_zero _).symm⟩
    · rw [hp .replica]
      exact ⟨rfl, hy.alive, rfl, hy.traced, rfl, rfl, rfl, (BitVec.add_zero _).symm⟩

/-- `shutdown` counts at the entry stop, and leaves `state` as it was. -/
theorem follows_shutdown (hp : ∀ v, p v = ⟨.kernel, (pair x y v).origRax, 1, false⟩)
    (hx : x.AtEntry) (hy : y.AtEntry) :
    Prog.Via World.ctl (pair x y) (do
      resumeVariantFromExit .master
      resumeVariantFromExit .replica
      return 0 : Mon ρ Int) (servicePost p drops hangs faults (pair x y)) := by
  refine via_resumeFromExit_entry (by simpa using hx) ?_
  rw [update_pair_master]
  refine via_resumeFromExit_entry (by simpa using hy) ?_
  rw [update_pair_replica]
  refine .pure (servicePost_done ?_ ?_)
  · rw [hp .master]; exact ⟨rfl, hx.alive, rfl, hx.traced, rfl, rfl, rfl, rfl⟩
  · rw [hp .replica]; exact ⟨rfl, hy.alive, rfl, hy.traced, rfl, rfl, rfl, rfl⟩

theorem follows_setTidAddress (h : SeesThrough p x y.origRax) (hx : x.AtEntry) (hy : y.AtEntry) :
    Prog.Via World.ctl (pair x y) (execSyscallSetTidAddress K)
      (servicePost p drops hangs faults (pair x y)) := by
  refine .keeps (silent_argOf _ _) fun _ => .keeps (silent_argOf _ _) fun replicaPtr => ?_
  refine via_masterHalf hx rfl (fun _ => h.masterLost) (via_replicaHalf hy rfl (fun _ => h.replicaLost) ?_)
  refine .keeps (Prog.keeps_gets _ _) fun tid => .keeps (Prog.keeps_gets _ _) fun _ =>
    .keeps (silent_writeFrom _ _ _ (.inl (by decide))) fun _ => ?_
  exact via_leaveBoth hx.finished hy.finished (h.done hx hy _ _)

theorem follows_read (hf : faults) (h : SeesThrough p x Syscall.lseek.nr) (hx : x.AtEntry) (hy : y.AtEntry) :
    Prog.Via World.ctl (pair x y) (execSyscallRead K) (servicePost p drops hangs faults (pair x y)) := by
  refine via_guarded (readOnly_verdict .read).silent ?_
  refine .keeps (silent_argOf _ _) fun _ => .keeps (silent_argOf _ _) fun _ =>
    .keeps (silent_argOf _ _) fun _ => via_masterHalf hx rfl (fun _ => h.masterLost) ?_
  refine .keeps (silent_requestSyscallInfo _) fun _ => .keeps (silent_syscallInfoOf _) fun _ =>
    .keepsOr (mayFault_doIf (mayFault_transferVariantMem _ _ _ _ _)) (h.faulted hf hx hy.alive (.inl rfl))
      fun _ => ?_
  refine .ite (fun _ => .pure (h.between y.origRax)) fun _ => ?_
  refine .keeps (silent_setLseekRegs _ _ _) fun _ => via_substitute hy ?_
  refine via_replicaHalf (hy.with_origRax _) rfl (fun _ => h.replicaLost) ?_
  refine .keeps (silent_setSyscallReturnValue _ _) fun _ => ?_
  exact via_leaveBoth hx.finished (hy.with_origRax _).finished (h.done hx hy _ _)

/-- In `write` the number meant for the replica goes to the master, which has
already made its call; the replica makes the call it stands at. -/
theorem follows_write (h : SeesThrough p x y.origRax) (hx : x.AtEntry) (hy : y.AtEntry) :
    Prog.Via World.ctl (pair x y) (execSyscallWrite K) (servicePost p drops hangs faults (pair x y)) := by
  refine via_guarded (readOnly_verdict .write).silent ?_
  refine .keeps (silent_argOf _ _) fun _ => via_masterHalf hx rfl (fun _ => h.masterLost) ?_
  refine .keeps (silent_requestSyscallInfo _) fun _ => .keeps (silent_syscallInfoOf _) fun _ =>
    .keeps (silent_setLseekRegs _ _ _) fun _ => ?_
  refine via_setSyscall (.inr (by simpa using hx.finished)) ?_
  rw [update_pair_master]
  refine via_replicaHalf hy rfl (fun _ => ?_) ?_
  · exact servicePost_fail (.inr (by rw [h.master]; rfl)) (.inr (by rw [h.replica]; rfl))
  refine .keeps (silent_setSyscallReturnValue _ _) fun _ => ?_
  exact via_leaveBoth ⟨rfl, hx.alive, rfl, hx.traced⟩ hy.finished (h.done hx hy _ _)

theorem follows_pread64 (hf : faults) (h : SeesThrough p x Syscall.getpid.nr) (hx : x.AtEntry)
    (hy : y.AtEntry) : Prog.Via World.ctl (pair x y) (execSyscallPread64 K)
      (servicePost p drops hangs faults (pair x y)) := by
  refine via_guarded (readOnly_verdict .pread64).silent ?_
  refine .keeps (silent_argOf _ _) fun _ => .keeps (silent_argOf _ _) fun _ =>
    via_masterHalf hx rfl (fun _ => h.masterLost) ?_
  refine .keeps (silent_requestSyscallInfo _) fun _ => .keeps (silent_syscallInfoOf _) fun _ =>
    .keepsOr (mayFault_transferVariantMem _ _ _ _ _) (h.faulted hf hx hy.alive (.inl rfl)) fun _ => ?_
  refine .ite (fun _ => .pure (h.between y.origRax)) fun _ => via_substitute hy ?_
  refine via_replicaHalf (hy.with_origRax _) rfl (fun _ => h.replicaLost) ?_
  refine .keeps (silent_setSyscallReturnValue _ _) fun _ => ?_
  exact via_leaveBoth hx.finished (hy.with_origRax _).finished (h.done hx hy _ _)

theorem follows_newfstatat (h : SeesThrough p x Syscall.getpid.nr) (hx : x.AtEntry)
    (hy : y.AtEntry) : Prog.Via World.ctl (pair x y) (execSyscallNewfstatat K)
      (servicePost p drops hangs faults (pair x y)) := by
  refine via_guarded (readOnly_verdict .newfstatat).silent ?_
  refine .keeps (silent_argOf _ _) fun _ => .keeps (silent_argOf _ _) fun _ =>
    via_masterHalf hx rfl (fun _ => h.masterLost) ?_
  refine .keeps (silent_requestSyscallInfo _) fun _ => .keeps (silent_syscallInfoOf _) fun _ =>
    .keeps (silent_transferVariantMem _ _ _ _ (by decide)) fun _ => ?_
  refine .ite (fun _ => .pure (h.between y.origRax)) fun _ => via_substitute hy ?_
  refine via_replicaHalf (hy.with_origRax _) rfl (fun _ => h.replicaLost) ?_
  refine .keeps (silent_setSyscallReturnValue _ _) fun _ => ?_
  exact via_leaveBoth hx.finished (hy.with_origRax _).finished (h.done hx hy _ _)

theorem follows_getsockname (hf : faults) (h : SeesThrough p x Syscall.getpid.nr) (hx : x.AtEntry)
    (hy : y.AtEntry) : Prog.Via World.ctl (pair x y) (execSyscallGetsockname K)
      (servicePost p drops hangs faults (pair x y)) := by
  refine via_guarded (readOnly_verdict .getsockname).silent ?_
  refine .keeps (silent_argOf _ _) fun _ => .keeps (silent_argOf _ _) fun _ =>
    .keeps (silent_argOf _ _) fun _ => .keeps (Prog.keeps_gets _ _) fun _ =>
      .keeps (Prog.keeps_gets _ _) fun _ => via_masterHalf hx rfl (fun _ => h.masterLost) ?_
  refine .keeps (silent_requestSyscallInfo _) fun _ => via_substitute hy ?_
  refine via_replicaHalf (hy.with_origRax _) rfl (fun _ => h.replicaLost) ?_
  refine .keeps (silent_syscallInfoOf _) fun _ => .keeps (silent_setSyscallReturnValue _ _) fun _ =>
    .keeps (silent_syscallInfoOf _) fun _ =>
      .keepsOr (mayFault_doIf (mayFault_transferVariantMem _ _ _ _ _)) (h.faulted hf hx hy.alive (.inr rfl))
        fun _ => ?_
  exact via_leaveBoth hx.finished (hy.with_origRax _).finished (h.done hx hy _ _)

theorem follows_accept4 (hf : faults) (h : SeesThrough p x Syscall.getpid.nr) (hx : x.AtEntry)
    (hy : y.AtEntry) : Prog.Via World.ctl (pair x y) (execSyscallAccept4 K)
      (servicePost p drops hangs faults (pair x y)) := by
  refine via_guarded (readOnly_verdict .accept4).silent ?_
  refine .keeps (silent_argOf _ _) fun _ => .keeps (silent_argOf _ _) fun _ =>
    .keeps (silent_argOf _ _) fun _ => via_masterHalf hx rfl (fun _ => h.masterLost) ?_
  refine .keeps (silent_requestSyscallInfo _) fun _ => via_substitute hy ?_
  refine via_replicaHalf (hy.with_origRax _) rfl (fun _ => h.replicaLost) ?_
  refine .keepsOr (mayFault_doIf ?_) (h.faulted hf hx hy.alive (.inr rfl)) fun _ =>
    .keeps (silent_syscallInfoOf _) fun _ => .keeps (silent_setSyscallReturnValue _ _) fun _ => ?_
  · refine ((Prog.keeps_gets _ _).orExits _).bind fun _ => ((Prog.keeps_gets _ _).orExits _).bind fun _ => ?_
    exact mayFault_transferVariantMem _ _ _ _ _
  exact via_leaveBoth hx.finished (hy.with_origRax _).finished (h.done hx hy _ _)

theorem toNat_mul_sizeofPollfd_mod (x : Word) : (x * sizeofPollfd).toNat % 8 = 0 := by
  have h8 : sizeofPollfd.toNat = 8 := rfl
  rw [BitVec.toNat_mul, h8]
  omega

theorem follows_poll (h : SeesThrough p x Syscall.getpid.nr) (hx : x.AtEntry)
    (hy : y.AtEntry) : Prog.Via World.ctl (pair x y) (execSyscallPoll K)
      (servicePost p drops hangs faults (pair x y)) := by
  refine via_guarded (readOnly_verdict .poll).silent ?_
  refine .keeps (silent_argOf _ _) fun _ => .keeps (silent_argOf _ _) fun _ =>
    .keeps (silent_argOf _ _) fun _ => via_masterHalf hx rfl (fun _ => h.masterLost) ?_
  refine .keeps (silent_requestSyscallInfo _) fun _ => via_substitute hy ?_
  refine via_replicaHalf (hy.with_origRax _) rfl (fun _ => h.replicaLost) ?_
  refine .keeps (silent_transferVariantMem _ _ _ _ (toNat_mul_sizeofPollfd_mod _)) fun _ =>
    .ite (fun _ => .pure ?_) fun _ => ?_
  · exact servicePost_fail (.inr (by rw [h.master]; rfl)) (.inr (by rw [h.replica]; rfl))
  refine .keeps (silent_syscallInfoOf _) fun _ => .keeps (silent_setSyscallReturnValue _ _) fun _ => ?_
  exact via_leaveBoth hx.finished (hy.with_origRax _).finished (h.done hx hy _ _)

/-- `getrandom` resumes both from their exit stops without counting. -/
theorem follows_getrandom (hf : faults) (hm : p .master = ⟨.user, x.origRax, 0, true⟩)
    (hr : p .replica = ⟨.user, Syscall.getpid.nr, 0, true⟩) (hx : x.AtEntry) (hy : y.AtEntry) :
    Prog.Via World.ctl (pair x y) (execSyscallGetrandom K)
      (servicePost p drops hangs faults (pair x y)) := by
  refine via_guarded (readOnly_verdict .getrandom).silent ?_
  refine .keeps (silent_argOf _ _) fun _ => .keeps (silent_argOf _ _) fun _ => ?_
  refine via_masterHalf hx rfl (fun _ => servicePost_fail (.inr (by rw [hm]; rfl)) (.inl rfl)) ?_
  refine .keeps (silent_requestSyscallInfo _) fun _ => .keeps (silent_syscallInfoOf _) fun _ =>
    .keepsOr (mayFault_doIf (mayFault_transferVariantMem _ _ _ _ _)) ?_ fun _ => ?_
  · rintro code rfl
    exact ⟨⟨hf, rfl⟩, Who.forall_iff.2 ⟨hx.alive, hy.alive⟩,
      Who.forall_iff.2 ⟨.inr (by rw [hm]; rfl), .inl rfl⟩⟩
  refine .ite (fun _ => .pure (servicePost_fail (.inr (by rw [hm]; rfl)) (.inl rfl))) fun _ =>
    via_substitute hy ?_
  refine via_replicaHalf (hy.with_origRax _) rfl
    (fun _ => servicePost_fail (.inr (by rw [hm]; rfl)) (.inr (by rw [hr]; rfl))) ?_
  refine .keeps (silent_setSyscallReturnValue _ _) fun _ => ?_
  refine via_resumeFromWait_exit (by simpa using hx.finished) ?_
  rw [update_pair_master]
  refine via_resumeFromWait_exit (by simpa using (hy.with_origRax _).finished) ?_
  rw [update_pair_replica]
  refine .pure (servicePost_done ?_ ?_)
  · rw [hm]; exact ⟨rfl, hx.alive, rfl, hx.traced, rfl, rfl, rfl, (BitVec.add_zero _).symm⟩
  · rw [hr]; exact ⟨rfl, hy.alive, rfl, hy.traced, rfl, rfl, rfl, (BitVec.add_zero _).symm⟩

/-- `mmap` sees only the master through. -/
theorem follows_mmap (hm : p .master = ⟨.user, x.origRax, 1, true⟩)
    (hr : p .replica = ⟨.kernel, y.origRax, 0, true⟩) (hx : x.AtEntry) (hy : y.AtEntry) :
    Prog.Via World.ctl (pair x y) (execSyscallMmap K) (servicePost p drops hangs faults (pair x y)) := by
  refine via_guarded (readOnly_verdict .mmap).silent ?_
  refine .keeps (silent_argOf _ _) fun _ => .keeps (silent_argOf _ _) fun _ => ?_
  refine via_masterHalf hx rfl (fun _ => servicePost_fail (.inr (by rw [hm]; rfl)) (.inl rfl)) ?_
  refine .keeps (silent_requestSyscallInfo _) fun _ => .keeps (silent_syscallInfoOf _) fun _ => ?_
  refine via_resumeFromExit_exit (by simpa using hx.finished) ?_
  rw [update_pair_master]
  refine .keeps (silent_argOf _ _) fun _ => .keeps (Prog.keeps_modify fun _ => rfl) fun _ => ?_
  refine via_resumeFromWait_entry (by simpa using hy) ?_
  rw [update_pair_replica]
  refine .pure (servicePost_done ?_ ?_)
  · rw [hm]; exact hx.done_completed x.origRax x.origRax
  · rw [hr]; exact ⟨rfl, hy.alive, rfl, hy.traced, rfl, rfl, rfl, (BitVec.add_zero _).symm⟩

theorem follows_munmap (hp : ∀ v, p v = ⟨.kernel, (pair x y v).origRax, 0, true⟩)
    (hx : x.AtEntry) (hy : y.AtEntry) :
    Prog.Via World.ctl (pair x y) (execSyscallMunmap : Mon ρ Int)
      (servicePost p drops hangs faults (pair x y)) := by
  refine via_guarded (readOnly_verdict .munmap).silent (.keeps (silent_argOf _ _) fun _ => ?_)
  exact .keeps (Prog.keeps_modify fun _ => rfl) fun _ => follows_resumeBoth hp hx hy

/-- `pselect6` waits for a replica that stands at its entry stop: it blocks unless
somebody kills the replica. -/
theorem follows_pselect6 (hh : hangs) (hm : (p .master).nr = x.origRax) (hx : x.AtEntry)
    (hy : y.AtEntry) : Prog.Via World.ctl (pair x y) (execSyscallPselect6 K)
      (servicePost p drops hangs faults (pair x y)) := by
  refine via_guarded (readOnly_verdict .pselect6).silent ?_
  refine .keeps (silent_argOf _ _) fun _ => .keeps (silent_argOf _ _) fun _ =>
    .keeps (silent_argOf _ _) fun _ => .keeps (silent_argOf _ _) fun _ =>
      .keeps (silent_argOf _ _) fun _ => .keeps (silent_argOf _ _) fun _ => ?_
  refine via_masterHalf hx rfl (fun _ => servicePost_fail (.inr (by rw [hm]; rfl)) (.inl rfl)) ?_
  refine .keeps (silent_requestSyscallInfo _) fun _ => .keeps (silent_syscallInfoOf _) fun _ =>
    via_substitute hy ?_
  refine .bind (R := ⟨fun a C' => a = -1 ∧ (C' .master).ran = x.finished.ran ∧
    (C' .replica).ran = y.ran, fun C' => (C' .master).ran = x.finished.ran ∧
    (C' .replica).ran = y.ran, fun _ _ => False⟩) ?_ ?_ ?_ (fun _ _ h => h.elim)
  · refine via_waitVariant_seen (by simpa using hy.with_origRax _) (fun _ => ?_) ?_
    · rw [update_pair_replica]
      exact ⟨rfl, rfl, rfl⟩
    · exact ⟨rfl, rfl⟩
  · rintro a C' ⟨rfl, hxm, hyr⟩
    rw [← pair_eta C']
    exact .pure (servicePost_fail (.inr (by rw [hxm, hm]; rfl)) (.inl hyr))
  · rintro C' ⟨hxm, hyr⟩
    exact ⟨hh, Who.forall_iff.2 ⟨.inr (by rw [hxm, hm]; rfl), .inl hyr⟩⟩

end Executors

/-- **Every executor keeps to its plan.** -/
theorem execSyscall_follows (K : Kernel ρ) (c : Syscall) {C : Who → Ctl} (h : Rendezvous c C) :
    Prog.Via World.ctl C (execSyscall K c)
      (servicePost c.plan (c = .access ∧ ¬ K.Returns) (c = .pselect6) (c ∈ sizedCalls) C) := by
  obtain ⟨hat, hcall⟩ := h
  have hx : (C .master).AtEntry := hat .master
  have hy : (C .replica).AtEntry := hat .replica
  have hcx : (C .master).origRax = c.nr := hcall .master
  have hcy : (C .replica).origRax = c.nr := hcall .replica
  rw [← pair_eta C]
  -- the plan of a call both make, and of one only the master makes
  have hboth : ∀ p : Who → Plan, (∀ v, p v = ⟨.kernel, c.nr, 0, true⟩) →
      ∀ v, p v = ⟨.kernel, (pair (C .master) (C .replica) v).origRax, 0, true⟩ := by
    intro p hp v
    rw [hp v, pair_eta, hcall v]
  have hthrough : ∀ call, c.plan .master = ⟨.user, c.nr, 1, true⟩ →
      c.plan .replica = ⟨.user, call, 1, true⟩ → SeesThrough c.plan (C .master) call := by
    intro call hm hr
    exact ⟨by rw [hm, hcx], hr⟩
  have hguard : ∀ body : Mon ρ Int, Prog.Via World.ctl (pair (C .master) (C .replica)) body
        (servicePost c.plan (c = .access ∧ ¬ K.Returns) (c = .pselect6) (c ∈ sizedCalls)
          (pair (C .master) (C .replica))) →
      Prog.Via World.ctl (pair (C .master) (C .replica)) (guarded (verdict c) body)
        (servicePost c.plan (c = .access ∧ ¬ K.Returns) (c = .pselect6) (c ∈ sizedCalls)
          (pair (C .master) (C .replica))) :=
    fun body hb => via_guarded (readOnly_verdict c).silent hb
  cases c
  case read => exact follows_read (by decide) (hthrough _ rfl rfl) hx hy
  case write => exact follows_write (hthrough _ rfl (by rw [hcy]; rfl)) hx hy
  case pread64 => exact follows_pread64 (by decide) (hthrough _ rfl rfl) hx hy
  case newfstatat => exact follows_newfstatat (hthrough _ rfl rfl) hx hy
  case accept4 => exact follows_accept4 (by decide) (hthrough _ rfl rfl) hx hy
  case poll => exact follows_poll (hthrough _ rfl rfl) hx hy
  case getsockname => exact follows_getsockname (by decide) (hthrough _ rfl rfl) hx hy
  case set_tid_address => exact follows_setTidAddress (hthrough _ rfl (by rw [hcy]; rfl)) hx hy
  case getrandom => exact follows_getrandom (by decide) (by rw [hcx]; rfl) rfl hx hy
  case mmap => exact follows_mmap (by rw [hcx]; rfl) (by rw [hcy]; rfl) hx hy
  case munmap => exact follows_munmap (hboth _ (Who.forall_iff.2 ⟨rfl, rfl⟩)) hx hy
  case pselect6 => exact follows_pselect6 rfl hcx.symm hx hy
  case rseq =>
    exact follows_releaseFirst (readOnly_verdict .rseq).silent
      (hboth _ (Who.forall_iff.2 ⟨rfl, rfl⟩)) hx hy
  case fadvise64 =>
    exact follows_releaseFirst (readOnly_verdict .fadvise64).silent
      (hboth _ (Who.forall_iff.2 ⟨rfl, rfl⟩)) hx hy
  case shutdown =>
    refine hguard _ (follows_shutdown ?_ hx hy)
    exact Who.forall_iff.2 ⟨by rw [pair_master, hcx]; rfl, by rw [pair_replica, hcy]; rfl⟩
  case access => exact hguard _ (follows_access (fun hK => ⟨rfl, hK⟩) (hthrough _ rfl rfl) hx hy)
  case openat => exact hguard _ (follows_both (hthrough _ rfl (by rw [hcy]; rfl)) hx hy)
  case close => exact hguard _ (follows_both (hthrough _ rfl (by rw [hcy]; rfl)) hx hy)
  case getpid => exact follows_masterOnly (hthrough _ rfl rfl) hx hy
  case unlink | utimensat | fchown | fchmod | bind | listen =>
    exact hguard _ (follows_masterOnly (hthrough _ rfl rfl) hx hy)
  case getuid | geteuid | getgid | getegid | brk | set_robust_list =>
    exact follows_resumeBoth (hboth _ (Who.forall_iff.2 ⟨rfl, rfl⟩)) hx hy
  all_goals exact hguard _ (follows_resumeBoth (hboth _ (Who.forall_iff.2 ⟨rfl, rfl⟩)) hx hy)

/-- An executor runs at most what is planned, whichever way it ends. -/
theorem within_plan (K : Kernel ρ) {c : Syscall} {w : World ρ} (hR : Rendezvous c w.ctl) (v : Who) :
    (c.plan v).Within (w.ctl v) ((execSyscall K c w).state.ctl v) :=
  Prog.state_of_wp (execSyscall_follows K c hR w rfl) (fun _ _ h => h.2 v) (fun _ h => h.2 v)
    fun _ _ h => h.2.2 v

end Aurora
