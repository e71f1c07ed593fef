import AuroraMVEE.Parts
import AuroraMVEE.Progress
import AuroraMVEE.Rounds

/-!
# The main loop, round by round

What a sequence of calls does to the kernel is proved of `rounds`, where one executor starts
after the other.  Here the main loop is shown to be no more than that: between two rendezvous
the variants move by themselves, and what they do then is nothing to the kernel, the table or
the buffers.

* `Part.blindCore` — no executor looks at what the main loop keeps and a round does not: marks,
  counters, and the counts of entry stops.
* `Stands` — where a run of the main loop stands, if the rounds have come to a world `r`.
* `stands_step` — every event is matched by rounds: none, or the one that it completes.
* `in_rounds` — so every run of the main loop is a run of rounds.
-/

namespace Aurora

variable {ρ : Type}

/-! ## What no executor looks at -/

/-- A kernel that does not look at the count of entry stops, which is the model's own. -/
structure Kernel.Unaware (K : Kernel ρ) : Prop where
  syscall : ∀ v (t : Tracee) o, K.syscall v t.uncounted o = K.syscall v t o
  user : ∀ v (t : Tracee) o, K.user v t.uncounted o = K.user v t o

namespace World

@[simp] theorem core_core (w : World ρ) : w.core.core = w.core := rfl

theorem core_setProc (w : World ρ) (v : Who) (t : Tracee) :
    (w.setProc v t).core = w.core.setProc v t.uncounted := by
  unfold core setProc
  congr 1
  funext u
  by_cases hu : u = v
  · subst hu
    simp
  · simp [hu]

theorem core_setVar (w : World ρ) (v : Who) (x : Variant) :
    (w.setVar v x).core = w.core.setVar v ⟨.running, 0, x.syscallInfo⟩ := by
  unfold core setVar
  congr 1
  funext u
  by_cases hu : u = v
  · subst hu
    simp
  · simp [hu]

end World

namespace Tracee

@[simp] theorem uncounted_uncounted (t : Tracee) : t.uncounted.uncounted = t.uncounted := rfl

theorem uncounted_die (t : Tracee) : t.uncounted.die = t.die.uncounted := by
  cases ha : t.alive <;> simp [die, uncounted, ha]

theorem uncounted_finish (t : Tracee) (r : SysResult) : t.uncounted.finish r = (t.finish r).uncounted := by
  cases r with
  | died => exact uncounted_die t
  | ret _ _ _ _ => rfl

theorem uncounted_arrive (t : Tracee) (s : UserStop) :
    (t.uncounted.arrive s).uncounted = (t.arrive s).uncounted := by
  cases s with
  | died => simp [arrive, uncounted_die]
  | entry _ _ => rfl
  | signal _ _ => rfl

@[simp] theorem uncounted_stopped (t : Tracee) : t.uncounted.stopped = t.stopped := rfl

theorem uncounted_resume (t : Tracee) : t.uncounted.resume = t.resume.uncounted := by
  unfold resume
  rw [uncounted_stopped]
  split
  · cases t with | mk loc => cases loc <;> rfl
  · rfl

theorem uncounted_pokeUser (t : Tracee) (r : Reg) (x : Word) :
    t.uncounted.pokeUser r x = (t.pokeUser r x).uncounted := by
  unfold pokeUser
  rw [uncounted_stopped]
  split <;> rfl

theorem uncounted_setRegs (t : Tracee) (regs : Regs) :
    t.uncounted.setRegs regs = (t.setRegs regs).uncounted := by
  unfold setRegs
  rw [uncounted_stopped]
  split <;> rfl

theorem uncounted_poke (t : Tracee) (a : Word) (d : Long) :
    t.uncounted.poke a d = (t.poke a d).uncounted := by
  unfold poke
  rw [uncounted_stopped, show t.uncounted.wordMapped a = t.wordMapped a from rfl]
  split <;> rfl

theorem uncounted_writeLoop (localBuf : Buf) (p : Word) (size : ℕ) (n m : ℕ) (t : Tracee) :
    writeLoop localBuf p size n m t.uncounted =
      ((writeLoop localBuf p size n m t).1.uncounted, (writeLoop localBuf p size n m t).2) := by
  fun_induction writeLoop localBuf p size n m t with
  | case1 n m t hn h8 ih =>
    rw [writeLoop, if_pos hn, if_pos h8, uncounted_poke]
    exact ih
  | case2 n m t hn h8 =>
    rw [writeLoop, if_pos hn, if_neg h8, uncounted_poke]
  | case3 n m t hn => rw [writeLoop, if_neg hn]

theorem uncounted_writeVariantMem (t : Tracee) (localBuf : Buf) (p : Word) (size : ℕ) :
    writeVariantMem t.uncounted localBuf p size =
      ((writeVariantMem t localBuf p size).1.uncounted, (writeVariantMem t localBuf p size).2) := by
  by_cases h : size < 8
  · simp only [writeVariantMem, if_pos h, uncounted_poke]
    rfl
  · simp only [writeVariantMem, if_neg h, uncounted_writeLoop]

end Tracee

theorem World.core_advance {K : Kernel ρ} (hK : K.Unaware) (w : World ρ) (v : Who) :
    (w.core.advance K v).core = (w.advance K v).core := by
  have hloc : (w.core.proc v).loc = (w.proc v).loc := rfl
  have halive : (w.core.proc v).alive = (w.proc v).alive := rfl
  unfold advance
  rw [halive, hloc]
  split
  · split
    · show World.core { w.core.setProc v ((w.proc v).uncounted.finish
        (K.syscall v (w.proc v).uncounted w.os).1) with
        os := (K.syscall v (w.proc v).uncounted w.os).2 } = _
      rw [hK.syscall, Tracee.uncounted_finish]
      have hsame : (w.core.setProc v
            ((w.proc v).finish (K.syscall v (w.proc v) w.os).1).uncounted).core =
          (w.setProc v ((w.proc v).finish (K.syscall v (w.proc v) w.os).1)).core := by
        rw [core_setProc, core_setProc, core_core, Tracee.uncounted_uncounted]
      exact congrArg (fun x : World ρ => { x with os := (K.syscall v (w.proc v) w.os).2 }) hsame
    · rw [core_setProc, core_setProc]
      show w.core.setProc v ((w.proc v).uncounted.arrive (K.user v (w.proc v).uncounted w.os)).uncounted = _
      rw [hK.user, Tracee.uncounted_arrive]
    · rfl
  · rfl

section

variable {K : Kernel ρ} {Γ : Scope}

theorem blindCore_ptrace (v : Who) {request : Tracee → Tracee}
    (h : ∀ t : Tracee, (request t.uncounted).uncounted = (request t).uncounted) :
    Prog.Blind World.core (ptrace v request : Mon ρ Unit) := by
  refine .of_view fun w => congrArg (Outcome.ret ()) ?_
  rw [World.core_setProc, World.core_setProc, World.core_core]
  exact congrArg (w.core.setProc v) (h (w.proc v))

theorem blindCore_assign (v : Who) {f : Variant → Variant}
    (h : ∀ x : Variant, (f ⟨.running, 0, x.syscallInfo⟩).syscallInfo = (f x).syscallInfo) :
    Prog.Blind World.core (assign v f : Mon ρ Unit) := by
  refine .of_view fun w => congrArg (Outcome.ret ()) ?_
  rw [World.core_setVar, World.core_setVar, World.core_core]
  exact congrArg (fun i => w.core.setVar v ⟨.running, 0, i⟩) (h (w.var v))

theorem World.core_report (w : World ρ) (v : Who) : (w.report v).core = w.core.report v := by
  rw [World.report, World.core_setProc]
  rfl

theorem World.core_kill (w : World ρ) (v : Who) : (w.kill v).core = w.core.kill v := by
  rw [World.kill, World.core_setProc, ← Tracee.uncounted_die]
  rfl

theorem blindCore_wait (hK : K.Unaware) (v : Who) : Prog.Blind World.core (waitVariant K v) := by
  refine .of_view fun w => ?_
  have hadvance := World.core_advance hK w v
  have hstatus : ((w.core.advance K v).proc v).waitStatus = ((w.advance K v).proc v).waitStatus := by
    have h := congrArg (fun x : World ρ => (x.proc v).waitStatus) hadvance
    exact h
  unfold waitVariant
  by_cases hrun : (w.proc v).running = true
  · rw [if_pos hrun, if_pos (show (w.core.proc v).running = true from hrun), hstatus]
    refine congrArg (Outcome.ret _) ?_
    rw [World.core_report, World.core_report, hadvance]
  rw [if_neg hrun, if_neg (show ¬ (w.core.proc v).running = true from hrun)]
  by_cases hrep : (w.proc v).reported = false
  · rw [if_pos hrep, if_pos (show (w.core.proc v).reported = false from hrep)]
    refine congrArg (Outcome.ret _) ?_
    rw [World.core_report, World.core_report, World.core_core]
  rw [if_neg hrep, if_neg (show ¬ (w.core.proc v).reported = false from hrep)]
  by_cases ha : (w.proc v).alive = true
  · rw [if_pos ha, if_pos (show (w.core.proc v).alive = true from ha)]
    cases K.killed v with
    | false => rfl
    | true =>
      refine congrArg (Outcome.ret _) ?_
      rw [World.core_report, World.core_report, World.core_kill, World.core_kill, World.core_core]
  · rw [if_neg ha, if_neg (show ¬ (w.core.proc v).alive = true from ha)]
    rfl

/-- No part looks at the marks, the counters or the count of entry stops. -/
theorem Part.blindCore (hK : K.Unaware) (α : Type) (m : Mon ρ α) (h : Part K Γ α m) :
    Prog.Blind World.core m := by
  cases h with
  | look f h =>
    refine .gets fun w w' hw => ?_
    rw [← h w, ← h w', hw]
  | scratch f h => exact .of_view fun w => by simp only [Prog.modify_apply, h w]; rfl
  | table f _ h => exact .of_view fun w => by simp only [Prog.modify_apply, h w]; rfl
  | readStatic v b p n =>
    refine .of_view fun w => ?_
    have hread := Tracee.readVariantMem_uncounted (w.proc v) (w.bufs b) p n
    have hcore : w.core.proc v = (w.proc v).uncounted := rfl
    unfold Aurora.readStatic
    rw [hcore, show w.core.bufs = w.bufs from rfl, hread]
    rfl
  | writeFrom localBuf p n _ =>
    refine .of_view fun w => ?_
    have hwrite := fun m => Tracee.uncounted_writeVariantMem (w.proc .replica) localBuf p m
    have hcore : w.core.proc .replica = (w.proc .replica).uncounted := rfl
    unfold Aurora.writeFrom
    by_cases hfault : w.image.Faults n
    · rw [if_pos hfault, if_pos (show w.core.image.Faults n from hfault), hcore, hwrite,
        Outcome.map_exited, Outcome.map_exited, World.core_setProc, World.core_setProc]
      rfl
    · rw [if_neg hfault, if_neg (show ¬ w.core.image.Faults n from hfault), hcore, hwrite,
        Outcome.map_ret, Outcome.map_ret, World.core_setProc, World.core_setProc]
      rfl
  | note v =>
    refine .of_view fun w => congrArg (Outcome.ret ()) ?_
    rw [World.core_setVar, World.core_setVar]
    rfl
  | resumeFromWait v _ =>
    exact .bind (blindCore_ptrace _ fun t => by rw [Tracee.uncounted_resume]; rfl)
      fun _ => blindCore_assign _ fun _ => rfl
  | resumeFromExit v =>
    exact .bind (blindCore_ptrace _ fun t => by rw [Tracee.uncounted_resume]; rfl)
      fun _ => blindCore_assign _ fun _ => rfl
  | wait v _ => exact blindCore_wait hK v
  | setSyscall v call _ =>
    exact blindCore_ptrace _ fun t => by rw [Tracee.uncounted_pokeUser]; rfl
  | setReturn x => exact blindCore_ptrace _ fun t => by rw [Tracee.uncounted_pokeUser]; rfl
  | setLseekRegs fd offset => exact blindCore_ptrace _ fun t => by rw [Tracee.uncounted_setRegs]; rfl

end

/-! ## Kernels put together -/

/-- The kernel that answers each variant as another one does. -/
def Kernel.answering (K : Kernel ρ) (answer : Who → Tracee → ρ → SysResult × ρ) : Kernel ρ :=
  { K with syscall := answer }

/-- An executor asks the kernel only for the variants it sees through their call. -/
theorem execSyscall_congr {K : Kernel ρ} {c : Syscall} {answer : Who → Tracee → ρ → SysResult × ρ}
    (h : ∀ v, (c.plan v).loc = .user → answer v = K.syscall v) :
    execSyscall (K.answering answer) c = execSyscall K c := by
  by_cases hboth : ∀ v, (c.plan v).loc = .user
  · have hsame : answer = K.syscall := funext fun v => h v (hboth v)
    rw [hsame]
    rfl
  · cases c
    case mmap =>
      have hwait : waitVariant (K.answering answer) .master = waitVariant K .master := by
        funext w
        simp only [waitVariant, World.advance, Kernel.answering, h .master rfl]
        rfl
      unfold execSyscall execSyscallMmap resumeAndWait
      rw [hwait]
    all_goals first | exact (hboth (Who.forall_iff.2 ⟨rfl, rfl⟩)).elim | rfl

theorem finishCall_congr {K L : Kernel ρ} {v : Who} (h : K.syscall v = L.syscall v) (w : World ρ) :
    w.finishCall K v = w.finishCall L v := by
  unfold World.finishCall
  split
  · next hloc => simp only [World.advance, hloc, h]
  · rfl

/-! ## What is assumed of the calls -/

/-- A kernel in which no variant dies in a call, and which answers the calls of each as `A` says. -/
structure Kernel.Answers (A : Who → (Tracee → ρ → SysResult × ρ) → Prop) (K : Kernel ρ) : Prop where
  returns : K.Returns
  answers : ∀ v, A v (K.syscall v)

/-- Such a kernel of the two-stop model. -/
structure Kernel.Fit (A : Who → (Tracee → ρ → SysResult × ρ) → Prop) (K : Kernel ρ) : Prop
    extends K.Answers A where
  plain : K.Plain
  unaware : K.Unaware

/-- An event under such a kernel, in which the calls that meet are as `B` says. -/
inductive Event.Under (A : Who → (Tracee → ρ → SysResult × ρ) → Prop)
    (B : (Who → Regs) → (Who → Mem) → Prop) (s : Sys ρ) : Event ρ → Prop
  | run (v : Who) {K : Kernel ρ} (hK : K.Fit A) : Event.Under A B s (.run v K)
  | wake (v : Who) {K : Kernel ρ} (hK : K.Fit A)
      (made : (∀ u, (s.world.proc u).loc = .entry) →
        B (fun u => (s.world.proc u).regs) fun u => (s.world.proc u).mem) :
      Event.Under A B s (.wake v K)

/-- A round of such a call, answered so. -/
structure Round.Under (A : Who → (Tracee → ρ → SysResult × ρ) → Prop)
    (B : (Who → Regs) → (Who → Mem) → Prop) (e : Round ρ) : Prop where
  kernel : e.kernel.Answers A
  made : B e.regs e.mem

/-! ## Where a run stands -/

/-- `t` is the process `t₀`, or has moved on from there without another call: it has passed its exit
stop, or come to its next entry stop with registers and memory of its own. -/
structure Tracee.Since (t₀ t : Tracee) : Prop where
  options : t.options = t₀.options
  ran : t.ran = t₀.ran
  kernel : t.loc = .kernel ↔ t₀.loc = .kernel
  inside : t.loc = .kernel → t.uncounted = t₀.uncounted
  regs : t.loc ≠ .entry → t.regs = t₀.regs
  mem : t.loc ≠ .entry → t.mem = t₀.mem

/-- The kernel, the table and the buffers are as they are in `w₀`, and the variants are there or have
moved on. -/
structure World.Since (w₀ w : World ρ) : Prop where
  os : w.os = w₀.os
  mappings : w.mappings = w₀.mappings
  bufs : w.bufs = w₀.bufs
  image : w.image = w₀.image
  proc : ∀ v, (w₀.proc v).Since (w.proc v)

section

variable (A : Who → (Tracee → ρ → SysResult × ρ) → Prop) (B : (Who → Regs) → (Who → Mem) → Prop)

/-- The round `e` has begun after the world `r`, and its executor has left `w₁`. -/
structure Round.Begun (e : Round ρ) (r w₁ : World ρ) : Prop where
  under : e.Under A B
  call : ∀ v, e.regs v .origRax = e.call.nr
  run : execSyscall e.kernel e.call (e.start r) = .ret 0 w₁

/-- Where `w` stands, if the rounds have come to `r`. -/
inductive Stands (r w : World ρ) : Prop
  /-- no call is in the kernel -/
  | between (h : r.Since w) (hout : ∀ v, (w.proc v).loc ≠ .kernel)
  /-- the next executor is through, and its calls are in the kernel -/
  | released (e : Round ρ) {w₁ : World ρ} (he : e.Begun A B r w₁) (h : w₁.Since w) {v : Who}
      (hv : (w.proc v).loc = .kernel)
  /-- so is the kernel of one variant -/
  | halfway (e : Round ρ) {w₁ : World ρ} (he : e.Begun A B r w₁) {K : Kernel ρ} (hK : K.Fit A)
      (hboth : ∀ v, (w₁.proc v).loc = .kernel) (h : (w₁.finishCall K e.first).Since w)

end

/-! ## Moving on -/

namespace Tracee.Since

variable {t₀ t : Tracee}

/-- A process that differs in the count of its entry stops only. -/
theorem of_uncounted (h : t.uncounted = t₀.uncounted) : t₀.Since t := by
  have hloc := congrArg Tracee.loc h
  have hoptions := congrArg Tracee.options h
  have hran := congrArg Tracee.ran h
  have hregs := congrArg Tracee.regs h
  have hmem := congrArg Tracee.mem h
  exact ⟨hoptions, hran, by rw [show t.loc = t₀.loc from hloc], fun _ => h, fun _ => hregs, fun _ => hmem⟩

/-- It comes to its next entry stop, or dies on the way. -/
theorem arrive (h : t₀.Since t) (hloc : t.loc = .user) {stop : UserStop}
    (hstop : ∀ regs mem, stop ≠ .signal regs mem) : t₀.Since (t.arrive stop) := by
  have hout : t₀.loc ≠ .kernel := fun hl => absurd (hloc.symm.trans (h.kernel.2 hl)) (by decide)
  have hin : t.loc ≠ .entry := by rw [hloc]; decide
  cases stop with
  | signal regs mem => exact absurd rfl (hstop regs mem)
  | entry regs mem =>
    exact ⟨h.options, h.ran, iff_of_false (by simp [Tracee.arrive]) hout, by simp [Tracee.arrive],
      by simp [Tracee.arrive], by simp [Tracee.arrive]⟩
  | died =>
    cases ha : t.alive with
    | false => simpa [Tracee.arrive, Tracee.die, ha] using h
    | true =>
      have hdie : t.arrive .died = { t with alive := false, reported := false } := by
        simp [Tracee.arrive, Tracee.die, ha]
      rw [hdie]
      exact ⟨h.options, h.ran, h.kernel, fun hl => absurd (hloc.symm.trans hl) (by decide), h.regs, h.mem⟩

/-- It is held at its entry stop. -/
theorem held (h : t₀.Since t) (hloc : t.loc = .entry) : t₀.Since { t with reported := true } :=
  ⟨h.options, h.ran, h.kernel, fun hl => absurd (hloc.symm.trans hl) (by decide), h.regs, h.mem⟩

/-- It passes its exit stop. -/
theorem passed (h : t₀.Since t) (hloc : t.loc = .exit) :
    t₀.Since { t with loc := .user, reported := false } := by
  have hout : t₀.loc ≠ .kernel := fun hl => absurd (hloc.symm.trans (h.kernel.2 hl)) (by decide)
  have hin : t.loc ≠ .entry := by rw [hloc]; decide
  exact ⟨h.options, h.ran, iff_of_false (by simp) hout, by simp, fun _ => h.regs hin, fun _ => h.mem hin⟩

/-- Its kernel finishes. -/
theorem finish (h : t₀.Since t) (hloc : t.loc = .kernel) (r : SysResult) :
    (t₀.finish r).Since (t.finish r) := by
  refine .of_uncounted ?_
  rw [← uncounted_finish, ← uncounted_finish, h.inside hloc]

end Tracee.Since

namespace World.Since

variable {w₀ w w' : World ρ} {v : Who} {t : Tracee}

theorem of_core (h : w.core = w₀.core) : w₀.Since w := by
  have hos := congrArg World.os h
  have hmappings := congrArg World.mappings h
  have hbufs := congrArg World.bufs h
  have himage := congrArg World.image h
  have hproc := fun v => congrFun (congrArg World.proc h) v
  exact ⟨hos, hmappings, hbufs, himage, fun v => .of_uncounted (hproc v)⟩

/-- One variant moves on. -/
theorem change (h : w₀.Since w) (hos : w'.os = w.os) (hmappings : w'.mappings = w.mappings)
    (hbufs : w'.bufs = w.bufs) (himage : w'.image = w.image)
    (hproc : w'.proc = Function.update w.proc v t)
    (ht : (w₀.proc v).Since (w.proc v) → (w₀.proc v).Since t) : w₀.Since w' := by
  refine ⟨hos.trans h.os, hmappings.trans h.mappings, hbufs.trans h.bufs, himage.trans h.image,
    fun u => ?_⟩
  rw [hproc]
  by_cases hu : u = v
  · subst hu
    rw [Function.update_self]
    exact ht (h.proc u)
  · rw [Function.update_of_ne hu]
    exact h.proc u

/-- The kernel of one variant finishes, there as here. -/
theorem finish {K : Kernel ρ} (h : w₀.Since w) (hK : K.Unaware) (hloc : (w.proc v).loc = .kernel)
    (ha : (w.proc v).alive = true) : (w₀.finishCall K v).Since (w.advance K v) := by
  have hloc₀ : (w₀.proc v).loc = .kernel := (h.proc v).kernel.1 hloc
  have hsame := (h.proc v).inside hloc
  have halive := congrArg Tracee.alive hsame
  have ha₀ : (w₀.proc v).alive = true := halive.symm.trans ha
  have hanswer : K.syscall v (w.proc v) w.os = K.syscall v (w₀.proc v) w₀.os := by
    rw [← hK.syscall, hsame, hK.syscall, h.os]
  rw [finishCall_of_atWork K ⟨hloc₀, ha₀⟩]
  have hw : w.advance K v = { w.setProc v ((w.proc v).finish (K.syscall v (w.proc v) w.os).1) with
      os := (K.syscall v (w.proc v) w.os).2 } := by
    simp only [World.advance, ha, hloc]
    rfl
  rw [hw, hanswer]
  refine ⟨rfl, h.mappings, h.bufs, h.image, fun u => ?_⟩
  by_cases hu : u = v
  · subst hu
    simpa [World.setProc] using (h.proc u).finish hloc _
  · simpa [World.setProc, hu] using h.proc u

end World.Since

/-! ## One event -/

theorem finishCall_proc_of_ne {K : Kernel ρ} {u v : Who} (h : u ≠ v) (w : World ρ) :
    (w.finishCall K v).proc u = w.proc u := by
  unfold World.finishCall
  split
  · exact World.advance_proc_of_ne w K h
  · rfl

/-- A kernel in which nobody dies takes a variant to its exit stop. -/
theorem finishCall_loc {K : Kernel ρ} {w : World ρ} {v : Who} (hK : K.Returns)
    (h : (w.proc v).AtWork) : ((w.finishCall K v).proc v).loc = .exit := by
  rw [finishCall_of_atWork K h]
  cases hres : (K.syscall v (w.proc v) w.os).1 with
  | died => exact absurd hres (hK _ _ _)
  | ret _ _ _ _ => simp [World.setProc, Tracee.finish]

section Steps

variable {A : Who → (Tracee → ρ → SysResult × ρ) → Prop} {B : (Who → Regs) → (Who → Mem) → Prop}
  {e : Round ρ} {r w w' w₁ : World ρ} {v : Who} {t : Tracee} {K : Kernel ρ}

/-- The executor of a round has kept to its plan. -/
theorem Round.Begun.done (he : e.Begun A B r w₁) (u : Who) :
    (e.call.plan u).Done ((e.start r).ctl u) (w₁.ctl u) := by
  have hpost := Prog.ret_of_wp
    (execSyscall_follows e.kernel e.call (start_rendezvous r he.call) _ rfl) he.run
  rcases hpost.1 rfl with hdone | ⟨⟨-, hno⟩, -⟩
  · exact hdone u
  · exact absurd he.under.kernel.returns hno

theorem Round.Begun.atWork (he : e.Begun A B r w₁) {u : Who} (h : (w₁.proc u).loc = .kernel) :
    (w₁.proc u).AtWork := ⟨h, (he.done u).alive⟩

/-- Two kernels, one for each variant. -/
theorem Kernel.Answers.update {K₀ K₁ : Kernel ρ} (h₀ : K₀.Answers A) (h₁ : K₁.Answers A) (v : Who) :
    (K.answering (Function.update K₀.syscall v (K₁.syscall v))).Answers A := by
  have hcases : ∀ {p : Who → (Tracee → ρ → SysResult × ρ) → Prop}, (∀ u, p u (K₀.syscall u)) →
      (∀ u, p u (K₁.syscall u)) → ∀ u, p u (Function.update K₀.syscall v (K₁.syscall v) u) := by
    intro p hp₀ hp₁ u
    by_cases hu : u = v
    · subst hu
      simpa using hp₁ u
    · simpa [hu] using hp₀ u
  exact ⟨fun u => hcases (p := fun _ f => ∀ t o, (f t o).1 ≠ .died) h₀.returns h₁.returns u,
    hcases h₀.answers h₁.answers⟩

/-- The kernel of `first` finishes, and then that of its partner if it is at work: the round is
over. -/
theorem Round.Begun.over (he : e.Begun A B r w₁) {K₀ K₁ : Kernel ρ} (h₀ : K₀.Answers A)
    (h₁ : K₁.Answers A) {first : Who} (hfirst : (w₁.proc first).loc = .kernel)
    (hother : (w₁.proc first.other).loc ≠ .kernel → K₀ = e.kernel) :
    ∃ e' : Round ρ, ((rounds ρ).restrict fun _ e => e.Under A B).step r e'
      ((w₁.finishCall K₁ first).finishCall K₀ first.other) := by
  have hcongr : execSyscall (e.kernel.answering (Function.update K₀.syscall first (K₁.syscall first)))
      e.call = execSyscall e.kernel e.call := by
    refine execSyscall_congr fun u hu => ?_
    have hloc : (w₁.proc u).loc = (e.call.plan u).loc := (he.done u).loc
    have hout : (w₁.proc u).loc ≠ .kernel := by
      rw [hloc, hu]
      decide
    have hne : u ≠ first := fun h => hout (h ▸ hfirst)
    rw [Function.update_of_ne hne, hother (Who.eq_other_of_ne hne ▸ hout)]
  refine ⟨⟨e.call, e.kernel.answering (Function.update K₀.syscall first (K₁.syscall first)), e.regs,
    e.mem, first⟩, ⟨he.call, w₁, (congrFun hcongr _).trans he.run, ?_⟩, ⟨h₀.update h₁ first, he.under.made⟩⟩
  have hone : ∀ w : World ρ, w.finishCall K₁ first = w.finishCall (e.kernel.answering
      (Function.update K₀.syscall first (K₁.syscall first))) first :=
    finishCall_congr (by simp [Kernel.answering])
  have htwo : ∀ w : World ρ, w.finishCall K₀ first.other = w.finishCall (e.kernel.answering
      (Function.update K₀.syscall first (K₁.syscall first))) first.other :=
    finishCall_congr (by simp [Kernel.answering])
  rw [hone, htwo]
  rfl

/-- A variant that is in no call moves on. -/
theorem Stands.change (h : Stands A B r w) (hos : w'.os = w.os) (hmappings : w'.mappings = w.mappings)
    (hbufs : w'.bufs = w.bufs) (himage : w'.image = w.image)
    (hproc : w'.proc = Function.update w.proc v t)
    (ht : ∀ t₀ : Tracee, t₀.Since (w.proc v) → t₀.Since t) : Stands A B r w' := by
  have hchange : ∀ w₀ : World ρ, w₀.Since w → w₀.Since w' := fun w₀ h₀ =>
    h₀.change hos hmappings hbufs himage hproc (ht _)
  have hloc : ∀ u, (w'.proc u).loc = .kernel ↔ (w.proc u).loc = .kernel := fun u =>
    ((hchange w ⟨rfl, rfl, rfl, rfl, fun _ => .of_uncounted rfl⟩).proc u).kernel
  cases h with
  | between h hout => exact .between (hchange _ h) fun u hu => hout u ((hloc u).1 hu)
  | released e he h hu => exact .released e he (hchange _ h) ((hloc _).2 hu)
  | halfway e he hK hboth h => exact .halfway e he hK hboth (hchange _ h)

/-- A kernel finishes: one of two, or the last of its round. -/
theorem Stands.finish (h : Stands A B r w) (hK : K.Fit A) (hloc : (w.proc v).loc = .kernel)
    (ha : (w.proc v).alive = true) :
    ∃ es r', ((rounds ρ).restrict fun _ e => e.Under A B).Run r es r' ∧
      Stands A B r' (w.advance K v) := by
  cases h with
  | between _ hout => exact absurd hloc (hout v)
  | @released e w₁ he h _ _ =>
    have hv : (w₁.proc v).loc = .kernel := (h.proc v).kernel.1 hloc
    have hexit : ((w₁.finishCall K v).proc v).loc = .exit := finishCall_loc hK.returns (he.atWork hv)
    have hfinish := h.finish hK.unaware hloc ha
    by_cases hother : (w₁.proc v.other).loc = .kernel
    · have hboth : ∀ u, (w₁.proc u).loc = .kernel := fun u => by
        by_cases hu : u = v
        · rwa [hu]
        · rwa [Who.eq_other_of_ne hu]
      exact ⟨[], r, .nil, .halfway { e with first := v } ⟨⟨he.under.kernel, he.under.made⟩, he.call,
        he.run⟩ hK hboth hfinish⟩
    · -- the last kernel of the round is that of `v`
      have hother' : ((w₁.finishCall K v).proc v.other).loc ≠ .kernel := by
        rwa [finishCall_proc_of_ne (Who.other_ne v)]
      obtain ⟨e', hover⟩ := he.over he.under.kernel hK.toAnswers hv fun _ => rfl
      rw [finishCall_of_ne e.kernel hother'] at hover
      refine ⟨[e'], _, .single hover, .between hfinish fun u hu => ?_⟩
      rw [(hfinish.proc u).kernel] at hu
      by_cases huv : u = v
      · rw [huv, hexit] at hu
        exact absurd hu (by decide)
      · rw [Who.eq_other_of_ne huv] at hu
        exact hother' hu
  | @halfway e w₁ he K₁ hK₁ hboth h =>
    have hfirst : ((w₁.finishCall K₁ e.first).proc e.first).loc = .exit :=
      finishCall_loc hK₁.returns (he.atWork (hboth _))
    have hv : v = e.first.other := by
      refine Who.eq_other_of_ne fun hv => ?_
      subst hv
      exact absurd (hfirst.symm.trans ((h.proc e.first).kernel.1 hloc)) (by decide)
    subst hv
    have hfinish := h.finish hK.unaware hloc ha
    have hwork : ((w₁.finishCall K₁ e.first).proc e.first.other).AtWork := by
      rw [finishCall_proc_of_ne (Who.other_ne _)]
      exact he.atWork (hboth _)
    have hexit := finishCall_loc hK.returns hwork
    obtain ⟨e', hover⟩ := he.over hK.toAnswers hK₁.toAnswers (hboth e.first)
      fun hno => absurd (hboth _) hno
    refine ⟨[e'], _, .single hover, .between hfinish fun u hu => ?_⟩
    rw [(hfinish.proc u).kernel] at hu
    by_cases huv : u = e.first
    · rw [huv, finishCall_proc_of_ne (Who.ne_other _), hfirst] at hu
      exact absurd hu (by decide)
    · rw [Who.eq_other_of_ne huv, hexit] at hu
      exact absurd hu (by decide)

/-- The round that begins where the two variants meet. -/
def World.round (w : World ρ) (c : Syscall) (K : Kernel ρ) : Round ρ :=
  ⟨c, K, fun v => (w.proc v).regs, fun v => (w.proc v).mem, .master⟩

/-- Where both variants are at an entry stop, no call is in the kernel. -/
theorem Stands.since_of_entry (h : Stands A B r w) (hloc : ∀ u, (w.proc u).loc = .entry) : r.Since w := by
  cases h with
  | between h _ => exact h
  | released e he h hv => exact absurd ((hloc _).symm.trans hv) (by decide)
  | halfway e he hK hboth h =>
    have hin := (h.proc e.first.other).kernel.2 (by
      rw [finishCall_proc_of_ne (Who.other_ne _)]
      exact hboth _)
    exact absurd ((hloc _).symm.trans hin) (by decide)

theorem Tracee.uncounted_of_atEntry (hl : t.loc = .entry) (ha : t.alive = true)
    (hrep : t.reported = true) (ht : t.traced = true) :
    t.uncounted = ⟨.entry, true, true, true, t.options, t.regs, t.mem, 0, t.ran⟩ := by
  cases t
  cases hl
  cases ha
  cases hrep
  cases ht
  rfl

/-- The executor of the round finds what that of the main loop finds. -/
theorem core_start {stale : Prop} {c : Syscall} (h : r.Since w) (hl : Lockstep stale w)
    (hp : (w.proc v).pending = true) (ha : (w.proc v).alive = true)
    (hsync : (w.woken v).callsSync v) (hR : Rendezvous c ((w.woken v).noted v).ctl) :
    ((w.round c K).start r).core = ((w.woken v).noted v).core := by
  obtain ⟨hloc, -, -⟩ := hl.met hR
  have hproc : ∀ u, ∃ b, ((w.woken v).noted v).proc u = { w.proc u with reported := b } := fun u => by
    by_cases hu : u = v
    · subst hu
      exact ⟨true, by rw [World.noted_proc, World.woken_proc_self]⟩
    · exact ⟨(w.proc u).reported, by rw [World.noted_proc, World.woken_proc, Function.update_of_ne hu]⟩
  have hinfo := hl.met_infos hp ha hsync hR
  have hcore : ((w.round c K).start r).core.proc = ((w.woken v).noted v).core.proc := by
    funext u
    have hat := hR.atEntry u
    obtain ⟨b, hb⟩ := hproc u
    have hnow := Tracee.uncounted_of_atEntry hat.loc hat.alive hat.reported hat.traced
    show _ = (((w.woken v).noted v).proc u).uncounted
    rw [hnow, hb]
    have hsince := h.proc u
    show Tracee.mk .entry true true true (r.proc u).options (w.proc u).regs (w.proc u).mem 0 (r.proc u).ran = _
    rw [← hsince.options, ← hsince.ran]
  have hvar : ((w.round c K).start r).core.var = ((w.woken v).noted v).core.var := by
    funext u
    show (⟨.running, 0, .ofEntry (w.proc u).regs⟩ : Variant) = ⟨.running, 0, _⟩
    rw [hinfo u]
  show World.mk _ _ _ _ _ _ = World.mk _ _ _ _ _ _
  congr 1
  · exact h.mappings.symm
  · exact h.bufs.symm
  · exact h.os.symm
  · exact h.image.symm

/-- A call that was serviced: a round has begun. -/
theorem Stands.serviced {stale : Prop} (h : Stands A B r w) (hl : Lockstep stale w) (hK : K.Fit A)
    (hmade : (∀ u, (w.proc u).loc = .entry) → B (fun u => (w.proc u).regs) fun u => (w.proc u).mem)
    (hp : (w.proc v).pending = true) (ha : (w.proc v).alive = true)
    (hsync : (w.woken v).callsSync v)
    (hrun : processSyscallSync K ((w.woken v).noted v) = .ret 0 w') :
    ∃ es r', ((rounds ρ).restrict fun _ e => e.Under A B).Run r es r' ∧ Stands A B r' w' := by
  rcases hl.meeting hp ha hsync K with hno | ⟨c, hR, hexec⟩
  · rw [hno] at hrun
    exact absurd hrun (by simp)
  rw [hexec] at hrun
  obtain ⟨hloc, hcall, -⟩ := hl.met hR
  have hcore := core_start (K := K) (h.since_of_entry hloc) hl hp ha hsync hR
  have hmade' : Made K .all (execSyscall K c) :=
    Made.execSyscall trivial (fun _ => trivial) (fun _ => trivial) (fun _ => trivial)
      (fun _ => trivial) fun _ => trivial
  have hblind := hmade'.blind (Part.blindCore hK.unaware) _ _ hcore
  rw [hrun] at hblind
  obtain ⟨w₁, hw₁, hcore₁⟩ := Outcome.ret_of_map hblind
  have he : (w.round c K).Begun A B r w₁ := ⟨⟨hK.toAnswers, hmade hloc⟩, hcall, hw₁⟩
  have hsince : w₁.Since w' := .of_core hcore₁.symm
  by_cases hin : ∃ u, (w'.proc u).loc = .kernel
  · obtain ⟨u, hu⟩ := hin
    exact ⟨[], r, .nil, .released _ he hsince hu⟩
  · -- no kernel is at work, so the round is over as soon as it has begun
    have hout : ∀ u, (w'.proc u).loc ≠ .kernel := fun u hu => hin ⟨u, hu⟩
    have hsettle := settle_of_ne K .master fun u hu => hout u ((hsince.proc u).kernel.2 hu)
    exact ⟨[w.round c K], w₁, .single ⟨⟨hcall, w₁, hw₁, hsettle.symm⟩, he.under⟩,
      .between hsince hout⟩

theorem Event.Under.returning {s : Sys ρ} {ev : Event ρ} (h : ev.Under A B s) : ev.Returning := by
  cases h with
  | run v hK =>
    refine ⟨hK.plain, ?_⟩
    intro _ _ heq
    cases heq
  | wake v hK made =>
    refine ⟨hK.plain, ?_⟩
    intro _ _ heq
    cases heq
    exact hK.returns

/-- Every event is matched by rounds: none, or the one that it completes. -/
theorem stands_step {s s' : Sys ρ} {ev : Event ρ} (hl : Lockstep True s.world)
    (h : Stands A B r s.world) (hstep : (system ρ).step s ev s') (hev : ev.Under A B s)
    (hmode : s'.mode = .waiting) :
    ∃ es r', ((rounds ρ).restrict fun _ e => e.Under A B).Run r es r' ∧ Stands A B r' s'.world := by
  obtain ⟨-, hcase⟩ := step_cases hstep
  cases hcase with
  | kill v _ => exact nomatch hev
  | noChild _ _ => exact nomatch hev
  | run v K hrun =>
    cases hev with
    | run _ hK =>
    have ha : (s.world.proc v).alive = true := by
      simp only [Tracee.running, Bool.and_eq_true] at hrun
      exact hrun.1
    cases hloc : (s.world.proc v).loc with
    | kernel => exact h.finish hK hloc ha
    | user =>
      refine ⟨[], r, .nil, h.change (v := v)
        (t := (s.world.proc v).arrive (K.user v (s.world.proc v) s.world.os)) ?_ ?_ ?_ ?_ ?_
        fun t₀ h₀ => h₀.arrive hloc (hK.plain.noSignal v _ _)⟩ <;>
        simp [World.advance, ha, hloc, World.setProc]
    | entry | exit | signal => simp [Tracee.running, hloc] at hrun
  | wake v K hp hbody =>
    cases hev with
    | wake _ hK made =>
    cases hbody with
    | held hstat hop _ _ =>
      obtain ⟨hloc, -, -⟩ := hl.at_entry hp (alive_of_stopped hstat) hop
      exact ⟨[], r, .nil, h.change (v := v) rfl rfl rfl rfl rfl fun t₀ h₀ => h₀.held hloc⟩
    | passed hstat hop =>
      obtain ⟨hx, hs⟩ := Tracee.exit_of_op hop
      have hloc : (s.world.proc v).loc = .exit := by simpa using hx
      refine ⟨[], r, .nil, h.change (v := v) rfl rfl rfl rfl ?_ fun t₀ h₀ => h₀.passed hloc⟩
      rw [World.passed, World.setVar_proc, World.noted_proc, Tracee.resume_exit hx hs]
      simp [World.setProc, World.woken_proc]
    | serviced hstat hsync hrun =>
      exact h.serviced hl hK made hp (alive_of_stopped hstat) hsync hrun
    | _ => exact absurd hmode (by simp)

end Steps

/-! ## Runs -/

section Runs

variable {A : Who → (Tracee → ρ → SysResult × ρ) → Prop} {B : (Who → Regs) → (Who → Mem) → Prop}

theorem finishCall_ran (K : Kernel ρ) (u v : Who) (w : World ρ) :
    ((w.finishCall K v).proc u).ran = (w.proc u).ran := by
  by_cases hu : u = v
  · subst hu
    unfold World.finishCall World.advance
    split
    · next hloc =>
      split
      · cases (K.syscall u (w.proc u) w.os).1 <;>
          simp [hloc, World.setProc, Tracee.finish, Tracee.die_ran]
      · rfl
    · rfl
  · rw [finishCall_proc_of_ne hu]

/-- What the kernels have executed in a run of rounds is what the rounds' calls plan. -/
theorem rounds_history {w r : World ρ} {es : List (Round ρ)}
    (hrun : ((rounds ρ).restrict fun _ e => e.Under A B).Run w es r)
    (h₀ : ∀ v, (w.proc v).ran = []) (v : Who) : (r.proc v).ran = history (es.map Round.call) v := by
  induction hrun with
  | nil => exact h₀ v
  | @snoc t u es e _ hlast ih =>
    obtain ⟨⟨hcall, w₁, hexec, rfl⟩, hunder⟩ := hlast
    have he : e.Begun A B t w₁ := ⟨hunder, hcall, hexec⟩
    have hran : (w₁.proc v).ran = (t.proc v).ran ++ [(e.call.plan v).nr] := (he.done v).ran
    rw [World.settle, finishCall_ran, finishCall_ran, hran, ih, List.map_append, List.map_singleton,
      history_append]

/-- **The main loop, round by round.**  Take any run of the main loop, any two programs, any kernels
in which no variant dies in a call, and any order of events.  It is a run of rounds: one
executor after the other, each started with both variants at the entry of the same call, and
each followed by what is left to the kernels.  As long as the main loop waits, the system
stands where the rounds lead, or in the middle of the next one; the calls of the rounds are
those that the kernels have executed; and what is assumed of the calls of the run is true of
those of the rounds. -/
theorem in_rounds {s₀ s : Sys ρ} {evs : List (Event ρ)} (h₀ : s₀.world.Started)
    (hrun : ((system ρ).restrict fun t e => e.Under A B t).Run s₀ evs s) (hmode : s.mode = .waiting) :
    ∃ es r, ((rounds ρ).restrict fun _ e => e.Under A B).Run s₀.world es r ∧
      Stands A B r s.world ∧ ∀ v, (r.proc v).ran = history (es.map Round.call) v := by
  have hmatch : ∃ es r, ((rounds ρ).restrict fun _ e => e.Under A B).Run s₀.world es r ∧
      (s.mode = .waiting → Lockstep True s.world ∧ Stands A B r s.world) := by
    refine hrun.refines (R := fun t r => t.mode = .waiting → Lockstep True t.world ∧ Stands A B r t.world)
      (fun _ => ⟨.of_started h₀, .between ⟨rfl, rfl, rfl, rfl, fun _ => .of_uncounted rfl⟩ fun v hv => ?_⟩) ?_
    · exact absurd ((h₀.loc v).symm.trans hv) (by decide)
    · intro t r e t' ht hstep
      obtain ⟨hl, hst⟩ := ht (step_cases hstep.1).1
      by_cases hmode' : t'.mode = .waiting
      · obtain ⟨es, r', hes, hst'⟩ := stands_step hl hst hstep.1 hstep.2 hmode'
        exact ⟨es, r', hes, fun _ => ⟨lockstep_returning hl hstep.1 hstep.2.returning hmode', hst'⟩⟩
      · exact ⟨[], r, .nil, fun h => absurd h hmode'⟩
  obtain ⟨es, r, hes, hst⟩ := hmatch
  exact ⟨es, r, hes, (hst hmode).2, rounds_history hes h₀.ran⟩

end Runs

/-! ### A round of `getuid` -/

theorem fit_calling (nr : Word) : (Kernel.calling nr).Fit fun _ f => ∀ t o, (f t o).1 = .ret 0 0 0 t.mem where
  plain := plain_calling nr
  returns := returns_calling nr
  unaware := ⟨fun _ _ _ => rfl, fun _ _ _ => rfl⟩
  answers _ _ _ := rfl

/-- Both variants make a `getuid` and pass its exit stop: one round. -/
theorem in_rounds_getuid :
    ∃ es r, ((rounds Unit).restrict fun _ e => e.Under (fun _ f => ∀ t o, (f t o).1 = .ret 0 0 0 t.mem)
        fun _ _ => True).Run (Sys.fresh ()).world es r ∧
      Stands (fun _ f => ∀ t o, (f t o).1 = .ret 0 0 0 t.mem) (fun _ _ => True) r
        ((Sys.fresh ()).played getuidRound).world ∧
      ∀ v, (r.proc v).ran = history (es.map Round.call) v := by
  refine in_rounds (started_fresh ()) ((run_played (by decide +kernel)).to_restrict fun e he t => ?_)
    (by decide +kernel)
  simp only [getuidRound, getuidPassed, meetCalling, arriveCalling, List.cons_append,
    List.nil_append, List.mem_cons, List.not_mem_nil, or_false] at he
  rcases he with rfl | rfl | rfl | rfl | rfl | rfl | rfl | rfl
  all_goals first
    | exact .run _ (fit_calling 102)
    | exact .wake _ (fit_calling 102) fun _ => trivial

end Aurora
