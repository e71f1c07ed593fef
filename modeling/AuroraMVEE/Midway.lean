import AuroraMVEE.Channel

/-!
# In the middle of an executor

Most executors take the master through its call first, then the replica through its own, and
let go of both in the end.  `Midway` is the state between any two of their steps; the modules
that follow an executor from its first step to its last share it.

* `wp_master` — the master's call leads into it.
* `Midway.wp_*` — one rule for each thing an executor does there.
* `LetGo` — what is left of it once both variants are on their way.
-/

namespace Aurora

variable {ρ : Type}

/-! ## Looking, and waiting -/

section

variable {K : Kernel ρ} {P : Prog.Post (World ρ) Int} {w : World ρ}

/-- Something looked up that plays no part. -/
theorem wp_look {α : Type} {f : World ρ → α} {g : α → Mon ρ Int}
    (h : ∀ x, Prog.wp (g x) P w) : Prog.wp (Prog.gets f >>= g) P w := h _

theorem wp_argOf_eq {v : Who} {k : Fin 6} {g : Word → Mon ρ Int}
    (h : Prog.wp (g ((w.var v).syscallInfo.arg k)) P w) : Prog.wp (argOf v k >>= g) P w := h

/-- The value of a four-byte variable, and of what lies behind it. -/
theorem wp_readShort {v : Who} {a : Word} {g : Buf → Mon ρ Int}
    (h : Prog.wp (g (readVariantMem (w.proc v) (fun _ => 0) a 4).1) P w) :
    Prog.wp (readShort v a >>= g) P w := h

theorem wp_doIf {c : Prop} [Decidable c] {m : Mon ρ Int} {g : Int → Mon ρ Int}
    (hdo : c → Prog.wp (m >>= g) P w) (hnot : ¬ c → Prog.wp (g 0) P w) :
    Prog.wp (doIf c m >>= g) P w := by
  unfold doIf
  split
  · next hc => exact hdo hc
  · next hc => exact hnot hc

/-- A variant at its entry stop is released and waited for. -/
theorem wp_resumeAndWait {v : Who} {g : Int → Mon ρ Int} (hv : (w.ctl v).AtEntry)
    (hdied : (K.answer v w).1 = .died → Prog.wp (g (-1)) P (w.through K v))
    (hret : ∀ rax rcx r11 mem, (K.answer v w).1 = .ret rax rcx r11 mem →
      Prog.wp (g 0) P (w.through K v)) : Prog.wp (resumeAndWait K v >>= g) P w := by
  rw [Prog.wp_bind]
  refine Prog.wp_of_eq_ret (resumeAndWait_apply K hv) ?_
  cases hans : (K.answer v w).1 with
  | died => exact hdied hans
  | ret rax rcx r11 mem => exact hret rax rcx r11 mem hans

end

/-! ## What a step leaves alone -/

theorem resume_regs (t : Tracee) : t.resume.regs = t.regs := by
  unfold Tracee.resume
  split
  · split <;> rfl
  · rfl

theorem resume_mem (t : Tracee) : t.resume.mem = t.mem := by
  unfold Tracee.resume
  split
  · split <;> rfl
  · rfl

theorem die_mem (t : Tracee) : t.die.mem = t.mem := by
  unfold Tracee.die
  split <;> rfl

theorem pokeUser_origRax (t : Tracee) (x : Word) :
    ∃ regs, t.pokeUser .origRax x = { t with regs := regs } ∧ regs .rax = t.regs .rax := by
  unfold Tracee.pokeUser
  split
  · exact ⟨_, rfl, rfl⟩
  · exact ⟨_, rfl, rfl⟩

theorem poke_onlyMem (t : Tracee) (a : Word) (d : Long) : ∃ m, t.poke a d = { t with mem := m } := by
  unfold Tracee.poke
  split
  · exact ⟨_, rfl⟩
  · exact ⟨t.mem, rfl⟩

theorem writeLoop_onlyMem (localBuf : Buf) (p : Word) (size : ℕ) :
    ∀ (bytesRemaining bytesTransferred : ℕ) (t : Tracee),
      ∃ m, (writeLoop localBuf p size bytesRemaining bytesTransferred t).1 = { t with mem := m } := by
  intro n
  induction n using Nat.strongRecOn with
  | ind n ih =>
    intro k t
    rw [writeLoop]
    split
    · split
      · obtain ⟨m, hm⟩ := poke_onlyMem t (p + BitVec.ofNat 64 k) (CBuffer.loadLong localBuf (k / 8))
        obtain ⟨m', hm'⟩ := ih (n - 8) (by omega) (k + 8) { t with mem := m }
        exact ⟨m', by rw [hm, hm']⟩
      · exact poke_onlyMem t _ _
    · exact ⟨t.mem, rfl⟩

theorem writeVariantMem_onlyMem (t : Tracee) (localBuf : Buf) (p : Word) (size : ℕ) :
    ∃ m, (writeVariantMem t localBuf p size).1 = { t with mem := m } := by
  unfold writeVariantMem
  split
  · exact poke_onlyMem t _ _
  · exact writeLoop_onlyMem localBuf p size size 0 t

/-- A transfer changes nothing but the destination's memory, and returns or faults. -/
theorem transferVariantMem_onlyMem (s : Who) (p : Word) (d : Who) (q : Word) (size : ℕ) (w : World ρ) :
    (∃ a β m, transferVariantMem s p d q size w =
      .ret a ((w.withBufs β).setProc d { w.proc d with mem := m })) ∨
    ∃ w', transferVariantMem s p d q size w = .exited SIGSEGV_STATUS w' := by
  by_cases hsize : size ≤ BUF_SIZE
  · by_cases hload : w.image.Faults size
    · obtain ⟨w', hfault, -⟩ := transferVariantMem_faults s p d q hsize w hload
      exact .inr ⟨w', hfault⟩
    · obtain ⟨β, happly, -⟩ := transferVariantMem_apply s p d q hsize w hload
      obtain ⟨m, hm⟩ := writeVariantMem_onlyMem (w.proc d) (β .bufA) q size
      exact .inl ⟨0, β, m, by rw [happly, hm]⟩
  · refine .inl ⟨-1, w.bufs, (w.proc d).mem, ?_⟩
    rw [transferVariantMem_large s p d q (by omega)]
    simp [World.setProc]

/-- What the kernel makes of the `getpid` that the replica is given in the place of a call
made in the master only. -/
def Kernel.nopAnswer (K : Kernel ρ) (w : World ρ) : SysResult × ρ :=
  K.syscall .replica ((w.proc .replica).pokeUser .origRax Syscall.getpid.nr).resume
    (K.answer .master w).2

theorem nopAnswer_apply {K : Kernel ρ} {w : World ρ} (hy : (w.ctl .replica).AtEntry) :
    K.nopAnswer w = K.syscall .replica { w.proc .replica with
      regs := Function.update (w.proc .replica).regs .origRax Syscall.getpid.nr }.resume
        (K.answer .master w).2 := by
  unfold Kernel.nopAnswer
  rw [Tracee.pokeUser_of_stopped (stopped_of_atEntry hy)]

/-! ## The state -/

/-- The registers of a process about to seek by `offset`, short of the call number. -/
def lseekRegs (regs : Regs) (fd offset : Word) : Regs :=
  Function.update (Function.update (Function.update regs .rdi fd) .rsi offset) .rdx SEEK_CUR

/-- The process `t`, released at its entry stop, back from its call and reported. -/
def Tracee.returned (t : Tracee) (rax rcx r11 : Word) (m : Mem) : Tracee :=
  { t with
    loc := .exit, reported := true
    ran := t.ran ++ [t.regs .origRax]
    regs := Tracee.retRegs t.regs rax rcx r11, mem := m }

/-- The executor that was entered in `w` has come to `b`: the master is back from its call with
the result `rm` and the memory `mm`, and the monitor knows the result. -/
structure MasterBack (w b : World ρ) (rm : Word) (mm : Mem) : Prop where
  image : b.image = w.image
  info : (b.var .master).syscallInfo.rval = rm
  stopped : (b.proc .master).stopped = true
  rax : (b.proc .master).regs .rax = rm
  mem : (b.proc .master).mem = mm

/-- And the replica stands at the stop `l`, as `t`, and the kernel remembers `o`. -/
structure Midway (w b : World ρ) (l : Loc) (rm : Word) (mm : Mem) (t : Tracee) (o : ρ) : Prop
    extends MasterBack w b rm mm where
  proc : b.proc .replica = t
  os : b.os = o
  loc : t.loc = l
  alive : t.alive = true
  reported : t.reported = true
  traced : t.traced = true

/-- Both variants are on their way: the master with the result `rm` and the memory `mm`, the
replica as `t`. -/
structure LetGo (b : World ρ) (rm : Word) (mm : Mem) (t : Tracee) (o : ρ) : Prop where
  rax : (b.proc .master).regs .rax = rm
  mem : (b.proc .master).mem = mm
  proc : b.proc .replica = { t with loc := .user, reported := false }
  os : b.os = o

section

variable {K : Kernel ρ} {w b : World ρ} {l : Loc} {rm rr rcx r11 : Word} {mm : Mem} {t : Tracee}
  {o o' : ρ} {P : Prog.Post (World ρ) Int} {f : Mon ρ Int} {g : Int → Mon ρ Int}

/-- The master's call, and a look at its result. -/
theorem wp_masterBack (hx : (w.ctl .master).AtEntry)
    (hgo : g 0 = requestSyscallInfo .master >>= fun _ => f)
    (hdied : (K.answer .master w).1 = .died → Prog.wp (g (-1)) P (w.through K .master))
    (h : ∀ rm rcx r11 mm, (K.answer .master w).1 = .ret rm rcx r11 mm → ∀ b,
      MasterBack w b rm mm → b.proc .replica = w.proc .replica → b.os = (K.answer .master w).2 →
        Prog.wp f P b) :
    Prog.wp (resumeAndWait K .master >>= g) P w := by
  refine wp_resumeAndWait hx hdied fun rm rcx r11 mm hans => ?_
  have hproc := through_proc_ret hx hans
  rw [hgo]
  refine h rm rcx r11 mm hans _ ⟨rfl, ?_, ?_, ?_, ?_⟩ ?_ rfl
  · rw [World.setVar_var_self, through_syscallInfo hx hans, SyscallInfo.ofExit_rval, retRegs_rax]
  · rw [World.setVar_proc, hproc]
    exact Tracee.stopped_exit rfl hx.alive hx.traced
  · rw [World.setVar_proc, hproc]
    exact retRegs_rax (w.proc .master).regs rm rcx r11
  · rw [World.setVar_proc, hproc]
  · rw [World.setVar_proc]
    exact through_proc_of_ne K (by decide)

/-- The same, where the replica stands at its entry stop. -/
theorem wp_master (hx : (w.ctl .master).AtEntry) (hy : (w.ctl .replica).AtEntry)
    (hgo : g 0 = requestSyscallInfo .master >>= fun _ => f)
    (hdied : (K.answer .master w).1 = .died → Prog.wp (g (-1)) P (w.through K .master))
    (h : ∀ rm rcx r11 mm, (K.answer .master w).1 = .ret rm rcx r11 mm → ∀ b,
      Midway w b .entry rm mm (w.proc .replica) (K.answer .master w).2 → Prog.wp f P b) :
    Prog.wp (resumeAndWait K .master >>= g) P w :=
  wp_masterBack hx hgo hdied fun rm rcx r11 mm hans b hb hproc hos =>
    h rm rcx r11 mm hans b ⟨hb, hproc, hos, hy.loc, hy.alive, hy.reported, hy.traced⟩

/-- The master's call, where the kernel's answer is known. -/
theorem wp_answered (hx : (w.ctl .master).AtEntry) (hy : (w.ctl .replica).AtEntry)
    (hans : (K.answer .master w).1 = .ret rm rcx r11 mm)
    (hgo : g 0 = requestSyscallInfo .master >>= fun _ => f)
    (h : ∀ b, Midway w b .entry rm mm (w.proc .replica) (K.answer .master w).2 → Prog.wp f P b) :
    Prog.wp (resumeAndWait K .master >>= g) P w := by
  refine wp_master hx hy hgo (fun hdied => ?_) fun _ _ _ _ hret => ?_
  · exact absurd (hans.symm.trans hdied) (by simp)
  · obtain ⟨rfl, rfl, rfl, rfl⟩ := SysResult.ret.inj (hans.symm.trans hret)
    exact h

namespace MasterBack

/-- What the monitor reads as the master's result. -/
theorem wp_rval (hb : MasterBack w b rm mm) {g : SyscallInfo → Mon ρ Int}
    (h : ∀ i : SyscallInfo, i.rval = rm → Prog.wp (g i) P b) :
    Prog.wp (syscallInfoOf .master >>= g) P b := h _ hb.info

theorem wp_image (hb : MasterBack w b rm mm) {g : Image → Mon ρ Int}
    (h : Prog.wp (g w.image) P b) : Prog.wp (Prog.gets World.image >>= g) P b := by
  show Prog.wp (g b.image) P b
  rw [hb.image]
  exact h

end MasterBack

namespace Midway

theorem atEntry (hb : Midway w b .entry rm mm t o) : (b.ctl .replica).AtEntry := by
  have hproc := hb.proc
  subst hproc
  exact ⟨hb.loc, hb.alive, hb.reported, hb.traced⟩

theorem replica_stopped (hb : Midway w b l rm mm t o) (hl : l = .entry ∨ l = .exit) :
    t.stopped = true := by
  rcases hl with rfl | rfl
  · exact Tracee.stopped_entry hb.loc hb.alive hb.traced
  · exact Tracee.stopped_exit hb.loc hb.alive hb.traced

/-- The replica is given other registers and another memory. -/
theorem change (hb : Midway w b l rm mm t o) (β : StaticBuf → Buf) (regs : Regs) (m : Mem) :
    Midway w ((b.withBufs β).setProc .replica { t with regs := regs, mem := m }) l rm mm
      { t with regs := regs, mem := m } o :=
  { hb with proc := World.setProc_proc_self _ _ _ }

theorem wp_setSyscall (hb : Midway w b .entry rm mm t o) (call : Word)
    (h : ∀ b', Midway w b' .entry rm mm { t with regs := Function.update t.regs .origRax call } o →
      Prog.wp f P b') : Prog.wp (setSyscall .replica call >>= fun _ => f) P b := by
  refine h (b.setProc .replica ((b.proc .replica).pokeUser .origRax call)) ?_
  rw [hb.proc, Tracee.pokeUser_of_stopped (hb.replica_stopped (.inl rfl))]
  exact hb.change b.bufs _ _

theorem wp_setLseekRegs (hb : Midway w b .entry rm mm t o) (fd offset : Word)
    (h : ∀ b', Midway w b' .entry rm mm { t with regs := lseekRegs t.regs fd offset } o →
      Prog.wp f P b') : Prog.wp (setLseekRegs .replica fd offset >>= fun _ => f) P b := by
  refine h (b.setProc .replica ((b.proc .replica).setRegs (lseekRegs (b.proc .replica).regs fd offset))) ?_
  rw [hb.proc, Tracee.setRegs, if_pos (hb.replica_stopped (.inl rfl))]
  exact hb.change b.bufs _ _

/-- A call number for the master, which has made its call already. -/
theorem wp_setSyscall_master (hb : Midway w b l rm mm t o) (call : Word)
    (h : ∀ b', Midway w b' l rm mm t o → Prog.wp f P b') :
    Prog.wp (setSyscall .master call >>= fun _ => f) P b := by
  obtain ⟨regs, hpoke, hrax⟩ := pokeUser_origRax (b.proc .master) call
  refine h (b.setProc .master ((b.proc .master).pokeUser .origRax call)) ?_
  rw [hpoke]
  exact { hb with
    stopped := by rw [World.setProc_proc_self]; exact hb.stopped
    rax := by rw [World.setProc_proc_self]; exact hrax.trans hb.rax
    mem := by rw [World.setProc_proc_self]; exact hb.mem }

/-- The result the replica will see. -/
theorem wp_setReturn (hb : Midway w b .exit rm mm t o) (x : Word)
    (h : ∀ b', Midway w b' .exit rm mm { t with regs := Function.update t.regs .rax x } o →
      Prog.wp f P b') : Prog.wp (setSyscallReturnValue .replica x >>= fun _ => f) P b := by
  refine h (b.setProc .replica ((b.proc .replica).pokeUser .rax x)) ?_
  rw [hb.proc, Tracee.pokeUser_of_stopped (hb.replica_stopped (.inr rfl))]
  exact hb.change b.bufs _ _

/-- A transfer, where a postcondition does not mind the monitor's end. -/
theorem wp_transfer (hb : Midway w b l rm mm t o) (p q : Word) (size : ℕ)
    (hexit : ∀ s, P.exited SIGSEGV_STATUS s)
    (h : ∀ a b' m, Midway w b' l rm mm { t with mem := m } o → Prog.wp (g a) P b') :
    Prog.wp (transferVariantMem .master p .replica q size >>= g) P b := by
  rw [Prog.wp_bind]
  rcases transferVariantMem_onlyMem .master p .replica q size b with ⟨a, β, m, happly⟩ | ⟨b', hfault⟩
  · refine Prog.wp_of_eq_ret happly (h a _ m ?_)
    rw [hb.proc]
    exact hb.change β t.regs m
  · unfold Prog.wp
    rw [hfault]
    exact hexit b'

theorem wp_doTransfer (hb : Midway w b l rm mm t o) (c : Prop) [Decidable c] (p q : Word) (size : ℕ)
    (hexit : ∀ s, P.exited SIGSEGV_STATUS s)
    (h : ∀ a b' m, Midway w b' l rm mm { t with mem := m } o → Prog.wp (g a) P b') :
    Prog.wp (doIf c (transferVariantMem .master p .replica q size) >>= g) P b :=
  wp_doIf (fun _ => hb.wp_transfer p q size hexit h) fun _ => h 0 b t.mem hb

/-- The replica's call. -/
theorem wp_replica (hb : Midway w b .entry rm mm t o)
    (hdied : (K.syscall .replica t.resume o).1 = .died → ∀ b' : World ρ,
      (b'.proc .replica).mem = t.mem → Prog.wp (g (-1)) P b')
    (h : ∀ rr rcx r11 mr, (K.syscall .replica t.resume o).1 = .ret rr rcx r11 mr → ∀ b',
      Midway w b' .exit rm mm (t.returned rr rcx r11 mr) (K.syscall .replica t.resume o).2 →
        Prog.wp (g 0) P b') :
    Prog.wp (resumeAndWait K .replica >>= g) P b := by
  have hanswer : K.answer .replica b = K.syscall .replica t.resume o := by
    unfold Kernel.answer
    rw [hb.proc, hb.os]
  refine wp_resumeAndWait hb.atEntry (fun hans => ?_) fun rr rcx r11 mr hans => ?_
  · refine hdied (hanswer ▸ hans) _ ?_
    rw [through_proc_self, hans]
    show (b.proc .replica).resume.die.mem = t.mem
    rw [die_mem, resume_mem, hb.proc]
  · have hproc := through_proc_ret hb.atEntry hans
    rw [hb.proc] at hproc
    refine h rr rcx r11 mr (hanswer ▸ hans) _
      ⟨⟨hb.image, ?_, ?_, ?_, ?_⟩, hproc, ?_, rfl, hb.alive, rfl, hb.traced⟩
    · rw [through_var_of_ne K (by decide)]
      exact hb.info
    · rw [through_proc_of_ne K (by decide)]
      exact hb.stopped
    · rw [through_proc_of_ne K (by decide)]
      exact hb.rax
    · rw [through_proc_of_ne K (by decide)]
      exact hb.mem
    · rw [through_os, hanswer]

/-- The replica's call, which leaves its memory as it is. -/
theorem wp_answered (hb : Midway w b .entry rm mm t o)
    (hans : K.syscall .replica t.resume o = (.ret rr rcx r11 t.mem, o'))
    (h : ∀ b', Midway w b' .exit rm mm (t.returned rr rcx r11 t.mem) o' → Prog.wp (g 0) P b') :
    Prog.wp (resumeAndWait K .replica >>= g) P b := by
  refine hb.wp_replica (fun hdied => ?_) fun _ _ _ _ hret => ?_
  · exact absurd (hdied.symm.trans (congrArg Prod.fst hans)) (by simp)
  · obtain ⟨rfl, rfl, rfl, rfl⟩ := SysResult.ret.inj (hret.symm.trans (congrArg Prod.fst hans))
    rw [hans]
    exact h

theorem letGo (hb : Midway w b .exit rm mm t o) {b' : World ρ} (hos : b'.os = b.os)
    (hproc : ∀ v, b'.proc v = (b.proc v).resume) : LetGo b' rm mm t o where
  rax := by rw [hproc, resume_regs]; exact hb.rax
  mem := by rw [hproc, resume_mem]; exact hb.mem
  proc := by rw [hproc, hb.proc, Tracee.resume_exit hb.loc (hb.replica_stopped (.inr rfl))]
  os := hos.trans hb.os

/-- The end of most executors. -/
theorem wp_leave (hb : Midway w b .exit rm mm t o) (h : ∀ b', LetGo b' rm mm t o → P.ret 0 b') :
    Prog.wp (do
      resumeVariantFromExit .master
      resumeVariantFromExit .replica
      return 0 : Mon ρ Int) P b :=
  h _ (hb.letGo rfl (Who.forall_iff.2 ⟨rfl, rfl⟩))

/-- The end of `getrandom`, with the helper for entry stops. -/
theorem wp_release (hb : Midway w b .exit rm mm t o) (h : ∀ b', LetGo b' rm mm t o → P.ret 0 b') :
    Prog.wp (do
      resumeVariantFromWait .master
      resumeVariantFromWait .replica
      return 0 : Mon ρ Int) P b :=
  h _ (hb.letGo rfl (Who.forall_iff.2 ⟨rfl, rfl⟩))

end Midway

end

end Aurora
