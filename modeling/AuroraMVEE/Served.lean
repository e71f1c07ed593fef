import AuroraMVEE.Midway

/-!
# What an executor that sees a call through hands back

Most executors take both variants to their exit stops before they let go of them.  Such
an executor that succeeds has made two kernel calls, the master's and then the replica's,
and has told the replica a result.  `execSyscall_served` says for each of them with which
registers the replica was released, and what it was told, in two tables read off the
executors.

* `onZero` — what success is worth; whatever fails, blocks or faults may do as it likes.
* `served_*` — one executor after the other, followed through `Midway`.
-/

namespace Aurora

variable {ρ : Type}

/-! ## The tables -/

/-- The executors that wait for both exit stops. -/
def seenThrough : List Syscall :=
  [.openat, .close, .set_tid_address, .read, .write, .pread64, .newfstatat, .access, .unlink,
    .utimensat, .fchown, .fchmod, .getpid, .bind, .listen, .accept4, .poll, .getsockname, .getrandom]

/-- The registers with which the replica is released, where the master's call returned `rm`. -/
def Syscall.releasedRegs (c : Syscall) (regs : Regs) (fd rm : Word) : Regs :=
  match c with
  | .openat | .close | .set_tid_address => regs
  | .write => lseekRegs regs fd rm
  | .read => Function.update (lseekRegs regs fd rm) .origRax Syscall.lseek.nr
  | _ => Function.update regs .origRax Syscall.getpid.nr

/-- What the replica is told, where the two kernel calls returned `rm` and `rr`. -/
def Syscall.told (c : Syscall) (rm rr : Word) : Word :=
  match c with
  | .set_tid_address => rr
  | .read | .write | .pread64 | .accept4 | .poll | .getsockname | .getrandom => rm
  | _ => ofInt (toInt rm)

/-- The replica as it is released, with the memory `m`. -/
def World.released (w : World ρ) (c : Syscall) (rm : Word) (m : Mem) : Tracee :=
  { w.proc .replica with
    regs := c.releasedRegs (w.proc .replica).regs
      (ofInt (toInt ((w.var .master).syscallInfo.arg 0))) rm
    mem := m }

/-- Does the executor write to the replica's memory before it releases it? -/
def Syscall.transfersFirst (c : Syscall) : Bool := c ∈ [read, pread64, newfstatat, getrandom]

/-- From `w`, the executor has taken both variants through their calls and left them in
`w'`: the master's call returned `rm`, and that of the replica, released with the memory `m`,
returned `rr`. -/
structure Served (K : Kernel ρ) (c : Syscall) (w w' : World ρ) (m : Mem) (rm rr : Word) : Prop where
  master : ∃ rcx r11 mem, (K.answer .master w).1 = .ret rm rcx r11 mem
  replica : ∃ rcx r11 mem,
    (K.syscall .replica (w.released c rm m).resume (K.answer .master w).2).1 = .ret rr rcx r11 mem
  mem : c.transfersFirst = false → m = (w.proc .replica).mem
  os : w'.os = (K.syscall .replica (w.released c rm m).resume (K.answer .master w).2).2
  masterRax : (w'.proc .master).regs .rax = rm
  replicaRax : (w'.proc .replica).regs .rax = c.told rm rr

/-! ## What success is worth -/

/-- A condition on the state in which an executor succeeds. -/
def onZero (Q : World ρ → Prop) : Prog.Post (World ρ) Int :=
  ⟨fun r w' => r = 0 → Q w', fun _ => True, fun _ _ => True⟩

theorem of_onZero {Q : World ρ → Prop} {m : Mon ρ Int} {w w' : World ρ} (h : Prog.wp m (onZero Q) w)
    (hrun : m w = .ret 0 w') : Q w' := Prog.ret_of_wp h hrun rfl

theorem onZero_fail {Q : World ρ → Prop} {w : World ρ} :
    Prog.wp (pure (-1) : Mon ρ Int) (onZero Q) w := fun h => absurd h (by decide)

theorem wp_guarded {Q : World ρ → Prop} {eq : Mon ρ Bool} {body : Mon ρ Int} (heq : ReadOnly eq)
    {w : World ρ} (h : ∀ β, Prog.wp body (onZero Q) (w.withBufs β)) :
    Prog.wp (guarded eq body) (onZero Q) w := by
  obtain ⟨a, β, hβ⟩ := heq w
  cases a with
  | true => unfold Prog.wp; rw [guarded_true hβ]; exact h β
  | false => unfold Prog.wp; rw [guarded_false hβ]; exact onZero_fail

/-- Only a variant that comes to its exit stop lets the executor go on. -/
theorem wp_through {K : Kernel ρ} {Q : World ρ → Prop} {w : World ρ} {v : Who} {g : Int → Mon ρ Int}
    (hv : (w.ctl v).AtEntry) (hfail : g (-1) = pure (-1))
    (h : ∀ rax rcx r11 mem, (K.answer v w).1 = .ret rax rcx r11 mem →
      Prog.wp (g 0) (onZero Q) (w.through K v)) :
    Prog.wp (resumeAndWait K v >>= g) (onZero Q) w := by
  refine wp_resumeAndWait hv (fun _ => ?_) h
  rw [hfail]
  exact onZero_fail

/-! ## The two calls -/

section

variable {K : Kernel ρ} {w b : World ρ} {rm : Word} {mm : Mem} {t : Tracee} {o : ρ}
  {Q : World ρ → Prop} {f : Mon ρ Int} {g : Int → Mon ρ Int}

theorem onZero_exits (Q : World ρ → Prop) (s : World ρ) : (onZero Q).exited SIGSEGV_STATUS s := trivial

theorem wp_masterHalf (hx : (w.ctl .master).AtEntry) (hy : (w.ctl .replica).AtEntry)
    (hfail : g (-1) = pure (-1)) (hgo : g 0 = requestSyscallInfo .master >>= fun _ => f)
    (h : ∀ rm mm b, (∃ rcx r11 m, (K.answer .master w).1 = .ret rm rcx r11 m) →
      Midway w b .entry rm mm (w.proc .replica) (K.answer .master w).2 → Prog.wp f (onZero Q) b) :
    Prog.wp (resumeAndWait K .master >>= g) (onZero Q) w := by
  refine wp_master hx hy hgo (fun _ => ?_) fun rm rcx r11 mm hans b => h rm mm b ⟨rcx, r11, mm, hans⟩
  rw [hfail]
  exact onZero_fail

theorem Midway.wp_replicaHalf (hb : Midway w b .entry rm mm t o) (hfail : g (-1) = pure (-1))
    (h : ∀ rr b', (∃ rcx r11 m, (K.syscall .replica t.resume o).1 = .ret rr rcx r11 m) →
      ∀ t', t'.regs .rax = rr → Midway w b' .exit rm mm t' (K.syscall .replica t.resume o).2 →
        Prog.wp (g 0) (onZero Q) b') :
    Prog.wp (resumeAndWait K .replica >>= g) (onZero Q) b := by
  refine hb.wp_replica (fun _ b' _ => ?_) fun rr rcx r11 mr hans b' hb' =>
    h rr b' ⟨rcx, r11, mr, hans⟩ _ (retRegs_rax t.regs rr rcx r11) hb'
  rw [hfail]
  exact onZero_fail

/-- Some two results with which `c` was served. -/
def ServedBy (K : Kernel ρ) (c : Syscall) (w w' : World ρ) : Prop :=
  ∃ m rm rr, Served K c w w' m rm rr

/-- The static buffers play no part. -/
theorem ServedBy.of_withBufs {c : Syscall} {β : StaticBuf → Buf} {w' : World ρ}
    (h : ServedBy K c (w.withBufs β) w') : ServedBy K c w w' := by
  obtain ⟨m, rm, rr, h⟩ := h
  exact ⟨m, rm, rr, h.master, h.replica, h.mem, h.os, h.masterRax, h.replicaRax⟩

/-- Leaving the exit stops changes neither the kernel nor a register. -/
theorem LetGo.served {c : Syscall} {m : Mem} {rr : Word} {t' : Tracee}
    (hb : LetGo b rm mm t' (K.syscall .replica (w.released c rm m).resume (K.answer .master w).2).2)
    (hm : ∃ rcx r11 mem, (K.answer .master w).1 = .ret rm rcx r11 mem)
    (hr : ∃ rcx r11 mem,
      (K.syscall .replica (w.released c rm m).resume (K.answer .master w).2).1 = .ret rr rcx r11 mem)
    (hmem : c.transfersFirst = false → m = (w.proc .replica).mem) (htold : t'.regs .rax = c.told rm rr) :
    ServedBy K c w b :=
  ⟨m, rm, rr, hm, hr, hmem, hb.os, hb.rax, by rw [hb.proc]; exact htold⟩

/-! ## The executors -/

theorem told_rax (t : Tracee) (x : Word) : { t with regs := Function.update t.regs .rax x }.regs .rax = x :=
  Function.update_self Reg.rax x t.regs

variable (hx : (w.ctl .master).AtEntry) (hy : (w.ctl .replica).AtEntry)

include hx hy

/-- `runMasterReplicateRet`, as the body of the executor of `c`. -/
theorem served_masterOnly {c : Syscall} (hregs : ∀ regs fd rm, c.releasedRegs regs fd rm =
      Function.update regs .origRax Syscall.getpid.nr)
    (htold : ∀ rm rr, c.told rm rr = ofInt (toInt rm)) :
    Prog.wp (runMasterReplicateRet K) (onZero (ServedBy K c w)) w := by
  refine wp_masterHalf hx hy rfl rfl fun rm mm b hm hb => hb.wp_rval ?_
  rintro i rfl
  refine hb.wp_setSyscall _ fun b₁ hb₁ => hb₁.wp_replicaHalf rfl fun rr b₂ hr t' _ hb₂ => ?_
  refine hb₂.wp_setReturn _ fun b₃ hb₃ => hb₃.wp_leave fun b₄ hb₄ _ => ?_
  have hreleased : w.released c i.rval (w.proc .replica).mem = { w.proc .replica with
      regs := Function.update (w.proc .replica).regs .origRax Syscall.getpid.nr } := by
    rw [World.released, hregs]
  rw [← hreleased] at hr hb₄
  exact hb₄.served hm hr (fun _ => rfl) ((told_rax t' _).trans (htold _ _).symm)

/-- `runBothCopyMasterRet`, as the body of the executor of `c`. -/
theorem served_both {c : Syscall} (hregs : ∀ regs fd rm, c.releasedRegs regs fd rm = regs)
    (htold : ∀ rm rr, c.told rm rr = ofInt (toInt rm)) :
    Prog.wp (runBothCopyMasterRet K) (onZero (ServedBy K c w)) w := by
  refine wp_masterHalf hx hy rfl rfl fun rm mm b hm hb => hb.wp_rval ?_
  rintro i rfl
  refine hb.wp_replicaHalf rfl fun rr b₁ hr t' _ hb₁ => ?_
  refine hb₁.wp_setReturn _ fun b₂ hb₂ => hb₂.wp_leave fun b₃ hb₃ _ => ?_
  have hreleased : w.released c i.rval (w.proc .replica).mem = w.proc .replica := by
    rw [World.released, hregs]
  rw [← hreleased] at hr hb₃
  exact hb₃.served hm hr (fun _ => rfl) ((told_rax t' _).trans (htold _ _).symm)

omit hx hy in
/-- A comparison comes first, and does not matter. -/
theorem served_guarded {c : Syscall} {eq : Mon ρ Bool} {body : Mon ρ Int} (heq : ReadOnly eq)
    (hx : (w.ctl .master).AtEntry) (hy : (w.ctl .replica).AtEntry)
    (h : ∀ b : World ρ, (b.ctl .master).AtEntry → (b.ctl .replica).AtEntry →
      Prog.wp body (onZero (ServedBy K c b)) b) :
    Prog.wp (guarded eq body) (onZero (ServedBy K c w)) w :=
  wp_guarded heq fun β => Prog.wp_mono (P := onZero (ServedBy K c (w.withBufs β)))
    (fun _ _ hs hr => (hs hr).of_withBufs) (fun _ h => h) (fun _ _ h => h) (h (w.withBufs β) hx hy)

theorem served_read : Prog.wp (execSyscallRead K) (onZero (ServedBy K .read w)) w := by
  refine served_guarded (readOnly_verdict .read) hx hy fun w hx hy => ?_
  refine wp_argOf_eq (wp_look fun _ => wp_look fun _ => ?_)
  refine wp_masterHalf hx hy rfl rfl fun rm mm b hm hb => hb.wp_rval ?_
  rintro i rfl
  refine hb.wp_doTransfer _ _ _ _ (onZero_exits _) fun a b₁ m hb₁ => ?_
  split
  · exact onZero_fail
  refine hb₁.wp_setLseekRegs _ _ fun b₂ hb₂ => hb₂.wp_setSyscall _ fun b₃ hb₃ => ?_
  refine hb₃.wp_replicaHalf rfl fun rr b₄ hr t' _ hb₄ => hb₄.wp_setReturn _ fun b₅ hb₅ => ?_
  exact hb₅.wp_leave fun b₆ hb₆ _ => hb₆.served (c := .read) (m := m) hm hr nofun (told_rax t' _)

theorem served_write : Prog.wp (execSyscallWrite K) (onZero (ServedBy K .write w)) w := by
  refine served_guarded (readOnly_verdict .write) hx hy fun w hx hy => wp_argOf_eq ?_
  refine wp_masterHalf hx hy rfl rfl fun rm mm b hm hb => hb.wp_rval ?_
  rintro i rfl
  refine hb.wp_setLseekRegs _ _ fun b₁ hb₁ => hb₁.wp_setSyscall_master _ fun b₂ hb₂ => ?_
  refine hb₂.wp_replicaHalf rfl fun rr b₃ hr t' _ hb₃ => hb₃.wp_setReturn _ fun b₄ hb₄ => ?_
  exact hb₄.wp_leave fun b₅ hb₅ _ => hb₅.served (c := .write) hm hr (fun _ => rfl) (told_rax t' _)

theorem served_pread64 : Prog.wp (execSyscallPread64 K) (onZero (ServedBy K .pread64 w)) w := by
  refine served_guarded (readOnly_verdict .pread64) hx hy fun w hx hy => ?_
  refine wp_look fun _ => wp_look fun _ => ?_
  refine wp_masterHalf hx hy rfl rfl fun rm mm b hm hb => hb.wp_rval ?_
  rintro i rfl
  refine hb.wp_transfer _ _ _ (onZero_exits _) fun a b₁ m hb₁ => ?_
  split
  · exact onZero_fail
  refine hb₁.wp_setSyscall _ fun b₂ hb₂ => hb₂.wp_replicaHalf rfl fun rr b₃ hr t' _ hb₃ => ?_
  refine hb₃.wp_setReturn _ fun b₄ hb₄ => ?_
  exact hb₄.wp_leave fun b₅ hb₅ _ => hb₅.served (c := .pread64) (m := m) hm hr nofun (told_rax t' _)

theorem served_getrandom : Prog.wp (execSyscallGetrandom K) (onZero (ServedBy K .getrandom w)) w := by
  refine served_guarded (readOnly_verdict .getrandom) hx hy fun w hx hy => ?_
  refine wp_look fun _ => wp_look fun _ => ?_
  refine wp_masterHalf hx hy rfl rfl fun rm mm b hm hb => hb.wp_rval ?_
  rintro i rfl
  refine hb.wp_doTransfer _ _ _ _ (onZero_exits _) fun a b₁ m hb₁ => ?_
  split
  · exact onZero_fail
  refine hb₁.wp_setSyscall _ fun b₂ hb₂ => hb₂.wp_replicaHalf rfl fun rr b₃ hr t' _ hb₃ => ?_
  refine hb₃.wp_setReturn _ fun b₄ hb₄ => ?_
  exact hb₄.wp_release fun b₅ hb₅ _ => hb₅.served (c := .getrandom) (m := m) hm hr nofun (told_rax t' _)

theorem served_newfstatat :
    Prog.wp (execSyscallNewfstatat K) (onZero (ServedBy K .newfstatat w)) w := by
  refine served_guarded (readOnly_verdict .newfstatat) hx hy fun w hx hy => ?_
  refine wp_look fun _ => wp_look fun _ => ?_
  refine wp_masterHalf hx hy rfl rfl fun rm mm b hm hb => hb.wp_rval ?_
  rintro i rfl
  refine hb.wp_transfer _ _ _ (onZero_exits _) fun a b₁ m hb₁ => ?_
  split
  · exact onZero_fail
  refine hb₁.wp_setSyscall _ fun b₂ hb₂ => hb₂.wp_replicaHalf rfl fun rr b₃ hr t' _ hb₃ => ?_
  refine hb₃.wp_setReturn _ fun b₄ hb₄ => ?_
  exact hb₄.wp_leave fun b₅ hb₅ _ => hb₅.served (c := .newfstatat) (m := m) hm hr nofun (told_rax t' _)

/-- The copy of `accept4` comes after both calls, if there is one. -/
theorem served_accept4 : Prog.wp (execSyscallAccept4 K) (onZero (ServedBy K .accept4 w)) w := by
  refine served_guarded (readOnly_verdict .accept4) hx hy fun w hx hy =>
    wp_look fun _ => wp_look fun _ => wp_look fun _ => ?_
  refine wp_masterHalf hx hy rfl rfl fun rm mm b hm hb => hb.wp_setSyscall _ fun b₁ hb₁ => ?_
  refine hb₁.wp_replicaHalf rfl fun rr b₂ hr t' _ hb₂ => ?_
  have hrest : ∀ b₃ m, Midway w b₃ .exit rm mm { t' with mem := m }
      (K.syscall .replica (w.released .accept4 rm (w.proc .replica).mem).resume
        (K.answer .master w).2).2 → Prog.wp (do
      setSyscallReturnValue .replica (← syscallInfoOf .master).rval
      resumeVariantFromExit .master
      resumeVariantFromExit .replica
      return 0 : Mon ρ Int) (onZero (ServedBy K .accept4 w)) b₃ := by
    intro b₃ m hb₃
    refine hb₃.wp_rval ?_
    rintro i rfl
    refine hb₃.wp_setReturn _ fun b₄ hb₄ => hb₄.wp_leave fun b₅ hb₅ _ => ?_
    exact hb₅.served (c := .accept4) hm hr (fun _ => rfl) (told_rax _ _)
  refine wp_doIf (fun _ => ?_) fun _ => hrest b₂ t'.mem hb₂
  rw [bind_assoc]
  refine wp_readShort ?_
  rw [bind_assoc]
  exact hb₂.wp_image (hb₂.wp_transfer _ _ _ (onZero_exits _) fun a b₃ m hb₃ => hrest b₃ m hb₃)

theorem served_getsockname :
    Prog.wp (execSyscallGetsockname K) (onZero (ServedBy K .getsockname w)) w := by
  refine served_guarded (readOnly_verdict .getsockname) hx hy fun w hx hy =>
    wp_look fun _ => wp_look fun _ => wp_look fun _ => wp_look fun _ => wp_look fun _ => ?_
  refine wp_masterHalf hx hy rfl rfl fun rm mm b hm hb => hb.wp_setSyscall _ fun b₁ hb₁ => ?_
  refine hb₁.wp_replicaHalf rfl fun rr b₂ hr t' _ hb₂ => hb₂.wp_rval ?_
  rintro i rfl
  refine hb₂.wp_setReturn _ fun b₃ hb₃ => hb₃.wp_rval fun _ _ => ?_
  refine hb₃.wp_doTransfer _ _ _ _ (onZero_exits _) fun a b₄ m hb₄ => hb₄.wp_leave fun b₅ hb₅ _ => ?_
  exact hb₅.served (c := .getsockname) hm hr (fun _ => rfl) (told_rax t' _)

theorem served_poll : Prog.wp (execSyscallPoll K) (onZero (ServedBy K .poll w)) w := by
  refine served_guarded (readOnly_verdict .poll) hx hy fun w hx hy =>
    wp_look fun _ => wp_look fun _ => wp_look fun _ => ?_
  refine wp_masterHalf hx hy rfl rfl fun rm mm b hm hb => hb.wp_setSyscall _ fun b₁ hb₁ => ?_
  refine hb₁.wp_replicaHalf rfl fun rr b₂ hr t' _ hb₂ => ?_
  refine hb₂.wp_transfer _ _ _ (onZero_exits _) fun a b₃ m hb₃ => ?_
  split
  · exact onZero_fail
  refine hb₃.wp_rval ?_
  rintro i rfl
  refine hb₃.wp_setReturn _ fun b₄ hb₄ => hb₄.wp_leave fun b₅ hb₅ _ => ?_
  exact hb₅.served (c := .poll) hm hr (fun _ => rfl) (told_rax _ _)

omit hx hy in
/-- A write of less than a word, which never faults. -/
theorem wp_writeFrom {P : Prog.Post (World ρ) Int} {d : Who} {localBuf : Buf} {q : Word} {size : ℕ}
    {g : Int → Mon ρ Int} (hsize : size < 8)
    (h : ∀ a m, Prog.wp (g a) P (w.setProc d { w.proc d with mem := m })) :
    Prog.wp (writeFrom d localBuf q size >>= g) P w := by
  obtain ⟨m, hm⟩ := writeVariantMem_onlyMem (w.proc d) localBuf q size
  have hstore : writeFrom d localBuf q size w = .ret _ _ :=
    if_neg (w.image.not_faults (.inl hsize))
  rw [Prog.wp_bind]
  refine Prog.wp_of_eq_ret hstore ?_
  rw [hm]
  exact h _ m

/-- `set_tid_address` leaves the replica's return register as the kernel set it. -/
theorem served_setTidAddress :
    Prog.wp (execSyscallSetTidAddress K) (onZero (ServedBy K .set_tid_address w)) w := by
  refine wp_look fun _ => wp_look fun _ => wp_through hx rfl fun rm rcx r11 mem hans => ?_
  have hproc : (w.through K .master).proc .replica = w.proc .replica :=
    through_proc_of_ne K (by decide)
  have hy₁ : ((w.through K .master).ctl .replica).AtEntry := ⟨hy.loc, hy.alive, hy.reported, hy.traced⟩
  have hanswer : K.answer .replica (w.through K .master) =
      K.syscall .replica (w.proc .replica).resume (K.answer .master w).2 := by
    unfold Kernel.answer
    rw [hproc]
    rfl
  refine wp_through hy₁ rfl fun rr rcx' r11' mem' hans' => ?_
  have hrm : (((w.through K .master).through K .replica).proc .master).regs .rax = rm := by
    rw [through_proc_of_ne K (by decide), through_proc_ret hx hans]
    exact retRegs_rax (w.proc .master).regs rm rcx r11
  have hrr : (((w.through K .master).through K .replica).proc .replica).regs .rax = rr := by
    rw [through_proc_ret hy₁ hans']
    exact retRegs_rax ((w.through K .master).proc .replica).regs rr rcx' r11'
  refine wp_look fun tid => wp_look fun replicaPtr => wp_writeFrom (by decide) fun a m => ?_
  refine fun _ => ⟨(w.proc .replica).mem, rm, rr, ⟨rcx, r11, mem, hans⟩,
    ⟨rcx', r11', mem', hanswer ▸ hans'⟩, fun _ => rfl, congrArg Prod.snd hanswer, ?_, ?_⟩
  · exact (congrFun (resume_regs _) _).trans hrm
  · exact (congrFun (resume_regs _) _).trans hrr

omit hx hy in
/-- When `runMasterReplicateRet` fails, both variants are silenced. -/
theorem runMasterReplicateRet_failed (hx : (w.ctl .master).AtEntry) (hy : (w.ctl .replica).AtEntry)
    {r : Int} {w' : World ρ} (hrun : runMasterReplicateRet K w = .ret r w') (hr : r ≠ 0) (v : Who) :
    (w'.ctl v).Silenced := by
  have hvia : Prog.Via World.ctl (pair (w.ctl .master) (w.ctl .replica)) (runMasterReplicateRet K)
      ⟨fun r C => r ≠ 0 → ∀ v, (C v).Silenced, fun _ => True, fun _ _ => True⟩ := by
    refine via_runMasterReplicateRet hx hy (fun _ _ => ?_) (fun _ _ => ?_) fun h => absurd rfl h
    · exact Who.forall_iff.2 ⟨Ctl.silenced_lost _, hy.silenced⟩
    · exact Who.forall_iff.2 ⟨hx.finished.silenced, Ctl.silenced_lost _⟩
  exact Prog.ret_of_wp (hvia w (pair_eta w.ctl).symm) hrun hr v

/-- `access` may succeed where `runMasterReplicateRet` has failed; but then the replica does
not go on. -/
theorem served_access : Prog.wp (execSyscallAccess K)
    (onZero fun w' => (w'.proc .replica).running = true → ServedBy K .access w w') w := by
  refine wp_guarded (readOnly_verdict .access) fun β => ?_
  cases ho : runMasterReplicateRet K (w.withBufs β) with
  | hung w₁ => exact Prog.wp_bind _ _ _ _ |>.2 (by unfold Prog.wp; rw [ho]; trivial)
  | exited code w₁ => exact Prog.wp_bind _ _ _ _ |>.2 (by unfold Prog.wp; rw [ho]; trivial)
  | ret r w₁ =>
    rw [Prog.wp_bind]
    refine Prog.wp_of_eq_ret ho fun _ hrunning => ?_
    by_cases hr : r = 0
    · subst hr
      have hserved := of_onZero (served_masterOnly (w := w.withBufs β) (c := .access) hx hy
        (fun _ _ _ => rfl) fun _ _ => rfl) ho
      exact hserved.of_withBufs
    · have hquiet := runMasterReplicateRet_failed (w := w.withBufs β) hx hy ho hr .replica
      exact absurd (hquiet.not_running.symm.trans hrunning) (by decide)

/-- **Every executor that sees a call through keeps to its tables.** -/
theorem execSyscall_served {c : Syscall} (hc : c ∈ seenThrough) {w' : World ρ}
    (hrun : execSyscall K c w = .ret 0 w')
    (hrunning : c = .access → (w'.proc .replica).running = true) : ServedBy K c w w' := by
  simp only [seenThrough, List.mem_cons, List.not_mem_nil, or_false] at hc
  have hmaster : ∀ {eq : Mon ρ Bool}, ReadOnly eq → (∀ regs fd rm, c.releasedRegs regs fd rm =
        Function.update regs .origRax Syscall.getpid.nr) → (∀ rm rr, c.told rm rr = ofInt (toInt rm)) →
      Prog.wp (guarded eq (runMasterReplicateRet K)) (onZero (ServedBy K c w)) w :=
    fun heq hregs htold => served_guarded heq hx hy fun b hx hy => served_masterOnly hx hy hregs htold
  have hboth : ∀ {eq : Mon ρ Bool}, ReadOnly eq → (∀ regs fd rm, c.releasedRegs regs fd rm = regs) →
      (∀ rm rr, c.told rm rr = ofInt (toInt rm)) →
      Prog.wp (guarded eq (runBothCopyMasterRet K)) (onZero (ServedBy K c w)) w :=
    fun heq hregs htold => served_guarded heq hx hy fun b hx hy => served_both hx hy hregs htold
  rcases hc with rfl | rfl | rfl | rfl | rfl | rfl | rfl | rfl | rfl | rfl | rfl | rfl | rfl | rfl |
    rfl | rfl | rfl | rfl | rfl
  · exact of_onZero (hboth (readOnly_verdict .openat) (fun _ _ _ => rfl) fun _ _ => rfl) hrun
  · exact of_onZero (hboth (readOnly_verdict .close) (fun _ _ _ => rfl) fun _ _ => rfl) hrun
  · exact of_onZero (served_setTidAddress hx hy) hrun
  · exact of_onZero (served_read hx hy) hrun
  · exact of_onZero (served_write hx hy) hrun
  · exact of_onZero (served_pread64 hx hy) hrun
  · exact of_onZero (served_newfstatat hx hy) hrun
  · exact of_onZero (served_access hx hy) hrun (hrunning rfl)
  · exact of_onZero (hmaster (readOnly_verdict .unlink) (fun _ _ _ => rfl) fun _ _ => rfl) hrun
  · exact of_onZero (hmaster (readOnly_verdict .utimensat) (fun _ _ _ => rfl) fun _ _ => rfl) hrun
  · exact of_onZero (hmaster (readOnly_verdict .fchown) (fun _ _ _ => rfl) fun _ _ => rfl) hrun
  · exact of_onZero (hmaster (readOnly_verdict .fchmod) (fun _ _ _ => rfl) fun _ _ => rfl) hrun
  · exact of_onZero (served_masterOnly hx hy (fun _ _ _ => rfl) fun _ _ => rfl) hrun
  · exact of_onZero (hmaster (readOnly_verdict .bind) (fun _ _ _ => rfl) fun _ _ => rfl) hrun
  · exact of_onZero (hmaster (readOnly_verdict .listen) (fun _ _ _ => rfl) fun _ _ => rfl) hrun
  · exact of_onZero (served_accept4 hx hy) hrun
  · exact of_onZero (served_poll hx hy) hrun
  · exact of_onZero (served_getsockname hx hy) hrun
  · exact of_onZero (served_getrandom hx hy) hrun

end

end Aurora
