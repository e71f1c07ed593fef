import AuroraMVEE.Control

/-!
# What no executor touches

A relation between states that the single requests keep to is one that every executor
keeps to, whatever the state it starts in and however it ends.  `Tame` lists the requests,
`within_execSyscall` goes through the executors once and for all.  `Untouched` is the case of a
part of the world that stays as it is.
-/

namespace Aurora

variable {ρ τ : Type}

/-- What every write, of any size, keeps to. -/
theorem within_writeFrom {R : World ρ → World ρ → Prop} {v : Who} {localBuf : Buf} {remoteBuf : Word}
    (h : ∀ w n, R w (w.setProc v (writeVariantMem (w.proc v) localBuf remoteBuf n).1)) (size : ℕ) :
    Prog.Within R (writeFrom v localBuf remoteBuf size : Mon ρ Int) := by
  intro w
  unfold Prog.wp writeFrom
  split
  · exact h w _
  · exact h w _

/-- `waitVariant` leaves what the monitor keeps of the variants alone. -/
theorem var_waitVariant (K : Kernel ρ) (v : Who) : Prog.Frame World.var (waitVariant K v) := by
  intro w
  unfold Prog.wp waitVariant
  split
  · exact World.advance_var w K v
  · split
    · rfl
    · split
      · split <;> rfl
      · rfl

/-- A variant that is resumed and waited for is marked as running. -/
theorem state_resumeAndWait (K : Kernel ρ) (v : Who) (w : World ρ) :
    Prog.wp (resumeAndWait K v) ⟨fun _ b => (b.var v).state = .running, fun _ => True, fun _ _ => True⟩
      w := by
  refine Prog.wp_mono (P := .kept World.var _) (fun _ b hb => ?_) (fun _ _ => trivial)
    (fun _ _ _ => trivial) (var_waitVariant K v _)
  have hvar : b.var = _ := hb
  exact (congrArg Variant.state (congrFun hvar v)).trans (by simp)

/-- The single things an executor can do keep to `R`.  It looks at a stop only of a variant that it
has marked as running. -/
structure Tame (K : Kernel ρ) (R : World ρ → World ρ → Prop) : Prop where
  bufs : ∀ w β, R w (w.withBufs β)
  mark : ∀ w v, R w (w.setVar v { w.var v with state := .running })
  count : ∀ w v, R w (w.setVar v { w.var v with syscallNum := (w.var v).syscallNum + 1 })
  note : ∀ w v i, (w.var v).state = .running → R w (w.setVar v { w.var v with syscallInfo := i })
  resume : ∀ w v, R w (w.setProc v (w.proc v).resume)
  pokeUser : ∀ w v r x, R w (w.setProc v ((w.proc v).pokeUser r x))
  setRegs : ∀ w v regs, R w (w.setProc v ((w.proc v).setRegs regs))
  poke : ∀ w v a d, R w (w.setProc v ((w.proc v).poke a d))
  table : ∀ w ms, R w { w with mappings := ms }
  wait : ∀ v, Prog.Within R (waitVariant K v)

namespace Tame

variable {K : Kernel ρ} {R : World ρ → World ρ → Prop} (h : Tame K R)

include h

theorem ofReadOnly {α : Type} {m : Mon ρ α} (hm : ReadOnly m) : Prog.Within R m :=
  .of_apply fun w => by
    obtain ⟨a, β, hw⟩ := hm w
    exact ⟨a, _, hw, h.bufs w β⟩

theorem setSyscall (v : Who) (call : Word) : Prog.Within R (setSyscall v call : Mon ρ Unit) :=
  .modify fun w => h.pokeUser w v _ _

theorem setSyscallReturnValue (v : Who) (x : Word) :
    Prog.Within R (setSyscallReturnValue v x : Mon ρ Unit) :=
  .modify fun w => h.pokeUser w v _ _

theorem setLseekRegs (v : Who) (fd offset : Word) :
    Prog.Within R (setLseekRegs v fd offset : Mon ρ Unit) :=
  .modify fun w => h.setRegs w v _

variable [IsPreorder (World ρ) R]

theorem resumeFromWait (v : Who) : Prog.Within R (resumeVariantFromWait v : Mon ρ Unit) :=
  .bind (.modify (fun w => h.resume w v)) fun _ => .modify fun w => h.mark w v

theorem resumeFromExit (v : Who) : Prog.Within R (resumeVariantFromExit v : Mon ρ Unit) :=
  .bind (.modify (fun w => h.resume w v)) fun _ => .modify fun w => h.count w v

theorem resumeAndWait (v : Who) : Prog.Within R (resumeAndWait K v) :=
  .bind (h.resumeFromWait v) fun _ => h.wait v

/-- The loop of `writeVariantMem` is a sequence of pokes. -/
theorem writeLoop (v : Who) (localBuf : Buf) (remoteBuf : Word) (size : ℕ) :
    ∀ (bytesRemaining bytesTransferred : ℕ) (w : World ρ), R w (w.setProc v
      (writeLoop localBuf remoteBuf size bytesRemaining bytesTransferred (w.proc v)).1) := by
  intro n
  induction n using Nat.strongRecOn with
  | ind n ih =>
    intro m w
    rw [Aurora.writeLoop]
    split
    · split
      · have hpoke := h.poke w v (remoteBuf + BitVec.ofNat 64 m) (CBuffer.loadLong localBuf (m / 8))
        have hrest := ih (n - 8) (by omega) (m + 8) (w.setProc v
          ((w.proc v).poke (remoteBuf + BitVec.ofNat 64 m) (CBuffer.loadLong localBuf (m / 8))))
        rw [World.setProc_proc_self] at hrest
        simpa [World.setProc] using IsTrans.trans _ _ _ hpoke hrest
      · exact h.poke w v _ _
    · simpa [World.setProc] using Std.Refl.refl (r := R) w

theorem writeVariantMem (v : Who) (localBuf : Buf) (remoteBuf : Word) (size : ℕ) (w : World ρ) :
    R w (w.setProc v (writeVariantMem (w.proc v) localBuf remoteBuf size).1) := by
  unfold Aurora.writeVariantMem
  split
  · exact h.poke w v _ _
  · exact h.writeLoop v localBuf remoteBuf size size 0 w

/-- Also where the last load faults. -/
theorem writeFrom (v : Who) (localBuf : Buf) (remoteBuf : Word) (size : ℕ) :
    Prog.Within R (writeFrom v localBuf remoteBuf size : Mon ρ Int) :=
  within_writeFrom (fun w n => h.writeVariantMem v localBuf remoteBuf n w) size

theorem transferVariantMem (s : Who) (sBuf : Word) (d : Who) (dBuf : Word) (size : ℕ) :
    Prog.Within R (transferVariantMem s sBuf d dBuf size : Mon ρ Int) := by
  unfold Aurora.transferVariantMem
  refine .ite (.pure _) (.bind (h.ofReadOnly (.readStatic _ _ _ _)) fun r => ?_)
  refine .ite (.pure _) (.bind (.gets _) fun buf => ?_)
  exact .bind (h.writeFrom _ _ _ _) fun n => .ite (.pure _) (.pure _)

theorem leaveBoth : Prog.Within R (do
    resumeVariantFromExit .master
    resumeVariantFromExit .replica
    return 0 : Mon ρ Int) :=
  .bind (h.resumeFromExit _) fun _ => .bind (h.resumeFromExit _) fun _ => .pure _

theorem resumeBoth : Prog.Within R (resumeBoth : Mon ρ Int) :=
  .bind (h.resumeFromWait _) fun _ => .bind (h.resumeFromWait _) fun _ => .pure _

theorem guarded {eq : Mon ρ Bool} {body : Mon ρ Int} (heq : ReadOnly eq)
    (hbody : Prog.Within R body) : Prog.Within R (guarded eq body) :=
  .bind (h.ofReadOnly heq) fun _ => .ite hbody (.pure _)

omit h in
theorem doIf {c : Prop} [Decidable c] {m : Mon ρ Int} (hm : Prog.Within R m) :
    Prog.Within R (doIf c m) := .ite hm (.pure _)

/-- `if (waitVariant(v) != 0) return -1`, after the resume. -/
theorem through (v : Who) {f : Mon ρ Int} (hf : Prog.Within R f) :
    Prog.Within R (Aurora.resumeAndWait K v >>= fun r => if r ≠ 0 then pure (-1) else f) :=
  .bind (h.resumeAndWait v) fun _ => .ite (.pure _) hf

/-- `if (waitVariant(v) == -1) return -1`, after the resume. -/
theorem through' (v : Who) {f : Mon ρ Int} (hf : Prog.Within R f) :
    Prog.Within R (Aurora.resumeAndWait K v >>= fun r => if r = -1 then pure (-1) else f) :=
  .bind (h.resumeAndWait v) fun _ => .ite (.pure _) hf

/-- The master's call, and a look at its stop. -/
theorem bindNoted {α : Type} (v : Who) {g : Int → Mon ρ α}
    (hg : ∀ a b, (b.var v).state = .running →
      Prog.wp (g a) ⟨fun _ => R b, R b, fun _ => R b⟩ b) :
    Prog.Within R (Aurora.resumeAndWait K v >>= g) := by
  intro w
  have hwithin := h.resumeAndWait v w
  have hstate := state_resumeAndWait K v w
  unfold Prog.wp at hwithin hstate ⊢
  rw [Prog.bind_apply]
  cases hrun : Aurora.resumeAndWait K v w with
  | ret a b =>
    rw [hrun] at hwithin hstate
    exact Prog.wp_mono (P := ⟨fun _ => R b, R b, fun _ => R b⟩)
      (fun _ _ hb => IsTrans.trans _ _ _ hwithin hb) (fun _ hb => IsTrans.trans _ _ _ hwithin hb)
      (fun _ _ hb => IsTrans.trans _ _ _ hwithin hb) (hg a b hstate)
  | hung b => rwa [hrun] at hwithin
  | exited code b => rwa [hrun] at hwithin

theorem wp_note {v : Who} {f : Mon ρ Int} (hf : Prog.Within R f) {b : World ρ}
    (hb : (b.var v).state = .running) :
    Prog.wp (requestSyscallInfo v >>= fun _ => f) ⟨fun _ => R b, R b, fun _ => R b⟩ b :=
  Prog.wp_mono (P := ⟨fun _ => R _, R _, fun _ => R _⟩)
    (fun _ _ hb' => IsTrans.trans _ _ _ (h.note b v _ hb) hb')
    (fun _ hb' => IsTrans.trans _ _ _ (h.note b v _ hb) hb')
    (fun _ _ hb' => IsTrans.trans _ _ _ (h.note b v _ hb) hb') (hf _)

/-- `if (waitVariant(v) != 0) return -1`, after the resume, and a look at the stop. -/
theorem noted (v : Who) {f : Mon ρ Int} (hf : Prog.Within R f) :
    Prog.Within R (Aurora.resumeAndWait K v >>= fun r =>
      if r ≠ 0 then pure (-1) else requestSyscallInfo v >>= fun _ => f) :=
  h.bindNoted v fun a b hb => by
    by_cases ha : a = 0
    · rw [if_neg (not_not.2 ha)]
      exact h.wp_note hf hb
    · rw [if_pos ha]
      exact Prog.Within.pure (-1) b

/-- The same with `== -1`. -/
theorem noted' (v : Who) {f : Mon ρ Int} (hf : Prog.Within R f) :
    Prog.Within R (Aurora.resumeAndWait K v >>= fun r =>
      if r = -1 then pure (-1) else requestSyscallInfo v >>= fun _ => f) :=
  h.bindNoted v fun a b hb => by
    by_cases ha : a = -1
    · rw [if_pos ha]
      exact Prog.Within.pure (-1) b
    · rw [if_neg ha]
      exact h.wp_note hf hb

theorem runMasterReplicateRet : Prog.Within R (runMasterReplicateRet K) :=
  h.noted _ (.bind (.gets _) fun _ => .bind (h.setSyscall _ _) fun _ =>
    h.through _ (.bind (h.setSyscallReturnValue _ _) fun _ => h.leaveBoth))

theorem runBothCopyMasterRet : Prog.Within R (runBothCopyMasterRet K) :=
  h.noted _ (.bind (.gets _) fun _ =>
    h.through _ (.bind (h.setSyscallReturnValue _ _) fun _ => h.leaveBoth))

end Tame

section

variable {K : Kernel ρ} {R : World ρ → World ρ → Prop} [IsPreorder (World ρ) R] (h : Tame K R)

include h

/-- The second half of the calls made in the master only: the replica goes through
`getpid`, its return value is set, and both leave. -/
theorem within_nopAndLeave (x : Word) : Prog.Within R (do
    setNopSyscall .replica
    if (← resumeAndWait K .replica) ≠ 0 then return -1
    setSyscallReturnValue .replica x
    resumeVariantFromExit .master
    resumeVariantFromExit .replica
    return 0) :=
  .bind (h.setSyscall _ _) fun _ => h.through _ (.bind (h.setSyscallReturnValue _ _) fun _ =>
    h.leaveBoth)

/-- Both are resumed, whatever is returned then. -/
theorem within_releaseFirst {eq : Mon ρ Bool} (heq : ReadOnly eq) : Prog.Within R (do
    let e ← eq
    resumeVariantFromWait .master
    resumeVariantFromWait .replica
    return if e then 0 else -1 : Mon ρ Int) :=
  .bind (h.ofReadOnly heq) fun _ => .bind (h.resumeFromWait _) fun _ =>
    .bind (h.resumeFromWait _) fun _ => .pure _

/-- **What every request keeps to, every executor keeps to.** -/
theorem within_execSyscall (c : Syscall) : Prog.Within R (execSyscall K c) := by
  have hguard : ∀ {body : Mon ρ Int}, Prog.Within R body → Prog.Within R (guarded (verdict c) body) :=
    fun hbody => h.guarded (readOnly_verdict c) hbody
  have hmove : ∀ {c : Prop} [Decidable c] {s sBuf d dBuf size},
      Prog.Within R (doIf c (transferVariantMem s sBuf d dBuf size) : Mon ρ Int) :=
    fun {_ _ _ _ _ _ _} => Tame.doIf (h.transferVariantMem _ _ _ _ _)
  cases c
  case read =>
    refine hguard (.bind (.gets _) fun _ => .bind (.gets _) fun _ => .bind (.gets _) fun _ =>
      h.noted _ (.bind (.gets _) fun _ => .bind hmove fun _ => .ite (.pure _) ?_))
    exact .bind (h.setLseekRegs _ _ _) fun _ => .bind (h.setSyscall _ _) fun _ =>
      h.through _ (.bind (h.setSyscallReturnValue _ _) fun _ => h.leaveBoth)
  case write =>
    refine hguard (.bind (.gets _) fun _ => h.noted _ (.bind (.gets _) fun _ =>
      .bind (h.setLseekRegs _ _ _) fun _ => .bind (h.setSyscall _ _) fun _ => ?_))
    exact h.through _ (.bind (h.setSyscallReturnValue _ _) fun _ => h.leaveBoth)
  case pread64 =>
    exact hguard (.bind (.gets _) fun _ => .bind (.gets _) fun _ => h.noted _ (.bind (.gets _)
      fun _ => .bind (h.transferVariantMem _ _ _ _ _) fun _ => .ite (.pure _) (within_nopAndLeave h _)))
  case newfstatat =>
    exact hguard (.bind (.gets _) fun _ => .bind (.gets _) fun _ => h.noted _ (.bind (.gets _)
      fun _ => .bind (h.transferVariantMem _ _ _ _ _) fun _ => .ite (.pure _) (within_nopAndLeave h _)))
  case getrandom =>
    refine hguard (.bind (.gets _) fun _ => .bind (.gets _) fun _ => h.noted _ (.bind (.gets _)
      fun _ => .bind hmove fun _ => .ite (.pure _) (.bind (h.setSyscall _ _) fun _ => h.through _ ?_)))
    exact .bind (h.setSyscallReturnValue _ _) fun _ => .bind (h.resumeFromWait _) fun _ =>
      .bind (h.resumeFromWait _) fun _ => .pure _
  case accept4 =>
    refine hguard (.bind (.gets _) fun _ => .bind (.gets _) fun _ => .bind (.gets _) fun _ =>
      h.noted' _ (.bind (h.setSyscall _ _) fun _ =>
        h.through' _ (.bind (Tame.doIf ?_) fun _ => .bind (.gets _) fun _ => ?_)))
    · exact .bind (.gets _) fun _ => .bind (.gets _) fun _ => h.transferVariantMem _ _ _ _ _
    · exact .bind (h.setSyscallReturnValue _ _) fun _ => h.leaveBoth
  case getsockname =>
    refine hguard (.bind (.gets _) fun _ => .bind (.gets _) fun _ => .bind (.gets _) fun _ =>
      .bind (.gets _) fun _ => .bind (.gets _) fun _ => h.noted _ (.bind (h.setSyscall _ _) fun _ =>
        h.through _ (.bind (.gets _) fun _ => ?_)))
    exact .bind (h.setSyscallReturnValue _ _) fun _ => .bind (.gets _) fun _ => .bind hmove fun _ =>
      h.leaveBoth
  case poll =>
    refine hguard (.bind (.gets _) fun _ => .bind (.gets _) fun _ => .bind (.gets _) fun _ =>
      h.noted' _ (.bind (h.setSyscall _ _) fun _ =>
        h.through' _ (.bind (h.transferVariantMem _ _ _ _ _) fun _ => .ite (.pure _) ?_)))
    exact .bind (.gets _) fun _ => .bind (h.setSyscallReturnValue _ _) fun _ => h.leaveBoth
  case pselect6 =>
    refine hguard (.bind (.gets _) fun _ => .bind (.gets _) fun _ => .bind (.gets _) fun _ =>
      .bind (.gets _) fun _ => .bind (.gets _) fun _ => .bind (.gets _) fun _ =>
        h.noted _ (.bind (.gets _) fun _ =>
          .bind (h.setSyscall _ _) fun _ => .bind (h.wait _) fun _ => .ite (.pure _) ?_))
    exact .bind (h.setSyscallReturnValue _ _) fun _ => .bind (Tame.doIf
      (.bind (h.transferVariantMem _ _ _ _ _) fun _ => .bind (h.transferVariantMem _ _ _ _ _) fun _ =>
        h.transferVariantMem _ _ _ _ _)) fun _ => h.leaveBoth
  case set_tid_address =>
    exact .bind (.gets _) fun _ => .bind (.gets _) fun _ => h.through _ (h.through _
      (.bind (.gets _) fun _ => .bind (.gets _) fun _ => .bind (h.writeFrom _ _ _ _) fun _ =>
        h.leaveBoth))
  case mmap =>
    refine hguard (.bind (.gets _) fun _ => .bind (.gets _) fun _ => h.noted _ (.bind (.gets _)
      fun _ => .bind (h.resumeFromExit _) fun _ => .bind (.gets _) fun _ => ?_))
    exact .bind (.modify (fun w => h.table w _)) fun _ =>
      .bind (h.resumeFromWait _) fun _ => .pure _
  case munmap =>
    exact hguard (.bind (.gets _) fun _ => .bind (.modify (fun w => h.table w _))
      fun _ => h.resumeBoth)
  case rseq => exact within_releaseFirst h (readOnly_verdict .rseq)
  case fadvise64 => exact within_releaseFirst h (readOnly_verdict .fadvise64)
  case shutdown => exact hguard h.leaveBoth
  case access => exact hguard (.bind h.runMasterReplicateRet fun _ => .pure _)
  case openat | close => exact hguard h.runBothCopyMasterRet
  case getpid => exact h.runMasterReplicateRet
  case unlink | utimensat | fchown | fchmod | bind | listen => exact hguard h.runMasterReplicateRet
  case getuid | geteuid | getgid | getegid | brk | set_robust_list => exact h.resumeBoth
  all_goals exact hguard h.resumeBoth

/-- And so does `processSyscallSync`. -/
theorem within_processSyscallSync : Prog.Within R (processSyscallSync K) := by
  refine .bind (.gets _) fun _ => .bind (.gets _) fun _ => .ite (.pure _) (.ite (.pure _) ?_)
  split
  · exact within_execSyscall h _
  · exact .pure _

end

/-! ## The case of a view -/

/-- The single things an executor can do leave the view `π` as it was. -/
structure Untouched (K : Kernel ρ) (π : World ρ → τ) : Prop where
  bufs : ∀ w β, π (w.withBufs β) = π w
  struct : ∀ w v x, π (w.setVar v x) = π w
  resume : ∀ w v, π (w.setProc v (w.proc v).resume) = π w
  pokeUser : ∀ w v r x, π (w.setProc v ((w.proc v).pokeUser r x)) = π w
  setRegs : ∀ w v regs, π (w.setProc v ((w.proc v).setRegs regs)) = π w
  poke : ∀ w v a d, π (w.setProc v ((w.proc v).poke a d)) = π w
  table : ∀ w ms, π { w with mappings := ms } = π w
  wait : ∀ v, Prog.Frame π (waitVariant K v)

/-- What no request touches, `processSyscallSync` does not. -/
theorem frame_processSyscallSync {K : Kernel ρ} {π : World ρ → τ} (h : Untouched K π) :
    Prog.Frame π (processSyscallSync K) := by
  have hpre : IsPreorder (World ρ) fun w w' => π w' = π w :=
    { refl := fun _ => rfl, trans := fun _ _ _ h h' => h'.trans h }
  exact within_processSyscallSync ⟨h.bufs, fun w v => h.struct w v _, fun w v => h.struct w v _,
    fun w v i _ => h.struct w v _, h.resume, h.pokeUser, h.setRegs, h.poke, h.table, h.wait⟩

end Aurora
