import AuroraMVEE.Untouched
import AuroraMVEE.Service
import AuroraMVEE.Lib.Composed

/-!
# The parts of an executor

What `processSyscallSync` can do is put together from a dozen requests, and nothing of it
looks at the marks that the main loop keeps in `state`.

* `Part K Γ` — the requests.  The scope `Γ` says which call numbers may be put in whose place,
  who may be released into the kernel and waited for, and whether the mapping table may be
  edited and a copy may fault; registers and memory are written in the replica only.
* `Made.execSyscall` — every executor is put together from these: the replica may be given
  `getpid`, and `lseek` by `read`; the master is given one by `write` only; the table is
  edited by `mmap` and `munmap` only; and a copy may fault in five of them (`sizedCalls`).
* `blind_processSyscallSync` — so what becomes of a rendezvous does not depend on the marks.
-/

namespace Aurora

variable {ρ : Type}

/-- The world with both variants marked as running. -/
def World.unmarked (w : World ρ) : World ρ :=
  { w with var := fun v => { w.var v with state := .running } }

/-- The process without the count of its entry stops. -/
def Tracee.uncounted (t : Tracee) : Tracee := { t with entries := 0 }

/-- The world without the marks and counters of the main loop, and without the counts of entry
stops. -/
def World.core (w : World ρ) : World ρ :=
  { w with
    proc := fun v => (w.proc v).uncounted
    var := fun v => ⟨.running, 0, (w.var v).syscallInfo⟩ }

/-- What an executor may do. -/
structure Scope where
  /-- The call numbers a variant may be given in place of its own. -/
  substitutes : Who → Word → Prop
  /-- Who may be released into the kernel and waited for. -/
  releases : Who → Prop
  /-- May the mapping table be edited? -/
  table : Prop
  /-- May the last load of a copy fault? -/
  faults : Prop

/-- Anything. -/
def Scope.all : Scope := ⟨fun _ _ => True, fun _ => True, True, True⟩

/-- Anything but a copy that faults. -/
def Scope.sound : Scope := { Scope.all with faults := False }

/-- A copy of `n` bytes is within the scope. -/
def Scope.Copies (Γ : Scope) (n : ℕ) : Prop := Γ.faults ∨ n < 8 ∨ n % 8 = 0

/-- The requests an executor is put together from. -/
inductive Part (K : Kernel ρ) (Γ : Scope) : (α : Type) → Mon ρ α → Prop
  /-- something looked up, but for the marks and the counts -/
  | look {α : Type} (f : World ρ → α) (h : ∀ w : World ρ, f w.core = f w) :
      Part K Γ α (Prog.gets f)
  /-- a static buffer overwritten -/
  | scratch (f : World ρ → StaticBuf → Buf) (h : ∀ w : World ρ, f w.core = f w) :
      Part K Γ Unit (Prog.modify fun w => w.withBufs (f w))
  /-- an entry of the mapping table added or removed -/
  | table (f : World ρ → List VariantMMap) (hΓ : Γ.table) (h : ∀ w : World ρ, f w.core = f w) :
      Part K Γ Unit (Prog.modify fun w => { w with mappings := f w })
  | readStatic (v : Who) (b : StaticBuf) (p : Word) (n : ℕ) : Part K Γ Int (readStatic v b p n)
  | writeFrom (localBuf : Buf) (p : Word) (n : ℕ) (h : Γ.Copies n) :
      Part K Γ Int (writeFrom .replica localBuf p n)
  | note (v : Who) : Part K Γ Unit (requestSyscallInfo v)
  | resumeFromWait (v : Who) (h : Γ.releases v) : Part K Γ Unit (resumeVariantFromWait v)
  | resumeFromExit (v : Who) : Part K Γ Unit (resumeVariantFromExit v)
  | wait (v : Who) (h : Γ.releases v) : Part K Γ Int (waitVariant K v)
  | setSyscall (v : Who) (call : Word) (h : Γ.substitutes v call) : Part K Γ Unit (setSyscall v call)
  | setReturn (x : Word) : Part K Γ Unit (setSyscallReturnValue .replica x)
  | setLseekRegs (fd offset : Word) : Part K Γ Unit (setLseekRegs .replica fd offset)

/-- A program put together from them. -/
abbrev Made (K : Kernel ρ) (Γ : Scope) {α : Type} (m : Mon ρ α) : Prop :=
  Prog.Composed (Part K Γ) α m

/-! ## Reading does not depend on the count -/

namespace Tracee

theorem readLoop_uncounted (t : Tracee) (p : Word) (bytesRemaining bytesTransferred : ℕ) (buf : Buf) :
    readLoop t.uncounted p bytesRemaining bytesTransferred buf =
      readLoop t p bytesRemaining bytesTransferred buf := by
  fun_induction readLoop t p bytesRemaining bytesTransferred buf with
  | case1 n m buf hn ih =>
    rw [readLoop, if_pos hn]
    exact ih
  | case2 n m buf hn => rw [readLoop, if_neg hn]

theorem readVariantMem_uncounted (t : Tracee) (buf : Buf) (p : Word) (size : ℕ) :
    readVariantMem t.uncounted buf p size = readVariantMem t buf p size := by
  simp only [readVariantMem, readLoop_uncounted]

theorem strScan_uncounted (t : Tracee) (p : Word) (curSize stringLen : ℕ) (buf : Buf) :
    strScan t.uncounted p curSize stringLen buf = strScan t p curSize stringLen buf := by
  fun_induction strScan t p curSize stringLen buf <;>
    rw [strScan] <;> simp_all [readVariantMem_uncounted]

theorem pathScan_uncounted (t : Tracee) (p : Word) (curSize stringLen : ℕ) (buf : Buf) :
    pathScan t.uncounted p curSize stringLen buf = pathScan t p curSize stringLen buf := by
  fun_induction pathScan t p curSize stringLen buf <;>
    rw [pathScan] <;> simp_all [readVariantMem_uncounted]

end Tracee

/-! ## The comparisons -/

namespace Made

variable {K : Kernel ρ} {Γ : Scope} {α β : Type}

theorem look (f : World ρ → α) (h : ∀ w : World ρ, f w.core = f w) : Made K Γ (Prog.gets f) :=
  .of (.look f h)

theorem readStatic (v : Who) (b : StaticBuf) (p : Word) (n : ℕ) : Made K Γ (readStatic v b p n) :=
  .of (.readStatic v b p n)

theorem argOf (v : Who) (k : Fin 6) : Made K Γ (argOf v k) := look _ fun _ => rfl

theorem argsEq (ks : List (Fin 6)) : Made K Γ (argsEq ks) := look _ fun _ => rfl

theorem intArgEq (k : Fin 6) : Made K Γ (intArgEq k) := look _ fun _ => rfl

theorem socklenArgEq (k : Fin 6) : Made K Γ (socklenArgEq k) := look _ fun _ => rfl

theorem syscallInfoOf (v : Who) : Made K Γ (syscallInfoOf v) := look _ fun _ => rfl

theorem readShort (v : Who) (p : Word) : Made K Γ (readShort v p) :=
  look _ fun _ => congrArg Prod.fst (Tracee.readVariantMem_uncounted _ _ _ _)

theorem variantMemCmp (v : Who) (p : Word) (u : Who) (q : Word) (n : ℕ) :
    Made K Γ (variantMemCmp v p u q n) :=
  .ite (.pure _) (.bind (readStatic _ _ _ _) fun _ => .bind (readStatic _ _ _ _) fun _ =>
    .bind (look _ fun _ => rfl) fun _ => .pure _)

theorem variantStrCmp (v : Who) (p : Word) (u : Who) (q : Word) :
    Made K Γ (variantStrCmp v p u q) := by
  refine .bind (.of (.scratch _ fun _ => rfl)) fun _ =>
    .bind (look _ fun _ => Tracee.strScan_uncounted _ _ _ _ _) ?_
  rintro ⟨bufA, scanned⟩
  refine .bind (.of (.scratch _ fun _ => rfl)) fun _ => ?_
  cases scanned with
  | none => exact .pure _
  | some p => exact .bind (readStatic _ _ _ _) fun _ => .bind (look _ fun _ => rfl) fun _ => .pure _

theorem memArgEq (k : Fin 6) (n : ℕ) : Made K Γ (memArgEq k n) :=
  .bind (argOf _ _) fun _ => .bind (argOf _ _) fun _ => .bind (variantMemCmp _ _ _ _ _) fun _ =>
    .pure _

theorem strArgEq (k : Fin 6) : Made K Γ (strArgEq k) :=
  .bind (argOf _ _) fun _ => .bind (argOf _ _) fun _ => .bind (variantStrCmp _ _ _ _) fun _ => .pure _

theorem andIf (eq : Bool) {m : Mon ρ Bool} (h : Made K Γ m) : Made K Γ (andIf eq m) :=
  .ite h (.pure _)

theorem unlessZero (x : Word) {m : Mon ρ Bool} (h : Made K Γ m) : Made K Γ (unlessZero x m) :=
  .ite h (.pure _)

theorem newfstatatPathEq : Made K Γ newfstatatPathEq := by
  refine .bind (argOf _ _) fun path =>
    .bind (look _ fun _ => Tracee.pathScan_uncounted _ _ _ _ _) ?_
  rintro ⟨bufA, stringLen⟩
  refine .bind (.of (.scratch _ fun _ => rfl)) fun _ => ?_
  cases stringLen with
  | none => exact .pure _
  | some n =>
    exact .bind (argOf _ _) fun _ => .bind (readStatic _ _ _ _) fun _ =>
      .bind (look _ fun _ => rfl) fun _ => .pure _

/-- Every verdict is put together from what is looked up and read. -/
theorem verdict (c : Syscall) : Made K Γ (verdict c) := by
  cases c
  case openat =>
    exact .bind (argsEq _) fun _ => .bind (argOf _ _) fun _ => .bind (unlessZero _ (argsEq _))
      fun _ => andIf _ (strArgEq _)
  case write =>
    exact .bind (intArgEq _) fun _ => .bind (argsEq _) fun _ => .bind (argOf _ _) fun _ =>
      andIf _ (memArgEq _ _)
  case newfstatat =>
    exact .bind (argsEq _) fun _ => .bind (andIf _ newfstatatPathEq) fun _ => .bind (argsEq _)
      fun _ => .pure _
  case access => exact .bind (argsEq _) fun _ => andIf _ (strArgEq _)
  case utimensat =>
    exact .bind (argsEq _) fun _ => .bind (andIf _ (strArgEq _)) fun _ => andIf _ (argsEq _)
  case getcwd => exact .bind (strArgEq _) fun _ => .bind (argsEq _) fun _ => .pure _
  case chdir | unlink => exact strArgEq _
  case rt_sigprocmask =>
    exact .bind (argOf _ _) fun _ => .bind (unlessZero _ (argsEq _)) fun _ => .bind (argOf _ _)
      fun _ => andIf _ (memArgEq _ _)
  case setsockopt =>
    exact .bind (argsEq _) fun _ => .bind (socklenArgEq _) fun _ => .bind (argOf _ _) fun _ =>
      andIf _ (memArgEq _ _)
  case bind =>
    exact .bind (argsEq _) fun _ => .bind (socklenArgEq _) fun _ => .bind (argOf _ _) fun _ =>
      .bind (memArgEq _ _) fun _ => .pure _
  case accept4 => exact .bind (argsEq _) fun _ => .bind (memArgEq _ _) fun _ => .pure _
  case getsockname =>
    exact .bind (argsEq _) fun _ => .bind (argOf _ _) fun _ => .bind (readShort _ _) fun _ =>
      .bind (look _ fun _ => rfl) fun _ => .bind (memArgEq _ _) fun _ => .pure _
  case poll => exact .bind (argsEq _) fun _ => .bind (argOf _ _) fun _ => andIf _ (memArgEq _ _)
  case pselect6 =>
    exact .bind (look _ fun _ => rfl) fun _ => .bind (memArgEq _ _) fun _ => .bind (memArgEq _ _)
      fun _ => .bind (memArgEq _ _) fun _ => .bind (memArgEq _ _) fun _ => .bind (memArgEq _ _)
        fun _ => .pure _
  case read => exact .bind (intArgEq _) fun _ => .bind (argsEq _) fun _ => .pure _
  case mmap =>
    exact .bind (argsEq _) fun _ => .bind (intArgEq _) fun _ => .bind (intArgEq _) fun _ =>
      .bind (argOf _ _) fun _ => .bind (argOf _ _) fun _ => .pure _
  case mprotect =>
    exact .bind (argsEq _) fun _ => .bind (intArgEq _) fun _ => .bind (argOf _ _) fun _ =>
      .bind (argOf _ _) fun _ => .bind (look _ fun _ => rfl) fun _ => .pure _
  case munmap =>
    exact .bind (argsEq _) fun _ => .bind (argOf _ _) fun _ => .bind (look _ fun _ => rfl)
      fun _ => .pure _
  all_goals first | exact .pure _ | exact argsEq _

/-! ## The executors -/

theorem note (v : Who) : Made K Γ (requestSyscallInfo v) := .of (.note v)

theorem setReturn (x : Word) : Made K Γ (setSyscallReturnValue .replica x) := .of (.setReturn x)

theorem setLseekRegs (fd offset : Word) : Made K Γ (setLseekRegs .replica fd offset) :=
  .of (.setLseekRegs fd offset)

theorem writeFrom (localBuf : Buf) (p : Word) {n : ℕ} (h : Γ.Copies n) :
    Made K Γ (writeFrom .replica localBuf p n) := .of (.writeFrom localBuf p n h)

theorem transferVariantMem (s : Who) (p q : Word) {n : ℕ} (h : Γ.Copies n) :
    Made K Γ (transferVariantMem s p .replica q n) :=
  .ite (.pure _) (.bind (readStatic _ _ _ _) fun _ => .ite (.pure _) (.bind (look _ fun _ => rfl)
    fun _ => .bind (writeFrom _ _ h) fun _ => .ite (.pure _) (.pure _)))

theorem doIf {c : Prop} [Decidable c] {m : Mon ρ Int} (h : Made K Γ m) : Made K Γ (doIf c m) :=
  .ite h (.pure _)

theorem guarded {c : Syscall} {body : Mon ρ Int} (h : Made K Γ body) :
    Made K Γ (guarded (Aurora.verdict c) body) := .bind (verdict c) fun _ => .ite h (.pure _)

theorem leaveBoth : Made K Γ (do
    resumeVariantFromExit .master
    resumeVariantFromExit .replica
    return 0 : Mon ρ Int) :=
  .bind (.of (.resumeFromExit _)) fun _ => .bind (.of (.resumeFromExit _)) fun _ => .pure _

/-- `if (waitVariant(v) != 0) return -1`, after the resume. -/
theorem through {v : Who} (hv : Γ.releases v) {f : Mon ρ Int} (hf : Made K Γ f) :
    Made K Γ (resumeAndWait K v >>= fun r => if r ≠ 0 then pure (-1) else f) :=
  .bind (.bind (.of (.resumeFromWait v hv)) fun _ => .of (.wait v hv)) fun _ => .ite (.pure _) hf

/-- The same with `== -1`. -/
theorem through' {v : Who} (hv : Γ.releases v) {f : Mon ρ Int} (hf : Made K Γ f) :
    Made K Γ (resumeAndWait K v >>= fun r => if r = -1 then pure (-1) else f) :=
  .bind (.bind (.of (.resumeFromWait v hv)) fun _ => .of (.wait v hv)) fun _ => .ite (.pure _) hf

section Executors

variable (hS : Γ.substitutes .replica Syscall.getpid.nr) (hW : ∀ v, Γ.releases v)

include hW in
theorem resumeBoth : Made K Γ (resumeBoth : Mon ρ Int) :=
  .bind (.of (.resumeFromWait _ (hW _))) fun _ => .bind (.of (.resumeFromWait _ (hW _))) fun _ => .pure _

include hW in
theorem runBothCopyMasterRet : Made K Γ (runBothCopyMasterRet K) :=
  through (hW _) (.bind (note _) fun _ => .bind (syscallInfoOf _) fun _ => through (hW _)
    (.bind (setReturn _) fun _ => leaveBoth))

include hS hW

/-- The replica goes through `getpid`. -/
theorem nopReplica {f : Mon ρ Int} (hf : Made K Γ f) : Made K Γ (do
    setNopSyscall .replica
    if (← resumeAndWait K .replica) ≠ 0 then return -1
    f) :=
  .bind (.of (.setSyscall _ _ hS)) fun _ => through (hW _) hf

theorem nopReplica' {f : Mon ρ Int} (hf : Made K Γ f) : Made K Γ (do
    setNopSyscall .replica
    if (← resumeAndWait K .replica) = -1 then return -1
    f) :=
  .bind (.of (.setSyscall _ _ hS)) fun _ => through' (hW _) hf

theorem runMasterReplicateRet : Made K Γ (runMasterReplicateRet K) :=
  through (hW _) (.bind (note _) fun _ => .bind (syscallInfoOf _) fun _ =>
    nopReplica hS hW (.bind (setReturn _) fun _ => leaveBoth))

/-- **Every executor is put together from the parts.** -/
theorem execSyscall {c : Syscall} (hr : c = .read → Γ.substitutes .replica Syscall.lseek.nr)
    (hw : c = .write → Γ.substitutes .master Syscall.lseek.nr)
    (hT : c = .mmap ∨ c = .munmap → Γ.table) (hF : c ∈ sizedCalls → Γ.faults) :
    Made K Γ (execSyscall K c) := by
  cases c
  case read =>
    refine guarded (c := .read) (.bind (argOf _ _) fun _ => .bind (argOf _ _) fun _ =>
      .bind (argOf _ _) fun _ => through (hW _) (.bind (note _) fun _ => .bind (syscallInfoOf _)
        fun _ => .bind (doIf (transferVariantMem _ _ _ (.inl (hF (by decide))))) fun _ => .ite (.pure _) ?_))
    exact .bind (setLseekRegs _ _) fun _ => .bind (.of (.setSyscall _ _ (hr rfl))) fun _ =>
      through (hW _) (.bind (setReturn _) fun _ => leaveBoth)
  case write =>
    refine guarded (c := .write) (.bind (argOf _ _) fun _ => through (hW _) (.bind (note _) fun _ =>
      .bind (syscallInfoOf _) fun _ => .bind (setLseekRegs _ _) fun _ => ?_))
    exact .bind (.of (.setSyscall _ _ (hw rfl))) fun _ =>
      through (hW _) (.bind (setReturn _) fun _ => leaveBoth)
  case pread64 =>
    exact guarded (c := .pread64) (.bind (argOf _ _) fun _ => .bind (argOf _ _) fun _ =>
      through (hW _) (.bind (note _) fun _ => .bind (syscallInfoOf _) fun _ =>
        .bind (transferVariantMem _ _ _ (.inl (hF (by decide)))) fun _ => .ite (.pure _)
          (nopReplica hS hW (.bind (setReturn _) fun _ => leaveBoth))))
  case newfstatat =>
    exact guarded (c := .newfstatat) (.bind (argOf _ _) fun _ => .bind (argOf _ _) fun _ =>
      through (hW _) (.bind (note _) fun _ => .bind (syscallInfoOf _) fun _ =>
        .bind (transferVariantMem _ _ _ (.inr (.inr rfl))) fun _ => .ite (.pure _)
          (nopReplica hS hW (.bind (setReturn _) fun _ => leaveBoth))))
  case getrandom =>
    refine guarded (c := .getrandom) (.bind (argOf _ _) fun _ => .bind (argOf _ _) fun _ =>
      through (hW _) (.bind (note _) fun _ => .bind (syscallInfoOf _) fun _ =>
        .bind (doIf (transferVariantMem _ _ _ (.inl (hF (by decide))))) fun _ => .ite (.pure _)
          (nopReplica hS hW (.bind (setReturn _) fun _ => ?_))))
    exact .bind (.of (.resumeFromWait _ (hW _))) fun _ =>
      .bind (.of (.resumeFromWait _ (hW _))) fun _ => .pure _
  case accept4 =>
    refine guarded (c := .accept4) (.bind (argOf _ _) fun _ => .bind (argOf _ _) fun _ =>
      .bind (argOf _ _) fun _ => through' (hW _) (.bind (note _) fun _ => nopReplica' hS hW ?_))
    refine .bind (doIf ?_) fun _ => .bind (syscallInfoOf _) fun _ => .bind (setReturn _) fun _ => leaveBoth
    exact .bind (readShort _ _) fun _ => .bind (look _ fun _ => rfl) fun _ =>
      transferVariantMem _ _ _ (.inl (hF (by decide)))
  case getsockname =>
    refine guarded (c := .getsockname) (.bind (argOf _ _) fun _ => .bind (argOf _ _) fun _ =>
      .bind (argOf _ _) fun _ => .bind (readShort _ _) fun _ => .bind (look _ fun _ => rfl) fun _ =>
        through (hW _) (.bind (note _) fun _ => nopReplica hS hW ?_))
    exact .bind (syscallInfoOf _) fun _ => .bind (setReturn _) fun _ => .bind (syscallInfoOf _)
      fun _ => .bind (doIf (transferVariantMem _ _ _ (.inl (hF (by decide))))) fun _ => leaveBoth
  case poll =>
    refine guarded (c := .poll) (.bind (argOf _ _) fun _ => .bind (argOf _ _) fun _ =>
      .bind (argOf _ _) fun _ => through' (hW _) (.bind (note _) fun _ => nopReplica' hS hW ?_))
    exact .bind (transferVariantMem _ _ _ (.inr (.inr (toNat_mul_sizeofPollfd_mod _)))) fun _ =>
      .ite (.pure _) (.bind (syscallInfoOf _) fun _ => .bind (setReturn _) fun _ => leaveBoth)
  case pselect6 =>
    refine guarded (c := .pselect6) (.bind (argOf _ _) fun _ => .bind (argOf _ _) fun _ =>
      .bind (argOf _ _) fun _ => .bind (argOf _ _) fun _ => .bind (argOf _ _) fun _ =>
        .bind (argOf _ _) fun _ => through (hW _) (.bind (note _) fun _ => .bind (syscallInfoOf _)
          fun _ => .bind (.of (.setSyscall _ _ hS)) fun _ => .bind (.of (.wait _ (hW _))) fun _ =>
            .ite (.pure _) ?_))
    have hset : Γ.Copies sizeofFdSet := .inr (.inr rfl)
    exact .bind (setReturn _) fun _ => .bind (doIf (.bind (transferVariantMem _ _ _ hset) fun _ =>
      .bind (transferVariantMem _ _ _ hset) fun _ => transferVariantMem _ _ _ hset)) fun _ => leaveBoth
  case set_tid_address =>
    exact .bind (argOf _ _) fun _ => .bind (argOf _ _) fun _ => through (hW _) (through (hW _)
      (.bind (readShort _ _) fun _ => .bind (look _ fun _ => rfl) fun _ =>
        .bind (writeFrom _ _ (.inr (.inl (by decide)))) fun _ => leaveBoth))
  case mmap =>
    refine guarded (c := .mmap) (.bind (argOf _ _) fun _ => .bind (argOf _ _) fun _ =>
      through (hW _) (.bind (note _) fun _ => .bind (syscallInfoOf _) fun _ =>
        .bind (.of (.resumeFromExit _)) fun _ => .bind (argOf _ _) fun _ => ?_))
    exact .bind (.of (.table _ (hT (by decide)) fun _ => rfl)) fun _ =>
      .bind (.of (.resumeFromWait _ (hW _))) fun _ =>
      .pure _
  case munmap =>
    exact guarded (c := .munmap) (.bind (argOf _ _) fun _ =>
      .bind (.of (.table _ (hT (by decide)) fun _ => rfl)) fun _ => resumeBoth hW)
  case rseq =>
    exact .bind (argsEq _) fun _ => .bind (.of (.resumeFromWait _ (hW _))) fun _ =>
      .bind (.of (.resumeFromWait _ (hW _))) fun _ => .pure _
  case fadvise64 =>
    exact .bind (argsEq _) fun _ => .bind (.of (.resumeFromWait _ (hW _))) fun _ =>
      .bind (.of (.resumeFromWait _ (hW _))) fun _ => .pure _
  case shutdown => exact guarded (c := .shutdown) leaveBoth
  case access =>
    exact guarded (c := .access) (.bind (runMasterReplicateRet hS hW) fun _ => .pure _)
  case openat => exact guarded (c := .openat) (runBothCopyMasterRet hW)
  case close => exact guarded (c := .close) (runBothCopyMasterRet hW)
  case getpid => exact runMasterReplicateRet hS hW
  case unlink => exact guarded (c := .unlink) (runMasterReplicateRet hS hW)
  case utimensat => exact guarded (c := .utimensat) (runMasterReplicateRet hS hW)
  case fchown => exact guarded (c := .fchown) (runMasterReplicateRet hS hW)
  case fchmod => exact guarded (c := .fchmod) (runMasterReplicateRet hS hW)
  case bind => exact guarded (c := .bind) (runMasterReplicateRet hS hW)
  case listen => exact guarded (c := .listen) (runMasterReplicateRet hS hW)
  case getuid | geteuid | getgid | getegid | brk | set_robust_list => exact resumeBoth hW
  case arch_prctl => exact guarded (c := .arch_prctl) (resumeBoth hW)
  case exit_group => exact guarded (c := .exit_group) (resumeBoth hW)
  case prlimit64 => exact guarded (c := .prlimit64) (resumeBoth hW)
  case rt_sigaction => exact guarded (c := .rt_sigaction) (resumeBoth hW)
  case rt_sigprocmask => exact guarded (c := .rt_sigprocmask) (resumeBoth hW)
  case lseek => exact guarded (c := .lseek) (resumeBoth hW)
  case getcwd => exact guarded (c := .getcwd) (resumeBoth hW)
  case chdir => exact guarded (c := .chdir) (resumeBoth hW)
  case socket => exact guarded (c := .socket) (resumeBoth hW)
  case setsockopt => exact guarded (c := .setsockopt) (resumeBoth hW)
  case mprotect => exact guarded (c := .mprotect) (resumeBoth hW)

end Executors

end Made

/-! ## Who leaves the process -/

/-- Nobody is waited for in a way that leaves the process. -/
theorem stays_waitVariant (K : Kernel ρ) (v : Who) : (waitVariant K v).Stays := by
  intro w code w' h
  unfold waitVariant at h
  repeat' first | split at h | cases h

/-- A part leaves the process only in a copy that faults. -/
theorem Part.stays {K : Kernel ρ} {Γ : Scope} (hΓ : ¬ Γ.faults) (α : Type) (m : Mon ρ α)
    (h : Part K Γ α m) : m.Stays := by
  have hmodify : ∀ f : World ρ → World ρ, (Prog.modify f).Stays := fun f w code w' h => by simp at h
  cases h with
  | look f _ => exact fun w code w' h => by simp at h
  | scratch f _ => exact hmodify _
  | table f _ _ => exact hmodify _
  | readStatic v b p n =>
    intro w code w' hrun
    cases hrun
  | writeFrom localBuf p n h =>
    intro w code w' hrun
    unfold Aurora.writeFrom at hrun
    rw [if_neg (w.image.not_faults (h.resolve_left hΓ))] at hrun
    cases hrun
  | note v => exact hmodify _
  | resumeFromWait v _ => exact (hmodify _).bind fun _ => hmodify _
  | resumeFromExit v => exact (hmodify _).bind fun _ => hmodify _
  | wait v _ => exact stays_waitVariant K v
  | setSyscall v call _ => exact hmodify _
  | setReturn x => exact hmodify _
  | setLseekRegs fd offset => exact hmodify _

/-- What contains no copy that may fault does not leave the process. -/
theorem Made.stays {K : Kernel ρ} {α : Type} {m : Mon ρ α} (h : Made K .sound m) : m.Stays :=
  Prog.Composed.stays h (Part.stays id)

/-- An executor that copies no more than the monitor has allotted never does. -/
theorem stays_execSyscall (K : Kernel ρ) {c : Syscall} (hc : c ∉ sizedCalls) :
    (execSyscall K c).Stays :=
  Made.stays (.execSyscall trivial (fun _ => trivial) (fun _ => trivial) (fun _ => trivial)
    (fun _ => trivial) fun h => hc h)

/-! ## Nothing looks at the marks -/

namespace World

@[simp] theorem unmarked_proc (w : World ρ) : w.unmarked.proc = w.proc := rfl

@[simp] theorem unmarked_os (w : World ρ) : w.unmarked.os = w.os := rfl

@[simp] theorem unmarked_info (w : World ρ) (v : Who) :
    (w.unmarked.var v).syscallInfo = (w.var v).syscallInfo := rfl

@[simp] theorem unmarked_num (w : World ρ) (v : Who) :
    (w.unmarked.var v).syscallNum = (w.var v).syscallNum := rfl

theorem unmarked_core (w : World ρ) : w.unmarked.core = w.core := rfl

@[simp] theorem unmarked_unmarked (w : World ρ) : w.unmarked.unmarked = w.unmarked := rfl

theorem unmarked_setVar (w : World ρ) (v : Who) (x : Variant) :
    (w.setVar v x).unmarked = w.unmarked.setVar v { x with state := .running } := by
  unfold unmarked setVar
  congr 1
  funext u
  by_cases hu : u = v
  · subst hu
    simp
  · simp [hu]

theorem unmarked_advance (w : World ρ) (K : Kernel ρ) (v : Who) :
    (w.advance K v).unmarked = w.unmarked.advance K v := by
  cases ha : (w.proc v).alive with
  | false => simp [advance, ha]
  | true => cases hl : (w.proc v).loc <;> simp [advance, ha, hl] <;> rfl

end World

section Blind

variable {K : Kernel ρ} {Γ : Scope}

theorem blind_ptrace (v : Who) (request : Tracee → Tracee) :
    Prog.Blind World.unmarked (ptrace v request : Mon ρ Unit) := .of_view fun _ => rfl

theorem blind_assign (v : Who) {f : Variant → Variant}
    (hf : ∀ x : Variant, ({ f { x with state := .running } with state := .running } : Variant) =
      { f x with state := .running }) : Prog.Blind World.unmarked (assign v f : Mon ρ Unit) := by
  refine .of_view fun w => congrArg (Outcome.ret ()) ?_
  rw [World.unmarked_setVar, World.unmarked_setVar, World.unmarked_unmarked]
  exact congrArg (w.unmarked.setVar v) (hf (w.var v))

theorem blind_waitVariant (v : Who) : Prog.Blind World.unmarked (waitVariant K v) := by
  refine .of_view fun w => ?_
  unfold waitVariant
  by_cases hrun : (w.proc v).running = true
  · rw [if_pos hrun, if_pos (show (w.unmarked.proc v).running = true from hrun),
      ← World.unmarked_advance]
    rfl
  rw [if_neg hrun, if_neg (show ¬ (w.unmarked.proc v).running = true from hrun)]
  by_cases hrep : (w.proc v).reported = false
  · rw [if_pos hrep, if_pos (show (w.unmarked.proc v).reported = false from hrep)]
    rfl
  rw [if_neg hrep, if_neg (show ¬ (w.unmarked.proc v).reported = false from hrep)]
  by_cases ha : (w.proc v).alive = true
  · rw [if_pos ha, if_pos (show (w.unmarked.proc v).alive = true from ha)]
    cases K.killed v <;> rfl
  · rw [if_neg ha, if_neg (show ¬ (w.unmarked.proc v).alive = true from ha)]
    rfl

/-- No part looks at the marks. -/
theorem Part.blind (α : Type) (m : Mon ρ α) (h : Part K Γ α m) : Prog.Blind World.unmarked m := by
  cases h with
  | look f h =>
    refine .gets fun w w' hw => ?_
    rw [← h w, ← h w', ← World.unmarked_core w, hw, World.unmarked_core]
  | scratch f h =>
    have hf : ∀ w : World ρ, f w.unmarked = f w := fun w => (h w.unmarked).symm.trans (h w)
    exact .of_view fun w => by simp only [Prog.modify_apply, hf w]; rfl
  | table f _ h =>
    have hf : ∀ w : World ρ, f w.unmarked = f w := fun w => (h w.unmarked).symm.trans (h w)
    exact .of_view fun w => by simp only [Prog.modify_apply, hf w]; rfl
  | readStatic v b p n => exact .of_view fun w => rfl
  | writeFrom localBuf p n _ =>
    refine .of_view fun w => ?_
    unfold Aurora.writeFrom
    by_cases hload : w.image.Faults n
    · rw [if_pos hload, if_pos (show w.unmarked.image.Faults n from hload)]
      rfl
    · rw [if_neg hload, if_neg (show ¬ w.unmarked.image.Faults n from hload)]
      rfl
  | note v =>
    refine .of_view fun w => congrArg (Outcome.ret ()) ?_
    rw [World.unmarked_setVar, World.unmarked_setVar]
    rfl
  | resumeFromWait v _ => exact .bind (blind_ptrace _ _) fun _ => blind_assign _ fun _ => rfl
  | resumeFromExit v => exact .bind (blind_ptrace _ _) fun _ => blind_assign _ fun _ => rfl
  | wait v _ => exact blind_waitVariant v
  | setSyscall v call _ => exact blind_ptrace _ _
  | setReturn x => exact blind_ptrace _ _
  | setLseekRegs fd offset => exact blind_ptrace _ _

/-- The rendezvous as a whole is put together from the parts. -/
theorem made_processSyscallSync (K : Kernel ρ) :
    Made K .all (processSyscallSync K) := by
  refine .bind (Made.syscallInfoOf _) fun _ => .bind (Made.syscallInfoOf _) fun _ =>
    .ite (.pure _) (.ite (.pure _) ?_)
  split
  · exact Made.execSyscall trivial (fun _ => trivial) (fun _ => trivial) (fun _ => trivial)
      (fun _ => trivial) fun _ => trivial
  · exact .pure _

/-- **What becomes of a rendezvous does not depend on the marks.** -/
theorem blind_processSyscallSync (K : Kernel ρ) :
    Prog.Blind World.unmarked (processSyscallSync K) :=
  (made_processSyscallSync K).blind Part.blind

end Blind

end Aurora
