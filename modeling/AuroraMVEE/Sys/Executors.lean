import AuroraMVEE.Sys.Checks

/-!
# The executors of `sys/*.c`

One definition for each `execSyscall_*`, in three groups: calls that both
variants simply make, calls made in the master whose result the replica is
given, and the memory calls with their bookkeeping.  All of them start with both
variants stopped at the same system call entry.

The executors that copy memory are written over any transfer (`execSyscall*With`): the
source's own is `transferVariantMem`, and the theorems about what is copied where also
put an exact one in its place.
-/

namespace Aurora

variable {ρ : Type}

/-- Compare, and only then go on; a mismatch is `-1`. -/
def guarded (eq : Mon ρ Bool) (body : Mon ρ Int) : Mon ρ Int := do
  if (← eq) then body else return -1

/-- `if (c) ret = m;`, where no `ret` counts as success. -/
def doIf (c : Prop) [Decidable c] (m : Mon ρ Int) : Mon ρ Int := if c then m else return 0

/-! ## Calls both variants make -/

/-- `brk`: nothing is compared. -/
def execSyscallBrk : Mon ρ Int := resumeBoth

/-- `set_robust_list`: nothing is compared. -/
def execSyscallSetRobustList : Mon ρ Int := resumeBoth

/-- `arch_prctl` -/
def execSyscallArchPrctl : Mon ρ Int := guarded arch_prctlEq resumeBoth

/-- `exit_group` -/
def execSyscallExitGroup : Mon ρ Int := guarded exit_groupEq resumeBoth

/-- `prlimit64` -/
def execSyscallPrlimit64 : Mon ρ Int := guarded prlimit64Eq resumeBoth

/-- `rt_sigaction` -/
def execSyscallRtSigaction : Mon ρ Int := guarded rt_sigactionEq resumeBoth

/-- `rt_sigprocmask` -/
def execSyscallRtSigprocmask : Mon ρ Int := guarded rt_sigprocmaskEq resumeBoth

/-- `lseek` -/
def execSyscallLseek : Mon ρ Int := guarded lseekEq resumeBoth

/-- `getcwd` -/
def execSyscallGetcwd : Mon ρ Int := guarded getcwdEq resumeBoth

/-- `chdir` -/
def execSyscallChdir : Mon ρ Int := guarded chdirEq resumeBoth

/-- `socket` -/
def execSyscallSocket : Mon ρ Int := guarded socketEq resumeBoth

/-- `setsockopt` -/
def execSyscallSetsockopt : Mon ρ Int := guarded setsockoptEq resumeBoth

/-- `rseq`: both are resumed whatever the comparison says. -/
def execSyscallRseq : Mon ρ Int := do
  let eq ← rseqEq
  resumeVariantFromWait .master
  resumeVariantFromWait .replica
  return if eq then 0 else -1

/-- `fadvise64`: both are resumed whatever the comparison says. -/
def execSyscallFadvise64 : Mon ρ Int := do
  let eq ← fadvise64Eq
  resumeVariantFromWait .master
  resumeVariantFromWait .replica
  return if eq then 0 else -1

/-- `shutdown`: both are resumed from their entry stop with the helper for exit stops. -/
def execSyscallShutdown : Mon ρ Int := guarded shutdownEq do
  resumeVariantFromExit .master
  resumeVariantFromExit .replica
  return 0

/-- `set_tid_address`: the call in both; then the `int` at the master's pointer goes to where
the replica points.  `tid` is a variable of four bytes. -/
def execSyscallSetTidAddress (K : Kernel ρ) : Mon ρ Int := do
  let masterPtr ← argOf .master 0
  let replicaPtr ← argOf .replica 0
  if (← resumeAndWait K .master) ≠ 0 then return -1
  if (← resumeAndWait K .replica) ≠ 0 then return -1
  let tid ← readShort .master masterPtr
  let replicaPtr ← Prog.gets fun w => w.image.pointerAfter .tid .destination tid replicaPtr
  let _ ← writeFrom .replica tid replicaPtr 4
  resumeVariantFromExit .master
  resumeVariantFromExit .replica
  return 0

/-- `openat`: the call in both. -/
def execSyscallOpenat (K : Kernel ρ) : Mon ρ Int := guarded openatEq (runBothCopyMasterRet K)

/-- `close`: the call in both. -/
def execSyscallClose (K : Kernel ρ) : Mon ρ Int := guarded closeEq (runBothCopyMasterRet K)

/-! ## Calls made in the master -/

/-- `getpid` -/
def execSyscallGetpid (K : Kernel ρ) : Mon ρ Int := runMasterReplicateRet K

/-- `unlink` -/
def execSyscallUnlink (K : Kernel ρ) : Mon ρ Int := guarded unlinkEq (runMasterReplicateRet K)

/-- `utimensat` -/
def execSyscallUtimensat (K : Kernel ρ) : Mon ρ Int := guarded utimensatEq (runMasterReplicateRet K)

/-- `fchown` -/
def execSyscallFchown (K : Kernel ρ) : Mon ρ Int := guarded fchownEq (runMasterReplicateRet K)

/-- `fchmod` -/
def execSyscallFchmod (K : Kernel ρ) : Mon ρ Int := guarded fchmodEq (runMasterReplicateRet K)

/-- `bind` -/
def execSyscallBind (K : Kernel ρ) : Mon ρ Int := guarded bindEq (runMasterReplicateRet K)

/-- `listen` -/
def execSyscallListen (K : Kernel ρ) : Mon ρ Int := guarded listenEq (runMasterReplicateRet K)

/-- `access`: the result of `runMasterReplicateRet` is dropped. -/
def execSyscallAccess (K : Kernel ρ) : Mon ρ Int := guarded accessEq do
  let _ ← runMasterReplicateRet K
  return 0

/-- `GETREGS`, three arguments, `SETREGS`: the replica is about to seek by `offset`. -/
def setLseekRegs (v : Who) (fd offset : Word) : Mon ρ Unit := ptrace v fun t =>
  t.setRegs (Function.update (Function.update (Function.update t.regs .rdi fd) .rsi offset)
    .rdx SEEK_CUR)

/-- `write`: the call in the master; the replica was to seek behind what was written. -/
def execSyscallWrite (K : Kernel ρ) : Mon ρ Int := guarded writeEq do
  let masterFd := ofInt (toInt (← argOf .master 0))
  if (← resumeAndWait K .master) ≠ 0 then return -1
  requestSyscallInfo .master
  let bytesWritten := (← syscallInfoOf .master).rval
  setLseekRegs .replica masterFd bytesWritten
  -- the source passes the master here
  setSyscall .master Syscall.lseek.nr
  if (← resumeAndWait K .replica) ≠ 0 then return -1
  setSyscallReturnValue .replica bytesWritten
  resumeVariantFromExit .master
  resumeVariantFromExit .replica
  return 0

/-! ### Over a transfer -/

/-- Something that does the work of `transferVariantMem`. -/
abbrev Transfer (ρ : Type) := Who → Word → Who → Word → ℕ → Mon ρ Int

/-- `sizeof(struct stat)` -/
def sizeofStat : ℕ := 144

section

variable (T : Transfer ρ) (K : Kernel ρ)

/-- `read`: the call in the master, a copy of what was read, and a seek in the replica. -/
def execSyscallReadWith : Mon ρ Int := guarded readEq do
  let masterFd := ofInt (toInt (← argOf .master 0))
  let masterBuf ← argOf .master 1
  let replicaBuf ← argOf .replica 1
  if (← resumeAndWait K .master) ≠ 0 then return -1
  requestSyscallInfo .master
  let bytesRead := (← syscallInfoOf .master).rval
  let ret ← doIf (bytesRead ≠ -1) (T .master masterBuf .replica replicaBuf bytesRead.toNat)
  if ret ≠ 0 then return -1
  setLseekRegs .replica masterFd bytesRead
  setSyscall .replica Syscall.lseek.nr
  if (← resumeAndWait K .replica) ≠ 0 then return -1
  setSyscallReturnValue .replica bytesRead
  resumeVariantFromExit .master
  resumeVariantFromExit .replica
  return 0

/-- `pread64`: the call in the master, and a copy of what was read. -/
def execSyscallPread64With : Mon ρ Int := guarded pread64Eq do
  let masterBuf ← argOf .master 1
  let replicaBuf ← argOf .replica 1
  if (← resumeAndWait K .master) ≠ 0 then return -1
  requestSyscallInfo .master
  let bytesRead := (← syscallInfoOf .master).rval
  let ret ← T .master masterBuf .replica replicaBuf bytesRead.toNat
  if ret ≠ 0 then return -1
  setNopSyscall .replica
  if (← resumeAndWait K .replica) ≠ 0 then return -1
  setSyscallReturnValue .replica bytesRead
  resumeVariantFromExit .master
  resumeVariantFromExit .replica
  return 0

/-- `getrandom`: the call in the master, and a copy of the bytes.  Both are resumed from their
exit stop with the helper for entry stops. -/
def execSyscallGetrandomWith : Mon ρ Int := guarded getrandomEq do
  let masterBuf ← argOf .master 0
  let replicaBuf ← argOf .replica 0
  if (← resumeAndWait K .master) ≠ 0 then return -1
  requestSyscallInfo .master
  let bytesWritten := (← syscallInfoOf .master).rval
  let ret ← doIf (bytesWritten ≠ -1)
    (T .master masterBuf .replica replicaBuf bytesWritten.toNat)
  if ret ≠ 0 then return -1
  setNopSyscall .replica
  if (← resumeAndWait K .replica) ≠ 0 then return -1
  setSyscallReturnValue .replica bytesWritten
  resumeVariantFromWait .master
  resumeVariantFromWait .replica
  return 0

/-- `newfstatat`: the call in the master, and a copy of its `struct stat`. -/
def execSyscallNewfstatatWith : Mon ρ Int := guarded newfstatatEq do
  let masterBuf ← argOf .master 2
  let replicaBuf ← argOf .replica 2
  if (← resumeAndWait K .master) ≠ 0 then return -1
  requestSyscallInfo .master
  let masterRet := ofInt (toInt (← syscallInfoOf .master).rval)
  let ret ← T .master masterBuf .replica replicaBuf sizeofStat
  if ret ≠ 0 then return -1
  setNopSyscall .replica
  if (← resumeAndWait K .replica) ≠ 0 then return -1
  setSyscallReturnValue .replica masterRet
  resumeVariantFromExit .master
  resumeVariantFromExit .replica
  return 0

/-- `accept4`: the call in the master, and a copy of the peer's address, with the length as the
call has left it.  `masterAddrLen` is a variable of four bytes. -/
def execSyscallAccept4With : Mon ρ Int := guarded accept4Eq do
  let masterAddr ← argOf .master 1
  let replicaAddr ← argOf .replica 1
  let masterAddrLenAddr ← argOf .master 2
  if (← resumeAndWait K .master) = -1 then return -1
  requestSyscallInfo .master
  setNopSyscall .replica
  if (← resumeAndWait K .replica) = -1 then return -1
  let _ ← doIf (masterAddr ≠ 0) do
    let masterAddrLen ← readShort .master masterAddrLenAddr
    let image ← Prog.gets World.image
    T .master (image.pointerAfter .masterAddrLen .source masterAddrLen masterAddr)
      .replica (image.pointerAfter .masterAddrLen .destination masterAddrLen replicaAddr)
      (lowHalf masterAddrLen)
  setSyscallReturnValue .replica (← syscallInfoOf .master).rval
  resumeVariantFromExit .master
  resumeVariantFromExit .replica
  return 0

/-- `getsockname`: the call in the master, and a copy of the address, with the length as it was
supplied.  `masterLen` is a variable of four bytes; it is read before the verdict, which
`getsocknameEq` takes account of. -/
def execSyscallGetsocknameWith : Mon ρ Int := guarded getsocknameEq do
  let masterBuf ← argOf .master 1
  let replicaBuf ← argOf .replica 1
  let masterLen ← readShort .master (← argOf .master 2)
  let image ← Prog.gets World.image
  let masterBuf := image.pointerAfter .masterLen .source masterLen masterBuf
  let replicaBuf := image.pointerAfter .masterLen .destination masterLen replicaBuf
  if (← resumeAndWait K .master) ≠ 0 then return -1
  requestSyscallInfo .master
  setNopSyscall .replica
  if (← resumeAndWait K .replica) ≠ 0 then return -1
  setSyscallReturnValue .replica (← syscallInfoOf .master).rval
  let rval := (← syscallInfoOf .master).rval
  let _ ← doIf (rval = 0) (T .master masterBuf .replica replicaBuf (lowHalf masterLen))
  resumeVariantFromExit .master
  resumeVariantFromExit .replica
  return 0

/-- `poll`: the call in the master, and a copy of the whole array. -/
def execSyscallPollWith : Mon ρ Int := guarded pollEq do
  let masterFds ← argOf .master 0
  let replicaFds ← argOf .replica 0
  let fdsSize := ((← argOf .master 1) * sizeofPollfd).toNat
  if (← resumeAndWait K .master) = -1 then return -1
  requestSyscallInfo .master
  setNopSyscall .replica
  if (← resumeAndWait K .replica) = -1 then return -1
  let ret ← T .master masterFds .replica replicaFds fdsSize
  if ret ≠ 0 then return -1
  setSyscallReturnValue .replica (← syscallInfoOf .master).rval
  resumeVariantFromExit .master
  resumeVariantFromExit .replica
  return 0

/-- The three `transferVariantMem` of `pselect6`. -/
def transferFdSets (masterSets replicaSets : Fin 3 → Word) : Mon ρ Int := do
  let _ ← T .master (masterSets 0) .replica (replicaSets 0) sizeofFdSet
  let _ ← T .master (masterSets 1) .replica (replicaSets 1) sizeofFdSet
  T .master (masterSets 2) .replica (replicaSets 2) sizeofFdSet

/-- `pselect6`: the call in the master, and a copy of the three sets if it found something.  The
replica is waited for, with `wait`, without having been resumed. -/
def execSyscallPselect6With (wait : Mon ρ Int) : Mon ρ Int := guarded pselect6Eq do
  let masterSets := ![← argOf .master 1, ← argOf .master 2, ← argOf .master 3]
  let replicaSets := ![← argOf .replica 1, ← argOf .replica 2, ← argOf .replica 3]
  if (← resumeAndWait K .master) ≠ 0 then return -1
  requestSyscallInfo .master
  let masterRVal := toInt (← syscallInfoOf .master).rval
  setNopSyscall .replica
  if (← wait) ≠ 0 then return -1
  setSyscallReturnValue .replica (ofInt masterRVal)
  let _ ← doIf (BitVec.slt 0 masterRVal) (transferFdSets T masterSets replicaSets)
  resumeVariantFromExit .master
  resumeVariantFromExit .replica
  return 0

end

/-! ### As the source has them -/

/-- `read` -/
def execSyscallRead (K : Kernel ρ) : Mon ρ Int := execSyscallReadWith transferVariantMem K

/-- `pread64` -/
def execSyscallPread64 (K : Kernel ρ) : Mon ρ Int := execSyscallPread64With transferVariantMem K

/-- `getrandom` -/
def execSyscallGetrandom (K : Kernel ρ) : Mon ρ Int := execSyscallGetrandomWith transferVariantMem K

/-- `newfstatat` -/
def execSyscallNewfstatat (K : Kernel ρ) : Mon ρ Int :=
  execSyscallNewfstatatWith transferVariantMem K

/-- `accept4` -/
def execSyscallAccept4 (K : Kernel ρ) : Mon ρ Int := execSyscallAccept4With transferVariantMem K

/-- `getsockname` -/
def execSyscallGetsockname (K : Kernel ρ) : Mon ρ Int :=
  execSyscallGetsocknameWith transferVariantMem K

/-- `poll` -/
def execSyscallPoll (K : Kernel ρ) : Mon ρ Int := execSyscallPollWith transferVariantMem K

/-- `pselect6` -/
def execSyscallPselect6 (K : Kernel ρ) : Mon ρ Int :=
  execSyscallPselect6With transferVariantMem K (waitVariant K .replica)

/-! ## Memory calls -/

/-- `mmap`: the call in the master, an entry in the table, and the call in the replica. -/
def execSyscallMmap (K : Kernel ρ) : Mon ρ Int := guarded mmapEq do
  let masterProt := toInt (← argOf .master 2)
  let masterFlags := toInt (← argOf .master 3)
  if (← resumeAndWait K .master) ≠ 0 then return -1
  requestSyscallInfo .master
  let mappedAdrmaster := (← syscallInfoOf .master).rval
  resumeVariantFromExit .master
  -- `args[1]` is read from the struct that now holds the exit stop
  let len ← argOf .master 1
  Prog.modify fun w =>
    { w with mappings := addMapping w.mappings mappedAdrmaster len masterProt masterFlags }
  resumeVariantFromWait .replica
  return 0

/-- `mprotect` -/
def execSyscallMprotect : Mon ρ Int := guarded mprotectEq resumeBoth

/-- `munmap`: the entry goes first, and then the call in both. -/
def execSyscallMunmap : Mon ρ Int := guarded munmapEq do
  let targetAddr ← argOf .master 0
  Prog.modify fun w => { w with mappings := (removeMapping w.mappings targetAddr).1 }
  resumeBoth

/-! ## The `switch` -/

/-- The `case` bodies of `processSyscallSync`. -/
def execSyscall (K : Kernel ρ) : Syscall → Mon ρ Int
  | .getuid | .geteuid | .getgid | .getegid => resumeBoth
  | .brk => execSyscallBrk
  | .mmap => execSyscallMmap K
  | .read => execSyscallRead K
  | .arch_prctl => execSyscallArchPrctl
  | .openat => execSyscallOpenat K
  | .close => execSyscallClose K
  | .write => execSyscallWrite K
  | .pread64 => execSyscallPread64 K
  | .newfstatat => execSyscallNewfstatat K
  | .access => execSyscallAccess K
  | .set_tid_address => execSyscallSetTidAddress K
  | .set_robust_list => execSyscallSetRobustList
  | .mprotect => execSyscallMprotect
  | .munmap => execSyscallMunmap
  | .rseq => execSyscallRseq
  | .fadvise64 => execSyscallFadvise64
  | .getrandom => execSyscallGetrandom K
  | .exit_group => execSyscallExitGroup
  | .prlimit64 => execSyscallPrlimit64
  | .rt_sigaction => execSyscallRtSigaction
  | .rt_sigprocmask => execSyscallRtSigprocmask
  | .unlink => execSyscallUnlink K
  | .utimensat => execSyscallUtimensat K
  | .fchown => execSyscallFchown K
  | .fchmod => execSyscallFchmod K
  | .lseek => execSyscallLseek
  | .getcwd => execSyscallGetcwd
  | .getpid => execSyscallGetpid K
  | .chdir => execSyscallChdir
  | .socket => execSyscallSocket
  | .setsockopt => execSyscallSetsockopt
  | .bind => execSyscallBind K
  | .listen => execSyscallListen K
  | .accept4 => execSyscallAccept4 K
  | .poll => execSyscallPoll K
  | .shutdown => execSyscallShutdown
  | .getsockname => execSyscallGetsockname K
  | .pselect6 => execSyscallPselect6 K

end Aurora
