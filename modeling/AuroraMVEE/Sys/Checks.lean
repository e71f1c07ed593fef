import AuroraMVEE.Variant

/-!
# What each executor compares

The first half of every file under `sys/`: the value of its flag `eq`, computed
from the two variants' argument registers and memories, together with the tests
that return `-1` before either variant is released.  A scalar that the source
narrows to `int` or `socklen_t` on the master's side only is narrowed here on
that side only.
-/

namespace Aurora

variable {ρ : Type}

/-- `v->syscallInfo.entry.args[k]` -/
def argOf (v : Who) (k : Fin 6) : Mon ρ Word := Prog.gets fun w => (w.var v).syscallInfo.arg k

/-- `eq &= master->..args[k] == replica->..args[k]`, for each `k` of a list. -/
def argsEq (ks : List (Fin 6)) : Mon ρ Bool := Prog.gets fun w =>
  ks.all fun k => (w.var .master).syscallInfo.arg k == (w.var .replica).syscallInfo.arg k

/-- `(int) master->..args[k] == replica->..args[k]` -/
def intArgEq (k : Fin 6) : Mon ρ Bool := Prog.gets fun w =>
  ofInt (toInt ((w.var .master).syscallInfo.arg k)) == (w.var .replica).syscallInfo.arg k

/-- `(socklen_t) master->..args[k] == replica->..args[k]` -/
def socklenArgEq (k : Fin 6) : Mon ρ Bool := Prog.gets fun w =>
  ofSocklen (toSocklen ((w.var .master).syscallInfo.arg k)) == (w.var .replica).syscallInfo.arg k

/-- `variantMemCmp` of the buffers argument `k` points to, `== 0`. -/
def memArgEq (k : Fin 6) (size : ℕ) : Mon ρ Bool := do
  let c ← variantMemCmp .master (← argOf .master k) .replica (← argOf .replica k) size
  return c == 0

/-- `variantStrCmp` of the strings argument `k` points to, `== 0`. -/
def strArgEq (k : Fin 6) : Mon ρ Bool := do
  let c ← variantStrCmp .master (← argOf .master k) .replica (← argOf .replica k)
  return c == 0

/-- `if (eq) eq &= ..` -/
def andIf (eq : Bool) (m : Mon ρ Bool) : Mon ρ Bool := if eq then m else return false

/-- A comparison made only if the word `x` is non-zero. -/
def unlessZero (x : Word) (m : Mon ρ Bool) : Mon ρ Bool := if x ≠ 0 then m else return true

/-- `sizeof(struct pollfd)` -/
def sizeofPollfd : Word := 8

/-- `sizeof(fd_set)`, and of a libc `sigset_t`. -/
def sizeofFdSet : ℕ := 128

/-- `sizeof(struct timespec)` -/
def sizeofTimespec : ℕ := 16

/-- `sizeof(socklen_t)` -/
def sizeofSocklen : ℕ := 4

/-! ## Scalars only -/

/-- `arch_prctl`: the operation. -/
def arch_prctlEq : Mon ρ Bool := argsEq [0]

/-- `close`: the descriptor. -/
def closeEq : Mon ρ Bool := argsEq [0]

/-- `exit_group`: the status. -/
def exit_groupEq : Mon ρ Bool := argsEq [0]

/-- `rt_sigaction`: the signal. -/
def rt_sigactionEq : Mon ρ Bool := argsEq [0]

/-- `prlimit64`: the resource. -/
def prlimit64Eq : Mon ρ Bool := argsEq [1]

/-- `fadvise64`: descriptor, offset, length, advice. -/
def fadvise64Eq : Mon ρ Bool := argsEq [0, 1, 2, 3]

/-- `rseq`: length, flags, signature. -/
def rseqEq : Mon ρ Bool := argsEq [1, 2, 3]

/-- `fchmod`: descriptor, mode. -/
def fchmodEq : Mon ρ Bool := argsEq [0, 1]

/-- `fchown`: descriptor, owner, group. -/
def fchownEq : Mon ρ Bool := argsEq [0, 1, 2]

/-- `listen`: socket, backlog. -/
def listenEq : Mon ρ Bool := argsEq [0, 1]

/-- `lseek`: descriptor, offset, whence. -/
def lseekEq : Mon ρ Bool := argsEq [0, 1, 2]

/-- `shutdown`: socket, how. -/
def shutdownEq : Mon ρ Bool := argsEq [0, 1]

/-- `socket`: domain, type, protocol. -/
def socketEq : Mon ρ Bool := argsEq [0, 1, 2]

/-- `getrandom`: length, flags. -/
def getrandomEq : Mon ρ Bool := argsEq [1, 2]

/-- `pread64`: descriptor, count, offset. -/
def pread64Eq : Mon ρ Bool := argsEq [0, 2, 3]

/-- `read`: the descriptor as an `int`, the count. -/
def readEq : Mon ρ Bool := do
  let fd ← intArgEq 0
  let count ← argsEq [2]
  return fd && count

/-! ## Scalars and the bytes behind pointers -/

/-- `write`: the descriptor as an `int`, the count, and then the bytes. -/
def writeEq : Mon ρ Bool := do
  let fd ← intArgEq 0
  let count ← argsEq [2]
  andIf (fd && count) (memArgEq 1 (← argOf .master 2).toNat)

/-- `accept4`: socket, flags, and the four bytes of `*addrlen`. -/
def accept4Eq : Mon ρ Bool := do
  let scalars ← argsEq [0, 3]
  let addrlen ← memArgEq 2 sizeofSocklen
  return scalars && addrlen

/-- `getsockname`: socket, and the four bytes of `*addrlen`.  The read of `masterLen` in between
may overwrite the flag. -/
def getsocknameEq : Mon ρ Bool := do
  let sockfd ← argsEq [0]
  let masterLen ← readShort .master (← argOf .master 2)
  let eq ← Prog.gets fun w => w.image.flagAfter .masterLen masterLen sockfd
  let addrlen ← memArgEq 2 sizeofSocklen
  return eq && addrlen

/-- `bind`: socket, length, address bytes. -/
def bindEq : Mon ρ Bool := do
  let sockfd ← argsEq [0]
  let addrlen ← socklenArgEq 2
  let addr ← memArgEq 1 (toSocklen (← argOf .master 2)).toNat
  return sockfd && addrlen && addr

/-- `setsockopt`: socket, level, name, length, and then the option bytes. -/
def setsockoptEq : Mon ρ Bool := do
  let scalars ← argsEq [0, 1, 2]
  let option_len ← socklenArgEq 4
  andIf (scalars && option_len) (memArgEq 3 (toSocklen (← argOf .master 4)).toNat)

/-- `poll`: count, timeout, and then the whole array. -/
def pollEq : Mon ρ Bool := do
  let scalars ← argsEq [1, 2]
  andIf scalars (memArgEq 0 ((← argOf .master 1) * sizeofPollfd).toNat)

/-- `pselect6`: `nfds` as an `int`, three whole sets, the timeout, and the bytes
the sixth argument points to. -/
def pselect6Eq : Mon ρ Bool := do
  let nfds ← Prog.gets fun w =>
    toInt ((w.var .master).syscallInfo.arg 0) == toInt ((w.var .replica).syscallInfo.arg 0)
  let readfds ← memArgEq 1 sizeofFdSet
  let writefds ← memArgEq 2 sizeofFdSet
  let exceptfds ← memArgEq 3 sizeofFdSet
  let timeout ← memArgEq 4 sizeofTimespec
  let sigmask ← memArgEq 5 sizeofFdSet
  return nfds && readfds && writefds && exceptfds && timeout && sigmask

/-- `rt_sigprocmask`: `how` if the master gives a set, and then the set, over the
master's size. -/
def rt_sigprocmaskEq : Mon ρ Bool := do
  let how ← unlessZero (← argOf .master 1) (argsEq [0])
  andIf how (memArgEq 1 (← argOf .master 3).toNat)

/-! ## Scalars and strings -/

/-- `chdir`: the path. -/
def chdirEq : Mon ρ Bool := strArgEq 0

/-- `unlink`: the path. -/
def unlinkEq : Mon ρ Bool := strArgEq 0

/-- `getcwd`: the output buffer as a string, the size. -/
def getcwdEq : Mon ρ Bool := do
  let buf ← strArgEq 0
  let size ← argsEq [1]
  return buf && size

/-- `access`: mode, and then the path. -/
def accessEq : Mon ρ Bool := do
  let mode ← argsEq [1]
  andIf mode (strArgEq 0)

/-- `openat`: directory, flags, the mode unless the master's is zero, and then the
path. -/
def openatEq : Mon ρ Bool := do
  let scalars ← argsEq [0, 2]
  let mode ← unlessZero (← argOf .master 3) (argsEq [3])
  andIf (scalars && mode) (strArgEq 1)

/-- `utimensat`: directory, and then the path, and then the flags. -/
def utimensatEq : Mon ρ Bool := do
  let dirfd ← argsEq [0]
  let pathname ← andIf dirfd (strArgEq 1)
  andIf pathname (argsEq [3])

/-- The path loop of `newfstatat`: the buffer and `stringLen` at its end, or no
length if it returned `-1`. -/
def pathScan (t : Tracee) (path : Word) (curSize stringLen : ℕ) (bufA : Buf) : Buf × Option ℕ :=
  if curSize < BUF_SIZE then
    if CBuffer.strnlen (readVariantMem t bufA path curSize).1 curSize = BUF_SIZE then
      ((readVariantMem t bufA path curSize).1, none)
    else if CBuffer.strnlen (readVariantMem t bufA path curSize).1 curSize = curSize then
      pathScan t path (curSize + 50)
        (CBuffer.strnlen (readVariantMem t bufA path curSize).1 curSize)
        (readVariantMem t bufA path curSize).1
    else
      ((readVariantMem t bufA path curSize).1,
        some (CBuffer.strnlen (readVariantMem t bufA path curSize).1 curSize))
  else (bufA, some stringLen)
termination_by BUF_SIZE - curSize

/-- The path comparison of `newfstatat`: as many bytes of the replica's path as
the master's path is long. -/
def newfstatatPathEq : Mon ρ Bool := do
  let path ← argOf .master 1
  let (bufA, stringLen) ←
    Prog.gets fun w => pathScan (w.proc .master) path 1 0 (w.bufs .newfstatat_bufA)
  Prog.modify fun w => w.withBufs (Function.update w.bufs .newfstatat_bufA bufA)
  match stringLen with
  | none => return false
  | some n =>
    let _ ← readStatic .replica .newfstatat_bufB (← argOf .replica 1) n
    let bufs ← Prog.gets fun w => w.bufs
    return CBuffer.strncmpEq (bufs .newfstatat_bufA) (bufs .newfstatat_bufB) n

/-- `newfstatat`: directory, and then the path; flags. -/
def newfstatatEq : Mon ρ Bool := do
  let dirfd ← argsEq [0]
  let path ← andIf dirfd newfstatatPathEq
  let flags ← argsEq [3]
  return path && flags

/-! ## Memory calls: arguments, and then the mapping policy -/

/-- `mmap`: length, prot and flags as `int`s, descriptor, offset; then the policy
on the master's prot and flags. -/
def mmapEq : Mon ρ Bool := do
  let scalars ← argsEq [1, 4, 5]
  let prot ← intArgEq 2
  let flags ← intArgEq 3
  let masterProt := toInt (← argOf .master 2)
  let masterFlags := toInt (← argOf .master 3)
  return scalars && prot && flags && checkMMapPerms masterProt masterFlags == 0

/-- `mprotect`: length and prot as an `int`; then the policy on the new prot and the
flags of the entry that covers the master's address, if there is one. -/
def mprotectEq : Mon ρ Bool := do
  let len ← argsEq [1]
  let prot ← intArgEq 2
  let targetAddr ← argOf .master 0
  let newProt := toInt (← argOf .master 2)
  let mappings ← Prog.gets World.mappings
  return len && prot &&
    match findMapping mappings targetAddr with
    | some map => checkMMapPerms newProt map.flags == 0
    | none => true

/-- `munmap`: length; then an entry that starts at the master's address. -/
def munmapEq : Mon ρ Bool := do
  let length ← argsEq [1]
  let targetAddr ← argOf .master 0
  let mappings ← Prog.gets World.mappings
  return length &&
    match findMapping mappings targetAddr with
    | some map => map.addr == targetAddr
    | none => false

/-- The verdict of each executor. -/
def verdict : Syscall → Mon ρ Bool
  | .getuid | .geteuid | .getgid | .getegid | .brk | .set_robust_list | .set_tid_address
  | .getpid => return true
  | .mmap => mmapEq
  | .read => readEq
  | .arch_prctl => arch_prctlEq
  | .openat => openatEq
  | .close => closeEq
  | .write => writeEq
  | .pread64 => pread64Eq
  | .newfstatat => newfstatatEq
  | .access => accessEq
  | .mprotect => mprotectEq
  | .munmap => munmapEq
  | .rseq => rseqEq
  | .fadvise64 => fadvise64Eq
  | .getrandom => getrandomEq
  | .exit_group => exit_groupEq
  | .prlimit64 => prlimit64Eq
  | .rt_sigaction => rt_sigactionEq
  | .rt_sigprocmask => rt_sigprocmaskEq
  | .unlink => unlinkEq
  | .utimensat => utimensatEq
  | .fchown => fchownEq
  | .fchmod => fchmodEq
  | .lseek => lseekEq
  | .getcwd => getcwdEq
  | .chdir => chdirEq
  | .socket => socketEq
  | .setsockopt => setsockoptEq
  | .bind => bindEq
  | .listen => listenEq
  | .accept4 => accept4Eq
  | .poll => pollEq
  | .shutdown => shutdownEq
  | .getsockname => getsocknameEq
  | .pselect6 => pselect6Eq

end Aurora
