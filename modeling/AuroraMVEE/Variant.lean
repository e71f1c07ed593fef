import AuroraMVEE.World

/-!
# The variant operations of `variant.c`

The resume helpers, which differ in what they record; the two ways a call is
run to its exit in both variants; and the memory channel, which moves a word at
a time through `PTRACE_PEEKDATA` and `PTRACE_POKEDATA` (the `USE_PTRACE_TRANSFER`
build that `compile_options.h` selects).
-/

namespace Aurora

variable {ρ : Type}

/-! ## Resuming and waiting -/

/-- `requestSyscallInfo`: refresh `v->syscallInfo` from the present stop. -/
def requestSyscallInfo (v : Who) : Mon ρ Unit :=
  Prog.modify fun w => w.setVar v { w.var v with syscallInfo := (w.proc v).syscallInfo }

/-- `resumeVariantFromWait`: resume, and mark as running. -/
def resumeVariantFromWait (v : Who) : Mon ρ Unit := do
  ptrace v Tracee.resume
  assign v fun x => { x with state := .running }

/-- `resumeVariantFromExit`: resume, and count. -/
def resumeVariantFromExit (v : Who) : Mon ρ Unit := do
  ptrace v Tracee.resume
  assign v fun x => { x with syscallNum := x.syscallNum + 1 }

/-- `setSyscall`: replace the number of the call a variant is about to make. -/
def setSyscall (v : Who) (call : Word) : Mon ρ Unit := ptrace v fun t => t.pokeUser .origRax call

/-- `setNopSyscall` -/
def setNopSyscall (v : Who) : Mon ρ Unit := setSyscall v Syscall.getpid.nr

/-- `setSyscallReturnValue` -/
def setSyscallReturnValue (v : Who) (returnValue : Word) : Mon ρ Unit :=
  ptrace v fun t => t.pokeUser .rax returnValue

/-- `resumeVariantFromWait(v)` and then `waitVariant(v)`: run `v` through the call
it is stopped at, to its exit stop. -/
def resumeAndWait (K : Kernel ρ) (v : Who) : Mon ρ Int := do
  resumeVariantFromWait v
  waitVariant K v

/-- `resumeVariantFromWait` on both, and success. -/
def resumeBoth : Mon ρ Int := do
  resumeVariantFromWait .master
  resumeVariantFromWait .replica
  return 0

/-- `runMasterReplicateRet`: the call in the master, a harmless one in the
replica, and the master's return value for both. -/
def runMasterReplicateRet (K : Kernel ρ) : Mon ρ Int := do
  if (← resumeAndWait K .master) ≠ 0 then return -1
  requestSyscallInfo .master
  let masterRVal := ofInt (toInt (← syscallInfoOf .master).rval)
  setNopSyscall .replica
  if (← resumeAndWait K .replica) ≠ 0 then return -1
  setSyscallReturnValue .replica masterRVal
  resumeVariantFromExit .master
  resumeVariantFromExit .replica
  return 0

/-- `runBothCopyMasterRet`: the call in both, and the master's return value for
both. -/
def runBothCopyMasterRet (K : Kernel ρ) : Mon ρ Int := do
  if (← resumeAndWait K .master) ≠ 0 then return -1
  requestSyscallInfo .master
  let masterRVal := ofInt (toInt (← syscallInfoOf .master).rval)
  if (← resumeAndWait K .replica) ≠ 0 then return -1
  setSyscallReturnValue .replica masterRVal
  resumeVariantFromExit .master
  resumeVariantFromExit .replica
  return 0

/-! ## The memory channel -/

/-- The loop of `readVariantMem`: the buffer and `bytesTransferred` at its end. -/
def readLoop (t : Tracee) (remoteBuf : Word) (bytesRemaining bytesTransferred : ℕ)
    (localBuf : Buf) : Buf × ℕ :=
  if 0 < bytesRemaining then
    readLoop t remoteBuf (bytesRemaining - min 8 bytesRemaining)
      (bytesTransferred + min 8 bytesRemaining)
      (CBuffer.storeLong localBuf (bytesTransferred / 8)
        (t.peek (remoteBuf + BitVec.ofNat 64 bytesTransferred)))
  else (localBuf, bytesTransferred)
termination_by bytesRemaining
decreasing_by omega

/-- `readVariantMem`: the buffer afterwards, and the return value. -/
def readVariantMem (t : Tracee) (localBuf : Buf) (remoteBuf : Word) (size : ℕ) : Buf × Int :=
  if BUF_SIZE < size then (localBuf, -1)
  else ((readLoop t remoteBuf size 0 localBuf).1, (readLoop t remoteBuf size 0 localBuf).2)

/-- The loop of `writeVariantMem` for at least one word. -/
def writeLoop (localBuf : Buf) (remoteBuf : Word) (size bytesRemaining bytesTransferred : ℕ)
    (t : Tracee) : Tracee × ℕ :=
  if 0 < bytesRemaining then
    if 8 ≤ bytesRemaining then
      writeLoop localBuf remoteBuf size (bytesRemaining - 8) (bytesTransferred + 8)
        (t.poke (remoteBuf + BitVec.ofNat 64 bytesTransferred)
          (CBuffer.loadLong localBuf (bytesTransferred / 8)))
    else
      -- the last word counts from the end of the buffer; the index is in words
      (t.poke (remoteBuf + BitVec.ofNat 64 size - 8) (CBuffer.loadLong localBuf (size - 8)),
        bytesTransferred + bytesRemaining)
  else (t, bytesTransferred)
termination_by bytesRemaining
decreasing_by omega

/-- `writeVariantMem`: the process afterwards, and the return value, where every word that is
loaded from the local buffer is mapped in the monitor (see `writeFrom`). -/
def writeVariantMem (t : Tracee) (localBuf : Buf) (remoteBuf : Word) (size : ℕ) : Tracee × Int :=
  if size < 8 then (t.poke remoteBuf (CBuffer.overlay (t.peek remoteBuf) localBuf size), size)
  else ((writeLoop localBuf remoteBuf size size 0 t).1,
    (writeLoop localBuf remoteBuf size size 0 t).2)

/-- Does `writeVariantMem` of `size` bytes out of `bufA` load a word that is not mapped?  Only
the last load can be: its index counts words where bytes are meant. -/
def Image.Faults (I : Image) (size : ℕ) : Prop :=
  8 ≤ size ∧ size % 8 ≠ 0 ∧ I.mapped (size - 8) = false

instance (I : Image) (size : ℕ) : Decidable (I.Faults size) := inferInstanceAs (Decidable (_ ∧ _ ∧ _))

/-- How a process that was killed by `SIGSEGV` looks to a shell. -/
def SIGSEGV_STATUS : Int := 139

/-- `readVariantMem` into a static buffer. -/
def readStatic (v : Who) (b : StaticBuf) (remoteBuf : Word) (size : ℕ) : Mon ρ Int := fun w =>
  .ret (readVariantMem (w.proc v) (w.bufs b) remoteBuf size).2
    (w.withBufs (Function.update w.bufs b
      (readVariantMem (w.proc v) (w.bufs b) remoteBuf size).1))

/-- `writeVariantMem` from `bufA`, or from a local variable of less than a word.  A load that
faults kills the monitor, once the words before it are stored. -/
def writeFrom (v : Who) (localBuf : Buf) (remoteBuf : Word) (size : ℕ) : Mon ρ Int := fun w =>
  if w.image.Faults size then
    .exited SIGSEGV_STATUS
      (w.setProc v (writeVariantMem (w.proc v) localBuf remoteBuf (size - size % 8)).1)
  else
    .ret (writeVariantMem (w.proc v) localBuf remoteBuf size).2
      (w.setProc v (writeVariantMem (w.proc v) localBuf remoteBuf size).1)

/-! ### Four-byte variables -/

/-- `readVariantMem` into a four-byte local variable: the variable, and the four bytes behind it. -/
def readShort (v : Who) (remoteBuf : Word) : Mon ρ Buf :=
  Prog.gets fun w => (readVariantMem (w.proc v) (fun _ => 0) remoteBuf 4).1

/-- The four bytes of such a variable, as a number. -/
def lowHalf (b : Buf) : ℕ :=
  (b 0).toNat + 256 * (b 1).toNat + 65536 * (b 2).toNat + 16777216 * (b 3).toNat

/-- The four bytes behind it. -/
def highHalf (b : Buf) : BitVec 32 := b 7 ++ b 6 ++ b 5 ++ b 4

/-- The flag `eq` once `b` was stored into the variable `l`: `!eq` looks at its lowest bit, since
the comparison that follows is 0 or 1. -/
def Image.flagAfter (I : Image) (l : ShortLocal) (b : Buf) (eq : Bool) : Bool :=
  if I.neighbour l = .eq then (highHalf b).getLsbD 0 else eq

/-- The pointer `p`, the neighbour `n` of some variable, once `b` was stored into the variable `l`. -/
def Image.pointerAfter (I : Image) (l : ShortLocal) (n : Neighbour) (b : Buf) (p : Word) : Word :=
  if I.neighbour l = n then p.extractLsb' 32 32 ++ highHalf b else p

/-! ### Copies and comparisons -/

/-- `transferVariantMem` -/
def transferVariantMem (sourceV : Who) (sourceVBuf : Word) (destV : Who) (destVBuf : Word)
    (size : ℕ) : Mon ρ Int :=
  if BUF_SIZE < size then return -1
  else do
    let r ← readStatic sourceV .bufA sourceVBuf size
    if r ≠ size then return -1
    let n ← writeFrom destV (← Prog.gets fun w => w.bufs .bufA) destVBuf size
    if n ≠ size then return -1
    return 0

/-- `variantMemCmp`: `-1` on error, `0` on equal, `1` on not equal. -/
def variantMemCmp (v1 : Who) (v1Buf : Word) (v2 : Who) (v2Buf : Word) (size : ℕ) : Mon ρ Int :=
  if BUF_SIZE < size then return -1
  else do
    let _ ← readStatic v1 .bufA v1Buf size
    let _ ← readStatic v2 .bufB v2Buf size
    let bufs ← Prog.gets fun w => w.bufs
    return if CBuffer.memEq (bufs .bufA) (bufs .bufB) size then 0 else 1

/-- The loop of `variantStrCmp`: `bufA` at its end, and `curSize` and `stringLen`
unless the loop returned `-1`. -/
def strScan (t : Tracee) (v1Buf : Word) (curSize stringLen : ℕ) (bufA : Buf) :
    Buf × Option (ℕ × ℕ) :=
  if curSize < BUF_SIZE then
    if CBuffer.strnlen (readVariantMem t bufA v1Buf curSize).1 curSize = BUF_SIZE then
      ((readVariantMem t bufA v1Buf curSize).1, none)
    else if CBuffer.strnlen (readVariantMem t bufA v1Buf curSize).1 curSize = curSize then
      strScan t v1Buf (curSize + 100)
        (CBuffer.strnlen (readVariantMem t bufA v1Buf curSize).1 curSize)
        (readVariantMem t bufA v1Buf curSize).1
    else
      -- a terminator was found
      ((readVariantMem t bufA v1Buf curSize).1, none)
  else (bufA, some (curSize, stringLen))
termination_by BUF_SIZE - curSize

/-- `variantStrCmp`: `-1` on error, `0` on equal, `1` on not equal. -/
def variantStrCmp (v1 : Who) (v1Buf : Word) (v2 : Who) (v2Buf : Word) : Mon ρ Int := do
  Prog.modify fun w => w.withBufs
    (Function.update (Function.update w.bufs .bufA fun _ => 0) .bufB fun _ => 0)
  let (bufA, scanned) ← Prog.gets fun w => strScan (w.proc v1) v1Buf 100 0 (w.bufs .bufA)
  Prog.modify fun w => w.withBufs (Function.update w.bufs .bufA bufA)
  match scanned with
  | none => return -1
  | some (curSize, stringLen) =>
    let _ ← readStatic v2 .bufB v2Buf curSize
    let bufs ← Prog.gets fun w => w.bufs
    return if CBuffer.strncmpEq (bufs .bufA) (bufs .bufB) stringLen then 0 else 1

/-! ## Setting a variant up -/

/-- `configureChildProc` -/
def configureChildProc (v : Who) : Mon ρ Unit := do
  ptrace v fun t => t.setOptions PTRACE_O_EXITKILL
  ptrace v fun t => t.setOptions PTRACE_O_TRACESYSGOOD

/-- `initVariant`: `forked` is the new process at its first stop, after `execvpe`. -/
def initVariant (v : Who) (forked : Tracee) : Mon ρ Unit := do
  assign v fun x => { x with syscallNum := 0 }
  Prog.modify fun w => (w.setProc v forked).report v
  configureChildProc v

end Aurora
