import AuroraMVEE.Tracee
import AuroraMVEE.Mappings
import AuroraMVEE.Lib.Program

/-!
# The state of the monitor and its two variants

`World` puts together the two traced processes, the two `variant` structs of the
monitor, its mapping table, its static transfer buffers, and whatever the kernel
remembers.  Monitor code is a `Prog` over it; `waitpid` is the one call that can
block.

Where the source stores or loads beside a buffer, what happens depends on where the
compiler and the linker have put things.  `Image` is what the model knows of that, and
every theorem is for every `Image`.
-/

namespace Aurora

/-- `VSTATE_RUNNING` and `VSTATE_WAIT`. -/
inductive VState where
  | running | wait
  deriving DecidableEq, Repr

/-- `variant`, less its `pid` and `type`, for which the index `Who` stands. -/
structure Variant where
  state : VState
  syscallNum : Word
  syscallInfo : SyscallInfo

/-- The static buffers of `variant.c` and `newfstatat.c`. -/
inductive StaticBuf where
  | bufA | bufB | newfstatat_bufA | newfstatat_bufB
  deriving DecidableEq, Repr

/-- `BUF_SIZE` of `variant.c`, `NEWFSTATAT_BUF_SIZE` of `newfstatat.c`. -/
def BUF_SIZE : ℕ := 10000000

/-- A four-byte local variable that `readVariantMem` stores a word of eight bytes into. -/
inductive ShortLocal where
  /-- of `getsockname` -/
  | masterLen
  /-- of `accept4` -/
  | masterAddrLen
  /-- of `set_tid_address` -/
  | tid
  deriving DecidableEq, Repr

/-- What the compiler has put into the four bytes behind such a variable, which the second
half of the word overwrites. -/
inductive Neighbour where
  /-- nothing that is looked at afterwards -/
  | spare
  /-- the flag `eq` -/
  | eq
  /-- the lower half of the pointer into the master -/
  | source
  /-- the lower half of the pointer into the replica -/
  | destination
  deriving DecidableEq, Repr

/-- What the compiler and the linker have made of the monitor. -/
structure Image where
  /-- Is the `long` number `i`, counted from the start of `bufA`, mapped in the monitor? -/
  mapped : ℕ → Bool
  /-- All of `bufA` is. -/
  mapped_bufA : ∀ i, 8 * i + 8 ≤ BUF_SIZE → mapped i = true
  neighbour : ShortLocal → Neighbour

/-- The four static buffers one after the other with nothing behind, and no neighbours. -/
def Image.compact : Image where
  mapped i := decide (8 * i + 8 ≤ 4 * BUF_SIZE)
  mapped_bufA i hi := decide_eq_true (by omega)
  neighbour _ := .spare

/-- The monitor, its variants, and what the kernel remembers of them. -/
structure World (ρ : Type) where
  proc : Who → Tracee
  var : Who → Variant
  mappings : List VariantMMap
  bufs : StaticBuf → Buf
  os : ρ
  image : Image

/-- Monitor code. -/
abbrev Mon (ρ α : Type) : Type := Prog (World ρ) α

namespace World

variable {ρ : Type}

/-- Replace a process. -/
def setProc (w : World ρ) (v : Who) (t : Tracee) : World ρ :=
  { w with proc := Function.update w.proc v t }

/-- Replace the monitor's struct for a variant. -/
def setVar (w : World ρ) (v : Who) (x : Variant) : World ρ :=
  { w with var := Function.update w.var v x }

/-- Replace the static buffers. -/
def withBufs (w : World ρ) (β : StaticBuf → Buf) : World ρ := { w with bufs := β }

@[simp] theorem setProc_proc_self (w : World ρ) (v : Who) (t : Tracee) :
    (w.setProc v t).proc v = t := by
  simp [setProc]

@[simp] theorem setProc_proc_of_ne (w : World ρ) {u v : Who} (h : u ≠ v) (t : Tracee) :
    (w.setProc v t).proc u = w.proc u := by
  simp [setProc, h]

@[simp] theorem setProc_var (w : World ρ) (v : Who) (t : Tracee) : (w.setProc v t).var = w.var := rfl

@[simp] theorem setProc_mappings (w : World ρ) (v : Who) (t : Tracee) :
    (w.setProc v t).mappings = w.mappings := rfl

@[simp] theorem setProc_bufs (w : World ρ) (v : Who) (t : Tracee) :
    (w.setProc v t).bufs = w.bufs := rfl

@[simp] theorem setProc_os (w : World ρ) (v : Who) (t : Tracee) : (w.setProc v t).os = w.os := rfl

@[simp] theorem setProc_image (w : World ρ) (v : Who) (t : Tracee) :
    (w.setProc v t).image = w.image := rfl

@[simp] theorem setVar_var_self (w : World ρ) (v : Who) (x : Variant) :
    (w.setVar v x).var v = x := by
  simp [setVar]

@[simp] theorem setVar_var_of_ne (w : World ρ) {u v : Who} (h : u ≠ v) (x : Variant) :
    (w.setVar v x).var u = w.var u := by
  simp [setVar, h]

@[simp] theorem setVar_proc (w : World ρ) (v : Who) (x : Variant) :
    (w.setVar v x).proc = w.proc := rfl

@[simp] theorem setVar_mappings (w : World ρ) (v : Who) (x : Variant) :
    (w.setVar v x).mappings = w.mappings := rfl

@[simp] theorem setVar_bufs (w : World ρ) (v : Who) (x : Variant) :
    (w.setVar v x).bufs = w.bufs := rfl

@[simp] theorem setVar_os (w : World ρ) (v : Who) (x : Variant) : (w.setVar v x).os = w.os := rfl

@[simp] theorem setVar_image (w : World ρ) (v : Who) (x : Variant) :
    (w.setVar v x).image = w.image := rfl

@[simp] theorem withBufs_proc (w : World ρ) (β : StaticBuf → Buf) :
    (w.withBufs β).proc = w.proc := rfl

@[simp] theorem withBufs_var (w : World ρ) (β : StaticBuf → Buf) :
    (w.withBufs β).var = w.var := rfl

@[simp] theorem withBufs_mappings (w : World ρ) (β : StaticBuf → Buf) :
    (w.withBufs β).mappings = w.mappings := rfl

@[simp] theorem withBufs_bufs (w : World ρ) (β : StaticBuf → Buf) : (w.withBufs β).bufs = β := rfl

@[simp] theorem withBufs_os (w : World ρ) (β : StaticBuf → Buf) : (w.withBufs β).os = w.os := rfl

@[simp] theorem withBufs_image (w : World ρ) (β : StaticBuf → Buf) :
    (w.withBufs β).image = w.image := rfl

@[simp] theorem withBufs_withBufs (w : World ρ) (β γ : StaticBuf → Buf) :
    (w.withBufs β).withBufs γ = w.withBufs γ := rfl

@[simp] theorem withBufs_self (w : World ρ) : w.withBufs w.bufs = w := rfl

/-- `v`, if it is running, comes to its next stop or dies on the way. -/
def advance (K : Kernel ρ) (v : Who) (w : World ρ) : World ρ :=
  if (w.proc v).alive then
    match (w.proc v).loc with
    | .kernel =>
        { w.setProc v ((w.proc v).finish (K.syscall v (w.proc v) w.os).1) with
          os := (K.syscall v (w.proc v) w.os).2 }
    | .user => w.setProc v ((w.proc v).arrive (K.user v (w.proc v) w.os))
    | _ => w
  else w

theorem advance_proc_of_ne (w : World ρ) (K : Kernel ρ) {u v : Who} (h : u ≠ v) :
    (w.advance K v).proc u = w.proc u := by
  unfold advance
  split
  · split <;> simp [h]
  · rfl

theorem advance_var (w : World ρ) (K : Kernel ρ) (v : Who) : (w.advance K v).var = w.var := by
  unfold advance
  split
  · split <;> rfl
  · rfl

/-- `waitpid` hands the present stop, or the death, of `v` to the monitor. -/
def report (v : Who) (w : World ρ) : World ρ :=
  w.setProc v { w.proc v with reported := true }

/-- `v` dies. -/
def kill (v : Who) (w : World ρ) : World ρ := w.setProc v (w.proc v).die

end World

/-! ## Looking at the state, and changing it -/

section

variable {ρ : Type}

/-- `v->syscallInfo` -/
def syscallInfoOf (v : Who) : Mon ρ SyscallInfo := Prog.gets fun w => (w.var v).syscallInfo

/-- A `ptrace` request that changes the process `v`. -/
def ptrace (v : Who) (request : Tracee → Tracee) : Mon ρ Unit :=
  Prog.modify fun w => w.setProc v (request (w.proc v))

/-- An assignment to the struct of `v`. -/
def assign (v : Who) (f : Variant → Variant) : Mon ρ Unit :=
  Prog.modify fun w => w.setVar v (f (w.var v))

/-- `checkVariantExit`: `-1` if the variant exited or was killed. -/
def checkVariantExit : WaitStatus → Int
  | .terminated => -1
  | .stopped => 0

/-- `waitpid(v->pid, &status, __WALL)` followed by `checkVariantExit`.  The call
blocks until the variant has a stop or a death that was not yet reported; one
that stands at a stop the monitor has seen will never have one, unless somebody
kills it.  For a child that was reaped before, `waitpid` fails at once and leaves
`status` as it was. -/
def waitVariant (K : Kernel ρ) (v : Who) : Mon ρ Int := fun w =>
  if (w.proc v).running then
    .ret (checkVariantExit ((w.advance K v).proc v).waitStatus) ((w.advance K v).report v)
  else if (w.proc v).reported = false then
    .ret (checkVariantExit (w.proc v).waitStatus) (w.report v)
  else if (w.proc v).alive then
    if K.killed v then .ret (checkVariantExit .terminated) ((w.kill v).report v) else .hung w
  else .ret (checkVariantExit K.junk) w

end

end Aurora
