import AuroraMVEE.Abi
import AuroraMVEE.Lib.CBuffer

/-!
# A traced process, as the monitor's system calls see it

The kernel side of a variant: where it stands between two system calls, its
registers, its memory, and what `ptrace` and `waitpid` make of it.

* A variant alternates between user code, a system-call-entry stop, kernel
  execution and a system-call-exit stop; from user code it may also come to a
  signal-delivery stop.  It leaves a stop only when `PTRACE_SYSCALL` resumes it.
* `entries` and `ran` are what the kernel could tell of the past: how many entry
  stops the variant has come to, and which system call numbers the kernel has
  executed for it.  No code reads them; the theorems do.
* What the kernel and the variant's own code will do next is not known.  A
  `Kernel` answers both questions; every theorem is for every `Kernel`.
-/

namespace Aurora

/-- The two variants: `VTYPE_master` and `VTYPE_replica`. -/
inductive Who where
  | master | replica
  deriving DecidableEq, Repr

namespace Who

/-- The partner of a variant. -/
def other : Who → Who
  | master => replica
  | replica => master

@[simp] theorem other_master : other master = replica := rfl

@[simp] theorem other_replica : other replica = master := rfl

@[simp] theorem other_other (v : Who) : v.other.other = v := by cases v <;> rfl

@[simp] theorem other_ne (v : Who) : v.other ≠ v := by cases v <;> decide

@[simp] theorem ne_other (v : Who) : v ≠ v.other := by cases v <;> decide

theorem eq_other_of_ne {u v : Who} (h : u ≠ v) : u = v.other := by
  cases u <;> cases v <;> first | rfl | exact absurd rfl h

theorem forall_iff {p : Who → Prop} : (∀ v, p v) ↔ p master ∧ p replica :=
  ⟨fun h => ⟨h _, h _⟩, fun h v => by cases v; exacts [h.1, h.2]⟩

end Who

/-- Where a variant is. -/
inductive Loc where
  /-- running its own code -/
  | user
  /-- stopped at a system call entry -/
  | entry
  /-- the kernel is executing its system call -/
  | kernel
  /-- stopped at a system call exit -/
  | exit
  /-- stopped at the delivery of a signal -/
  | signal
  deriving DecidableEq, Repr

/-- What `waitpid` stores in `*status`. -/
inductive WaitStatus where
  /-- `WIFEXITED` or `WIFSIGNALED` -/
  | terminated
  /-- `WIFSTOPPED` -/
  | stopped
  deriving DecidableEq, Repr

/-- A process's memory; `none` where nothing is mapped. -/
abbrev Mem := Word → Option Byte

/-- A traced process. -/
structure Tracee where
  loc : Loc
  alive : Bool
  /-- `waitpid` has handed the present stop, or the death, to the monitor. -/
  reported : Bool
  /-- Is there still a tracer? -/
  traced : Bool
  /-- The options of `PTRACE_SETOPTIONS`. -/
  options : BitVec 32
  regs : Regs
  mem : Mem
  /-- How many system-call-entry stops it has come to. -/
  entries : ℕ
  /-- The numbers of the system calls the kernel has executed for it, oldest first. -/
  ran : List Word

/-- `op` of `struct ptrace_syscall_info`. -/
inductive InfoOp where
  | none | entry | exit
  deriving DecidableEq, Repr

/-- `struct ptrace_syscall_info`.  The members `entry {nr, args[6]}` and
`exit {rval, is_error}` share one union, kept here as its seven words. -/
structure SyscallInfo where
  op : InfoOp
  payload : Fin 7 → Word

namespace SyscallInfo

/-- `entry.nr` -/
def nr (i : SyscallInfo) : Word := i.payload 0

/-- `entry.args[k]` -/
def arg (i : SyscallInfo) (k : Fin 6) : Word := i.payload k.succ

/-- `exit.rval` -/
def rval (i : SyscallInfo) : Word := i.payload 0

/-- The struct after `memset(.., 0, ..)`. -/
def zero : SyscallInfo := ⟨.none, fun _ => 0⟩

/-- What the kernel stores at an entry stop. -/
def ofEntry (regs : Regs) : SyscallInfo :=
  ⟨.entry, Fin.cons (regs .origRax) fun k => regs (argReg k)⟩

/-- A return value in `-4095..-1` is an error. -/
def isErr (rax : Word) : Bool := decide ((-4095 : Word) ≤ rax)

/-- What the kernel stores at an exit stop: `rval`, `is_error`, and nothing more. -/
def ofExit (regs : Regs) : SyscallInfo :=
  ⟨.exit, ![regs .rax, if isErr (regs .rax) then 1 else 0, 0, 0, 0, 0, 0]⟩

@[simp] theorem ofEntry_op (regs : Regs) : (ofEntry regs).op = .entry := rfl

@[simp] theorem ofEntry_nr (regs : Regs) : (ofEntry regs).nr = regs .origRax := rfl

@[simp] theorem ofEntry_arg (regs : Regs) (k : Fin 6) :
    (ofEntry regs).arg k = regs (argReg k) := rfl

@[simp] theorem ofExit_op (regs : Regs) : (ofExit regs).op = .exit := rfl

@[simp] theorem ofExit_rval (regs : Regs) : (ofExit regs).rval = regs .rax := rfl

@[simp] theorem zero_op : zero.op = .none := rfl

end SyscallInfo

namespace Tracee

/-- Does the process stand still under the tracer's control? -/
def stopped (t : Tracee) : Bool := t.alive && t.traced &&
  match t.loc with
  | .entry | .exit | .signal => true
  | .user | .kernel => false

/-- Is it running, so that its next stop is still to come? -/
def running (t : Tracee) : Bool := t.alive &&
  match t.loc with
  | .user | .kernel => true
  | .entry | .exit | .signal => false

/-- The status `waitpid` reports. -/
def waitStatus (t : Tracee) : WaitStatus := if t.alive then .stopped else .terminated

/-! ## `ptrace` requests -/

/-- `PTRACE_SYSCALL`: on to the next stop.  From an entry stop the kernel goes
on to execute the number it finds in `ORIG_RAX`.  A process that is not stopped
answers `ESRCH`. -/
def resume (t : Tracee) : Tracee :=
  if t.stopped then
    match t.loc with
    | .entry => { t with loc := .kernel, reported := false, ran := t.ran ++ [t.regs .origRax] }
    | _ => { t with loc := .user, reported := false }
  else t

/-- `PTRACE_POKEUSER`. -/
def pokeUser (t : Tracee) (r : Reg) (x : Word) : Tracee :=
  if t.stopped then { t with regs := Function.update t.regs r x } else t

/-- `PTRACE_SETREGS`. -/
def setRegs (t : Tracee) (regs : Regs) : Tracee :=
  if t.stopped then { t with regs := regs } else t

/-- `PTRACE_SETOPTIONS`: the new set replaces the old one. -/
def setOptions (t : Tracee) (o : BitVec 32) : Tracee :=
  if t.stopped then { t with options := o } else t

/-- `PTRACE_GET_SYSCALL_INFO` into a zeroed struct. -/
def syscallInfo (t : Tracee) : SyscallInfo :=
  if t.stopped then
    match t.loc with
    | .entry => .ofEntry t.regs
    | .exit => .ofExit t.regs
    | _ => .zero
  else .zero

theorem stopped_entry {t : Tracee} (hl : t.loc = .entry) (ha : t.alive = true)
    (ht : t.traced = true) : t.stopped = true := by
  simp [stopped, hl, ha, ht]

theorem stopped_exit {t : Tracee} (hl : t.loc = .exit) (ha : t.alive = true)
    (ht : t.traced = true) : t.stopped = true := by
  simp [stopped, hl, ha, ht]

theorem pokeUser_of_stopped {t : Tracee} (h : t.stopped = true) (r : Reg) (x : Word) :
    t.pokeUser r x = { t with regs := Function.update t.regs r x } := if_pos h

theorem syscallInfo_entry {t : Tracee} (hl : t.loc = .entry) (hs : t.stopped = true) :
    t.syscallInfo = .ofEntry t.regs := by
  simp [syscallInfo, hl, hs]

theorem syscallInfo_exit {t : Tracee} (hl : t.loc = .exit) (hs : t.stopped = true) :
    t.syscallInfo = .ofExit t.regs := by
  simp [syscallInfo, hl, hs]

theorem resume_entry {t : Tracee} (hl : t.loc = .entry) (hs : t.stopped = true) :
    t.resume = { t with loc := .kernel, reported := false, ran := t.ran ++ [t.regs .origRax] } := by
  simp [resume, hl, hs]

theorem resume_exit {t : Tracee} (hl : t.loc = .exit) (hs : t.stopped = true) :
    t.resume = { t with loc := .user, reported := false } := by
  simp [resume, hl, hs]

/-- All eight bytes from `a` on are mapped. -/
def wordMapped (t : Tracee) (a : Word) : Bool :=
  decide (∀ k : Fin 8, (t.mem (a + BitVec.ofNat 64 k)).isSome)

/-- `PTRACE_PEEKDATA`: the word at `a`, or `-1` when it cannot be read. -/
def peek (t : Tracee) (a : Word) : Long :=
  if t.stopped && t.wordMapped a then fun k => (t.mem (a + BitVec.ofNat 64 k)).getD 0
  else fun _ => 0xff

/-- `PTRACE_POKEDATA`: store a word at `a`, without effect when it cannot be done. -/
def poke (t : Tracee) (a : Word) (d : Long) : Tracee :=
  if t.stopped && t.wordMapped a then
    { t with mem := fun b => if h : (b - a).toNat < 8 then some (d ⟨(b - a).toNat, h⟩) else t.mem b }
  else t

/-- `kill(pid, SIGKILL)`, and any other sudden death. -/
def die (t : Tracee) : Tracee :=
  if t.alive then { t with alive := false, reported := false } else t

theorem die_dead (t : Tracee) : t.die.alive = false := by
  unfold die
  cases ha : t.alive <;> simp [ha]

theorem not_stopped_of_dead {t : Tracee} (h : t.alive = false) : ¬ t.stopped = true := by
  simp [stopped, h]

theorem alive_of_stopped {t : Tracee} (h : t.stopped = true) : t.alive = true :=
  Bool.eq_true_of_not_eq_false fun ha => not_stopped_of_dead ha h

/-- The tracer is gone: `PTRACE_O_EXITKILL` kills, anything else lets go. -/
def tracerGone (t : Tracee) : Tracee :=
  if t.options &&& PTRACE_O_EXITKILL ≠ 0 then t.die else { t with traced := false }

end Tracee

/-! ## The unknown: kernel results and user code -/

/-- How the execution of a system call ends. -/
inductive SysResult where
  /-- The process does not survive the call. -/
  | died
  /-- The call returns: the three registers the kernel changes, and the memory. -/
  | ret (rax rcx r11 : Word) (mem : Mem)

/-- How a stretch of user code ends. -/
inductive UserStop where
  | died
  | entry (regs : Regs) (mem : Mem)
  | signal (regs : Regs) (mem : Mem)

/-- Everything outside the monitor.  `ρ` is what the kernel itself remembers
(descriptor tables, files, mappings); the answers may depend on it. -/
structure Kernel (ρ : Type) where
  /-- Execute the system call a variant was released into. -/
  syscall : Who → Tracee → ρ → SysResult × ρ
  /-- Run a variant's own code up to its next stop. -/
  user : Who → Tracee → ρ → UserStop
  /-- Is a variant killed from outside while the monitor waits for it at a stop
  it has already seen? -/
  killed : Who → Bool
  /-- What an uninitialised `int status` holds. -/
  junk : WaitStatus

/-- No variant dies in a call. -/
def Kernel.Returns {ρ : Type} (K : Kernel ρ) : Prop := ∀ v t o, (K.syscall v t o).1 ≠ .died

namespace Tracee

/-- The register file the kernel leaves behind. -/
def retRegs (regs : Regs) (rax rcx r11 : Word) : Regs :=
  Function.update (Function.update (Function.update regs .rax rax) .rcx rcx) .r11 r11

/-- The kernel finishes the system call. -/
def finish (t : Tracee) : SysResult → Tracee
  | .died => t.die
  | .ret rax rcx r11 mem =>
      { t with loc := .exit, reported := false, regs := retRegs t.regs rax rcx r11, mem := mem }

/-- User code comes to its next stop. -/
def arrive (t : Tracee) : UserStop → Tracee
  | .died => t.die
  | .entry regs mem =>
      { t with loc := .entry, reported := false, regs := regs, mem := mem,
               entries := t.entries + 1 }
  | .signal regs mem => { t with loc := .signal, reported := false, regs := regs, mem := mem }

end Tracee

end Aurora
