import Mathlib

/-!
# The x86-64 Linux interface the monitor is written against

The numbers and layouts `monitor.c`, `variant.c` and `sys/*.c` take from the
system headers: the registers of `struct user_regs_struct`, the system call
numbers `processSyscallSync` switches on, the `mmap` and `ptrace` constants,
and the C conversions between `int`, `socklen_t` and the 64-bit words in which
`ptrace` reports arguments.
-/

namespace Aurora

/-- A 64-bit machine word: `__u64`, `unsigned long long`, `size_t`, a pointer. -/
abbrev Word := BitVec 64

/-- The fields of `struct user_regs_struct`. -/
inductive Reg where
  | r15 | r14 | r13 | r12 | rbp | rbx | r11 | r10 | r9 | r8 | rax | rcx | rdx | rsi | rdi
  | origRax | rip | cs | eflags | rsp | ss | fsBase | gsBase | ds | es | fs | gs
  deriving DecidableEq, Repr

/-- A register file. -/
abbrev Regs := Reg → Word

/-- A system call has arguments, so their indices can be written as numbers. -/
instance neZero_args : NeZero 6 := ⟨by decide⟩

/-- The register that carries argument `k` of a system call. -/
def argReg : Fin 6 → Reg := ![.rdi, .rsi, .rdx, .r10, .r8, .r9]

/-! ## C conversions -/

/-- `(int) x` for a 64-bit `x`. -/
def toInt (x : Word) : BitVec 32 := x.setWidth 32

/-- An `int` where a 64-bit operand is wanted: sign extension. -/
def ofInt (n : BitVec 32) : Word := n.signExtend 64

theorem toInt_ofInt (n : BitVec 32) : toInt (ofInt n) = n := by
  refine BitVec.eq_of_getLsbD_eq fun i hi => ?_
  have h64 : i < 64 := by omega
  rw [toInt, ofInt, BitVec.getLsbD_setWidth, BitVec.getLsbD_signExtend, if_pos hi]
  simp [hi, h64]

/-- `(socklen_t) x` for a 64-bit `x`. -/
def toSocklen (x : Word) : BitVec 32 := x.setWidth 32

/-- A `socklen_t` where a 64-bit operand is wanted: zero extension. -/
def ofSocklen (n : BitVec 32) : Word := n.setWidth 64

/-- `(umode_t) x` for a 64-bit `x`. -/
def toMode (x : Word) : BitVec 16 := x.setWidth 16

/-! ## System calls -/

/-- The system calls `processSyscallSync` has a `case` for, in its order. -/
inductive Syscall where
  | getuid | geteuid | getgid | getegid
  | brk | mmap | read | arch_prctl | openat | close | write | pread64 | newfstatat | access
  | set_tid_address | set_robust_list | mprotect | munmap | rseq | fadvise64 | getrandom
  | exit_group | prlimit64 | rt_sigaction | rt_sigprocmask | unlink | utimensat | fchown
  | fchmod | lseek | getcwd | getpid | chdir | socket | setsockopt | bind | listen | accept4
  | poll | shutdown | getsockname | pselect6
  deriving DecidableEq, Repr

namespace Syscall

/-- The `SYS_*` constant of a call. -/
def nr : Syscall → Word
  | getuid => 102 | geteuid => 107 | getgid => 104 | getegid => 108
  | brk => 12 | mmap => 9 | read => 0 | arch_prctl => 158 | openat => 257 | close => 3
  | write => 1 | pread64 => 17 | newfstatat => 262 | access => 21
  | set_tid_address => 218 | set_robust_list => 273 | mprotect => 10 | munmap => 11
  | rseq => 334 | fadvise64 => 221 | getrandom => 318 | exit_group => 231 | prlimit64 => 302
  | rt_sigaction => 13 | rt_sigprocmask => 14 | unlink => 87 | utimensat => 280 | fchown => 93
  | fchmod => 91 | lseek => 8 | getcwd => 79 | getpid => 39 | chdir => 80 | socket => 41
  | setsockopt => 54 | bind => 49 | listen => 50 | accept4 => 288 | poll => 7 | shutdown => 48
  | getsockname => 51 | pselect6 => 270

/-- Every implemented call. -/
def all : List Syscall :=
  [getuid, geteuid, getgid, getegid, brk, mmap, read, arch_prctl, openat, close, write, pread64,
    newfstatat, access, set_tid_address, set_robust_list, mprotect, munmap, rseq, fadvise64,
    getrandom, exit_group, prlimit64, rt_sigaction, rt_sigprocmask, unlink, utimensat, fchown,
    fchmod, lseek, getcwd, getpid, chdir, socket, setsockopt, bind, listen, accept4, poll,
    shutdown, getsockname, pselect6]

/-- The `case` a system call number selects, if the `switch` has one. -/
def ofNr (n : Word) : Option Syscall := all.find? fun c => c.nr == n

theorem nr_of_ofNr {n : Word} {c : Syscall} (h : ofNr n = some c) : c.nr = n := by
  simpa using List.find?_some h

@[simp] theorem ofNr_nr (c : Syscall) : ofNr c.nr = some c := by
  cases c <;> decide

/-- Different cases have different numbers. -/
theorem nr_injective : Function.Injective nr := fun c d h =>
  Option.some.inj (by rw [← ofNr_nr c, h, ofNr_nr d])

end Syscall

/-! ## Memory protection, and the ptrace options -/

/-- `PROT_WRITE`. -/
def PROT_WRITE : BitVec 32 := 2

/-- `MAP_SHARED`. -/
def MAP_SHARED : BitVec 32 := 1

/-- `MAP_PRIVATE`. -/
def MAP_PRIVATE : BitVec 32 := 2

/-- `MAP_SHARED_VALIDATE`. -/
def MAP_SHARED_VALIDATE : BitVec 32 := 3

/-- `MAP_TYPE`, the mask of the bits that say how a mapping is shared. -/
def MAP_TYPE : BitVec 32 := 0x0f

/-- `PTRACE_O_TRACESYSGOOD`. -/
def PTRACE_O_TRACESYSGOOD : BitVec 32 := 1

/-- `PTRACE_O_EXITKILL`. -/
def PTRACE_O_EXITKILL : BitVec 32 := 0x100000

/-- `SEEK_CUR`. -/
def SEEK_CUR : Word := 1

/-- `O_CREAT`. -/
def O_CREAT : Word := 0x40

/-- `O_EXCL`. -/
def O_EXCL : Word := 0x80

/-- `__O_TMPFILE`. -/
def O_TMPFILE : Word := 0x400000

end Aurora
