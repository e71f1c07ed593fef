import AuroraMVEE.Sys.Executors
import AuroraMVEE.Lib.Machine

/-!
# `monitor.c`: the rendezvous and the main loop

`processSyscallSync` and `processVariantEvent` as monitor code, one iteration of
the loop of `main`, and the machine whose steps interleave that loop with the
two variants.  The machine leaves open which of the two comes to its next stop
first, in which order `waitpid(-1)` reports pending stops, and everything the
kernel and the variants' own code decide.
-/

namespace Aurora

variable {ρ : Type}

/-- `processSyscallSync` -/
def processSyscallSync (K : Kernel ρ) : Mon ρ Int := do
  let master ← syscallInfoOf .master
  let replica ← syscallInfoOf .replica
  if master.op ≠ replica.op then return -1
  if master.nr ≠ replica.nr then return -1
  match Syscall.ofNr master.nr with
  | some c => execSyscall K c
  | none => return -1

/-- `exit(code)` -/
def exitProcess (code : Int) : Mon ρ Int := fun w => .exited code w

/-- `kill` on both variants. -/
def killBoth : Mon ρ Unit := do
  Prog.modify (World.kill .master)
  Prog.modify (World.kill .replica)

/-- `processVariantEvent` -/
def processVariantEvent (K : Kernel ρ) (vSelf : Who) : Mon ρ Int := do
  requestSyscallInfo vSelf
  let self ← Prog.gets fun w => w.var vSelf
  let other ← Prog.gets fun w => w.var vSelf.other
  if self.syscallInfo.op = .entry then
    if self.syscallNum = other.syscallNum then
      if other.state = .wait then
        -- partner has reached syscall entry and is waiting
        let result ← processSyscallSync K
        if result ≠ 0 then
          killBoth
          return result
        return 0
      else
        assign vSelf fun x => { x with state := .wait }
        return 0
    else if self.syscallNum > other.syscallNum then
      assign vSelf fun x => { x with state := .wait }
      return 0
    else exitProcess 1
  else if self.syscallInfo.op = .exit then
    resumeVariantFromExit vSelf
    return 0
  else exitProcess 1

/-- What the loop of `main` does once `waitpid(-1)` has returned `v`. -/
def mainIteration (K : Kernel ρ) (v : Who) : Mon ρ Int := do
  let status ← Prog.gets fun w => (w.proc v).waitStatus
  if checkVariantExit status ≠ 0 then exitProcess 0
  else if (← processVariantEvent K v) ≠ 0 then exitProcess 1
  else return 0

/-- `main` up to its loop; `forked v` is the process `fork` and `execvpe` made. -/
def mainSetup (forked : Who → Tracee) : Mon ρ Unit := do
  initVariant .master (forked .master)
  resumeVariantFromWait .master
  initVariant .replica (forked .replica)
  resumeVariantFromWait .replica

/-! ## The whole system -/

/-- What the monitor process is doing. -/
inductive Mode where
  /-- in the `waitpid(-1)` of the main loop -/
  | waiting
  /-- in a `waitpid` that cannot return -/
  | hung
  /-- gone, with an exit code -/
  | gone (code : Int)
  deriving DecidableEq, Repr

/-- The monitor process and everything it looks after. -/
structure Sys (ρ : Type) where
  world : World ρ
  mode : Mode

/-- What can happen next. -/
inductive Event (ρ : Type) where
  /-- A variant that is running comes to its next stop, or dies. -/
  | run (v : Who) (K : Kernel ρ)
  /-- A variant is killed from outside. -/
  | kill (v : Who)
  /-- `waitpid(-1)` returns `v`, and the loop body runs. -/
  | wake (v : Who) (K : Kernel ρ)
  /-- `waitpid(-1)` fails: there is no child left. -/
  | noChild

/-- The monitor process exits. -/
def World.tracerGone (w : World ρ) : World ρ := { w with proc := fun v => (w.proc v).tracerGone }

/-- The system after a piece of monitor code. -/
def Sys.after {α : Type} : Outcome (World ρ) α → Sys ρ
  | .ret _ w => ⟨w, .waiting⟩
  | .hung w => ⟨w, .hung⟩
  | .exited code w => ⟨w.tracerGone, .gone code⟩

/-- Is `v` standing at a stop, or dead, without the monitor knowing? -/
def Tracee.pending (t : Tracee) : Bool := !t.running && !t.reported

/-- Has it died, and the monitor been told? -/
def Tracee.reaped (t : Tracee) : Bool := !t.alive && t.reported

/-- The world in which the loop body runs after `waitpid(-1)` returned `v`. -/
def World.woken (w : World ρ) (v : Who) : World ρ := w.report v

/-- The system, one event at a time. -/
def Sys.next (s : Sys ρ) : Event ρ → Option (Sys ρ)
  | .run v K => if s.mode = .waiting ∧ (s.world.proc v).running then
      some ⟨s.world.advance K v, .waiting⟩ else none
  | .kill v => if s.mode = .waiting ∧ (s.world.proc v).alive then
      some ⟨s.world.kill v, .waiting⟩ else none
  | .wake v K => if s.mode = .waiting ∧ (s.world.proc v).pending then
      some (.after (mainIteration K v (s.world.woken v))) else none
  | .noChild => if s.mode = .waiting ∧ (s.world.proc .master).reaped ∧
        (s.world.proc .replica).reaped then
      some (.after (exitProcess 1 s.world)) else none

/-- The system as a machine. -/
def system (ρ : Type) : Machine (Sys ρ) (Event ρ) where
  step s e s' := s.next e = some s'

end Aurora
