import AuroraMVEE.Alarms
import AuroraMVEE.Handed

/-!
# Twins

Here the master and the replica are one program.  The kernel serves the master only: in most calls
the replica makes another one instead and is told what the master was told.  The program
should not notice which of the two it is.

* `Shadow` — the replica is where the program comes to by itself, in all that the program can see.
* `Program.Shares` — the calls that are handed over as they should be: those that both make, those
  with a result that fits an `int`, and those that fill a buffer and touch nothing else.
* `Kernel.Shadows` — what the replica needs of the kernel, which is much less than the master does.
* `twins` — then both are always where the program comes to by itself, and where they are at the
  same place, there is nothing to tell them apart.
-/

namespace Aurora

variable {ρ τ : Type}

/-! ## The program -/

/-- What its call at `M` returns. -/
def Program.result (P : Program τ) (M : Native τ) : Word := (P.call M.regs M.mem M.own).1.1

/-- The memory after its call at `M`. -/
def Program.after (P : Program τ) (M : Native τ) : Mem := (P.call M.regs M.mem M.own).1.2.2.2

/-- The buffer that `c` fills. -/
def Native.buffer (M : Native τ) (c : Syscall) : Word := M.regs (argReg (fillArg c))

/-- How much of it is handed over. -/
def Program.filled (P : Program τ) (c : Syscall) (M : Native τ) : ℕ :=
  fillSize c (fun k => M.regs (argReg k)) (P.result M)

/-- The call `c` at `M` fills a buffer that is there, of a size that is transferred as it should be, and
touches nothing else. -/
structure Program.Fills (P : Program τ) (c : Syscall) (M : Native τ) : Prop where
  size : P.filled c M ≤ BUF_SIZE
  whole : WholeWords (P.filled c M)
  before : ∀ i < wordBytes (P.filled c M), (M.mem (M.buffer c + BitVec.ofNat 64 i)).isSome
  after : ∀ i < wordBytes (P.filled c M), (P.after M (M.buffer c + BitVec.ofNat 64 i)).isSome
  only : ∀ b, P.filled c M ≤ (b - M.buffer c).toNat → P.after M b = M.mem b

/-- The call at `M` is one that is handed over as it should be. -/
inductive Program.Shares (P : Program τ) (M : Native τ) : Prop
  /-- both make it -/
  | each {c : Syscall} {ks : List (Fin 6)} (hc : c.scalars = some ks) (hnr : M.regs .origRax = c.nr)
  /-- the result is all there is, and it is an `int` -/
  | told {c : Syscall} (hc : c ∈ resultCalls) (hnr : M.regs .origRax = c.nr)
      (hint : ofInt (toInt (P.result M)) = P.result M) (hmem : P.after M = M.mem)
  /-- there is a buffer as well -/
  | filled {c : Syscall} (hc : c ∈ fillCalls) (hnr : M.regs .origRax = c.nr) (hfills : P.Fills c M)

theorem wordBytes_le (n : ℕ) : n ≤ wordBytes n := by
  unfold wordBytes
  omega

/-- To hand over the buffer is to hand over all that has changed. -/
theorem Program.Fills.copied_eq {P : Program τ} {c : Syscall} {M : Native τ} (h : P.Fills c M) :
    copied (P.after M) M.mem (M.buffer c) (M.buffer c) (P.filled c M) = P.after M := by
  funext b
  have hback : M.buffer c + (b - M.buffer c) = b := by
    rw [BitVec.add_comm, BitVec.sub_add_cancel]
  have hat : BitVec.ofNat 64 (b - M.buffer c).toNat = b - M.buffer c := by
    rw [BitVec.ofNat_toNat, BitVec.setWidth_eq]
  unfold copied
  by_cases hin : (b - M.buffer c).toNat < P.filled c M
  · have hle := wordBytes_le (P.filled c M)
    have hbefore := h.before (b - M.buffer c).toNat (by omega)
    have hafter := h.after (b - M.buffer c).toNat (by omega)
    rw [hat, hback] at hbefore hafter
    rw [hback, if_pos ⟨hin, hafter, hbefore⟩]
  · rw [if_neg fun hno => hin hno.1]
    exact (h.only b (by omega)).symm

/-- From its entry stop, through the call and back to its own code. -/
theorem Program.next_call (P : Program τ) {M : Native τ} (hloc : M.loc = .entry) :
    P.next^[3] M =
      { loc := .user
        regs := bare (Tracee.retRegs M.regs (P.result M) (P.call M.regs M.mem M.own).1.2.1
          (P.call M.regs M.mem M.own).1.2.2.1)
        mem := P.after M
        own := (P.call M.regs M.mem M.own).2
        made := M.made ++ [M.regs .origRax] } := by
  simp only [Function.iterate_succ_apply, Function.iterate_zero_apply, Program.next, hloc]
  rfl

/-! ## The replica -/

/-- The replica is where the program is at `M`, in all that the program can see.  Its part of what the
kernel remembers is one that will do, by `R`. -/
structure Shadow (R : τ → ρ → Prop) (M : Native τ) (w : World ρ) : Prop where
  loc : (w.proc .replica).loc = M.loc
  regs : (w.proc .replica).shown = M.regs
  mem : (w.proc .replica).mem = M.mem
  made : (w.proc .replica).ran.length = M.made.length
  own : R M.own w.os

theorem Shadow.of_proc {R : τ → ρ → Prop} {M : Native τ} {w : World ρ} {t : Tracee}
    (hproc : w.proc .replica = t) (hloc : t.loc = M.loc) (hregs : t.shown = M.regs) (hmem : t.mem = M.mem)
    (hmade : t.ran.length = M.made.length) (hown : R M.own w.os) : Shadow R M w := by
  subst hproc
  exact ⟨hloc, hregs, hmem, hmade, hown⟩

/-- The kernel runs the program as the replica too, where it will do that what the kernel remembers is
related by `R` to what it would remember for the program.

* The calls that both make are answered as those of the program.
* A call that is made instead leaves the memory alone, and what it leaves in `rcx` and `r11` is
  what the call itself would. -/
structure Kernel.Shadows (K : Kernel ρ) (P : Program τ) (R : τ → ρ → Prop) : Prop where
  plain : K.Plain
  returns : K.Returns
  code : ∀ t o, K.user .replica t o =
    .entry (P.code (bare t.regs) t.mem).1 (P.code (bare t.regs) t.mem).2
  apart : ∀ t o x, R x o → R x (K.syscall .master t o).2
  each : ∀ c ks t o x, Syscall.scalars c = some ks → t.regs .origRax = c.nr → R x o →
    (K.syscall .replica t o).1 = .ret (P.call t.regs t.mem x).1.1 (P.call t.regs t.mem x).1.2.1
        (P.call t.regs t.mem x).1.2.2.1 (P.call t.regs t.mem x).1.2.2.2 ∧
      R (P.call t.regs t.mem x).2 (K.syscall .replica t o).2
  instead : ∀ c regs mem fd rm t o x, c ∈ resultCalls ++ fillCalls → regs .origRax = c.nr →
    t.regs = c.releasedRegs regs fd rm → R x o →
    (∃ rr, (K.syscall .replica t o).1 = .ret rr (P.call regs mem x).1.2.1
        (P.call regs mem x).1.2.2.1 t.mem) ∧
      R (P.call regs mem x).2 (K.syscall .replica t o).2

/-- What is told to the replica is what the call would have left in its registers. -/
theorem bare_retRegs_released {c : Syscall} (hc : c ∈ resultCalls ++ fillCalls) (regs : Regs)
    (fd rm x rcx r11 : Word) :
    bare (Tracee.retRegs (c.releasedRegs regs fd rm) x rcx r11) = bare (Tracee.retRegs regs x rcx r11) := by
  have hslot (nr : Word) : bare (Tracee.retRegs (Function.update regs .origRax nr) x rcx r11) =
      bare (Tracee.retRegs regs x rcx r11) := by
    funext r
    cases r <;> simp [bare, Tracee.retRegs, Function.update]
  simp only [resultCalls, fillCalls, List.cons_append, List.nil_append, List.mem_cons,
    List.not_mem_nil, or_false] at hc
  rcases hc with rfl | rfl | rfl | rfl | rfl | rfl | rfl | rfl
  · exact hslot _
  · exact hslot _
  · exact hslot _
  · exact hslot _
  · rfl
  · exact hslot _
  · exact hslot _
  · exact hslot _

/-! ## Where the two meet -/

/-- Both stand at the entry of the call at `M`, and the structs hold it. -/
structure World.Paired (own : ρ → τ) (R : τ → ρ → Prop) (M : Native τ) (w : World ρ) : Prop where
  atEntry : ∀ u, (w.ctl u).AtEntry
  info : ∀ u, (w.var u).syscallInfo = .ofEntry (w.proc u).regs
  master : w.native .master own = M
  replica : Shadow R M w

namespace World.Paired

variable {K : Kernel ρ} {P : Program τ} {own : ρ → τ} {R : τ → ρ → Prop} {M : Native τ} {c : Syscall}
  {w w' : World ρ}

theorem loc (h : w.Paired own R M) : M.loc = .entry :=
  h.replica.loc.symm.trans (h.atEntry .replica).loc

theorem regs (h : w.Paired own R M) (u : Who) : (w.proc u).regs = M.regs := by
  have hloc : (w.proc u).loc = .entry := (h.atEntry u).loc
  have hshown : (w.proc u).shown = (w.proc u).regs := by simp [Tracee.shown, hloc]
  cases u with
  | master =>
    rw [← hshown]
    exact congrArg Native.regs h.master
  | replica =>
    rw [← hshown]
    exact h.replica.regs

theorem mem (h : w.Paired own R M) (u : Who) : (w.proc u).mem = M.mem := by
  cases u with
  | master => exact congrArg Native.mem h.master
  | replica => exact h.replica.mem

theorem arg (h : w.Paired own R M) (u : Who) (k : Fin 6) :
    (w.var u).syscallInfo.arg k = M.regs (argReg k) := by
  rw [h.info, SyscallInfo.ofEntry_arg, h.regs]

theorem alike (h : w.Paired own R M) : w.Alike :=
  ⟨fun k => (h.arg _ k).trans (h.arg _ k).symm, (h.mem _).trans (h.mem _).symm⟩

theorem exec (h : w.Paired own R M) (hnr : M.regs .origRax = c.nr) :
    processSyscallSync K w = execSyscall K c w :=
  sync_exec h.info fun u => by rw [h.regs, hnr]

/-- The master is answered as the program is by itself. -/
theorem answer (h : w.Paired own R M) (hK : K.Runs .master P own) :
    (K.answer .master w).1 = .ret (P.result M) (P.call M.regs M.mem M.own).1.2.1
      (P.call M.regs M.mem M.own).1.2.2.1 (P.after M) := by
  have hans := hK.answer (w.proc .master).resume w.os
  have hown : own w.os = M.own := congrArg Native.own h.master
  rwa [resume_regs, resume_mem, h.regs, h.mem, hown] at hans

/-- The replica is released into the call that it makes instead, with the memory `m`. -/
theorem instead (h : w.Paired own R M) (hS : K.Shadows P R) (hc : c ∈ resultCalls ++ fillCalls)
    (hnr : M.regs .origRax = c.nr) (m : Mem) :
    ∃ rr o, K.syscall .replica (w.released c (P.result M) m).resume (K.answer .master w).2 =
        (.ret rr (P.call M.regs M.mem M.own).1.2.1 (P.call M.regs M.mem M.own).1.2.2.1 m, o) ∧
      R (P.call M.regs M.mem M.own).2 o := by
  have hregs : (w.released c (P.result M) m).resume.regs = c.releasedRegs M.regs
      (ofInt (toInt ((w.var .master).syscallInfo.arg 0))) (P.result M) := by
    rw [resume_regs, World.released, h.regs]
  have hown := hS.apart (w.proc .master).resume w.os _ h.replica.own
  obtain ⟨⟨rr, hret⟩, hafter⟩ := hS.instead c M.regs M.mem _ _ _ _ _ hc hnr hregs hown
  rw [resume_mem] at hret
  exact ⟨rr, _, Prod.ext hret rfl, hafter⟩

/-- A replica that came back from there, and was told the result, is where the program is after its
call. -/
theorem back (h : w.Paired own R M) (hc : c ∈ resultCalls ++ fillCalls) {m : Mem}
    (hproc : w'.proc .replica = { (w.released c (P.result M) m).cameBack (P.result M)
      (P.call M.regs M.mem M.own).1.2.1 (P.call M.regs M.mem M.own).1.2.2.1 with mem := P.after M })
    (hos : R (P.call M.regs M.mem M.own).2 w'.os) :
    Shadow R (P.next^[3] M) w' := by
  rw [P.next_call h.loc]
  refine .of_proc hproc rfl ?_ rfl ?_ hos
  · rw [← bare_retRegs_released hc M.regs
      (ofInt (toInt ((w.var .master).syscallInfo.arg 0))) (P.result M), ← h.regs .replica]
    rfl
  · rw [List.length_append, ← h.replica.made]
    simp [Tracee.cameBack, World.released]

/-- What the monitor makes of a call that both make: they are in it, side by side. -/
theorem each {ks : List (Fin 6)} (h : w.Paired own R M) (hc : c.scalars = some ks)
    (hnr : M.regs .origRax = c.nr) :
    ∃ w', execSyscall K c w = .ret 0 w' ∧ Shadow R (P.next^[1] M) w' ∧
      (w'.proc .replica).regs .origRax = c.nr := by
  have hsame : w.SameArgs ks := fun k _ => h.alike.args k
  obtain ⟨w', hret, hproc, hos, -⟩ := resumeBoth_apply w
  have hrep := h.atEntry .replica
  have hresume := Tracee.resume_entry hrep.loc (stopped_of_atEntry hrep)
  refine ⟨w', ((execSyscall_scalars K hc w).1 hsame).trans hret, ?_, ?_⟩
  · have hnext : P.next^[1] M = { M with loc := .kernel, made := M.made ++ [M.regs .origRax] } := by
      simp only [Function.iterate_one, Program.next, h.loc]
    rw [hnext]
    refine .of_proc ((hproc _).trans hresume) rfl (h.regs .replica) (h.mem .replica) ?_ ?_
    · rw [List.length_append, List.length_append, ← h.replica.made]
      rfl
    · rw [hos]
      exact h.replica.own
  · rw [hproc, resume_regs, h.regs, hnr]

/-- What it makes of a call with a result alone. -/
theorem told (h : w.Paired own R M) (hK : K.Runs .master P own) (hS : K.Shadows P R)
    (hc : c ∈ resultCalls) (hnr : M.regs .origRax = c.nr)
    (hint : ofInt (toInt (P.result M)) = P.result M) (hmem : P.after M = M.mem) :
    ∃ w', execSyscall K c w = .ret 0 w' ∧ Shadow R (P.next^[3] M) w' := by
  have hstand : c ∈ resultCalls ++ fillCalls := List.mem_append_left _ hc
  obtain ⟨rr, o, hr, hown⟩ := h.instead hS hstand hnr (w.proc .replica).mem
  obtain ⟨w', hret, hos, hproc⟩ := ret_of_surely
    (handed_told (h.atEntry _) (h.atEntry _) hc h.alike (h.answer hK) hr)
  refine ⟨w', hret, h.back hstand (m := (w.proc .replica).mem) ?_ (by rw [hos]; exact hown)⟩
  rw [hproc, hint, hmem, ← h.mem .replica]
  rfl

theorem fits (h : w.Paired own R M) (hfills : P.Fills c M) : w.Fits c (P.result M) (P.after M) := by
  have harg : (w.var .master).syscallInfo.arg = fun k => M.regs (argReg k) := funext (h.arg .master)
  refine ⟨?_, ?_, ?_, ?_⟩
  · rw [harg]
    exact hfills.size
  · rw [harg]
    exact hfills.whole
  · rw [harg, Tracee.Mapped, h.mem]
    exact hfills.before
  · rw [harg]
    exact hfills.after

theorem filledMem_eq (h : w.Paired own R M) (hfills : P.Fills c M) :
    w.filledMem c (P.result M) (P.after M) = P.after M := by
  have harg : (w.var .master).syscallInfo.arg = fun k => M.regs (argReg k) := funext (h.arg .master)
  rw [World.filledMem, harg, h.mem]
  exact hfills.copied_eq

/-- What it makes of a call that fills a buffer. -/
theorem filled (h : w.Paired own R M) (hK : K.Runs .master P own) (hS : K.Shadows P R)
    (hc : c ∈ fillCalls) (hnr : M.regs .origRax = c.nr) (hfills : P.Fills c M) :
    ∃ w', execSyscall K c w = .ret 0 w' ∧ Shadow R (P.next^[3] M) w' := by
  have hstand : c ∈ resultCalls ++ fillCalls := List.mem_append_right _ hc
  obtain ⟨rr, o, hr, hown⟩ := h.instead hS hstand hnr (w.releasedMem c (P.result M) (P.after M))
  obtain ⟨w', hret, hos, hproc⟩ := ret_of_surely
    (handed_filled (h.atEntry _) (h.atEntry _) hc h.alike (h.fits hfills) (h.answer hK) hr)
  refine ⟨w', hret, h.back hstand (m := w.releasedMem c (P.result M) (P.after M)) ?_
    (by rw [hos]; exact hown)⟩
  rw [hproc, h.filledMem_eq hfills]

/-- **The meeting.**  It succeeds, and the replica goes on as the program does. -/
theorem shares (h : w.Paired own R M) (hK : K.Runs .master P own) (hS : K.Shadows P R)
    (hshares : P.Shares M) :
    ∃ w' k, processSyscallSync K w = .ret 0 w' ∧ Shadow R (P.next^[k] M) w' ∧
      ((w'.proc .replica).loc = .kernel →
        ∃ c ks, Syscall.scalars c = some ks ∧ (w'.proc .replica).regs .origRax = c.nr) := by
  -- after a call that it did not make, the replica is in its own code
  have huser {w' : World ρ} (hsh : Shadow R (P.next^[3] M) w') : (w'.proc .replica).loc ≠ .kernel := by
    rw [hsh.loc, P.next_call h.loc]
    simp
  cases hshares with
  | each hc hnr =>
    obtain ⟨w', hret, hsh, hcall⟩ := h.each (P := P) hc hnr
    exact ⟨w', 1, (h.exec hnr).trans hret, hsh, fun _ => ⟨_, _, hc, hcall⟩⟩
  | told hc hnr hint hmem =>
    obtain ⟨w', hret, hsh⟩ := h.told hK hS hc hnr hint hmem
    exact ⟨w', 3, (h.exec hnr).trans hret, hsh, fun hl => absurd hl (huser hsh)⟩
  | filled hc hnr hfills =>
    obtain ⟨w', hret, hsh⟩ := h.filled hK hS hc hnr hfills
    exact ⟨w', 3, (h.exec hnr).trans hret, hsh, fun hl => absurd hl (huser hsh)⟩

end World.Paired

/-! ## Every event -/

/-- In the kernel, the replica is in a call that both make. -/
def World.BothIn (w : World ρ) : Prop :=
  (w.proc .replica).loc = .kernel →
    ∃ c ks, Syscall.scalars c = some ks ∧ (w.proc .replica).regs .origRax = c.nr

/-- After `n` events the main loop waits, the two are alive and in lockstep, and both are where the
program comes to by itself. -/
structure Sys.Twin (P : Program τ) (own : ρ → τ) (R : τ → ρ → Prop) (N : Native τ) (n : ℕ)
    (s : Sys ρ) : Prop where
  mode : s.mode = .waiting
  lock : Lockstep False s.world
  alive : ∀ v, (s.world.proc v).alive = true
  master : ∃ k, s.world.native .master own = P.next^[k] N
  replica : ∃ k, Shadow R (P.next^[k] N) s.world
  bothIn : s.world.BothIn
  num : ∀ v, (s.world.var v).syscallNum.toNat ≤ n

section Steps

variable {K : Kernel ρ} {P : Program τ} {own : ρ → τ} {R : τ → ρ → Prop} {M N : Native τ} {n : ℕ}
  {w : World ρ} {s s' : Sys ρ} {e : Event ρ} {v : Who} {t : Tracee} {x : Variant} {ω : ρ → ρ}

theorem Program.Shares.ne_shutdown (h : P.Shares M) : M.regs .origRax ≠ Syscall.shutdown.nr := by
  have hno {c : Syscall} (hc : c ≠ .shutdown) (hnr : M.regs .origRax = c.nr) :
      M.regs .origRax ≠ Syscall.shutdown.nr := fun hshut =>
    hc (Syscall.nr_injective (hnr.symm.trans hshut))
  cases h with
  | each hc hnr => exact hno (Syscall.plan_scalars hc).1 hnr
  | told hc hnr _ _ => exact hno (fun h => by subst h; exact absurd hc (by decide)) hnr
  | filled hc hnr _ => exact hno (fun h => by subst h; exact absurd hc (by decide)) hnr

theorem Kernel.Shadows.steady (hS : K.Shadows P R) (hK : K.Runs .master P own) : K.Steady where
  plain := hS.plain
  returns := hS.returns
  lives v t o h := by
    cases v with
    | master =>
      rw [hK.code] at h
      exact absurd h (by simp)
    | replica =>
      rw [hS.code] at h
      exact absurd h (by simp)
  user v t o o' := by
    cases v with
    | master => rw [hK.code, hK.code]
    | replica => rw [hS.code, hS.code]

/-- What the master does by itself leaves the replica alone. -/
theorem Shadow.master_moves (h : Shadow R M w) (hS : K.Shadows P R)
    (halone : Alone K w .master e t x ω) : Shadow R M (w.put .master t x ω) := by
  refine .of_proc (World.put_proc_of_ne (by decide)) h.loc h.regs h.mem h.made ?_
  rw [World.put_os]
  cases halone with
  | returns hloc res hres => exact hS.apart _ _ _ h.own
  | arrives _ _ _ _ | held _ _ _ _ _ | passed _ _ => exact h.own

/-- What the replica does by itself, the program does. -/
theorem Shadow.replica_moves (h : Shadow R M w) (hS : K.Shadows P R) (hcall : w.BothIn)
    (halone : Alone K w .replica e t x ω) :
    t.loc ≠ .kernel ∧ ∃ k, Shadow R (P.next^[k] M) (w.put .replica t x ω) := by
  have hproc : (w.put .replica t x ω).proc .replica = t := World.put_proc_self
  obtain ⟨hloc, hregs, hmem, hmade, hown⟩ := h
  cases halone with
  | arrives hl regs mem hu =>
    obtain ⟨rfl, rfl⟩ := UserStop.entry.inj ((hS.code _ w.os).symm.trans (hu w.os))
    have hshown : (w.proc .replica).shown = bare (w.proc .replica).regs := by simp [Tracee.shown, hl]
    rw [hl] at hloc
    refine ⟨by simp [Tracee.arrive], 1, ?_⟩
    simp only [Function.iterate_one, Program.next, ← hloc]
    refine .of_proc hproc rfl ?_ ?_ hmade hown
    · rw [← hregs, ← hmem, hshown]
      rfl
    · rw [← hregs, ← hmem, hshown]
      rfl
  | returns hl res hres =>
    obtain ⟨c, ks, hc, hnr⟩ := hcall hl
    obtain ⟨hret, hafter⟩ := hS.each c ks _ _ _ hc hnr hown
    have hshown : (w.proc .replica).shown = (w.proc .replica).regs := by simp [Tracee.shown, hl]
    rw [hshown] at hregs
    rw [hregs, hmem] at hret hafter
    obtain rfl := hres.symm.trans hret
    rw [hl] at hloc
    refine ⟨by simp [Tracee.finish], 1, ?_⟩
    simp only [Function.iterate_one, Program.next, ← hloc]
    refine .of_proc hproc rfl ?_ rfl hmade hafter
    rw [← hregs]
    rfl
  | held hl _ _ _ _ =>
    exact ⟨by simp [hl], 0, .of_proc hproc hloc hregs hmem hmade hown⟩
  | passed hl _ =>
    have hshown : (w.proc .replica).shown = bare (w.proc .replica).regs := by simp [Tracee.shown, hl]
    rw [hl] at hloc
    refine ⟨by simp, 1, ?_⟩
    simp only [Function.iterate_one, Program.next, ← hloc]
    refine .of_proc hproc rfl ?_ hmem hmade hown
    rw [← hregs, hshown]
    rfl

theorem Alone.num_le (h : Alone K w v e t x ω) (u : Who) :
    ((w.put v t x ω).var u).syscallNum.toNat ≤ (w.var u).syscallNum.toNat + 1 := by
  by_cases hu : u = v
  · subst hu
    rw [World.put_var_self]
    cases h with
    | arrives _ _ _ _ | returns _ _ _ | held _ _ _ _ _ => exact Nat.le_succ _
    | passed _ _ =>
      rw [BitVec.toNat_add]
      exact Nat.mod_le _ _
  · rw [World.put_var_of_ne hu]
    exact Nat.le_succ _

/-- What an event of one variant makes of the replica. -/
theorem Alone.shadow (h : Alone K w v e t x ω) (hS : K.Shadows P R) (hsh : Shadow R M w)
    (hcall : w.BothIn) :
    (∃ k, Shadow R (P.next^[k] M) (w.put v t x ω)) ∧ (w.put v t x ω).BothIn := by
  cases v with
  | master =>
    refine ⟨⟨0, hsh.master_moves hS h⟩, ?_⟩
    unfold World.BothIn
    rw [World.put_proc_of_ne (by decide)]
    exact hcall
  | replica =>
    obtain ⟨hloc, hgo⟩ := hsh.replica_moves hS hcall h
    refine ⟨hgo, fun hl => absurd hl ?_⟩
    rw [World.put_proc_self]
    exact hloc

/-- Where both are at the same place, the program is there after one number of steps. -/
theorem Sys.Twin.together (h : s.Twin P own R N n) (hN : N.Fresh)
    (hloc : (s.world.proc .master).loc = (s.world.proc .replica).loc) :
    ∃ k, s.world.native .master own = P.next^[k] N ∧ Shadow R (P.next^[k] N) s.world := by
  obtain ⟨k, hk⟩ := h.master
  obtain ⟨j, hj⟩ := h.replica
  have hkj : j = k := by
    refine position_unique P hN.loc hN.made ?_ ?_
    · rw [← hj.loc, ← hk]
      exact hloc.symm
    · rw [← hj.made, ← hk]
      exact h.lock.ran_length .replica .master
  rw [hkj] at hj
  exact ⟨k, hk, hj⟩

/-- The two come to their meeting at the same call. -/
theorem Sys.Twin.paired (h : s.Twin P own R N n) (hN : N.Fresh) (hm : Meets s.world v) :
    ∃ k, (P.next^[k] N).loc = .entry ∧
      ((s.world.woken v).noted v).Paired own R (P.next^[k] N) := by
  have hp := Tracee.pending_of_loc (.inl hm.atEntry) hm.pending
  obtain ⟨hloc, hinfo⟩ := h.lock.meet_entry hp (h.alive v) hm.sync
  obtain ⟨k, hk, hj⟩ := h.together hN ((hloc .master).trans (hloc .replica).symm)
  have hentry : (P.next^[k] N).loc = .entry := (congrArg Native.loc hk).symm.trans (hloc .master)
  have hctl : ((s.world.woken v).noted v).ctl =
      Function.update s.world.ctl v { s.world.ctl v with reported := true } := by
    rw [World.noted_ctl, World.woken, World.report_ctl]
  refine ⟨k, hentry, fun u => ?_, fun u => ?_, (native_report _ v).trans hk, ?_⟩
  · rw [hctl]
    by_cases hu : u = v
    · subst hu
      rw [Function.update_self]
      exact ⟨hloc u, h.alive u, rfl, h.lock.traced u⟩
    · rw [Function.update_of_ne hu, Who.eq_other_of_ne hu]
      exact ⟨hloc _, h.alive _, (hm.partner h.lock).2, h.lock.traced _⟩
  · rw [hinfo u, World.noted_proc, World.woken, World.report_regs]
  · obtain ⟨r, hr⟩ := met_proc s.world v .replica
    exact .of_proc hr hj.loc hj.regs hj.mem hj.made hj.own

/-- A variant at its entry stop is where the program is at one of its own. -/
theorem Sys.Twin.atCall (h : s.Twin P own R N n) (hloc : (s.world.proc v).loc = .entry) :
    ∃ k, (P.next^[k] N).loc = .entry ∧ (P.next^[k] N).regs = (s.world.proc v).regs := by
  have hshown : (s.world.proc v).shown = (s.world.proc v).regs := by simp [Tracee.shown, hloc]
  rw [← hshown]
  cases v with
  | master =>
    obtain ⟨k, hk⟩ := h.master
    exact ⟨k, (congrArg Native.loc hk).symm.trans hloc, (congrArg Native.regs hk).symm⟩
  | replica =>
    obtain ⟨k, hk⟩ := h.replica
    exact ⟨k, hk.loc.symm.trans hloc, hk.regs.symm⟩

/-- So it is never found at `shutdown`, nor behind its partner. -/
theorem Sys.Twin.event (h : s.Twin P own R N n) (hn : n + 1 < 2 ^ 64)
    (hshares : ∀ k, (P.next^[k] N).loc = .entry → P.Shares (P.next^[k] N))
    (hstep : (system ρ).step s e s') (he : e.By K) : e.In K s := by
  obtain ⟨-, hcase⟩ := step_cases hstep
  cases hcase with
  | run v K' hrun =>
    obtain rfl : K' = K := he
    exact .run v
  | kill v ha => exact he.elim
  | noChild hmaster _ => exact absurd (h.alive .master) (by simp [Tracee.not_alive_of_reaped hmaster])
  | wake v K' hp hbody =>
    obtain rfl : K' = K := he
    refine .wake v (fun hloc => ?_) fun hloc => ?_
    · obtain ⟨k, hk, hregs⟩ := h.atCall hloc
      rw [← hregs]
      exact (hshares k hk).ne_shutdown
    · have hnum := h.num v.other
      exact h.lock.not_behind hloc (by omega)

theorem Event.By.runs (he : e.By K) (hK : K.Runs .master P own) : e.Runs P own := by
  cases e with
  | run v K' =>
    obtain rfl : K' = K := he
    exact hK
  | wake v K' =>
    obtain rfl : K' = K := he
    exact hK
  | kill v => exact he.elim
  | noChild => trivial

/-- **Every event** leaves the two where the program comes to by itself. -/
theorem twin_step (hK : K.Runs .master P own) (hS : K.Shadows P R) (hN : N.Fresh)
    (hshares : ∀ k, (P.next^[k] N).loc = .entry → P.Shares (P.next^[k] N))
    (h : s.Twin P own R N n) (hn : n + 1 < 2 ^ 64) (hstep : (system ρ).step s e s') (he : e.By K) :
    s'.Twin P own R N (n + 1) := by
  have hin := h.event hn hshares hstep he
  have hsteady := hS.steady hK
  have hreg : s'.mode = .waiting → Lockstep False s'.world ∧ ∀ v, (s'.world.proc v).alive = true := by
    intro hmode
    have hseen := regular_step hsteady s e s'.seen (fun _ => ⟨h.lock, h.alive⟩) ⟨s', hstep, hin, rfl⟩
    rw [show s'.seen = s' from if_pos hmode] at hseen
    exact hseen hmode
  have hmaster : ∃ k, s'.world.native .master own = P.next^[k] N := by
    obtain ⟨k, hk⟩ := h.master
    obtain ⟨m, hm⟩ := leads_step (fun _ => .inl h.lock.relax) hstep (he.runs hK)
    exact ⟨m + k, by rw [hm, hk, Function.iterate_add_apply]⟩
  obtain ⟨v, ⟨t, x, ω, halone, rfl⟩ | ⟨hmeets, -, rfl⟩⟩ := alone_or_meets hsteady h.lock h.alive hstep hin
  · obtain ⟨hlock, halive⟩ := hreg rfl
    obtain ⟨j, hj⟩ := h.replica
    obtain ⟨⟨m, hm⟩, hboth⟩ := halone.shadow hS hj h.bothIn
    refine ⟨rfl, hlock, halive, hmaster, ⟨m + j, ?_⟩, hboth, fun u => ?_⟩
    · rw [Function.iterate_add_apply]
      exact hm
    · exact (halone.num_le u).trans (Nat.add_le_add_right (h.num u) 1)
  · obtain ⟨k, hentry, hpaired⟩ := h.paired hN hmeets
    obtain ⟨w', m, hret, hsh, hboth⟩ := hpaired.shares hK hS (hshares k hentry)
    rw [hret] at hreg hmaster ⊢
    obtain ⟨hlock, halive⟩ := hreg rfl
    have hp := Tracee.pending_of_loc (.inl hmeets.atEntry) hmeets.pending
    refine ⟨rfl, hlock, halive, hmaster, ⟨m + k, ?_⟩, hboth, fun u => ?_⟩
    · rw [Function.iterate_add_apply]
      exact hsh
    · exact (h.lock.num_serviced hp (h.alive v) hmeets.sync hret hS.returns u).trans
        (Nat.add_le_add_right (h.num u) 1)

/-- Where both are at the same place, they are the same. -/
theorem Sys.Twin.same (h : s.Twin P own R N n) (hN : N.Fresh)
    (hloc : (s.world.proc .master).loc = (s.world.proc .replica).loc) :
    (s.world.proc .master).shown = (s.world.proc .replica).shown ∧
      (s.world.proc .master).mem = (s.world.proc .replica).mem := by
  obtain ⟨k, hk, hj⟩ := h.together hN hloc
  exact ⟨(congrArg Native.regs hk).trans hj.regs.symm, (congrArg Native.mem hk).trans hj.mem.symm⟩

end Steps

/-! ## Every run -/

/-- **Twins.**  Let the master and the replica be the same program, in the same state to start with,
and let all calls that this program makes by itself be ones that are handed over as they should
be.  In every run under the monitor, as long as no counter can have wrapped round, the main
loop waits and both are alive; the master is where the program comes to by itself, and so is the
replica, which has asked the kernel for something else; and whenever the two are at the same
place, they have the same registers and the same memory. -/
theorem twins {K : Kernel ρ} {P : Program τ} {own : ρ → τ} {R : τ → ρ → Prop} {s₀ s : Sys ρ}
    {es : List (Event ρ)} (hK : K.Runs .master P own) (hS : K.Shadows P R) (h₀ : s₀.world.Started)
    (hmode₀ : s₀.mode = .waiting) (halive : ∀ v, (s₀.world.proc v).alive = true)
    (hsame : Shadow R (s₀.world.native .master own) s₀.world)
    (hshares : ∀ k, (P.next^[k] (s₀.world.native .master own)).loc = .entry →
      P.Shares (P.next^[k] (s₀.world.native .master own)))
    (hrun : ((system ρ).restrict fun _ e => e.By K).Run s₀ es s) (hlen : es.length < 2 ^ 64) :
    s.mode = .waiting ∧ (∀ v, (s.world.proc v).alive = true) ∧
      (∃ k, s.world.native .master own = P.next^[k] (s₀.world.native .master own)) ∧
      (∃ k, Shadow R (P.next^[k] (s₀.world.native .master own)) s.world) ∧
      ((s.world.proc .master).loc = (s.world.proc .replica).loc →
        (s.world.proc .master).shown = (s.world.proc .replica).shown ∧
          (s.world.proc .master).mem = (s.world.proc .replica).mem) := by
  have hfresh : (s₀.world.native .master own).Fresh := ⟨h₀.loc .master, h₀.ran .master⟩
  have hinv : es.length < 2 ^ 64 → s.Twin P own R (s₀.world.native .master own) es.length := by
    refine hrun.invariant_length (I := fun n t => n < 2 ^ 64 →
      t.Twin P own R (s₀.world.native .master own) n) (fun _ => ?_) fun n t e t' ht hstep hn => ?_
    · refine ⟨hmode₀, .of_started h₀, halive, ⟨0, rfl⟩, ⟨0, hsame⟩, fun hl => ?_, fun v => ?_⟩
      · exact absurd ((h₀.loc .replica).symm.trans hl) (by decide)
      · simp [h₀.num v]
    · exact twin_step hK hS hfresh hshares (ht (by omega)) hn hstep.1 hstep.2
  have h := hinv hlen
  exact ⟨h.mode, h.alive, h.master, h.replica, h.same hfresh⟩

/-! ### A program that draws random bytes -/

/-- Eight bytes that are not there before. -/
def drawn (regs : Regs) (mem : Mem) : Mem := fun b =>
  if (b - regs .rdi).toNat < 8 then some 7 else mem b

/-- It calls `getrandom` over and over. -/
def Program.drawing : Program Unit where
  code regs _ := (Function.update regs .origRax Syscall.getrandom.nr, fun _ => some 0)
  call regs mem _ :=
    if regs .origRax = Syscall.getrandom.nr then ((8, 0, 0, drawn regs mem), ()) else ((0, 0, 0, mem), ())

/-- The random bytes are for the master only. -/
def Kernel.drawing : Kernel Unit where
  syscall v t o :=
    if v = .master ∧ t.regs .origRax = Syscall.getrandom.nr then (.ret 8 0 0 (drawn t.regs t.mem), o)
    else (.ret 0 0 0 t.mem, o)
  user _ t _ := .entry (Function.update t.regs .origRax Syscall.getrandom.nr) fun _ => some 0
  killed _ := false
  junk := .stopped

theorem runs_drawing : Kernel.drawing.Runs .master Program.drawing id where
  code t o := by simp [Kernel.drawing, Program.drawing, bare]
  answer t o := by
    by_cases h : t.regs .origRax = Syscall.getrandom.nr <;> simp [Kernel.drawing, Program.drawing, h]
  memory _ _ := rfl
  apart _ _ := rfl

theorem shadows_drawing : Kernel.drawing.Shadows Program.drawing fun _ _ => True where
  plain := ⟨fun v t o regs mem h => by simp [Kernel.drawing] at h, fun _ => rfl⟩
  returns v t o := by
    simp only [Kernel.drawing]
    split <;> simp
  code t o := by simp [Kernel.drawing, Program.drawing, bare]
  apart _ _ _ _ := trivial
  each c ks t o x hc hnr _ := by
    have hother : c.nr ≠ Syscall.getrandom.nr := fun h => by
      obtain rfl : c = .getrandom := Syscall.nr_injective h
      exact absurd hc (by simp [Syscall.scalars])
    refine ⟨?_, trivial⟩
    simp [Kernel.drawing, Program.drawing, hnr, hother]
  instead c regs mem fd rm t o x hc hnr ht _ := by
    refine ⟨⟨0, ?_⟩, trivial⟩
    by_cases h : regs .origRax = Syscall.getrandom.nr <;> simp [Kernel.drawing, Program.drawing, h]

theorem shares_drawing {N : Native Unit} (hloc : N.loc = .user) {k : ℕ}
    (h : (Program.drawing.next^[k] N).loc = .entry) :
    Program.drawing.Shares (Program.drawing.next^[k] N) := by
  obtain ⟨regs, mem, hregs, hmem⟩ := Program.drawing.entry_of_code hloc h
  generalize Program.drawing.next^[k] N = M at hregs hmem ⊢
  have hnr : M.regs .origRax = Syscall.getrandom.nr := by
    rw [hregs]
    simp [Program.drawing]
  have hcall : Program.drawing.call M.regs M.mem M.own = ((8, 0, 0, drawn M.regs M.mem), ()) := if_pos hnr
  have hsize : Program.drawing.filled .getrandom M = 8 := by
    rw [Program.filled, Program.result, hcall]
    rfl
  have hafter : Program.drawing.after M = drawn M.regs M.mem := by rw [Program.after, hcall]
  refine .filled (c := .getrandom) (by decide) hnr ⟨?_, ?_, ?_, ?_, ?_⟩ <;> rw [hsize]
  · decide
  · exact .inr rfl
  · intro i _
    rw [hmem]
    rfl
  · intro i _
    rw [hafter, drawn]
    split
    · rfl
    · rw [hmem]
      rfl
  · intro b hb
    rw [hafter]
    exact if_neg (not_lt.2 hb)

/-- Both variants come to their first `getrandom`, and the call is serviced. -/
def drawingMeet : List (Event Unit) :=
  [.run .master .drawing, .run .replica .drawing, .wake .master .drawing, .wake .replica .drawing]

/-- The replica has asked for its process id, and holds the random bytes. -/
theorem twins_drawing :
    ((((Sys.fresh ()).played drawingMeet).world.proc .replica).ran = [Syscall.getpid.nr] ∧
      (((Sys.fresh ()).played drawingMeet).world.proc .replica).mem 0 = some 7) ∧
    ((Sys.fresh ()).played drawingMeet).mode = .waiting ∧
      (∀ v, (((Sys.fresh ()).played drawingMeet).world.proc v).alive = true) ∧
      (∃ k, ((Sys.fresh ()).played drawingMeet).world.native .master id =
        Program.drawing.next^[k] ((Sys.fresh ()).world.native .master id)) ∧
      (∃ k, Shadow (fun _ _ => True) (Program.drawing.next^[k] ((Sys.fresh ()).world.native .master id))
        ((Sys.fresh ()).played drawingMeet).world) ∧
      ((((Sys.fresh ()).played drawingMeet).world.proc .master).loc =
          (((Sys.fresh ()).played drawingMeet).world.proc .replica).loc →
        (((Sys.fresh ()).played drawingMeet).world.proc .master).shown =
            (((Sys.fresh ()).played drawingMeet).world.proc .replica).shown ∧
          (((Sys.fresh ()).played drawingMeet).world.proc .master).mem =
            (((Sys.fresh ()).played drawingMeet).world.proc .replica).mem) := by
  refine ⟨by decide +kernel, twins runs_drawing shadows_drawing (started_fresh ()) rfl (fun _ => rfl)
    ⟨rfl, rfl, rfl, rfl, trivial⟩ (fun k h => shares_drawing rfl h)
    ((run_played (by decide +kernel)).to_restrict fun e he _ => ?_) (by decide)⟩
  simp only [drawingMeet, List.mem_cons, List.not_mem_nil, or_false] at he
  rcases he with rfl | rfl | rfl | rfl <;> rfl

end Aurora
