import AuroraMVEE.Monitor

/-!
# The control view of the system

Scheduling does not look at memory, at argument registers or at the mapping
table.  `World.ctl` keeps, for each variant, the little that it does look at:
where the variant is, whether the monitor knows, how many entry stops it came to,
which calls ran, the call number it is about to make, and the monitor's `state`
and `syscallNum`.

* `silent_*` — the parts of an executor that move nothing in this view: every
  comparison, every copy that does not fault, every overwritten return value.
* `mayFault_*` — the copies that may fault, and end the monitor.
* `ReadOnly` — what only reads; every verdict does.
-/

namespace Aurora

variable {ρ : Type}

/-- The control state of one variant. -/
structure Ctl where
  loc : Loc
  alive : Bool
  reported : Bool
  traced : Bool
  entries : ℕ
  ran : List Word
  origRax : Word
  state : VState
  num : Word

namespace Ctl

/-- `PTRACE_SYSCALL` from an entry stop. -/
def enterKernel (x : Ctl) : Ctl :=
  { x with loc := .kernel, reported := false, ran := x.ran ++ [x.origRax] }

/-- `PTRACE_SYSCALL` from an exit stop. -/
def enterUser (x : Ctl) : Ctl := { x with loc := .user, reported := false }

/-- Stopped at a system call entry, and the monitor knows it. -/
structure AtEntry (x : Ctl) : Prop where
  loc : x.loc = .entry
  alive : x.alive = true
  reported : x.reported = true
  traced : x.traced = true

/-- Stopped at a system call exit, and the monitor knows it. -/
structure AtExit (x : Ctl) : Prop where
  loc : x.loc = .exit
  alive : x.alive = true
  reported : x.reported = true
  traced : x.traced = true

/-- A variant that was released at its entry stop and came to its exit stop. -/
def finished (x : Ctl) : Ctl :=
  { x with loc := .exit, reported := true, ran := x.ran ++ [x.origRax], state := .running }

/-- A variant that was released at its entry stop and did not survive. -/
def lost (x : Ctl) : Ctl :=
  { x with loc := .kernel, alive := false, reported := true, ran := x.ran ++ [x.origRax],
           state := .running }

theorem AtEntry.finished {x : Ctl} (h : x.AtEntry) : x.finished.AtExit :=
  ⟨rfl, h.alive, rfl, h.traced⟩

end Ctl

/-- The control view of a world. -/
def World.ctl (w : World ρ) (v : Who) : Ctl where
  loc := (w.proc v).loc
  alive := (w.proc v).alive
  reported := (w.proc v).reported
  traced := (w.proc v).traced
  entries := (w.proc v).entries
  ran := (w.proc v).ran
  origRax := (w.proc v).regs .origRax
  state := (w.var v).state
  num := (w.var v).syscallNum

/-- Two processes that differ in nothing the control view shows. -/
structure Tracee.SameCtl (t t' : Tracee) : Prop where
  loc : t'.loc = t.loc
  alive : t'.alive = t.alive
  reported : t'.reported = t.reported
  traced : t'.traced = t.traced
  entries : t'.entries = t.entries
  ran : t'.ran = t.ran
  origRax : t'.regs .origRax = t.regs .origRax

theorem Tracee.SameCtl.refl (t : Tracee) : t.SameCtl t := ⟨rfl, rfl, rfl, rfl, rfl, rfl, rfl⟩

theorem Tracee.SameCtl.trans {t t' t'' : Tracee} (h : t.SameCtl t') (h' : t'.SameCtl t'') :
    t.SameCtl t'' :=
  ⟨h'.loc.trans h.loc, h'.alive.trans h.alive, h'.reported.trans h.reported,
    h'.traced.trans h.traced, h'.entries.trans h.entries, h'.ran.trans h.ran,
    h'.origRax.trans h.origRax⟩

/-- Storing a process with the same control state leaves the view as it was. -/
theorem ctl_setProc_of_same {w : World ρ} {v : Who} {t : Tracee} (h : (w.proc v).SameCtl t) :
    (w.setProc v t).ctl = w.ctl := by
  funext u
  by_cases hu : u = v
  · subst hu
    simp [World.ctl, h.loc, h.alive, h.reported, h.traced, h.entries, h.ran, h.origRax]
  · simp [World.ctl, hu]

/-- A changed process shows in the view at its own place only. -/
theorem ctl_setProc (w : World ρ) (v : Who) (t : Tracee) :
    (w.setProc v t).ctl = Function.update w.ctl v
      ⟨t.loc, t.alive, t.reported, t.traced, t.entries, t.ran, t.regs .origRax,
        (w.var v).state, (w.var v).syscallNum⟩ := by
  funext u
  by_cases hu : u = v
  · subst hu
    simp [World.ctl]
  · simp [World.ctl, hu]

theorem ctl_setVar (w : World ρ) (v : Who) (x : Variant) :
    (w.setVar v x).ctl = Function.update w.ctl v
      { w.ctl v with state := x.state, num := x.syscallNum } := by
  funext u
  by_cases hu : u = v
  · subst hu
    simp [World.ctl]
  · simp [World.ctl, hu]

@[simp] theorem ctl_withBufs (w : World ρ) (β : StaticBuf → Buf) : (w.withBufs β).ctl = w.ctl := rfl

/-! ## What leaves the view alone -/

theorem sameCtl_poke (t : Tracee) (a : Word) (d : Long) : t.SameCtl (t.poke a d) := by
  unfold Tracee.poke
  split <;> exact ⟨rfl, rfl, rfl, rfl, rfl, rfl, rfl⟩

theorem sameCtl_pokeUser (t : Tracee) {r : Reg} (hr : r ≠ .origRax) (x : Word) :
    t.SameCtl (t.pokeUser r x) := by
  unfold Tracee.pokeUser
  split
  · exact ⟨rfl, rfl, rfl, rfl, rfl, rfl, Function.update_of_ne hr.symm x t.regs⟩
  · exact .refl t

theorem sameCtl_setRegs (t : Tracee) {regs : Regs} (h : regs .origRax = t.regs .origRax) :
    t.SameCtl (t.setRegs regs) := by
  unfold Tracee.setRegs
  split
  · exact ⟨rfl, rfl, rfl, rfl, rfl, rfl, h⟩
  · exact .refl t

theorem sameCtl_writeLoop (localBuf : Buf) (remoteBuf : Word) (size : ℕ) :
    ∀ (bytesRemaining bytesTransferred : ℕ) (t : Tracee),
      t.SameCtl (writeLoop localBuf remoteBuf size bytesRemaining bytesTransferred t).1 := by
  intro n
  induction n using Nat.strongRecOn with
  | ind n ih =>
    intro m t
    rw [writeLoop]
    split
    · split
      · exact (sameCtl_poke t _ _).trans (ih (n - 8) (by omega) _ _)
      · exact sameCtl_poke t _ _
    · exact .refl t

theorem sameCtl_writeVariantMem (t : Tracee) (localBuf : Buf) (remoteBuf : Word) (size : ℕ) :
    t.SameCtl (writeVariantMem t localBuf remoteBuf size).1 := by
  unfold writeVariantMem
  split
  · exact sameCtl_poke t _ _
  · exact sameCtl_writeLoop _ _ _ _ _ t

/-- Silent code: it returns, and the control view does not move. -/
abbrev Silent {α : Type} (m : Mon ρ α) : Prop := Prog.Keeps World.ctl m

theorem silent_ptrace (v : Who) {request : Tracee → Tracee} (h : ∀ t : Tracee, t.SameCtl (request t)) :
    Silent (ptrace v request : Mon ρ Unit) :=
  Prog.keeps_modify fun w => ctl_setProc_of_same (h (w.proc v))

theorem silent_requestSyscallInfo (v : Who) : Silent (requestSyscallInfo v : Mon ρ Unit) := by
  refine Prog.keeps_modify fun w => ?_
  rw [ctl_setVar]
  exact Function.update_eq_self v w.ctl

theorem silent_syscallInfoOf (v : Who) : Silent (syscallInfoOf v : Mon ρ SyscallInfo) :=
  Prog.keeps_gets _ _

theorem silent_argOf (v : Who) (k : Fin 6) : Silent (argOf v k : Mon ρ Word) := Prog.keeps_gets _ _

theorem silent_setSyscallReturnValue (v : Who) (x : Word) :
    Silent (setSyscallReturnValue v x : Mon ρ Unit) :=
  silent_ptrace v fun t => sameCtl_pokeUser t (by decide) x

theorem silent_setLseekRegs (v : Who) (fd offset : Word) :
    Silent (setLseekRegs v fd offset : Mon ρ Unit) :=
  silent_ptrace v fun t => sameCtl_setRegs t (by simp)

theorem silent_readStatic (v : Who) (b : StaticBuf) (remoteBuf : Word) (size : ℕ) :
    Silent (readStatic v b remoteBuf size : Mon ρ Int) := fun _ => ⟨_, _, rfl, rfl⟩

/-- Code that does not move the control view, and returns unless a load faults. -/
abbrev MayFault {α : Type} (m : Mon ρ α) : Prop := Prog.KeepsOr {SIGSEGV_STATUS} World.ctl m

theorem mayFault_writeFrom (v : Who) (localBuf : Buf) (remoteBuf : Word) (size : ℕ) :
    MayFault (writeFrom v localBuf remoteBuf size : Mon ρ Int) := by
  intro w
  have hsame (n : ℕ) :
      (w.setProc v (writeVariantMem (w.proc v) localBuf remoteBuf n).1).ctl = w.ctl :=
    ctl_setProc_of_same (sameCtl_writeVariantMem (w.proc v) localBuf remoteBuf n)
  unfold writeFrom
  split
  · exact ⟨_, hsame _, .inr ⟨_, rfl, rfl⟩⟩
  · exact ⟨_, hsame _, .inl ⟨_, rfl⟩⟩

/-- A copy of less than a word, or of whole words, does not fault. -/
theorem Image.not_faults (I : Image) {size : ℕ} (h : size < 8 ∨ size % 8 = 0) : ¬ I.Faults size := by
  rintro ⟨hge, hmod, -⟩
  omega

theorem silent_writeFrom (v : Who) (localBuf : Buf) (remoteBuf : Word) {size : ℕ}
    (h : size < 8 ∨ size % 8 = 0) : Silent (writeFrom v localBuf remoteBuf size : Mon ρ Int) := by
  intro w
  unfold writeFrom
  rw [if_neg (w.image.not_faults h)]
  exact ⟨_, _, rfl, ctl_setProc_of_same (sameCtl_writeVariantMem (w.proc v) localBuf remoteBuf size)⟩

theorem mayFault_transferVariantMem (s : Who) (sBuf : Word) (d : Who) (dBuf : Word) (size : ℕ) :
    MayFault (transferVariantMem s sBuf d dBuf size : Mon ρ Int) := by
  unfold transferVariantMem
  have hpure : MayFault (pure (-1) : Mon ρ Int) := (Prog.keeps_pure _ _).orExits _
  refine .ite (fun _ => hpure) fun _ => ((silent_readStatic _ _ _ _).orExits _).bind fun r => ?_
  refine .ite (fun _ => hpure) fun _ => ((Prog.keeps_gets _ _).orExits _).bind fun buf => ?_
  refine (mayFault_writeFrom _ _ _ _).bind fun n => .ite (fun _ => hpure) fun _ => ?_
  exact (Prog.keeps_pure _ _).orExits _

theorem silent_transferVariantMem (s : Who) (sBuf : Word) (d : Who) (dBuf : Word) {size : ℕ}
    (h : size % 8 = 0) : Silent (transferVariantMem s sBuf d dBuf size : Mon ρ Int) := by
  unfold transferVariantMem
  refine .ite (Prog.keeps_pure _ _) (.bind (silent_readStatic _ _ _ _) fun r => ?_)
  refine .ite (Prog.keeps_pure _ _) (.bind (Prog.keeps_gets _ _) fun buf => ?_)
  exact .bind (silent_writeFrom _ _ _ (.inr h)) fun n => .ite (Prog.keeps_pure _ _) (Prog.keeps_pure _ _)

theorem mayFault_doIf {c : Prop} [Decidable c] {m : Mon ρ Int} (h : MayFault m) :
    MayFault (doIf c m) :=
  .ite (fun _ => h) fun _ => (Prog.keeps_pure _ _).orExits _

/-! ## Comparisons only read -/

/-- Code that returns with at most the static buffers changed. -/
def ReadOnly {α : Type} (m : Mon ρ α) : Prop := ∀ w, ∃ a β, m w = .ret a (w.withBufs β)

namespace ReadOnly

variable {α β : Type}

theorem silent {m : Mon ρ α} (h : ReadOnly m) : Silent m := fun w => by
  obtain ⟨a, β, h⟩ := h w
  exact ⟨a, _, h, rfl⟩

protected theorem pure (a : α) : ReadOnly (pure a : Mon ρ α) := fun w => ⟨a, w.bufs, rfl⟩

theorem gets (f : World ρ → α) : ReadOnly (Prog.gets f) := fun w => ⟨f w, w.bufs, rfl⟩

theorem setBufs (f : World ρ → StaticBuf → Buf) :
    ReadOnly (Prog.modify fun w => w.withBufs (f w)) := fun w => ⟨(), f w, rfl⟩

protected theorem bind {m : Mon ρ α} {f : α → Mon ρ β} (hm : ReadOnly m) (hf : ∀ a, ReadOnly (f a)) :
    ReadOnly (m >>= f) := fun w => by
  obtain ⟨a, β, h⟩ := hm w
  obtain ⟨b, γ, h'⟩ := hf a (w.withBufs β)
  exact ⟨b, γ, by rw [Prog.bind_of_ret h, h', World.withBufs_withBufs]⟩

protected theorem ite {c : Prop} [Decidable c] {m m' : Mon ρ α} (hm : ReadOnly m)
    (hm' : ReadOnly m') : ReadOnly (if c then m else m') := by
  by_cases h : c
  · rwa [if_pos h]
  · rwa [if_neg h]

theorem readStatic (v : Who) (b : StaticBuf) (remoteBuf : Word) (size : ℕ) :
    ReadOnly (readStatic v b remoteBuf size : Mon ρ Int) := fun _ => ⟨_, _, rfl⟩

theorem variantMemCmp (v : Who) (p : Word) (u : Who) (q : Word) (size : ℕ) :
    ReadOnly (variantMemCmp v p u q size : Mon ρ Int) :=
  .ite (.pure _) (.bind (readStatic _ _ _ _) fun _ => .bind (readStatic _ _ _ _) fun _ =>
    .bind (gets _) fun _ => .pure _)

theorem variantStrCmp (v : Who) (p : Word) (u : Who) (q : Word) :
    ReadOnly (variantStrCmp v p u q : Mon ρ Int) := by
  refine .bind (setBufs fun w => Function.update (Function.update w.bufs .bufA fun _ => 0)
    .bufB fun _ => 0) fun _ => .bind (gets _) ?_
  rintro ⟨bufA, scanned⟩
  refine .bind (setBufs fun w => Function.update w.bufs .bufA bufA) fun _ => ?_
  cases scanned with
  | none => exact .pure _
  | some p => exact .bind (readStatic _ _ _ _) fun _ => .bind (gets _) fun _ => .pure _

theorem memArgEq (k : Fin 6) (size : ℕ) : ReadOnly (memArgEq k size : Mon ρ Bool) :=
  .bind (gets _) fun _ => .bind (gets _) fun _ => .bind (variantMemCmp _ _ _ _ _) fun _ => .pure _

theorem strArgEq (k : Fin 6) : ReadOnly (strArgEq k : Mon ρ Bool) :=
  .bind (gets _) fun _ => .bind (gets _) fun _ => .bind (variantStrCmp _ _ _ _) fun _ => .pure _

theorem andIf (eq : Bool) {m : Mon ρ Bool} (h : ReadOnly m) : ReadOnly (andIf eq m) :=
  .ite h (.pure _)

theorem unlessZero (x : Word) {m : Mon ρ Bool} (h : ReadOnly m) : ReadOnly (unlessZero x m) :=
  .ite h (.pure _)

theorem newfstatatPathEq : ReadOnly (newfstatatPathEq : Mon ρ Bool) := by
  refine .bind (gets _) fun path => .bind (gets _) ?_
  rintro ⟨bufA, stringLen⟩
  refine .bind (setBufs fun w => Function.update w.bufs .newfstatat_bufA bufA) fun _ => ?_
  cases stringLen with
  | none => exact .pure _
  | some n =>
    exact .bind (gets _) fun _ => .bind (readStatic _ _ _ _) fun _ => .bind (gets _) fun _ => .pure _

end ReadOnly

/-- No verdict touches a variant, the mapping table or the kernel. -/
theorem readOnly_verdict (c : Syscall) : ReadOnly (verdict c : Mon ρ Bool) := by
  cases c
  case openat =>
    exact .bind (.gets _) fun _ => .bind (.gets _) fun _ => .bind (.unlessZero _ (.gets _)) fun _ =>
      .andIf _ (.strArgEq _)
  case write =>
    exact .bind (.gets _) fun _ => .bind (.gets _) fun _ => .bind (.gets _) fun _ =>
      .andIf _ (.memArgEq _ _)
  case newfstatat =>
    exact .bind (.gets _) fun _ => .bind (.andIf _ .newfstatatPathEq) fun _ => .bind (.gets _) fun _ =>
      .pure _
  case access => exact .bind (.gets _) fun _ => .andIf _ (.strArgEq _)
  case utimensat =>
    exact .bind (.gets _) fun _ => .bind (.andIf _ (.strArgEq _)) fun _ => .andIf _ (.gets _)
  case getcwd => exact .bind (.strArgEq _) fun _ => .bind (.gets _) fun _ => .pure _
  case chdir => exact .strArgEq _
  case unlink => exact .strArgEq _
  case rt_sigprocmask =>
    exact .bind (.gets _) fun _ => .bind (.unlessZero _ (.gets _)) fun _ => .bind (.gets _) fun _ =>
      .andIf _ (.memArgEq _ _)
  case setsockopt =>
    exact .bind (.gets _) fun _ => .bind (.gets _) fun _ => .bind (.gets _) fun _ =>
      .andIf _ (.memArgEq _ _)
  case bind =>
    exact .bind (.gets _) fun _ => .bind (.gets _) fun _ => .bind (.gets _) fun _ =>
      .bind (.memArgEq _ _) fun _ => .pure _
  case accept4 => exact .bind (.gets _) fun _ => .bind (.memArgEq _ _) fun _ => .pure _
  case getsockname =>
    exact .bind (.gets _) fun _ => .bind (.gets _) fun _ => .bind (.gets _) fun _ => .bind (.gets _) fun _ =>
      .bind (.memArgEq _ _) fun _ => .pure _
  case poll => exact .bind (.gets _) fun _ => .bind (.gets _) fun _ => .andIf _ (.memArgEq _ _)
  case pselect6 =>
    exact .bind (.gets _) fun _ => .bind (.memArgEq _ _) fun _ => .bind (.memArgEq _ _) fun _ =>
      .bind (.memArgEq _ _) fun _ => .bind (.memArgEq _ _) fun _ => .bind (.memArgEq _ _) fun _ =>
        .pure _
  case read => exact .bind (.gets _) fun _ => .bind (.gets _) fun _ => .pure _
  case mmap =>
    exact .bind (.gets _) fun _ => .bind (.gets _) fun _ => .bind (.gets _) fun _ =>
      .bind (.gets _) fun _ => .bind (.gets _) fun _ => .pure _
  case mprotect =>
    exact .bind (.gets _) fun _ => .bind (.gets _) fun _ => .bind (.gets _) fun _ =>
      .bind (.gets _) fun _ => .bind (.gets _) fun _ => .pure _
  case munmap =>
    exact .bind (.gets _) fun _ => .bind (.gets _) fun _ => .bind (.gets _) fun _ => .pure _
  all_goals first | exact .pure _ | exact .gets _

end Aurora
