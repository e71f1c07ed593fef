import AuroraMVEE.Replication
import AuroraMVEE.Verdicts

/-!
# The replica's registers

A system call changes `RAX`, `RCX` and `R11` and no other register.  `read` and `write`
redirect the replica's call to `lseek` by changing three argument registers, and do not
change them back: when the replica goes on they hold the arguments of that `lseek`
(`redirected_regs`), so its registers survive only where they held these before
(`registers_survive_iff`).
-/

namespace Aurora

variable {ρ : Type} {K : Kernel ρ} {w w' : World ρ} {c : Syscall}

/-- The general-purpose registers a system call leaves alone. -/
def keptRegs : List Reg :=
  [.r15, .r14, .r13, .r12, .rbp, .rbx, .r10, .r9, .r8, .rdx, .rsi, .rdi, .rsp]

/-- From `w` to `w'` the replica has been resumed to user code, with the registers it came with. -/
structure World.RegsSurvive (w w' : World ρ) : Prop where
  resumed : (w'.proc .replica).loc = .user
  kept : ∀ r ∈ keptRegs, (w'.proc .replica).regs r = (w.proc .replica).regs r

/-- The kernel changes none of them, nor does a return value. -/
theorem retRegs_kept {r : Reg} (hr : r ∈ keptRegs) (regs : Regs) (rax rcx r11 x : Word) :
    Function.update (Tracee.retRegs regs rax rcx r11) .rax x r = regs r := by
  have hne : r ≠ .rax ∧ r ≠ .rcx ∧ r ≠ .r11 := by
    revert hr r
    decide
  simp [Tracee.retRegs, hne]

/-- What `read` and `write` have in common once the replica is redirected: its call, the
master's return value, and both on to user code. -/
theorem Midway.wp_redirected {v b : World ρ} {rm : Word} {mm : Mem} {t : Tracee} {o : ρ}
    (hb : Midway v b .entry rm mm t o) (x : Word) {Q : World ρ → Prop}
    (h : ∀ w' : World ρ, (w'.proc .replica).loc = .user →
      (∀ r ∈ keptRegs, (w'.proc .replica).regs r = t.regs r) → Q w') : Prog.wp (do
      if (← resumeAndWait K .replica) ≠ 0 then return -1
      setSyscallReturnValue .replica x
      resumeVariantFromExit .master
      resumeVariantFromExit .replica
      return 0 : Mon ρ Int) (onZero Q) b := by
  refine hb.wp_replica (fun _ _ _ => onZero_fail) fun rr rcx r11 mr _ b₁ hb₁ => ?_
  refine hb₁.wp_setReturn x fun b₂ hb₂ => hb₂.wp_leave fun b₃ hb₃ _ => ?_
  refine h b₃ (by rw [hb₃.proc]) fun r hr => ?_
  rw [hb₃.proc]
  exact retRegs_kept hr t.regs rr rcx r11 x

/-- After the call `c`, made redirected to the seek by the master's result, the replica is back
in user code with the registers of that seek. -/
def World.Redirected (K : Kernel ρ) (w w' : World ρ) : Prop :=
  ∃ rm rcx r11 mem, (K.answer .master w).1 = .ret rm rcx r11 mem ∧ (w'.proc .replica).loc = .user ∧
    ∀ r ∈ keptRegs, (w'.proc .replica).regs r =
      lseekRegs (w.proc .replica).regs (ofInt (toInt ((w.var .master).syscallInfo.arg 0))) rm r

section

variable (hx : (w.ctl .master).AtEntry) (hy : (w.ctl .replica).AtEntry)

include hx hy

theorem redirected_read : Prog.wp (execSyscallRead K) (onZero (w.Redirected K)) w := by
  refine wp_guarded (readOnly_verdict .read) fun β => wp_argOf_eq (wp_look fun _ => wp_look fun _ => ?_)
  refine wp_masterHalf (w := w.withBufs β) hx hy rfl rfl fun rm mm b hm hb => hb.wp_rval ?_
  rintro i rfl
  obtain ⟨rcx, r11, mem, hans⟩ := hm
  refine hb.wp_doTransfer _ _ _ _ (onZero_exits _) fun a b₁ m hb₁ => ?_
  split
  · exact onZero_fail
  refine hb₁.wp_setLseekRegs _ _ fun b₂ hb₂ => hb₂.wp_setSyscall _ fun b₃ hb₃ => ?_
  refine hb₃.wp_redirected i.rval fun w' huser hregs => ?_
  refine ⟨i.rval, rcx, r11, mem, hans, huser, fun r hr => (hregs r hr).trans ?_⟩
  have hne : r ≠ .origRax := by
    revert hr r
    decide
  exact Function.update_of_ne hne _ _

theorem redirected_write : Prog.wp (execSyscallWrite K) (onZero (w.Redirected K)) w := by
  refine wp_guarded (readOnly_verdict .write) fun β => wp_argOf_eq ?_
  refine wp_masterHalf (w := w.withBufs β) hx hy rfl rfl fun rm mm b hm hb => hb.wp_rval ?_
  rintro i rfl
  obtain ⟨rcx, r11, mem, hans⟩ := hm
  refine hb.wp_setLseekRegs _ _ fun b₁ hb₁ => hb₁.wp_setSyscall_master _ fun b₂ hb₂ => ?_
  exact hb₂.wp_redirected i.rval fun w' huser hregs => ⟨i.rval, rcx, r11, mem, hans, huser, hregs⟩

end

/-- Either executor, once it has succeeded. -/
theorem redirected_regs (hc : c = .read ∨ c = .write) (hw : w.Arrived c)
    (hrun : execSyscall K c w = .ret 0 w') : w.Redirected K w' := by
  have hx := hw.rendezvous.atEntry .master
  have hy := hw.rendezvous.atEntry .replica
  rcases hc with rfl | rfl
  · exact of_onZero (redirected_read hx hy) hrun
  · exact of_onZero (redirected_write hx hy) hrun

/-- The descriptor in the replica's register is the one that is put there. -/
theorem redirected_fd (hc : c = .read ∨ c = .write) (hw : w.Arrived c)
    (hrun : execSyscall K c w = .ret 0 w') :
    ofInt (toInt ((w.var .master).syscallInfo.arg 0)) = (w.proc .replica).regs .rdi := by
  have hfd : ofInt (toInt ((w.var .master).syscallInfo.arg 0)) = (w.var .replica).syscallInfo.arg 0 := by
    rcases hc with rfl | rfl
    · exact ((decides_readEq w).accepted hrun).1.fd
    · exact ((decides_writeEq w).accepted hrun).1.fd
  rw [hfd, hw.info .replica]
  rfl

/-- **The replica's registers survive** an accepted `read` or `write` if and only if its buffer
lay at the address that is the master's result, and its count was `SEEK_CUR`. -/
theorem registers_survive_iff {rm rcx r11 : Word} {mem : Mem} (hc : c = .read ∨ c = .write)
    (hw : w.Arrived c) (hrun : execSyscall K c w = .ret 0 w')
    (hans : (K.answer .master w).1 = .ret rm rcx r11 mem) :
    w.RegsSurvive w' ↔
      (w.proc .replica).regs .rsi = rm ∧ (w.proc .replica).regs .rdx = SEEK_CUR := by
  obtain ⟨rm', rcx', r11', mem', hans', huser, hregs⟩ := redirected_regs hc hw hrun
  obtain ⟨rfl, -⟩ := SysResult.ret.inj (hans.symm.trans hans')
  rw [redirected_fd hc hw hrun] at hregs
  constructor
  · intro h
    exact ⟨(h.kept .rsi (by decide)).symm.trans (hregs .rsi (by decide)),
      (h.kept .rdx (by decide)).symm.trans (hregs .rdx (by decide))⟩
  · rintro ⟨hrsi, hrdx⟩
    refine ⟨huser, fun r hr => (hregs r hr).trans ?_⟩
    -- the seek's registers are those the replica came with
    unfold lseekRegs
    rw [← hrsi, ← hrdx, Function.update_eq_self, Function.update_eq_self, Function.update_eq_self]

/-- The call `c` of one byte at `buf`, on descriptor 3, in both variants. -/
def oneByte (c : Syscall) (buf : Word) : World Unit :=
  .standing (fun _ => callRegs c.nr ![3, buf, 1, 0, 0, 0])
    (fun _ a => if (a - buf).toNat < 8 then some 0 else none) ()

theorem oneByte_arrived (c : Syscall) (buf : Word) : (oneByte c buf).Arrived c :=
  ⟨rendezvous_standing c _ _ _, fun _ => rfl⟩

theorem oneByte_lost {c : Syscall} (hc : c = .read ∨ c = .write) :
    ∃ w', execSyscall (.returning 1) c (oneByte c 0x1000) = .ret 0 w' ∧
      (w'.proc .replica).regs .rsi = 1 ∧ ¬ (oneByte c 0x1000).RegsSurvive w' := by
  have hret : (execSyscall (.returning 1) c (oneByte c 0x1000)).val? = some 0 := by
    rcases hc with rfl | rfl <;> decide +kernel
  have hrsi : ((execSyscall (.returning 1) c (oneByte c 0x1000)).state.proc .replica).regs .rsi = 1 := by
    rcases hc with rfl | rfl <;> decide +kernel
  refine ⟨_, Outcome.eq_ret_of_val? hret, hrsi, fun h => ?_⟩
  have hkept := h.kept .rsi (by decide)
  rw [hrsi] at hkept
  exact absurd hkept (by rcases hc with rfl | rfl <;> decide)

/-- After a `read` or a `write` of one byte the replica's buffer pointer is 1. -/
theorem registers_lost :
    (∃ w', execSyscall (.returning 1) .read (oneByte .read 0x1000) = .ret 0 w' ∧
      (w'.proc .replica).regs .rsi = 1 ∧ ¬ (oneByte .read 0x1000).RegsSurvive w') ∧
    ∃ w', execSyscall (.returning 1) .write (oneByte .write 0x1000) = .ret 0 w' ∧
      (w'.proc .replica).regs .rsi = 1 ∧ ¬ (oneByte .write 0x1000).RegsSurvive w' :=
  ⟨oneByte_lost (.inl rfl), oneByte_lost (.inr rfl)⟩

/-- Where the byte is read to address 1, the pointer is still there. -/
theorem registers_survive_one : (oneByte .read 1).RegsSurvive
    (execSyscall (.returning 1) .read (oneByte .read 1)).state :=
  (registers_survive_iff (.inl rfl) (oneByte_arrived .read 1)
    (Outcome.eq_ret_of_val? (by decide +kernel)) rfl).2 ⟨rfl, rfl⟩

end Aurora
