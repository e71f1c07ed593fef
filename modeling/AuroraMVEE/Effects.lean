import AuroraMVEE.Service
import AuroraMVEE.Verdicts

/-!
# What reaches the replica's kernel, and what the monitor waits for

Two ways in which an executor that runs its call in the master only can go wrong.

* `effect_once_iff` — the replica's kernel should execute a harmless substitute.  In
  `write` the number of the substitute goes to the master, and the replica writes too.
* `wait_discipline_iff` — the monitor should wait only for a variant it has resumed.
  `pselect6` waits for a replica that it has left at its entry stop.
-/

namespace Aurora

variable {ρ : Type}

/-! ## Effects happen once -/

/-- The calls made in the master only. -/
def masterOnly : List Syscall :=
  [.write, .unlink, .utimensat, .fchown, .fchmod, .bind, .listen, .access, .newfstatat, .accept4,
    .poll, .getsockname, .getrandom, .read, .pread64, .getpid]

/-- The harmless call the replica is meant to make instead. -/
def Syscall.substitute : Syscall → Word
  | .read | .write => Syscall.lseek.nr
  | _ => Syscall.getpid.nr

/-- However the executor ends, the replica's kernel has executed nothing but the
substitute. -/
def OnlySubstitute (K : Kernel ρ) (c : Syscall) (w : World ρ) : Prop :=
  ((execSyscall K c w).state.proc .replica).ran = (w.proc .replica).ran ∨
    ((execSyscall K c w).state.proc .replica).ran = (w.proc .replica).ran ++ [c.substitute]

theorem plan_substitute {c : Syscall} (hc : c ∈ masterOnly) (hw : c ≠ .write) :
    (c.plan .replica).nr = c.substitute := by
  cases c <;> first | rfl | exact absurd rfl hw | exact absurd hc (by decide)

/-- `execSyscall_write` from the master's exit stop on. -/
def writeRest (K : Kernel ρ) (masterFd : Word) : Mon ρ Int := do
  requestSyscallInfo .master
  let bytesWritten := (← syscallInfoOf .master).rval
  setLseekRegs .replica masterFd bytesWritten
  setSyscall .master Syscall.lseek.nr
  if (← resumeAndWait K .replica) ≠ 0 then return -1
  setSyscallReturnValue .replica bytesWritten
  resumeVariantFromExit .master
  resumeVariantFromExit .replica
  return 0

/-- Once the master has made its `write`, the replica makes its own. -/
theorem via_writeRest {x y : Ctl} (K : Kernel ρ) (hx : x.AtEntry) (hy : y.AtEntry) (fd : Word) :
    Prog.Via World.ctl (pair x.finished y) (writeRest K fd)
      ⟨fun _ C => (C .replica).ran = y.ran ++ [y.origRax], fun _ => False, fun _ _ => False⟩ := by
  refine .keeps (silent_requestSyscallInfo _) fun _ => .keeps (silent_syscallInfoOf _) fun _ =>
    .keeps (silent_setLseekRegs _ _ _) fun _ => ?_
  refine via_setSyscall (.inr (by simpa using hx.finished)) ?_
  rw [update_pair_master]
  refine via_replicaHalf hy rfl (fun _ => rfl) (.keeps (silent_setSyscallReturnValue _ _) fun _ => ?_)
  exact via_leaveBoth ⟨rfl, hx.alive, rfl, hx.traced⟩ hy.finished rfl

section Write

variable {K : Kernel ρ} {w : World ρ}

/-- A `write` that compares equal, in which the master is lost. -/
theorem write_died (hm : (w.ctl .master).AtEntry) (h : w.SameWrite)
    (hans : (K.answer .master w).1 = .died) :
    ∃ β, execSyscall K .write w = .ret (-1) ((w.withBufs β).through K .master) := by
  obtain ⟨β, hβ⟩ := (decides_writeEq w).ret_true h
  refine ⟨β, (guarded_true hβ _).trans ?_⟩
  rw [Prog.bind_of_ret (show argOf .master 0 (w.withBufs β) = .ret _ _ from rfl)]
  exact resumeAndWait_or_died (w := w.withBufs β) hm hans _

/-- A `write` that compares equal, in which the master comes to its exit stop. -/
theorem write_ret (hm : (w.ctl .master).AtEntry) (h : w.SameWrite) {rax rcx r11 : Word} {mem : Mem}
    (hans : (K.answer .master w).1 = .ret rax rcx r11 mem) :
    ∃ β, execSyscall K .write w =
      writeRest K (ofInt (toInt ((w.var .master).syscallInfo.arg 0)))
        ((w.withBufs β).through K .master) := by
  obtain ⟨β, hβ⟩ := (decides_writeEq w).ret_true h
  refine ⟨β, (guarded_true hβ _).trans ?_⟩
  rw [Prog.bind_of_ret (show argOf .master 0 (w.withBufs β) = .ret _ _ from rfl)]
  exact resumeAndWait_or_ret (w := w.withBufs β) hm hans _

/-- What a `write` lets the replica's kernel execute. -/
theorem onlySubstitute_write_iff (hR : Rendezvous .write w.ctl) :
    OnlySubstitute K .write w ↔ ¬ (w.SameWrite ∧ (K.answer .master w).1 ≠ .died) := by
  have hm : (w.ctl .master).AtEntry := hR.atEntry .master
  have hr : (w.ctl .replica).AtEntry := hR.atEntry .replica
  unfold OnlySubstitute
  by_cases hsame : w.SameWrite
  · cases hans : (K.answer .master w).1 with
    | died =>
      obtain ⟨β, hexec⟩ := write_died hm hsame hans
      refine iff_of_true (.inl ?_) (fun h => h.2 rfl)
      rw [hexec]
      exact congrArg Tracee.ran (through_proc_of_ne (w := w.withBufs β) K (by decide))
    | ret rax rcx r11 mem =>
      obtain ⟨β, hexec⟩ := write_ret hm hsame hans
      refine iff_of_false ?_ (not_not.2 ⟨hsame, by simp⟩)
      have hctl : ((w.withBufs β).through K .master).ctl =
          pair (w.ctl .master).finished (w.ctl .replica) := by
        rw [ctl_through_ret (w := w.withBufs β) hm hans, ctl_withBufs, ← update_pair_master,
          pair_eta]
      have hrest := via_writeRest K hm hr (ofInt (toInt ((w.var .master).syscallInfo.arg 0))) _ hctl
      have hran : ((execSyscall K .write w).state.proc .replica).ran =
          (w.proc .replica).ran ++ [Syscall.write.nr] := by
        rw [hexec, ← hR.call .replica]
        exact Prog.state_of_wp hrest (fun _ _ h => h) (fun _ h => h.elim) fun _ _ h => h.elim
      rw [hran]
      simp [Syscall.substitute, Syscall.nr]
  · obtain ⟨β, hβ⟩ := (decides_writeEq w).ret_false hsame
    refine iff_of_true (.inl ?_) (fun h => hsame h.1)
    rw [show execSyscall K .write w = .ret (-1) (w.withBufs β) from guarded_false hβ _]
    rfl

end Write

/-- **Effects happen once.**  With both variants at the entry of a call made in the
master only, the replica's kernel executes nothing but the substitute, if and only if
the call is not a `write` that compares equal and from which the master returns. -/
theorem effect_once_iff (K : Kernel ρ) {c : Syscall} (hc : c ∈ masterOnly) {w : World ρ}
    (hR : Rendezvous c w.ctl) :
    OnlySubstitute K c w ↔
      ¬ (c = .write ∧ w.SameWrite ∧ (K.answer .master w).1 ≠ .died) := by
  by_cases hw : c = .write
  · subst hw
    rw [onlySubstitute_write_iff hR]
    simp
  · refine iff_of_true ?_ (fun h => hw h.1)
    have hwithin := within_plan K hR .replica
    rw [Plan.Within, plan_substitute hc hw] at hwithin
    exact hwithin

/-! ### One write, made twice -/

/-- Both variants at the entry of `write(1, p, 1)`. -/
def writeOne : World Unit :=
  .standing (fun _ => callRegs Syscall.write.nr ![1, 0x1000, 1, 0, 0, 0])
    (fun _ a => if 0x1000 ≤ a.toNat ∧ a.toNat < 0x1008 then some 65 else none) ()

/-- The master writes its byte, and so does the replica. -/
theorem write_twice :
    (∃ w, execSyscall (.returning 1) .write writeOne = .ret 0 w) ∧
      ∀ v, ((execSyscall (.returning 1) .write writeOne).state.proc v).ran = [Syscall.write.nr] :=
  ⟨⟨_, Outcome.eq_ret_of_val? (by decide +kernel)⟩, Who.forall_iff.2 (by decide +kernel)⟩

/-- For an `unlink`, the equivalence lets the replica make its `getpid`. -/
theorem effect_once_unlink : OnlySubstitute (.returning 0) .unlink
    (.standing (fun _ => callRegs Syscall.unlink.nr ![0, 0, 0, 0, 0, 0]) (fun _ _ => none) ()) :=
  (effect_once_iff (.returning 0) (by decide) (rendezvous_standing .unlink _ _ ())).2
    fun h => absurd h.1 (by decide)

/-! ## The wait discipline -/

/-- `execSyscall_pselect6` from the master's exit stop on. -/
def pselect6Rest (K : Kernel ρ) (masterSets replicaSets : Fin 3 → Word) : Mon ρ Int := do
  requestSyscallInfo .master
  let masterRVal := toInt (← syscallInfoOf .master).rval
  setNopSyscall .replica
  if (← waitVariant K .replica) ≠ 0 then return -1
  setSyscallReturnValue .replica (ofInt masterRVal)
  let _ ← doIf (BitVec.slt 0 masterRVal) (transferFdSets transferVariantMem masterSets replicaSets)
  resumeVariantFromExit .master
  resumeVariantFromExit .replica
  return 0

/-- It blocks: the replica still stands at its entry stop. -/
theorem via_pselect6Rest {x y : Ctl} {K : Kernel ρ} (hK : K.killed .replica = false)
    (hy : y.AtEntry) (ms rs : Fin 3 → Word) :
    Prog.Via World.ctl (pair x.finished y) (pselect6Rest K ms rs)
      ⟨fun _ _ => False, fun _ => True, fun _ _ => False⟩ := by
  refine .keeps (silent_requestSyscallInfo _) fun _ => .keeps (silent_syscallInfoOf _) fun _ => ?_
  refine via_substitute hy (.bind (R := ⟨fun _ _ => False, fun _ => True, fun _ _ => False⟩) ?_
    (fun _ _ h => h.elim) (fun _ h => h) (fun _ _ h => h))
  exact via_waitVariant_seen (by simpa using hy.with_origRax _)
    (fun hk => absurd (hK.symm.trans hk) (by decide)) trivial

section Pselect6

variable {K : Kernel ρ} {w : World ρ}

/-- The six pointers `execSyscall_pselect6` takes from the entry stops. -/
def World.fdSets (w : World ρ) (v : Who) : Fin 3 → Word :=
  ![(w.var v).syscallInfo.arg 1, (w.var v).syscallInfo.arg 2, (w.var v).syscallInfo.arg 3]

/-- A `pselect6` that compares equal, up to the end of the master's call. -/
theorem pselect6_apply (h : w.SamePselect6) :
    ∃ β, execSyscall K .pselect6 w =
      (do
        if (← resumeAndWait K .master) ≠ 0 then return -1
        pselect6Rest K (w.fdSets .master) (w.fdSets .replica) : Mon ρ Int) (w.withBufs β) := by
  obtain ⟨β, hβ⟩ := (decides_pselect6Eq w).ret_true h
  exact ⟨β, (guarded_true hβ _).trans rfl⟩

/-- When a `pselect6` blocks. -/
theorem pselect6_hung_iff (hK : ∀ v, K.killed v = false) (hR : Rendezvous .pselect6 w.ctl) :
    (∃ w', execSyscall K .pselect6 w = .hung w') ↔
      w.SamePselect6 ∧ (K.answer .master w).1 ≠ .died := by
  have hm : (w.ctl .master).AtEntry := hR.atEntry .master
  have hr : (w.ctl .replica).AtEntry := hR.atEntry .replica
  by_cases hsame : w.SamePselect6
  · obtain ⟨β, hexec⟩ := pselect6_apply (K := K) hsame
    rw [hexec]
    cases hans : (K.answer .master w).1 with
    | died =>
      rw [resumeAndWait_or_died (w := w.withBufs β) hm hans]
      simp
    | ret rax rcx r11 mem =>
      rw [resumeAndWait_or_ret (w := w.withBufs β) hm hans]
      refine iff_of_true ?_ ⟨hsame, by simp⟩
      have hctl : ((w.withBufs β).through K .master).ctl =
          pair (w.ctl .master).finished (w.ctl .replica) := by
        rw [ctl_through_ret (w := w.withBufs β) hm hans, ctl_withBufs, ← update_pair_master,
          pair_eta]
      have hrest := via_pselect6Rest (hK .replica) hr (w.fdSets .master) (w.fdSets .replica) _ hctl
      cases ho : pselect6Rest K (w.fdSets .master) (w.fdSets .replica)
          ((w.withBufs β).through K .master) with
      | ret r w' => exact (Prog.ret_of_wp hrest ho).elim
      | hung w' => exact ⟨w', rfl⟩
      | exited code w' => exact (Prog.exited_of_wp hrest ho).elim
  · obtain ⟨β, hβ⟩ := (decides_pselect6Eq w).ret_false hsame
    rw [show execSyscall K .pselect6 w = .ret (-1) (w.withBufs β) from guarded_false hβ _]
    simp [hsame]

end Pselect6

/-- **The wait discipline.**  With both variants at the entry of an implemented call, and
nobody else killing them, the executor never waits for a variant it has not resumed, if
and only if the call is not a `pselect6` that compares equal and from which the master
returns. -/
theorem wait_discipline_iff {K : Kernel ρ} (hK : ∀ v, K.killed v = false) {c : Syscall}
    {w : World ρ} (hR : Rendezvous c w.ctl) :
    (∀ w', execSyscall K c w ≠ .hung w') ↔
      ¬ (c = .pselect6 ∧ w.SamePselect6 ∧ (K.answer .master w).1 ≠ .died) := by
  by_cases hc : c = .pselect6
  · subst hc
    rw [← not_exists, pselect6_hung_iff hK hR]
    simp
  · refine iff_of_true (fun w' hw' => ?_) (fun h => hc h.1)
    exact absurd (Prog.hung_of_wp (execSyscall_follows K c hR w rfl) hw').1 hc

/-! ### A `pselect6` that never comes back -/

/-- Both variants at the entry of a `pselect6` of no descriptors, with a timeout of zero at
`0x1000`. -/
def pselect6None : World Unit :=
  .standing (fun _ => callRegs Syscall.pselect6.nr ![0, 0, 0, 0, 0x1000, 0])
    (fun _ a => if 0x1000 ≤ a.toNat ∧ a.toNat < 0x1010 then some 0 else none) ()

theorem pselect6_blocks :
    (execSyscall (.returning 0) .pselect6 pselect6None).isHung = true ∧
      ((execSyscall (.returning 0) .pselect6 pselect6None).state.proc .replica).loc = .entry := by
  decide +kernel

/-- Both variants at the entry of `accept4(3, NULL, NULL, 0)`. -/
def accept4None : World Unit :=
  .standing (fun _ => callRegs Syscall.accept4.nr ![3, 0, 0, 0, 0, 0]) (fun _ _ => none) ()

/-- An `accept4` does come back. -/
theorem wait_discipline_accept4 :
    (execSyscall (.returning 4) .accept4 accept4None).isHung = false := by
  rw [Outcome.isHung_eq_false_iff]
  exact (wait_discipline_iff (K := .returning 4) (fun _ => rfl)
    (rendezvous_standing .accept4 _ _ ())).2 fun h => absurd h.1 (by decide)

end Aurora
