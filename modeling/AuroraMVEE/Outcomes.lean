import AuroraMVEE.Events
import AuroraMVEE.Served
import AuroraMVEE.Verdicts

/-!
# Deaths and return values

What the caller of an executor, and the replica, learn of how the kernel calls ended.

* `death_reported_iff` — a variant that dies while an executor waits for it should make
  every caller up to the main loop fail.  `access` drops the return code.
* `returns_alike_iff` — a replica whose executor succeeds should find the master's result in
  its return register.  `set_tid_address` leaves the replica's own there.
-/

namespace Aurora

variable {ρ : Type}

/-! ## The return code of `access` -/

/-- One of the two does not survive: the master its call, or the replica its `getpid`. -/
def Kernel.DiesInside (K : Kernel ρ) (w : World ρ) : Prop :=
  (K.answer .master w).1 = .died ∨ (K.nopAnswer w).1 = .died

section Replicate

variable {K : Kernel ρ} {w : World ρ} (hx : (w.ctl .master).AtEntry) (hy : (w.ctl .replica).AtEntry)

include hx hy

/-- `runMasterReplicateRet` succeeds exactly if both survive. -/
theorem runMasterReplicateRet_val :
    (K.DiesInside w ∧ (runMasterReplicateRet K w).val? = some (-1)) ∨
      (¬ K.DiesInside w ∧ (runMasterReplicateRet K w).val? = some 0) := by
  have hpost : Prog.wp (runMasterReplicateRet K)
      ⟨fun r _ => (K.DiesInside w ∧ r = -1) ∨ (¬ K.DiesInside w ∧ r = 0), fun _ => False,
        fun _ _ => False⟩ w := by
    refine wp_master hx hy rfl (fun hdied => .inl ⟨.inl hdied, rfl⟩) fun rm rcx r11 mm hans b hb => ?_
    refine hb.wp_rval fun _ _ => hb.wp_setSyscall _ fun b₁ hb₁ => hb₁.wp_replica (fun hnop _ _ => ?_) ?_
    · exact .inl ⟨.inr (by rw [nopAnswer_apply hy]; exact hnop), rfl⟩
    · intro rr rcx' r11' mr hnop b₂ hb₂
      refine hb₂.wp_setReturn _ fun b₃ hb₃ => hb₃.wp_leave fun _ _ => .inr ⟨?_, rfl⟩
      rintro (h | h)
      · exact absurd (hans.symm.trans h) (by simp)
      · rw [nopAnswer_apply hy] at h
        exact absurd (hnop.symm.trans h) (by simp)
  cases hrun : runMasterReplicateRet K w with
  | ret r w' =>
    rcases Prog.ret_of_wp hpost hrun with ⟨hdies, rfl⟩ | ⟨hlives, rfl⟩
    · exact .inl ⟨hdies, rfl⟩
    · exact .inr ⟨hlives, rfl⟩
  | hung w' => exact (Prog.hung_of_wp hpost hrun).elim
  | exited code w' => exact (Prog.exited_of_wp hpost hrun).elim

/-- It returns 0 with both alive, and anything else with one of them gone. -/
theorem runMasterReplicateRet_alive {r : Int} {w' : World ρ}
    (hrun : runMasterReplicateRet K w = .ret r w') :
    r = 0 ↔ ∀ v, (w'.proc v).alive = true := by
  have hvia : Prog.Via World.ctl (pair (w.ctl .master) (w.ctl .replica)) (runMasterReplicateRet K)
      ⟨fun r C => r = 0 ↔ ∀ v, (C v).alive = true, fun _ => True, fun _ _ => True⟩ := by
    refine via_runMasterReplicateRet hx hy (fun _ => ?_) (fun _ => ?_) ?_
    · exact iff_of_false (by decide) fun h => absurd (h .master) (by simp [Ctl.lost])
    · exact iff_of_false (by decide) fun h => absurd (h .replica) (by simp [Ctl.lost])
    · exact iff_of_true rfl (Who.forall_iff.2 ⟨hx.alive, hy.alive⟩)
  exact Prog.ret_of_wp (hvia w (pair_eta w.ctl).symm) hrun

end Replicate

/-! ## Deaths -/

/-- If a variant is dead when `m` is done, `m` has returned something else than 0. -/
def ReportsDeath (m : Mon ρ Int) (w : World ρ) : Prop :=
  (∃ v, ((m w).state.proc v).alive = false) → ∃ r w', m w = .ret r w' ∧ r ≠ 0

theorem reportsDeath_of_alive {m : Mon ρ Int} {w : World ρ}
    (h : ∀ v, ((m w).state.proc v).alive = true) : ReportsDeath m w := by
  rintro ⟨v, hv⟩
  exact absurd ((h v).symm.trans hv) (by decide)

theorem reportsDeath_of_ne {m : Mon ρ Int} {w w' : World ρ} {r : Int} (hrun : m w = .ret r w')
    (hr : r ≠ 0) : ReportsDeath m w := fun _ => ⟨r, w', hrun, hr⟩

section Deaths

variable {K : Kernel ρ} {c : Syscall} {w : World ρ}

/-- A `pselect6` that blocks does so with both variants alive. -/
theorem pselect6_hung_alive (hR : Rendezvous .pselect6 w.ctl) {w' : World ρ}
    (hrun : execSyscall K .pselect6 w = .hung w') (v : Who) : (w'.proc v).alive = true := by
  have hx := hR.atEntry .master
  have hy := hR.atEntry .replica
  have hvia : Prog.Via World.ctl (pair (w.ctl .master) (w.ctl .replica)) (execSyscallPselect6 K)
      ⟨fun _ _ => True, fun C => ∀ v, (C v).alive = true, fun _ _ => True⟩ := by
    refine .keeps (readOnly_verdict .pselect6).silent fun _ => .ite (fun _ => ?_) fun _ => .pure trivial
    refine .keeps (silent_argOf _ _) fun _ => .keeps (silent_argOf _ _) fun _ =>
      .keeps (silent_argOf _ _) fun _ => .keeps (silent_argOf _ _) fun _ =>
        .keeps (silent_argOf _ _) fun _ => .keeps (silent_argOf _ _) fun _ => ?_
    refine via_masterHalf hx rfl (fun _ => trivial) ?_
    refine .keeps (silent_requestSyscallInfo _) fun _ => .keeps (silent_syscallInfoOf _) fun _ =>
      via_substitute hy ?_
    refine .bind (R := ⟨fun a _ => a = -1, fun C => ∀ v, (C v).alive = true, fun _ _ => False⟩)
      ?_ ?_ (fun _ h => h) fun _ _ h => h.elim
    · refine via_waitVariant_seen (by simpa using hy.with_origRax _) (fun _ => rfl) ?_
      exact Who.forall_iff.2 ⟨hx.alive, hy.alive⟩
    · rintro a C' rfl
      exact .pure trivial
  exact Prog.hung_of_wp (hvia w (pair_eta w.ctl).symm) hrun v

/-- Any executor but that of `access`. -/
theorem reportsDeath_of_ne_access (hR : Rendezvous c w.ctl) (hc : c ≠ .access) :
    ReportsDeath (execSyscall K c) w := by
  have hpost := execSyscall_follows K c hR w rfl
  cases hrun : execSyscall K c w with
  | ret r w' =>
    by_cases hr : r = 0
    · subst hr
      refine reportsDeath_of_alive fun v => ?_
      rcases (Prog.ret_of_wp hpost hrun).1 rfl with hdone | ⟨⟨hacc, -⟩, -⟩
      · rw [hrun]
        exact (hdone v).alive
      · exact absurd hacc hc
    · exact reportsDeath_of_ne hrun hr
  | hung w' =>
    obtain rfl : c = .pselect6 := (Prog.hung_of_wp hpost hrun).1
    refine reportsDeath_of_alive fun v => ?_
    rw [hrun]
    exact pselect6_hung_alive hR hrun v
  | exited code w' =>
    -- a copy that faults finds both alive
    refine reportsDeath_of_alive fun v => ?_
    rw [hrun]
    exact (Prog.exited_of_wp hpost hrun).2.1 v

/-- `access` reports a death only if it has not compared equal. -/
theorem reportsDeath_access_iff (hR : Rendezvous .access w.ctl) :
    ReportsDeath (execSyscall K .access) w ↔ ¬ (w.SameAccess ∧ K.DiesInside w) := by
  have hx := hR.atEntry .master
  have hy := hR.atEntry .replica
  by_cases hsame : w.SameAccess
  · obtain ⟨β, hβ⟩ := (decides_accessEq w).ret_true hsame
    have hexec : execSyscall K .access w = (do
        let _ ← runMasterReplicateRet K
        return 0 : Mon ρ Int) (w.withBufs β) := guarded_true hβ _
    have hval := runMasterReplicateRet_val (K := K) (w := w.withBufs β) hx hy
    have hdies : K.DiesInside (w.withBufs β) ↔ K.DiesInside w := Iff.rfl
    rw [hdies] at hval
    -- whatever it returned, `access` returns 0 in the same state
    have hzero : ∀ {r : Int}, (runMasterReplicateRet K (w.withBufs β)).val? = some r →
        execSyscall K .access w = .ret 0 (runMasterReplicateRet K (w.withBufs β)).state := by
      intro r hr
      rw [hexec, Prog.bind_of_ret (Outcome.eq_ret_of_val? hr)]
      rfl
    rcases hval with ⟨hd, hr⟩ | ⟨hd, hr⟩
    · refine iff_of_false (fun h => ?_) (not_not.2 ⟨hsame, hd⟩)
      have halive := runMasterReplicateRet_alive (w := w.withBufs β) hx hy (Outcome.eq_ret_of_val? hr)
      have hne : ¬ (-1 : Int) = 0 := by decide
      obtain ⟨v, hv⟩ := not_forall.1 (mt halive.2 hne)
      obtain ⟨r, w', hrun, hne⟩ := h ⟨v, by rw [hzero hr]; exact Bool.eq_false_of_not_eq_true hv⟩
      exact hne (Outcome.ret.inj (hrun.symm.trans (hzero hr))).1
    · refine iff_of_true (reportsDeath_of_alive fun v => ?_) fun h => hd h.2
      rw [hzero hr]
      exact (runMasterReplicateRet_alive (w := w.withBufs β) hx hy (Outcome.eq_ret_of_val? hr)).1 rfl v
  · obtain ⟨β, hβ⟩ := (decides_accessEq w).ret_false hsame
    have hexec : execSyscall K .access w = .ret (-1) (w.withBufs β) := guarded_false hβ _
    exact iff_of_true (reportsDeath_of_ne hexec (by decide)) fun h => hsame h.1

theorem reportsDeath_exec_iff (hR : Rendezvous c w.ctl) :
    ReportsDeath (execSyscall K c) w ↔ ¬ (c = .access ∧ w.SameAccess ∧ K.DiesInside w) := by
  by_cases hc : c = .access
  · subst hc
    rw [reportsDeath_access_iff hR]
    simp
  · exact iff_of_true (reportsDeath_of_ne_access hR hc) fun h => hc h.1

end Deaths

/-! ## The callers -/

/-- `waitpid(-1)` has handed over `v`, its partner is marked as waiting, and both stand at
the entry of `c`, with both structs up to date. -/
structure Meeting (c : Syscall) (v : Who) (w : World ρ) : Prop where
  sync : w.callsSync v
  rendezvous : Rendezvous c (w.noted v).ctl
  info : ∀ u, ((w.noted v).var u).syscallInfo = .ofEntry ((w.noted v).proc u).regs

section Callers

variable {K : Kernel ρ} {c : Syscall} {v : Who} {w : World ρ}

/-- There `processSyscallSync` is the executor of `c`. -/
theorem Meeting.processSyscallSync (h : Meeting c v w) :
    processSyscallSync K (w.noted v) = execSyscall K c (w.noted v) := by
  refine processSyscallSync_call K fun u => ?_
  rw [h.info u]
  exact ⟨rfl, h.rendezvous.call u⟩

/-- What `processVariantEvent` makes of the end of `processSyscallSync`. -/
theorem reportsDeath_event (h : w.callsSync v)
    (hsync : ReportsDeath (processSyscallSync K) (w.noted v)) :
    ReportsDeath (processVariantEvent K v) w := by
  unfold ReportsDeath at hsync ⊢
  rw [processVariantEvent_sync h, Prog.bind_apply]
  cases hrun : processSyscallSync K (w.noted v) with
  | ret r w' =>
    rw [hrun] at hsync
    by_cases hr : r = 0
    · subst hr
      rintro ⟨u, hu⟩
      obtain ⟨r, w'', heq, hne⟩ := hsync ⟨u, hu⟩
      exact absurd (Outcome.ret.inj heq).1.symm hne
    · refine fun _ => ⟨r, w'.bothKilled, ?_, hr⟩
      show (if r ≠ 0 then (do killBoth; return r) else return 0 : Mon ρ Int) w' = _
      rw [if_pos hr]
      rfl
  | hung w' =>
    rw [hrun] at hsync
    rintro ⟨u, hu⟩
    obtain ⟨r, w'', heq, -⟩ := hsync ⟨u, hu⟩
    exact absurd heq (by simp)
  | exited code w' =>
    rw [hrun] at hsync
    rintro ⟨u, hu⟩
    obtain ⟨r, w'', heq, -⟩ := hsync ⟨u, hu⟩
    exact absurd heq (by simp)

/-- The main loop goes back to `waitpid(-1)` only with both variants alive. -/
theorem alive_of_reportsDeath (halive : (w.proc v).alive = true)
    (h : ReportsDeath (processVariantEvent K v) w) {r : Int} {w' : World ρ}
    (hrun : mainIteration K v w = .ret r w') (u : Who) : (w'.proc u).alive = true := by
  have hstat : (w.proc v).waitStatus = .stopped := by simp [Tracee.waitStatus, halive]
  unfold mainIteration at hrun
  rw [Prog.bind_of_ret (Prog.gets_apply _ _), hstat, if_neg (by decide), Prog.bind_apply] at hrun
  by_contra hdead
  have hdead' := Bool.eq_false_of_not_eq_true hdead
  unfold ReportsDeath at h
  cases ho : processVariantEvent K v w with
  | ret r' w'' =>
    rw [ho] at hrun h
    by_cases hr : r' = 0
    · subst hr
      obtain rfl : w'' = w' := (Outcome.ret.inj hrun).2
      obtain ⟨r, w₁, heq, hne⟩ := h ⟨u, hdead'⟩
      exact hne (Outcome.ret.inj heq).1.symm
    · simp only at hrun
      rw [if_pos hr] at hrun
      exact absurd hrun (by simp [exitProcess])
  | hung w'' => rw [ho] at hrun; exact absurd hrun (by simp)
  | exited code w'' => rw [ho] at hrun; exact absurd hrun (by simp)

/-- **Deaths are reported.**  Where both variants meet at a call, a variant that dies while
the executor waits for it makes the executor, `processSyscallSync` and
`processVariantEvent` fail, and the main loop does not go on, if and only if the call is
not an `access` that compares equal and in which one of the two dies. -/
theorem death_reported_iff (h : Meeting c v w) :
    (ReportsDeath (execSyscall K c) (w.noted v) ∧
      ReportsDeath (processSyscallSync K) (w.noted v) ∧
      ReportsDeath (processVariantEvent K v) w ∧
      ∀ r w', mainIteration K v w = .ret r w' → ∀ u, (w'.proc u).alive = true) ↔
      ¬ (c = .access ∧ (w.noted v).SameAccess ∧ K.DiesInside (w.noted v)) := by
  rw [← reportsDeath_exec_iff h.rendezvous]
  refine ⟨fun hall => hall.1, fun hexec => ?_⟩
  have hsync : ReportsDeath (processSyscallSync K) (w.noted v) := by
    unfold ReportsDeath at hexec ⊢
    rwa [h.processSyscallSync]
  have hevent := reportsDeath_event h.sync hsync
  have halive : (w.proc v).alive = true := (h.rendezvous.atEntry v).alive
  exact ⟨hexec, hsync, hevent, fun r w' hrun => alive_of_reportsDeath halive hevent hrun⟩

end Callers

/-! ### An `access` in which the master is killed -/

/-- Both variants at the entry of one call, the master held there. -/
def World.met (c : Syscall) (args : Fin 6 → Word) : World Unit :=
  (World.standing (fun _ => callRegs c.nr args) (fun _ _ => none) ()).held .master

theorem rendezvous_met (c : Syscall) (args : Fin 6 → Word) : Rendezvous c (World.met c args).ctl :=
  ⟨fun _ => ⟨rfl, rfl, rfl, rfl⟩, fun _ => rfl⟩

theorem meeting_met (c : Syscall) (args : Fin 6 → Word) : Meeting c .replica (.met c args) where
  sync := ⟨rfl, rfl, rfl⟩
  rendezvous := by
    rw [World.noted_ctl]
    exact rendezvous_met c args
  info := Who.forall_iff.2 ⟨rfl, rfl⟩

/-- A kernel under which the variant `u` does not survive any call. -/
def Kernel.fatal (u : Who) : Kernel Unit :=
  { Kernel.returning 0 with syscall := fun v t o =>
      (if v = u then .died else .ret 0 0 0 t.mem, o) }

/-- Memory that cannot be read compares equal, as a string that does not end. -/
theorem sameAccess_met (args : Fin 6 → Word) :
    ((World.met .access args).noted .replica).SameAccess := by
  have hbyte : ∀ u p i, (((World.met .access args).noted .replica).proc u).byteAt p i = 0xff := by
    intro u p i
    have hmapped : ∀ a, (((World.met .access args).noted .replica).proc u).wordMapped a = false :=
      fun a => decide_eq_false fun h => absurd (h 0) (by cases u <;> simp [World.met, World.standing,
        World.held, World.noted])
    unfold Tracee.byteAt Tracee.peek
    rw [hmapped, Bool.and_false, if_neg Bool.false_ne_true]
  refine ⟨fun k _ => rfl, fun i _ => ?_, fun i _ => ?_⟩
  · rw [hbyte]
    decide
  · rw [hbyte, hbyte]

/-- The master is killed in `access(NULL, 0)`.  The main loop goes back to its `waitpid`,
with the master reaped and the replica at its entry stop. -/
theorem access_drops_death : Meeting .access .replica (.met .access 0) ∧
    ∃ w, execSyscall (.fatal .master) .access ((World.met .access 0).noted .replica) = .ret 0 w ∧
      mainIteration (.fatal .master) .replica (.met .access 0) = .ret 0 w ∧
      (w.proc .master).reaped = true ∧ (w.proc .replica).loc = .entry := by
  have hmeet := meeting_met .access 0
  obtain ⟨β, hβ⟩ := (decides_accessEq _).ret_true (sameAccess_met 0)
  have hexec : execSyscall (.fatal .master) .access ((World.met .access 0).noted .replica) =
      .ret 0 ((((World.met .access 0).noted .replica).withBufs β).through (.fatal .master) .master) := by
    refine (guarded_true hβ _).trans ?_
    have hx := hmeet.rendezvous.atEntry .master
    have hfail : runMasterReplicateRet (.fatal .master)
        (((World.met .access 0).noted .replica).withBufs β) = .ret (-1)
          ((((World.met .access 0).noted .replica).withBufs β).through (.fatal .master) .master) :=
      resumeAndWait_or_died (w := ((World.met .access 0).noted .replica).withBufs β) hx rfl _
    rw [Prog.bind_of_ret hfail]
    rfl
  refine ⟨hmeet, _, hexec, ?_, rfl, rfl⟩
  have hevent := processVariantEvent_sync (K := .fatal .master) hmeet.sync
  rw [Prog.bind_of_ret (hmeet.processSyscallSync.trans hexec), if_neg (by decide)] at hevent
  unfold mainIteration
  rw [Prog.bind_of_ret (Prog.gets_apply _ _), if_neg (by decide), Prog.bind_of_ret hevent]
  rfl

/-- The death of a master in its `getpid` is reported. -/
theorem death_reported_getpid :
    ReportsDeath (processVariantEvent (.fatal .master) .replica) (.met .getpid 0) :=
  ((death_reported_iff (K := .fatal .master) (meeting_met .getpid 0)).2
    fun h => absurd h.1 (by decide)).2.2.1

/-! ## Return values -/

/-- The calls whose result the monitor passes through an `int`. -/
def narrowsResult : List Syscall :=
  [.openat, .close, .newfstatat, .access, .unlink, .utimensat, .fchown, .fchmod, .getpid, .bind,
    .listen]

/-- The call at which `v` stands comes back with `x`. -/
def Kernel.Returned (K : Kernel ρ) (v : Who) (w : World ρ) (x : Word) : Prop :=
  ∃ rcx r11 mem, (K.answer v w).1 = .ret x rcx r11 mem

theorem Kernel.Returned.unique {K : Kernel ρ} {v : Who} {w : World ρ} {x y : Word}
    (hx : K.Returned v w x) (hy : K.Returned v w y) : x = y := by
  obtain ⟨_, _, _, hx⟩ := hx
  obtain ⟨_, _, _, hy⟩ := hy
  exact (SysResult.ret.inj (hx.symm.trans hy)).1

/-- When the executor succeeds and the replica goes on, both variants see the result of the
master's call. -/
def ReturnsAlike (K : Kernel ρ) (c : Syscall) (w : World ρ) : Prop :=
  ∀ w' rm, execSyscall K c w = .ret 0 w' → (w'.proc .replica).running = true →
    K.Returned .master w rm → ∀ v, (w'.proc v).regs .rax = rm

/-- What the replica is told is the master's result, but for `set_tid_address`. -/
theorem told_eq {c : Syscall} (hc : c ∈ seenThrough) (hset : c ≠ .set_tid_address) {rm : Word}
    (hrange : c ∈ narrowsResult → ofInt (toInt rm) = rm) (rr : Word) : c.told rm rr = rm := by
  simp only [seenThrough, List.mem_cons, List.not_mem_nil, or_false] at hc
  rcases hc with rfl | rfl | rfl | rfl | rfl | rfl | rfl | rfl | rfl | rfl | rfl | rfl | rfl | rfl |
    rfl | rfl | rfl | rfl | rfl <;>
    first | exact absurd rfl hset | rfl | exact hrange (by decide)

section Values

variable {K : Kernel ρ} {c : Syscall} {w : World ρ}

/-- `set_tid_address` succeeds whenever both calls come back, and both variants go on. -/
theorem setTidAddress_succeeds (hR : Rendezvous .set_tid_address w.ctl) {rm rr : Word}
    (hm : K.Returned .master w rm) (hr : K.Returned .replica (w.through K .master) rr) :
    ∃ w', execSyscall K .set_tid_address w = .ret 0 w' ∧ (w'.proc .replica).running = true := by
  have hx := hR.atEntry .master
  have hy := hR.atEntry .replica
  have hy' : ((w.through K .master).ctl .replica).AtEntry :=
    ⟨hy.loc, hy.alive, hy.reported, hy.traced⟩
  obtain ⟨rcx, r11, mem, hans⟩ := hm
  obtain ⟨rcx', r11', mem', hans'⟩ := hr
  have hval : (execSyscall K .set_tid_address w).val? = some 0 := by
    show (execSyscallSetTidAddress K w).val? = some 0
    unfold execSyscallSetTidAddress
    rw [Prog.bind_of_ret (show argOf .master 0 w = .ret _ w from rfl),
      Prog.bind_of_ret (show argOf .replica 0 w = .ret _ w from rfl),
      resumeAndWait_or_ret hx hans, resumeAndWait_or_ret hy' hans']
    rfl
  have hrun := Outcome.eq_ret_of_val? hval
  refine ⟨_, hrun, ?_⟩
  rcases (Prog.ret_of_wp (execSyscall_follows K .set_tid_address hR w rfl) hrun).1 rfl with
    hdone | ⟨⟨hacc, -⟩, -⟩
  · have halive := (hdone .replica).alive
    have hloc := (hdone .replica).loc
    simp only [World.ctl, Syscall.plan] at halive hloc
    simp [Tracee.running, halive, hloc]
  · exact absurd hacc (by decide)

/-- **Return values agree.**  With both variants at the entry of a call that its executor
sees through, and a master's result in range where it passes through an `int`, success
leaves the master's result in both return registers, if and only if the call is not a
`set_tid_address` whose two results differ. -/
theorem returns_alike_iff (hc : c ∈ seenThrough) (hR : Rendezvous c w.ctl)
    (hrange : c ∈ narrowsResult → ∀ rm, K.Returned .master w rm → ofInt (toInt rm) = rm) :
    ReturnsAlike K c w ↔ (c = .set_tid_address →
      ∀ rm rr, K.Returned .master w rm → K.Returned .replica (w.through K .master) rr → rr = rm) := by
  have hx := hR.atEntry .master
  have hy := hR.atEntry .replica
  have hproc : (w.through K .master).proc .replica = w.proc .replica :=
    through_proc_of_ne K (by decide)
  -- what the replica of a `set_tid_address` is told is what its own call returns
  have hreturned : c = .set_tid_address → ∀ {w' m rm rr}, Served K c w w' m rm rr →
      K.Returned .replica (w.through K .master) rr := by
    rintro rfl w' m rm rr hs
    obtain rfl := hs.mem rfl
    unfold Kernel.Returned Kernel.answer
    rw [hproc]
    exact hs.replica
  constructor
  · rintro h rfl rm rr hm hr
    obtain ⟨w', hrun, hrunning⟩ := setTidAddress_succeeds hR hm hr
    obtain ⟨m, rm', rr', hs⟩ := execSyscall_served hx hy hc hrun fun _ => hrunning
    obtain rfl := (hreturned rfl hs).unique hr
    exact hs.replicaRax.symm.trans (h w' rm hrun hrunning hm .replica)
  · rintro h w' rm hrun hrunning hm
    obtain ⟨m, rm', rr, hs⟩ := execSyscall_served hx hy hc hrun fun _ => hrunning
    obtain rfl := Kernel.Returned.unique hs.master hm
    refine Who.forall_iff.2 ⟨hs.masterRax, hs.replicaRax.trans ?_⟩
    by_cases hset : c = .set_tid_address
    · subst hset
      exact h rfl rm' rr hm (hreturned rfl hs)
    · exact told_eq hc hset (fun hn => hrange hn rm' hm) rr

end Values

/-! ### Two thread identities -/

/-- A kernel under which the master's calls return 100 and the replica's 101. -/
def Kernel.identities : Kernel Unit :=
  { Kernel.returning 0 with syscall := fun v t o =>
      (.ret (if v = .master then 100 else 101) 0 0 t.mem, o) }

/-- Each variant is told its own thread identity. -/
theorem set_tid_address_differs :
    (execSyscall .identities .set_tid_address (.met .set_tid_address 0)).val? = some 0 ∧
      ((execSyscall .identities .set_tid_address (.met .set_tid_address 0)).state.proc .master).regs
        .rax = 100 ∧
      ((execSyscall .identities .set_tid_address (.met .set_tid_address 0)).state.proc .replica).regs
        .rax = 101 := by
  decide +kernel

/-- Both are told the master's process identity. -/
theorem returns_alike_getpid : ReturnsAlike .identities .getpid (.met .getpid 0) := by
  have hm : Kernel.identities.Returned .master (.met .getpid 0) 100 := ⟨0, 0, fun _ => none, rfl⟩
  refine (returns_alike_iff (by decide) (rendezvous_met .getpid 0) fun _ rm hrm => ?_).2
    fun h => absurd h (by decide)
  obtain rfl := hrm.unique hm
  decide

end Aurora
