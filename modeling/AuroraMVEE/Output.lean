import AuroraMVEE.Mediation
import AuroraMVEE.Replication
import AuroraMVEE.Requests
import AuroraMVEE.Untouched

/-!
# No output without agreement

What the whole monitor is for: the master writes nothing that the replica was not about to
write itself.  `write_agrees` says so of the executor, from what its comparison decides.
For the runs there remains to say that the master's kernel executes a `write` in no other
way, whatever signals arrive and whoever is killed: the dead cannot be read, a variant at
the delivery of a signal is not paired, and else the two are in lockstep
(`World.Accounted`).
-/

namespace Aurora

variable {ρ : Type}

/-! ## The executor -/

/-- The words that cover the buffer of a `write` can be read. -/
structure Tracee.OutputReadable (t : Tracee) : Prop where
  stopped : t.stopped = true
  readable : t.Readable (t.regs .rsi) (t.regs .rdx).toNat

/-- Both variants stand at the entry of `write`, with the same descriptor, count and bytes. -/
structure World.SameOutput (w : World ρ) : Prop where
  entry : ∀ v, (w.proc v).loc = .entry
  call : ∀ v, (w.proc v).regs .origRax = Syscall.write.nr
  fd : toInt ((w.proc .master).regs .rdi) = toInt ((w.proc .replica).regs .rdi)
  count : (w.proc .master).regs .rdx = (w.proc .replica).regs .rdx
  size : ((w.proc .master).regs .rdx).toNat ≤ BUF_SIZE
  bytes : ∀ i < ((w.proc .master).regs .rdx).toNat,
    (w.proc .master).mem ((w.proc .master).regs .rsi + BitVec.ofNat 64 i) =
      (w.proc .replica).mem ((w.proc .replica).regs .rsi + BitVec.ofNat 64 i)

/-- Once past its comparison, `write` begins by releasing the master. -/
theorem releasesFirst_write {K : Kernel ρ} {x y : Ctl} (hx : x.AtEntry) (hy : y.AtEntry)
    (masterFd : Word) : ReleasesFirst x y (do
      if (← resumeAndWait K .master) ≠ 0 then return -1
      requestSyscallInfo .master
      let bytesWritten := (← syscallInfoOf .master).rval
      setLseekRegs .replica masterFd bytesWritten
      setSyscall .master Syscall.lseek.nr
      if (← resumeAndWait K .replica) ≠ 0 then return -1
      setSyscallReturnValue .replica bytesWritten
      resumeVariantFromExit .master
      resumeVariantFromExit .replica
      return 0) := by
  refine via_masterHalf hx rfl (fun _ => rfl) ?_
  refine .keeps (silent_requestSyscallInfo _) fun _ => .keeps (silent_syscallInfoOf _) fun _ =>
    .keeps (silent_setLseekRegs _ _ _) fun _ => ?_
  refine via_setSyscall (.inr (by simpa using hx.finished)) ?_
  rw [update_pair_master]
  refine via_replicaHalf hy rfl (fun _ => rfl) ?_
  refine .keeps (silent_setSyscallReturnValue _ _) fun _ => ?_
  exact via_leaveBoth ⟨rfl, hx.alive, rfl, hx.traced⟩ hy.finished rfl

theorem releases_write_iff {K : Kernel ρ} {w : World ρ} (hw : ∀ v, (w.ctl v).AtEntry) :
    Releases K .write w ↔ w.SameWrite := by
  refine releases_iff rfl (decides_writeEq w) (.keeps (silent_argOf _ _) fun _ => ?_)
  exact releasesFirst_write (hw .master) (hw .replica) _

/-- What was compared is what is there. -/
theorem World.SameWrite.output {w : World ρ} (h : w.SameWrite) (hw : w.Arrived .write)
    (hread : ∀ v, (w.proc v).OutputReadable) : w.SameOutput := by
  obtain ⟨hfd, hcount, hsize, hbytes⟩ := h
  have harg : ∀ v k, (w.var v).syscallInfo.arg k = (w.proc v).regs (argReg k) := fun v k => by
    rw [hw.info v, SyscallInfo.ofEntry_arg]
  have hrdx : (w.proc .master).regs .rdx = (w.proc .replica).regs .rdx := by
    have hsame := hcount 2 (by simp)
    rwa [harg, harg] at hsame
  rw [harg, harg] at hfd
  rw [harg] at hsize
  refine ⟨fun v => (hw.rendezvous.atEntry v).loc, hw.rendezvous.call, ?_, hrdx, hsize, fun i hi => ?_⟩
  · have hlow := congrArg toInt hfd
    rwa [toInt_ofInt] at hlow
  · have hsame := hbytes i (by rw [harg]; exact hi)
    rw [harg, harg] at hsame
    have hm := mem_of_wordMapped (hread .master).stopped ((hread .master).readable i hi)
    have hr := mem_of_wordMapped (hread .replica).stopped
      ((hread .replica).readable i (by rw [← hrdx]; exact hi))
    rw [hm, hr]
    exact congrArg some hsame

/-- `write` releases the master only if both are about to write the same. -/
theorem write_agrees {K : Kernel ρ} {w : World ρ} (hw : w.Arrived .write)
    (hread : ∀ v, (w.proc v).OutputReadable) (hrel : Releases K .write w) : w.SameOutput :=
  ((releases_write_iff hw.rendezvous.atEntry).1 hrel).output hw hread

/-! ## Deaths -/

/-- Who is dead stays dead. -/
def StaysDead (w w' : World ρ) : Prop := ∀ v, (w.proc v).alive = false → (w'.proc v).alive = false

instance : IsPreorder (World ρ) StaysDead where
  refl _ _ hv := hv
  trans _ _ _ h h' v hv := h' v (h v hv)

theorem StaysDead.trans {w w' w'' : World ρ} (h : StaysDead w w') (h' : StaysDead w' w'') :
    StaysDead w w'' := IsTrans.trans _ _ _ h h'

theorem StaysDead.of_proc {w w' : World ρ} (h : w'.proc = w.proc) : StaysDead w w' := fun v hv => by
  rw [h]
  exact hv

theorem staysDead_setProc {w : World ρ} {v : Who} {t : Tracee}
    (h : (w.proc v).alive = false → t.alive = false) : StaysDead w (w.setProc v t) := by
  intro u hu
  by_cases huv : u = v
  · subst huv
    rw [World.setProc_proc_self]
    exact h hu
  · rw [World.setProc_proc_of_ne w huv]
    exact hu

theorem staysDead_advance (w : World ρ) (K : Kernel ρ) (v : Who) : StaysDead w (w.advance K v) := by
  unfold World.advance
  by_cases ha : (w.proc v).alive = true
  · rw [if_pos ha]
    have hnew : ∀ t, StaysDead w (w.setProc v t) := fun t =>
      staysDead_setProc fun hdead => absurd (ha.symm.trans hdead) (by decide)
    split
    · exact hnew _
    · exact hnew _
    · exact .of_proc rfl
  · rw [if_neg ha]
    exact .of_proc rfl

theorem staysDead_report (w : World ρ) (v : Who) : StaysDead w (w.report v) :=
  staysDead_setProc id

theorem staysDead_kill (w : World ρ) (v : Who) : StaysDead w (w.kill v) :=
  staysDead_setProc fun _ => Tracee.die_dead _

theorem staysDead_resume (w : World ρ) (v : Who) : StaysDead w (w.setProc v (w.proc v).resume) :=
  staysDead_setProc fun h => by
    rw [Tracee.resume, if_neg (Tracee.not_stopped_of_dead h)]
    exact h

theorem staysDead_tracerGone (w : World ρ) : StaysDead w w.tracerGone := by
  intro v hv
  show (w.proc v).tracerGone.alive = false
  unfold Tracee.tracerGone
  split
  · exact Tracee.die_dead _
  · exact hv

theorem tame_staysDead (K : Kernel ρ) : Tame K StaysDead where
  bufs _ _ := .of_proc rfl
  mark _ _ := .of_proc rfl
  count _ _ := .of_proc rfl
  note _ _ _ _ := .of_proc rfl
  resume := staysDead_resume
  pokeUser w v r x := staysDead_setProc fun h => by
    rw [Tracee.pokeUser, if_neg (Tracee.not_stopped_of_dead h)]
    exact h
  setRegs w v regs := staysDead_setProc fun h => by
    rw [Tracee.setRegs, if_neg (Tracee.not_stopped_of_dead h)]
    exact h
  poke w v a d := staysDead_setProc fun h => by
    rw [Tracee.poke, if_neg (by simp [Tracee.not_stopped_of_dead h])]
    exact h
  table _ _ := .of_proc rfl
  wait v w := by
    unfold Prog.wp waitVariant
    split
    · exact (staysDead_advance w K v).trans (staysDead_report _ v)
    split
    · exact staysDead_report w v
    split
    · split
      · exact (staysDead_kill w v).trans (staysDead_report _ v)
      · exact .of_proc rfl
    · exact .of_proc rfl

/-- Nobody comes back to life. -/
theorem staysDead_step {s s' : Sys ρ} {e : Event ρ} (hstep : (system ρ).step s e s') :
    StaysDead s.world s'.world := by
  cases (step_cases hstep).2 with
  | run v K hrun => exact staysDead_advance _ _ _
  | kill v ha => exact staysDead_kill _ _
  | noChild hm hr => exact staysDead_tracerGone _
  | wake v K hp hbody =>
    have hnoted : StaysDead s.world ((s.world.woken v).noted v) := staysDead_report s.world v
    have hsync := within_processSyscallSync (tame_staysDead K)
    cases hbody with
    | ended hstat => exact (staysDead_report _ v).trans (staysDead_tracerGone _)
    | serviced hstat hsync' hrun => exact hnoted.trans (hsync.of_ret hrun)
    | refused hstat hsync' hr hrun =>
      refine hnoted.trans ((hsync.of_ret hrun).trans ?_)
      exact ((staysDead_kill _ _).trans (staysDead_kill _ _)).trans (staysDead_tracerGone _)
    | blocked hstat hsync' hrun => exact hnoted.trans (hsync.of_hung hrun)
    | left hstat hsync' hrun =>
      exact hnoted.trans ((hsync.of_exited hrun).trans (staysDead_tracerGone _))
    | held hstat hop hnum hwait => exact hnoted
    | behind hstat hop hnum => exact hnoted.trans (staysDead_tracerGone _)
    | passed hstat hop => exact hnoted.trans (staysDead_resume _ v)
    | odd hstat hop => exact hnoted.trans (staysDead_tracerGone _)

/-! ## A variant at the delivery of a signal -/

/-- `v` has come to the delivery of a signal.  If it is still marked as waiting, its struct is
that of an exit stop. -/
structure World.Interrupted (w : World ρ) (v : Who) : Prop where
  loc : (w.proc v).loc = .signal
  state : (w.var v).state = .wait → (w.var v).syscallInfo.op = .exit

/-- Such a stop is reported as neither an entry nor an exit. -/
theorem Tracee.syscallInfo_signal {t : Tracee} (h : t.loc = .signal) : t.syscallInfo.op = .none := by
  unfold Tracee.syscallInfo
  rw [h]
  split <;> rfl

namespace World.Interrupted

variable {w w' : World ρ} {u v : Who} {K : Kernel ρ}

theorem woken_op (h : w.Interrupted v) : ((w.woken v).proc v).syscallInfo.op = .none :=
  Tracee.syscallInfo_signal (by simpa using h.loc)

/-- It is not paired: the ops differ. -/
theorem refused (h : w.Interrupted u) (hsync : (w.woken v).callsSync v) :
    processSyscallSync K ((w.woken v).noted v) = .ret (-1) ((w.woken v).noted v) := by
  obtain ⟨hop, -, hwait⟩ := hsync
  rcases processSyscallSync_cases K ((w.woken v).noted v) with hleft | ⟨c, hops, -, -⟩
  · exact hleft
  have hne : u ≠ v := by
    rintro rfl
    exact absurd (hop.symm.trans h.woken_op) (by decide)
  obtain rfl := Who.eq_other_of_ne hne
  have hsame := hops v v.other
  rw [World.noted_var_self, World.noted_var_other, World.woken_var, h.state hwait] at hsame
  exact absurd (hop.symm.trans hsame) (by decide)

/-- It does not move. -/
theorem of_kept (h : w.Interrupted u) (hproc : w'.proc u = w.proc u) (hvar : w'.var u = w.var u) :
    w'.Interrupted u := ⟨by rw [hproc]; exact h.loc, by rw [hvar]; exact h.state⟩

end World.Interrupted

/-! ## Every run -/

/-- What can be said of the two variants while the monitor waits. -/
inductive World.Accounted (w : World ρ) : Prop
  | inStep (h : Lockstep True w)
  | dead (v : Who) (h : (w.proc v).alive = false)
  | interrupted (v : Who) (h : w.Interrupted v)
  /-- There is nothing left to wait for. -/
  | quiet (h : ∀ v, (w.ctl v).Silenced)

theorem World.Accounted.of_kill (w : World ρ) (v : Who) : (w.kill v).Accounted :=
  .dead v (by rw [World.kill, World.setProc_proc_self, Tracee.die_dead])

/-- In its own code a variant is marked as waiting only by mistake. -/
theorem Settled.op_of_user {stale : Prop} {t : Tracee} {x : Variant} (h : Settled stale t x)
    (hl : t.loc = .user) (hw : x.state = .wait) : x.syscallInfo.op = .exit := by
  cases h with
  | user _ _ _ hstate => exact (hstate hw).2
  | arriving hloc _ _ _ _ => exact absurd (hl.symm.trans hloc) (by decide)
  | waiting hloc _ _ _ _ _ => exact absurd (hl.symm.trans hloc) (by decide)
  | inCall hloc _ _ _ =>
    rcases hloc with hloc | hloc <;> exact absurd (hl.symm.trans hloc) (by decide)

section Steps

variable {s s' : Sys ρ} {e : Event ρ}

/-- From lockstep only a signal, a death or a lost `access` leads out. -/
theorem accounted_of_lockstep (h : Lockstep True s.world) (hstep : (system ρ).step s e s')
    (hmode : s'.mode = .waiting) : s'.world.Accounted := by
  cases (step_cases hstep).2 with
  | run v K hrun =>
    by_cases hsignal : (s.world.proc v).loc = .user ∧
        ∃ regs mem, K.user v (s.world.proc v) s.world.os = .signal regs mem
    · obtain ⟨hloc, regs, mem, hu⟩ := hsignal
      have ha : (s.world.proc v).alive = true := by
        simp only [Tracee.running, Bool.and_eq_true] at hrun
        exact hrun.1
      have hnext : s.world.advance K v =
          s.world.setProc v ((s.world.proc v).arrive (.signal regs mem)) := by
        simp [World.advance, ha, hloc, hu]
      refine .interrupted v ⟨?_, ?_⟩
      · show ((s.world.advance K v).proc v).loc = .signal
        rw [hnext, World.setProc_proc_self]
        rfl
      · show ((s.world.advance K v).var v).state = .wait → _
        rw [World.advance_var]
        exact (h.settled v).op_of_user hloc
    · exact .inStep (h.advance hrun fun hloc regs mem hu => hsignal ⟨hloc, regs, mem, hu⟩)
  | kill v ha => exact .of_kill _ v
  | noChild hm hr => exact absurd hmode (by simp)
  | wake v K hp hbody =>
    cases hbody with
    | held hstat hop _ _ => exact .inStep (h.held hp (alive_of_stopped hstat) hop)
    | passed hstat hop => exact .inStep (h.passed hp (alive_of_stopped hstat) hop)
    | serviced hstat hsync hrun =>
      rcases h.after_sync hp (alive_of_stopped hstat) hsync hrun fun _ _ => trivial with hnext | hquiet
      · exact .inStep hnext
      · exact .quiet hquiet.2
    | _ => exact absurd hmode (by simp)

/-- A variant at the delivery of a signal stays there until it is reported. -/
theorem accounted_of_interrupted {u : Who} (h : s.world.Interrupted u)
    (hstep : (system ρ).step s e s') (hmode : s'.mode = .waiting) : s'.world.Accounted := by
  cases (step_cases hstep).2 with
  | run v K hrun =>
    have hne : u ≠ v := by
      rintro rfl
      exact absurd hrun (by simp [Tracee.running, h.loc])
    exact .interrupted u (h.of_kept (World.advance_proc_of_ne _ _ hne) (by rw [World.advance_var]))
  | kill v ha => exact .of_kill _ v
  | noChild hm hr => exact absurd hmode (by simp)
  | wake v K hp hbody =>
    have hne : ∀ {op : InfoOp}, ((s.world.woken v).proc v).syscallInfo.op = op → op ≠ .none → u ≠ v := by
      rintro op hop hsome rfl
      exact hsome (hop.symm.trans h.woken_op)
    cases hbody with
    | held hstat hop _ _ =>
      have huv := hne hop (by decide)
      exact .interrupted u (h.of_kept (by simp [World.held, World.woken_proc, huv])
        (by simp [World.held, World.noted, huv]))
    | passed hstat hop =>
      have huv := hne hop (by decide)
      exact .interrupted u (h.of_kept (by simp [World.passed, World.woken_proc, huv])
        (by simp [World.passed, World.noted, huv]))
    | serviced hstat hsync hrun =>
      rw [h.refused hsync] at hrun
      exact absurd hrun (by simp)
    | _ => exact absurd hmode (by simp)

theorem accounted_step (hs : s.mode = .waiting → s.world.Accounted) (hstep : (system ρ).step s e s')
    (hmode : s'.mode = .waiting) : s'.world.Accounted := by
  cases hs (step_cases hstep).1 with
  | inStep h => exact accounted_of_lockstep h hstep hmode
  | dead v h => exact .dead v (staysDead_step hstep v h)
  | interrupted v h => exact accounted_of_interrupted h hstep hmode
  | quiet h =>
    obtain ⟨v, -, hkill⟩ := kill_of_silenced h hstep hmode
    rw [hkill]
    exact .of_kill _ v

end Steps

/-! ## The theorem -/

/-- From `w` to `w'` the master's kernel has executed a `write`. -/
def Wrote (w w' : World ρ) : Prop :=
  Syscall.write.nr ∈ (w'.proc .master).ran.drop (w.proc .master).ran.length

theorem Wrote.ran_ne {w w' : World ρ} (h : Wrote w w') :
    (w'.proc .master).ran ≠ (w.proc .master).ran := by
  intro hran
  rw [Wrote, hran, List.drop_length] at h
  exact absurd h List.not_mem_nil

/-- Where two variants in lockstep meet, both structs are up to date. -/
theorem Lockstep.arrived {stale : Prop} {w : World ρ} {v : Who} {c : Syscall} (h : Lockstep stale w)
    (hp : (w.proc v).pending = true) (ha : (w.proc v).alive = true) (hsync : (w.woken v).callsSync v)
    (hR : Rendezvous c ((w.woken v).noted v).ctl) : ((w.woken v).noted v).Arrived c := by
  refine ⟨hR, fun u => ?_⟩
  rw [World.noted_proc]
  by_cases hu : u = v
  · subst hu
    rw [World.noted_var_self, World.woken, World.report_regs]
    exact (h.at_entry hp ha hsync.1).2.2
  · obtain rfl := Who.eq_other_of_ne hu
    have hpart : (w.woken v).proc v.other = w.proc v.other := by simp [World.woken_proc]
    have hat : ((w.woken v).ctl v.other).AtEntry := by
      rw [← World.noted_ctl _ v]
      exact hR.atEntry _
    have hloc : (w.proc v.other).loc = .entry := hpart ▸ hat.loc
    have hreported : (w.proc v.other).reported = true := hpart ▸ hat.reported
    rw [World.noted_var_other, World.woken_var, hpart]
    exact (h.settled v.other).info_of_reported hloc hreported

/-- The processes a rendezvous finds, but for what has been reported of them. -/
theorem met_proc (w : World ρ) (v u : Who) :
    ∃ r, ((w.woken v).noted v).proc u = { w.proc u with reported := r } := by
  rw [World.noted_proc]
  by_cases hu : u = v
  · subst hu
    exact ⟨true, World.woken_proc_self w u⟩
  · exact ⟨(w.proc u).reported, by simp [World.woken_proc, hu]⟩

theorem World.SameOutput.of_reported {w w' : World ρ} (h : w'.SameOutput)
    (hproc : ∀ v, ∃ r, w'.proc v = { w.proc v with reported := r }) : w.SameOutput := by
  have hloc : ∀ v, (w'.proc v).loc = (w.proc v).loc := fun v => by
    obtain ⟨r, hr⟩ := hproc v
    rw [hr]
  have hregs : ∀ v, (w'.proc v).regs = (w.proc v).regs := fun v => by
    obtain ⟨r, hr⟩ := hproc v
    rw [hr]
  have hmem : ∀ v, (w'.proc v).mem = (w.proc v).mem := fun v => by
    obtain ⟨r, hr⟩ := hproc v
    rw [hr]
  obtain ⟨hentry, hcall, hfd, hcount, hsize, hbytes⟩ := h
  simp only [hloc, hregs, hmem] at hentry hcall hfd hcount hsize hbytes
  exact ⟨hentry, hcall, hfd, hcount, hsize, hbytes⟩

theorem Tracee.OutputReadable.of_reported {t t' : Tracee} {r : Bool} (h : t.OutputReadable)
    (ht : t' = { t with reported := r }) : t'.OutputReadable := by
  subst ht
  exact ⟨h.stopped, h.readable⟩

theorem plan_master_nr (c : Syscall) : (c.plan .master).nr = c.nr := by cases c <;> rfl

/-- In lockstep the master writes only by the executor of `write`. -/
theorem Lockstep.wrote {stale : Prop} {w : World ρ} {v : Who} {K : Kernel ρ} (h : Lockstep stale w)
    (hp : (w.proc v).pending = true) (ha : (w.proc v).alive = true) (hsync : (w.woken v).callsSync v)
    (hwrote : Wrote w (processSyscallSync K ((w.woken v).noted v)).state)
    (hread : ∀ u, (w.proc u).OutputReadable) : w.SameOutput := by
  have hbefore : (((w.woken v).noted v).proc .master).ran = (w.proc .master).ran :=
    World.woken_ran w v .master
  rcases h.meeting hp ha hsync K with hno | ⟨c, hR, hexec⟩
  · rw [hno] at hwrote
    exact absurd hbefore hwrote.ran_ne
  rw [hexec] at hwrote
  have hgrown : ((execSyscall K c ((w.woken v).noted v)).state.proc .master).ran =
      (w.proc .master).ran ++ [c.nr] := by
    rcases within_plan K hR .master with hsame | hran
    · exact absurd (hsame.trans hbefore) hwrote.ran_ne
    · rw [← hbefore, ← plan_master_nr c]
      exact hran
  obtain rfl : c = .write := by
    rw [Wrote, hgrown, List.drop_left, List.mem_singleton] at hwrote
    exact Syscall.nr_injective hwrote.symm
  refine World.SameOutput.of_reported (write_agrees (K := K) (h.arrived hp ha hsync hR)
    (fun u => ?_) ?_) (met_proc w v)
  · obtain ⟨r, hr⟩ := met_proc w v u
    exact (hread u).of_reported hr
  · unfold Releases
    rw [hbefore]
    exact hwrote.ran_ne

/-- **No output without agreement.**  The executor of `write` releases the master only with the
same descriptor, count and bytes in both variants; and in every run, if the master's kernel
executes a `write` in a step, both variants stood before it at the entry of that `write`. -/
theorem no_output_without_agreement :
    (∀ (K : Kernel ρ) (w : World ρ), w.Arrived .write → (∀ v, (w.proc v).OutputReadable) →
      Releases K .write w → w.SameOutput) ∧
    ∀ (s₀ s s' : Sys ρ) (es : List (Event ρ)) (e : Event ρ), s₀.world.Started →
      (system ρ).Run s₀ es s → (system ρ).step s e s' → Wrote s.world s'.world →
        (∀ v, (s.world.proc v).OutputReadable) → s.world.SameOutput := by
  constructor
  · intro K w hw hread hrel
    exact write_agrees hw hread hrel
  · intro s₀ s s' es e h₀ hrun hstep hwrote hread
    have hinv : s.mode = .waiting → s.world.Accounted :=
      hrun.invariant (I := fun t => t.mode = .waiting → t.world.Accounted)
        (fun _ => .inStep (.of_started h₀)) fun _ _ _ ht hst => accounted_step ht hst
    obtain ⟨hmode, hcase⟩ := step_cases hstep
    obtain ⟨v, K, rfl, hp, hstat, hsync, hran⟩ := ran_only_in_sync hcase hwrote.ran_ne
    have hsynced : Wrote s.world (processSyscallSync K ((s.world.woken v).noted v)).state := by
      unfold Wrote
      rw [← hran]
      exact hwrote
    cases hinv hmode with
    | inStep h => exact h.wrote hp (alive_of_stopped hstat) hsync hsynced hread
    | dead u hdead =>
      -- the dead cannot be read
      exact absurd (hread u).stopped (Tracee.not_stopped_of_dead hdead)
    | interrupted u h =>
      rw [h.refused hsync] at hsynced
      exact absurd (World.woken_ran s.world v .master) hsynced.ran_ne
    | quiet h =>
      have hrep : (s.world.proc v).reported = true := (h v).1
      exact absurd hp (by simp [Tracee.pending, hrep])

/-! ### Eight letters -/

/-- A kernel under which both variants write eight bytes, all of them `a`. -/
def Kernel.printing : Kernel Unit where
  syscall _ t o := (.ret 8 0 0 t.mem, o)
  user _ _ _ := .entry (callRegs Syscall.write.nr ![1, 0x1000, 8, 0, 0, 0]) fun _ => some 0x61
  killed _ := false
  junk := .stopped

/-- Both variants stand at the entry of such a `write`. -/
def printed : World Unit :=
  .standing (fun _ => callRegs Syscall.write.nr ![1, 0x1000, 8, 0, 0, 0]) (fun _ _ => some 0x61) ()

/-- They come there, and the master is heard of first. -/
def Sys.printing : Sys Unit :=
  (Sys.fresh ()).played [.run .master .printing, .run .replica .printing, .wake .master .printing]

theorem no_output_without_agreement_letters : printed.SameOutput ∧ Sys.printing.world.SameOutput := by
  have hread : ∀ v, (printed.proc v).OutputReadable := by
    intro v
    constructor
    · cases v <;> decide +kernel
    · unfold Tracee.Readable
      cases v <;> decide +kernel
  have hread' : ∀ v, (Sys.printing.world.proc v).OutputReadable := by
    intro v
    constructor
    · cases v <;> decide +kernel
    · unfold Tracee.Readable
      cases v <;> decide +kernel
  have hrel : Releases .printing .write printed := by
    unfold Releases
    decide +kernel
  have hwrote : Wrote Sys.printing.world (Sys.printing.played [.wake .replica .printing]).world := by
    unfold Wrote
    decide +kernel
  constructor
  · exact no_output_without_agreement.1 .printing printed
      ⟨rendezvous_standing .write _ _ _, fun _ => rfl⟩ hread hrel
  · exact no_output_without_agreement.2 (.fresh ()) Sys.printing
      (Sys.printing.played [.wake .replica .printing]) _ (.wake .replica .printing) (started_fresh ())
      (run_played (by decide +kernel)) (step_played (by decide +kernel)) hwrote hread'

end Aurora
