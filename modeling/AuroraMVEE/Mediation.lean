import AuroraMVEE.Lockstep

/-!
# Complete mediation

The kernel executes a system call for a variant only where `processSyscallSync` lets
it: in a call made while both variants stand at the entry stop of the same ordinal,
with the same number, one the `switch` has a case for.  This holds of every run of
the main loop, under every interleaving of the stops and every kernel result; the
lockstep invariant carries it through the executors that leave a stale `WAIT` behind
and those that do not count.
-/

namespace Aurora

variable {ρ : Type}

/-! ## Where the runs start -/

/-- A process `fork` and `execvpe` made, at its first stop. -/
structure Tracee.Forked (t : Tracee) : Prop where
  loc : t.loc = .signal
  alive : t.alive = true
  traced : t.traced = true
  entries : t.entries = 0
  ran : t.ran = []

/-- A forked process after `initVariant` and its first resume. -/
def Tracee.launched (t : Tracee) : Tracee :=
  { t with loc := .user, reported := false, options := PTRACE_O_TRACESYSGOOD }

/-- One half of the set-up of `main`. -/
theorem launch {t : Tracee} (h : t.Forked) (v : Who) (w : World ρ) :
    ∃ w', (do initVariant v t; resumeVariantFromWait v : Mon ρ Unit) w = .ret () w' ∧
      w'.proc = Function.update w.proc v t.launched ∧
      w'.var = Function.update w.var v { w.var v with syscallNum := 0, state := .running } := by
  have hset : ∀ (r : Bool) (o o' : BitVec 32),
      ({ t with reported := r, options := o } : Tracee).setOptions o' =
        { t with reported := r, options := o' } := fun r o o' => by
    simp [Tracee.setOptions, Tracee.stopped, h.loc, h.alive, h.traced]
  have hresume : ∀ (r : Bool) (o : BitVec 32),
      ({ t with reported := r, options := o } : Tracee).resume =
        { t with reported := false, options := o, loc := .user } := fun r o => by
    simp [Tracee.resume, Tracee.stopped, h.loc, h.alive, h.traced]
  refine ⟨_, rfl, ?_, ?_⟩
  · simp [World.setProc, World.setVar, World.report, hset, hresume, Tracee.launched]
  · simp [World.setProc, World.setVar, World.report]

/-- `main` reaches its loop with both variants resumed and nothing counted. -/
theorem started_mainSetup {forked : Who → Tracee} (h : ∀ v, (forked v).Forked) (w : World ρ) :
    ∃ w', mainSetup forked w = .ret () w' ∧ (∀ v, w'.proc v = (forked v).launched) ∧
      w'.Started := by
  obtain ⟨w₁, h₁, hproc₁, hvar₁⟩ := launch (h .master) .master w
  obtain ⟨w₂, h₂, hproc₂, hvar₂⟩ := launch (h .replica) .replica w₁
  have hrun : mainSetup forked w = .ret () w₂ := by
    have hsplit : (mainSetup forked : Mon ρ Unit) =
        (do initVariant .master (forked .master); resumeVariantFromWait .master) >>= fun _ =>
          (do initVariant .replica (forked .replica); resumeVariantFromWait .replica) := by
      simp only [mainSetup, bind_assoc]
    rw [hsplit, Prog.bind_of_ret h₁, h₂]
  have hproc : ∀ v, w₂.proc v = (forked v).launched :=
    Who.forall_iff.2 ⟨by simp [hproc₂, hproc₁], by simp [hproc₂]⟩
  have hvar : ∀ v, (w₂.var v).state = .running ∧ (w₂.var v).syscallNum = 0 :=
    Who.forall_iff.2 ⟨by simp [hvar₂, hvar₁], by simp [hvar₂]⟩
  refine ⟨w₂, hrun, hproc, ?_⟩
  constructor <;> intro v
  · rw [hproc v]; rfl
  · rw [hproc v]; rfl
  · rw [hproc v]; exact (h v).traced
  · rw [hproc v]; exact (h v).entries
  · rw [hproc v]; exact (h v).ran
  · exact (hvar v).1
  · exact (hvar v).2

/-! ## What does not run anything -/

/-- Only a resume from an entry stop makes the kernel execute a call. -/
theorem Tracee.resume_ran {t : Tracee} (h : t.loc ≠ .entry) : t.resume.ran = t.ran := by
  unfold Tracee.resume
  split
  · cases hl : t.loc <;> simp_all
  · rfl

theorem Tracee.die_ran (t : Tracee) : t.die.ran = t.ran := by
  unfold Tracee.die
  split <;> rfl

theorem Tracee.tracerGone_ran (t : Tracee) : t.tracerGone.ran = t.ran := by
  unfold Tracee.tracerGone
  split
  · exact t.die_ran
  · rfl

theorem World.kill_ran (w : World ρ) (v u : Who) : ((w.kill v).proc u).ran = (w.proc u).ran := by
  by_cases hu : u = v
  · subst hu; simp [World.kill, Tracee.die_ran]
  · simp [World.kill, hu]

theorem World.tracerGone_ran (w : World ρ) (u : Who) :
    (w.tracerGone.proc u).ran = (w.proc u).ran :=
  (w.proc u).tracerGone_ran

theorem World.bothKilled_ran (w : World ρ) (u : Who) :
    (w.bothKilled.proc u).ran = (w.proc u).ran := by
  rw [World.bothKilled, World.kill_ran, World.kill_ran]

theorem World.woken_ran (w : World ρ) (v u : Who) :
    ((w.woken v).proc u).ran = (w.proc u).ran := by
  by_cases hu : u = v
  · subst hu; simp
  · simp [World.woken_proc, hu]

theorem World.advance_ran (w : World ρ) (K : Kernel ρ) (v u : Who) :
    ((w.advance K v).proc u).ran = (w.proc u).ran := by
  unfold World.advance
  split
  · by_cases hu : u = v
    · subst hu
      split
      · cases (K.syscall u (w.proc u) w.os).1 <;> simp [Tracee.finish, Tracee.die_ran]
      · cases K.user u (w.proc u) w.os <;> simp [Tracee.arrive, Tracee.die_ran]
      · rfl
    · split <;> simp [hu]
  · rfl

theorem World.passed_ran {w : World ρ} {v : Who} (h : (w.proc v).loc ≠ .entry) (u : Who) :
    ((w.passed v).proc u).ran = (w.proc u).ran := by
  by_cases hu : u = v
  · subst hu; simp [World.passed, Tracee.resume_ran h]
  · simp [World.passed, hu]

/-- A stop reported as a system call exit is not an entry stop. -/
theorem Tracee.loc_ne_entry {t : Tracee} (h : t.syscallInfo.op = .exit) : t.loc ≠ .entry := by
  intro hl
  unfold Tracee.syscallInfo at h
  rw [hl] at h
  split at h <;> exact absurd h (by simp)

/-- Whatever happens, a variant is let into the kernel only by `processSyscallSync`. -/
theorem ran_only_in_sync {s s' : Sys ρ} {e : Event ρ} {u : Who} (h : StepCases s e s')
    (hu : (s'.world.proc u).ran ≠ (s.world.proc u).ran) :
    ∃ v K, e = .wake v K ∧ (s.world.proc v).pending = true ∧
      ((s.world.woken v).proc v).waitStatus = .stopped ∧ (s.world.woken v).callsSync v ∧
      (s'.world.proc u).ran =
        ((processSyscallSync K ((s.world.woken v).noted v)).state.proc u).ran := by
  cases h with
  | run v K hrun => exact absurd (World.advance_ran s.world K v u) hu
  | kill v ha => exact absurd (World.kill_ran s.world v u) hu
  | noChild hm hr => exact absurd (World.tracerGone_ran s.world u) hu
  | wake v K hp hbody =>
    have hbefore : ((s.world.woken v).proc u).ran = (s.world.proc u).ran :=
      World.woken_ran s.world v u
    refine ⟨v, K, rfl, hp, ?_⟩
    cases hbody with
    | ended _ => exact absurd ((World.tracerGone_ran _ u).trans hbefore) hu
    | held _ _ _ _ => exact absurd hbefore hu
    | behind _ _ _ => exact absurd ((World.tracerGone_ran _ u).trans hbefore) hu
    | odd _ _ => exact absurd ((World.tracerGone_ran _ u).trans hbefore) hu
    | passed _ hop =>
      have hne : (((s.world.woken v).noted v).proc v).loc ≠ .entry := Tracee.loc_ne_entry hop
      exact absurd ((World.passed_ran hne u).trans hbefore) hu
    | serviced hstat hsync hrun => exact ⟨hstat, hsync, by rw [hrun]; rfl⟩
    | blocked hstat hsync hrun => exact ⟨hstat, hsync, by rw [hrun]; rfl⟩
    | left hstat hsync hrun =>
      exact ⟨hstat, hsync, by rw [hrun]; exact World.tracerGone_ran _ u⟩
    | refused hstat hsync hr hrun =>
      refine ⟨hstat, hsync, ?_⟩
      rw [hrun]
      exact (World.tracerGone_ran _ u).trans (World.bothKilled_ran _ u)

/-! ## The theorem -/

/-- Both variants stand at their `k`-th entry stop, and the call is `c`. -/
structure World.Meeting (w : World ρ) (c : Syscall) (k : ℕ) : Prop where
  stopped : ∀ x, (w.proc x).stopped = true
  atEntry : ∀ x, (w.proc x).loc = .entry
  ordinal : ∀ x, (w.proc x).entries = k
  call : ∀ x, (w.proc x).regs .origRax = c.nr

/-- In lockstep, `processSyscallSync` runs a call only where the two variants meet. -/
theorem Lockstep.sync_ran {stale : Prop} {w w' : World ρ} {v u : Who} (h : Lockstep stale w)
    (hp : (w.proc v).pending = true) (ha : (w.proc v).alive = true)
    (hsync : (w.woken v).callsSync v) {K : Kernel ρ}
    (hw' : (processSyscallSync K ((w.woken v).noted v)).state = w')
    (hu : (w'.proc u).ran ≠ (w.proc u).ran) :
    ∃ c cs, (w.woken v).Meeting c (cs.length + 1) ∧ (∀ x, (w.proc x).ran = history cs x) ∧
      (w'.proc u).ran = history (cs ++ [c]) u := by
  obtain ⟨cs, hcs⟩ := h.ran
  rcases h.meeting hp ha hsync K with hno | ⟨c, hR, hexec⟩
  · rw [hno] at hw'
    subst hw'
    exact absurd (World.woken_ran w v u) hu
  · have hmet : ∀ x, (w.woken v).ctl x = ((w.woken v).noted v).ctl x := fun x => by
      rw [World.noted_ctl]
    have hat : ∀ x, ((w.woken v).ctl x).AtEntry := fun x => by rw [hmet x]; exact hR.atEntry x
    have hentries : ∀ x, ((w.woken v).proc x).entries = cs.length + 1 := fun x => by
      obtain ⟨r, hr⟩ := Lockstep.ctl_met w v x
      rw [← hmet x] at hr
      have hlen := (h.settled x).ran_entry ((h.met hR).1 x)
      rw [hcs x, history_length] at hlen
      exact (congrArg Ctl.entries hr).trans hlen.symm
    refine ⟨c, cs, ⟨fun x => ?_, fun x => (hat x).loc, hentries, fun x => ?_⟩, hcs, ?_⟩
    · exact stopped_of_atEntry (hat x)
    · rw [← hR.call x, ← hmet x]
      rfl
    · -- an executor runs at most what is planned
      have hwithin : (c.plan u).Within (((w.woken v).noted v).ctl u) (w'.ctl u) := by
        rw [← hw', hexec]
        exact within_plan K hR u
      have hbefore : (((w.woken v).noted v).ctl u).ran = (w.proc u).ran := World.woken_ran w v u
      rcases hwithin with hsame | hgrown
      · exact absurd (hsame.trans hbefore) hu
      · rw [hbefore, hcs u, ← history_append] at hgrown
        exact hgrown

/-- **Complete mediation.**  In every run of the main loop, a step after which the
kernel has executed one more call for a variant is a wake-up in which
`processSyscallSync` is called, with both variants at their `k`-th entry stop and at the
same implemented call; and both have gone through the same `k - 1` calls before. -/
theorem complete_mediation {s₀ s s' : Sys ρ} {es : List (Event ρ)} {e : Event ρ}
    (h₀ : s₀.world.Started) (hrun : ((system ρ).restrict fun _ e => e.Plain).Run s₀ es s)
    (hstep : (system ρ).step s e s') (he : e.Plain) {u : Who}
    (hu : (s'.world.proc u).ran ≠ (s.world.proc u).ran) :
    ∃ v K c cs, e = .wake v K ∧ (s.world.woken v).callsSync v ∧
      (s.world.woken v).Meeting c (cs.length + 1) ∧
      (∀ x, (s.world.proc x).ran = history cs x) ∧
      (s'.world.proc u).ran = history (cs ++ [c]) u := by
  have hinv : s.InStep True := hrun.invariant (fun _ => .inl (.of_started h₀))
    fun _ _ _ hi hst => inStep_step hi hst.1 hst.2 fun _ _ _ _ _ => trivial
  obtain ⟨hmode, hcase⟩ := step_cases hstep
  obtain ⟨v, K, rfl, hp, hstat, hsync, hran⟩ := ran_only_in_sync hcase hu
  rcases hinv hmode with h | hquiet
  · rw [hran] at hu ⊢
    obtain ⟨c, cs, hmeet, hcs, hu'⟩ := h.sync_ran hp (alive_of_stopped hstat) hsync rfl hu
    exact ⟨v, K, c, cs, rfl, hsync, hmeet, hcs, hu'⟩
  · exact absurd hp (by simp [Tracee.pending, show (s.world.proc v).reported = true from (hquiet v).1])

/-! ### A first call -/

/-- A process about to run its first instruction. -/
def Tracee.fresh : Tracee :=
  ⟨.user, true, false, true, PTRACE_O_TRACESYSGOOD, fun _ => 0, fun _ => none, 0, []⟩

/-- Two such processes, under a monitor that has reached its loop. -/
def Sys.fresh (o : ρ) : Sys ρ :=
  ⟨⟨fun _ => .fresh, fun _ => ⟨.running, 0, .zero⟩, [], fun _ _ => 0, o, .compact⟩, .waiting⟩

theorem started_fresh (o : ρ) : (Sys.fresh o).world.Started :=
  ⟨fun _ => rfl, fun _ => rfl, fun _ => rfl, fun _ => rfl, fun _ => rfl, fun _ => rfl, fun _ => rfl⟩

/-- A kernel under which both variants make the call `nr` with no arguments, and every
call returns zero. -/
def Kernel.calling (nr : Word) : Kernel Unit where
  syscall _ t o := (.ret 0 0 0 t.mem, o)
  user _ t _ := .entry (Function.update t.regs .origRax nr) t.mem
  killed _ := false
  junk := .stopped

theorem plain_calling (nr : Word) : (Kernel.calling nr).Plain :=
  ⟨fun _ _ _ _ _ h => by simp [Kernel.calling] at h, fun _ => rfl⟩

/-- Both variants come to the entry of `getuid`, and the master is heard of first. -/
def Sys.firstGetuid : List (Event Unit) :=
  [.run .master (.calling 102), .run .replica (.calling 102), .wake .master (.calling 102)]

/-- The replica's wake-up lets the replica make its first call. -/
theorem complete_mediation_first :
    ∃ v K c cs, (Event.wake .replica (.calling 102) : Event Unit) = .wake v K ∧
      (((Sys.fresh ()).played Sys.firstGetuid).world.woken v).callsSync v ∧
      (((Sys.fresh ()).played Sys.firstGetuid).world.woken v).Meeting c (cs.length + 1) ∧
      (∀ x, (((Sys.fresh ()).played Sys.firstGetuid).world.proc x).ran = history cs x) ∧
      ((((Sys.fresh ()).played Sys.firstGetuid).played
        [.wake .replica (.calling 102)]).world.proc .replica).ran = history (cs ++ [c]) .replica :=
  complete_mediation (e := .wake .replica (.calling 102)) (started_fresh ())
    ((run_played (by decide +kernel)).to_restrict (by
      simp [Sys.firstGetuid, Event.Plain, plain_calling]))
    (step_played (by decide +kernel)) (plain_calling 102) (by decide +kernel)

end Aurora
