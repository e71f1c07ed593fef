import AuroraMVEE.Mediation

/-!
# The two counters

`syscallNum` is advanced in three places: by executors for both variants, by `mmap` for
the master only, and by the main loop at exit stops.

* `counters_in_step` — in every run the two counters stay within one of each other, modulo
  `2^64`, and the variant that is behind is in a call.
* `counter_counts` — between two calls a counter says how many calls its variant has made, in
  runs without `getrandom`, which nobody counts, and `shutdown`, which is counted twice.
-/

namespace Aurora

variable {ρ : Type}

/-! ## What an event does to the counts -/

/-- Nothing new has run, and nothing was counted that was not settled. -/
structure SameCount (w w' : World ρ) : Prop where
  ran : ∀ u, (w'.proc u).ran = (w.proc u).ran
  num : ∀ u, (w'.var u).syscallNum + (w'.proc u).owed = (w.var u).syscallNum + (w.proc u).owed

/-- A change at `v` alone. -/
theorem SameCount.change {w w' : World ρ} {v : Who} {t : Tracee} {x : Variant}
    (hproc : w'.proc = Function.update w.proc v t) (hvar : w'.var = Function.update w.var v x)
    (hran : t.ran = (w.proc v).ran)
    (hnum : x.syscallNum + t.owed = (w.var v).syscallNum + (w.proc v).owed) : SameCount w w' := by
  refine ⟨fun u => ?_, fun u => ?_⟩ <;> rw [hproc] <;> by_cases hu : u = v
  · subst hu
    simpa using hran
  · simp [hu]
  · subst hu
    simpa [hvar] using hnum
  · simp [hvar, hu]

theorem Tracee.die_loc (t : Tracee) : t.die.loc = t.loc := by
  unfold Tracee.die
  split <;> rfl

/-- A stop reported as a system call exit is one. -/
theorem Tracee.exit_of_op {t : Tracee} (h : t.syscallInfo.op = .exit) :
    t.loc = .exit ∧ t.stopped = true := by
  unfold Tracee.syscallInfo at h
  split at h
  · refine ⟨?_, by assumption⟩
    cases hl : t.loc <;> simp_all
  · exact absurd h (by simp)

/-- A variant comes to its next stop, or dies on the way. -/
theorem sameCount_advance (w : World ρ) (K : Kernel ρ) (v : Who) : SameCount w (w.advance K v) := by
  have hvar : w.var = Function.update w.var v (w.var v) := (Function.update_eq_self v w.var).symm
  have hsame : SameCount w w := ⟨fun _ => rfl, fun _ => rfl⟩
  unfold World.advance
  split
  · cases hl : (w.proc v).loc with
    | user =>
      refine .change rfl hvar ?_ ?_ <;> cases K.user v (w.proc v) w.os <;>
        simp [Tracee.arrive, Tracee.die_ran, Tracee.die_loc, Tracee.owed, hl]
    | kernel =>
      refine .change rfl hvar ?_ ?_ <;> cases (K.syscall v (w.proc v) w.os).1 <;>
        simp [Tracee.finish, Tracee.die_ran, Tracee.die_loc, Tracee.owed, hl]
    | entry | exit | signal => exact hsame
  · exact hsame

/-- An event after which the monitor still waits counts nothing anew, or it is a call that
was serviced. -/
theorem step_counts {s s' : Sys ρ} {e : Event ρ} (hstep : (system ρ).step s e s')
    (hmode : s'.mode = .waiting) :
    SameCount s.world s'.world ∨ ∃ v K w', e = .wake v K ∧ (s.world.proc v).pending = true ∧
      (s.world.proc v).alive = true ∧ (s.world.woken v).callsSync v ∧
      processSyscallSync K ((s.world.woken v).noted v) = .ret 0 w' ∧ s' = ⟨w', .waiting⟩ := by
  obtain ⟨-, hcase⟩ := step_cases hstep
  cases hcase with
  | run v K hrun => exact .inl (sameCount_advance _ _ _)
  | kill v ha =>
    exact .inl (.change rfl (Function.update_eq_self v s.world.var).symm (Tracee.die_ran _)
      (by rw [Tracee.owed, Tracee.die_loc, Tracee.owed]))
  | noChild hm hr => exact absurd hmode (by simp)
  | wake v K hp hbody =>
    cases hbody with
    | held hstat hop _ _ =>
      refine .inl (.change (v := v) (x := { s.world.var v with
        syscallInfo := ((s.world.woken v).proc v).syscallInfo, state := .wait })
        (World.woken_proc _ _) ?_ rfl rfl)
      unfold World.held World.noted
      simp [World.setVar]
    | serviced hstat hsync hrun =>
      exact .inr ⟨v, K, _, rfl, hp, alive_of_stopped hstat, hsync, hrun, rfl⟩
    | passed hstat hop =>
      obtain ⟨hl, hs⟩ := Tracee.exit_of_op hop
      have hloc : (s.world.proc v).loc = .exit := by simpa using hl
      refine .inl (.change (v := v) (t := { s.world.proc v with loc := .user, reported := false })
        (x := { s.world.var v with
          syscallInfo := ((s.world.woken v).proc v).syscallInfo,
          syscallNum := (s.world.var v).syscallNum + 1 }) ?_ ?_ rfl ?_)
      · rw [World.passed, World.setVar_proc, World.noted_proc, Tracee.resume_exit hl hs]
        simp [World.setProc, World.woken_proc]
      · simp [World.passed, World.noted, World.setProc, World.setVar]
      · simp [Tracee.owed, hloc]
    | _ => exact absurd hmode (by simp)

/-! ## What a serviced call does to the counts -/

/-- An `access` that succeeds keeps to its plan, or has silenced both variants and counted
nothing. -/
theorem access_done_or_quiet {K : Kernel ρ} {w w' : World ρ} (hR : Rendezvous .access w.ctl)
    (hrun : execSyscall K .access w = .ret 0 w') :
    (∀ v, (Syscall.access.plan v).Done (w.ctl v) (w'.ctl v)) ∨
      ∀ v, (w'.ctl v).Silenced ∧ (w'.ctl v).num = (w.ctl v).num := by
  have hx := hR.atEntry .master
  have hy := hR.atEntry .replica
  have hcx : (w.ctl .master).origRax = Syscall.access.nr := hR.call .master
  have hvia : Prog.Via World.ctl (pair (w.ctl .master) (w.ctl .replica)) (execSyscallAccess K)
      ⟨fun r C => r = 0 → (∀ v, (Syscall.access.plan v).Done (w.ctl v) (C v)) ∨
        ∀ v, (C v).Silenced ∧ (C v).num = (w.ctl v).num, fun _ => True, fun _ _ => True⟩ := by
    refine .keeps (readOnly_verdict .access).silent fun _ => .ite (fun _ => ?_)
      fun _ => .pure fun h => absurd h (by decide)
    refine .bind (R := ⟨fun _ C => (∀ v, (Syscall.access.plan v).Done (w.ctl v) (C v)) ∨
      ∀ v, (C v).Silenced ∧ (C v).num = (w.ctl v).num, fun _ => False, fun _ _ => False⟩) ?_
      (fun _ _ h => .pure fun _ => h) (fun _ h => h.elim) fun _ _ h => h.elim
    refine via_runMasterReplicateRet hx hy (fun _ => .inr ?_) (fun _ => .inr ?_) (.inl ?_)
    · exact Who.forall_iff.2 ⟨⟨Ctl.silenced_lost _, rfl⟩, hy.silenced, rfl⟩
    · exact Who.forall_iff.2 ⟨⟨hx.finished.silenced, rfl⟩, Ctl.silenced_lost _, rfl⟩
    · refine Who.forall_iff.2 ⟨?_, hy.done_completed _ _⟩
      rw [pair_master, hcx]
      exact hx.done_completed _ _
  exact Prog.ret_of_wp (hvia w (pair_eta w.ctl).symm) hrun rfl

section Serviced

variable {stale : Prop} {w w' : World ρ} {v : Who} {K : Kernel ρ}

/-- A serviced call has kept to its plan, or has silenced both variants and counted
nothing. -/
theorem Lockstep.serviced (h : Lockstep stale w) (hp : (w.proc v).pending = true)
    (ha : (w.proc v).alive = true) (hsync : (w.woken v).callsSync v)
    (hrun : processSyscallSync K ((w.woken v).noted v) = .ret 0 w') :
    ∃ c, Rendezvous c ((w.woken v).noted v).ctl ∧
      ((∀ u, (c.plan u).Done (((w.woken v).noted v).ctl u) (w'.ctl u)) ∨
        ∀ u, (w'.ctl u).Silenced ∧ (w'.ctl u).num = (((w.woken v).noted v).ctl u).num) := by
  rcases h.meeting hp ha hsync K with hno | ⟨c, hR, hexec⟩
  · rw [hno] at hrun
    exact absurd hrun (by simp)
  rw [hexec] at hrun
  refine ⟨c, hR, ?_⟩
  by_cases hc : c = .access
  · subst hc
    exact access_done_or_quiet hR hrun
  · rcases (Prog.ret_of_wp (execSyscall_follows K c hR _ rfl) hrun).1 rfl with hdone | ⟨⟨hacc, -⟩, -⟩
    · exact .inl hdone
    · exact absurd hacc hc

end Serviced

/-! ## How far the counters are apart -/

/-- While the system waits, the variants are in lockstep; or there is nothing left to wait
for, and the counters are equal. -/
def Sys.CountersInStep (s : Sys ρ) : Prop :=
  s.mode = .waiting → Lockstep True s.world ∨
    (∀ v, (s.world.ctl v).Silenced) ∧ ∀ u v, (s.world.var u).syscallNum = (s.world.var v).syscallNum

theorem countersInStep_step {s s' : Sys ρ} {e : Event ρ} (hs : s.CountersInStep)
    (hstep : (system ρ).step s e s') (he : e.Plain) : s'.CountersInStep := by
  intro hmode
  obtain ⟨hwait, hcase⟩ := step_cases hstep
  rcases hs hwait with h | ⟨hquiet, -⟩
  · cases hcase with
    | run v K hrun => exact .inl (h.advance hrun fun _ => he.noSignal v _ _)
    | kill v ha => exact he.elim
    | noChild hm hr => exact absurd hmode (by simp)
    | wake v K hp hbody =>
      cases hbody with
      | held hstat hop _ _ => exact .inl (h.held hp (alive_of_stopped hstat) hop)
      | passed hstat hop => exact .inl (h.passed hp (alive_of_stopped hstat) hop)
      | serviced hstat hsync hrun =>
        obtain ⟨c, hR, hdone | hquiet⟩ := h.serviced hp (alive_of_stopped hstat) hsync hrun
        · exact .inl (h.of_done hR hdone fun _ => trivial)
        · refine .inr ⟨fun u => (hquiet u).1, fun u u' => ?_⟩
          have hnum : ∀ x, (((s.world.woken v).noted v).ctl x).num = (s.world.var x).syscallNum := by
            intro x
            obtain ⟨r, hr⟩ := Lockstep.ctl_met s.world v x
            rw [hr]
            rfl
          refine ((hquiet u).2.trans (hnum u)).trans (((h.met hR).2.2 u u').trans ?_)
          exact ((hquiet u').2.trans (hnum u')).symm
      | _ => exact absurd hmode (by simp)
  · exact absurd hmode (not_waiting_of_silenced hquiet hstep he)

/-- One of three cases: the counters are equal, or the other's call is still to be counted, or
one's own. -/
theorem Lockstep.num_cases {stale : Prop} {w : World ρ} (h : Lockstep stale w) (v : Who) :
    (w.var v).syscallNum = (w.var v.other).syscallNum ∨
      ((w.var v).syscallNum = (w.var v.other).syscallNum + 1 ∧ (w.proc v).owed = 0) ∨
      ((w.var v.other).syscallNum = (w.var v).syscallNum + 1 ∧ (w.proc v).owed = 1) := by
  have hnum := h.num v v.other
  have howed : ∀ u, (w.proc u).owed = 0 ∨ (w.proc u).owed = 1 := by
    intro u
    unfold Tracee.owed
    split <;> simp
  rcases howed v with hv | hv <;> rcases howed v.other with ho | ho <;> rw [hv, ho] at hnum
  · left
    simpa using hnum
  · right; left
    exact ⟨by simpa using hnum, hv⟩
  · right; right
    exact ⟨by simpa using hnum.symm, hv⟩
  · left
    simpa using hnum

section Runs

variable {s₀ s : Sys ρ} {es : List (Event ρ)}

/-- **The counters keep step.**  In every run, whenever the main loop waits:

* the two counters differ by at most one, modulo `2^64`, and as numbers unless the other one
  stands at `2^64 - 1`;
* a variant that is one behind is inside a call that was released;
* the next wake-up does not find a variant at an entry stop with a counter below its
  partner's, unless the partner's stands at `2^64 - 1`. -/
theorem counters_in_step (h₀ : s₀.world.Started)
    (hrun : ((system ρ).restrict fun _ e => e.Plain).Run s₀ es s) (hmode : s.mode = .waiting)
    (v : Who) :
    ((s.world.var v).syscallNum = (s.world.var v.other).syscallNum ∨
      (s.world.var v).syscallNum = (s.world.var v.other).syscallNum + 1 ∨
      (s.world.var v.other).syscallNum = (s.world.var v).syscallNum + 1) ∧
    ((s.world.var v.other).syscallNum ≠ -1 →
      (s.world.var v.other).syscallNum.toNat ≤ (s.world.var v).syscallNum.toNat + 1) ∧
    ((s.world.var v.other).syscallNum = (s.world.var v).syscallNum + 1 →
      (s.world.proc v).loc = .kernel ∨
        (s.world.proc v).loc = .exit ∧ (s.world.proc v).reported = false) ∧
    ((s.world.proc v).pending = true → ((s.world.woken v).proc v).waitStatus = .stopped →
      ((s.world.woken v).proc v).syscallInfo.op = .entry →
      (s.world.var v.other).syscallNum ≠ -1 →
        (s.world.var v.other).syscallNum ≤ (s.world.var v).syscallNum) := by
  have hinv : s.CountersInStep := hrun.invariant (fun _ => .inl (.of_started h₀))
    fun _ _ _ hi hst => countersInStep_step hi hst.1 hst.2
  rcases hinv hmode with h | ⟨hquiet, heq⟩
  · have hcases := h.num_cases v
    refine ⟨hcases.imp id (Or.imp And.left And.left), fun hlast => ?_, fun hbehind => ?_,
      fun hp hstat hop hlast => ?_⟩
    · rcases hcases with heq | ⟨hahead, -⟩ | ⟨hbehind, -⟩ <;> bv_omega
    · -- it is itself the one that owes a count
      have hcall : (s.world.proc v).owed = 1 := by
        rcases hcases with heq | ⟨hahead, -⟩ | ⟨-, hcall⟩
        · bv_omega
        · bv_omega
        · exact hcall
      cases h.settled v with
      | inCall hloc hrep _ _ => exact hloc.imp id fun hl => ⟨hl, hrep⟩
      | user hloc _ _ _ | arriving hloc _ _ _ _ | waiting hloc _ _ _ _ _ =>
        rw [Tracee.owed, hloc, if_neg (by decide)] at hcall
        exact absurd hcall (by decide)
    · obtain ⟨hloc, -, -⟩ := h.at_entry hp (alive_of_stopped hstat) hop
      have hv : (s.world.proc v).owed = 0 := by rw [Tracee.owed, hloc, if_neg (by decide)]
      rcases hcases with heq | ⟨hahead, -⟩ | ⟨-, hcall⟩
      · exact BitVec.le_of_eq heq.symm
      · bv_omega
      · exact absurd (hv.symm.trans hcall) (by decide)
  · have hnum := heq v v.other
    refine ⟨.inl hnum, fun _ => ?_, fun hbehind => ?_, fun _ _ _ _ => ?_⟩ <;> bv_omega

/-! ## Counting calls -/

/-- An event of the two-stop model in which no variant is found at the entry of `getrandom`
or `shutdown`, nor at that of its `2^64`-th call. -/
structure Event.Counted (s : Sys ρ) (e : Event ρ) : Prop where
  plain : e.Plain
  counted : ∀ v K, e = .wake v K → (s.world.proc v).loc = .entry →
    (s.world.proc v).regs .origRax ≠ Syscall.getrandom.nr ∧
      (s.world.proc v).regs .origRax ≠ Syscall.shutdown.nr ∧
      (s.world.proc v).ran.length + 1 < 2 ^ 64

/-- Every other plan counts its call once, sooner or later. -/
theorem Syscall.plan_once {c : Syscall} (hg : c ≠ .getrandom) (hs : c ≠ .shutdown) (v : Who) :
    (c.plan v).counted + (c.plan v).owed = 1 := by
  cases c <;> first | exact absurd rfl hg | exact absurd rfl hs | (cases v <;> rfl)

/-- The counters say how many calls have run, but for those still to be counted. -/
structure World.Counts (w : World ρ) : Prop where
  num : ∀ v, (w.var v).syscallNum + (w.proc v).owed = BitVec.ofNat 64 (w.proc v).ran.length
  small : ∀ v, (w.proc v).ran.length < 2 ^ 64

theorem World.Counts.of_same {w w' : World ρ} (h : w.Counts) (hsame : SameCount w w') : w'.Counts :=
  ⟨fun v => by rw [hsame.num, hsame.ran, h.num], fun v => by rw [hsame.ran]; exact h.small v⟩

theorem counts_step {s s' : Sys ρ} {e : Event ρ} (h : Lockstep True s.world) (hc : s.world.Counts)
    (hstep : (system ρ).step s e s') (he : e.Counted s) (hmode : s'.mode = .waiting) :
    s'.world.Counts ∨ ∀ v, (s'.world.ctl v).Silenced := by
  rcases step_counts hstep hmode with hsame | ⟨v, K, w', rfl, hp, ha, hsync, hrun, rfl⟩
  · exact .inl (hc.of_same hsame)
  obtain ⟨c, hR, hdone | hquiet⟩ := h.serviced hp ha hsync hrun
  · obtain ⟨hloc, hcall, -⟩ := h.met hR
    obtain ⟨hg, hs, hsmall⟩ := he.counted v K rfl (hloc v)
    rw [hcall v] at hg hs
    have honce := c.plan_once (fun hc => hg (by rw [hc])) fun hc => hs (by rw [hc])
    refine .inl ⟨fun u => ?_, fun u => ?_⟩
    · obtain ⟨hran, -, hnum⟩ := Lockstep.counts_of_done (hdone u)
      have hbefore := hc.num u
      rw [Tracee.owed, hloc u, if_neg (by decide), add_zero] at hbefore
      show (w'.var u).syscallNum + (w'.proc u).owed = BitVec.ofNat 64 (w'.proc u).ran.length
      rw [hnum, Lockstep.owed_of_done (hdone u), hran, List.length_append, BitVec.add_assoc, honce u,
        hbefore, ← BitVec.ofNat_add_ofNat]
      rfl
    · show (w'.proc u).ran.length < 2 ^ 64
      rw [(Lockstep.counts_of_done (hdone u)).1, List.length_append, h.ran_length u v]
      exact hsmall
  · exact .inr fun u => (hquiet u).1

/-- **The counter counts calls.**  In every run in which no variant is found at the entry of
`getrandom` or `shutdown`, and that is not longer than the counter, whenever the main loop waits
a variant that runs its own code has been counted once for each call it has made. -/
theorem counter_counts (h₀ : s₀.world.Started)
    (hrun : ((system ρ).restrict Event.Counted).Run s₀ es s) (hmode : s.mode = .waiting) {v : Who}
    (ha : (s.world.proc v).alive = true) (hl : (s.world.proc v).loc = .user) :
    (s.world.var v).syscallNum.toNat = (s.world.proc v).ran.length := by
  have hstart : s₀.world.Counts := by
    refine ⟨fun u => ?_, fun u => ?_⟩
    · simp [Tracee.owed, h₀.loc u, h₀.num u, h₀.ran u]
    · simp [h₀.ran u]
  have hinv : s.mode = .waiting →
      (Lockstep True s.world ∧ s.world.Counts) ∨ ∀ u, (s.world.ctl u).Silenced := by
    refine hrun.invariant (I := fun t => t.mode = .waiting →
      (Lockstep True t.world ∧ t.world.Counts) ∨ ∀ u, (t.world.ctl u).Silenced)
      (fun _ => .inl ⟨.of_started h₀, hstart⟩) fun t e t' ht hstep hmode' => ?_
    obtain ⟨hstep, hok⟩ := hstep
    have hwait := (step_cases hstep).1
    rcases ht hwait with ⟨hlock, hcount⟩ | hquiet
    · rcases lockstep_step hlock hstep hok.plain (fun _ _ _ _ _ => trivial) hmode' with
        hlock' | ⟨-, hsilent⟩
      · exact (counts_step hlock hcount hstep hok hmode').imp (fun hcount' => ⟨hlock', hcount'⟩) id
      · exact .inr hsilent
    · exact absurd hmode' (not_waiting_of_silenced hquiet hstep hok.plain)
  rcases hinv hmode with ⟨-, hcount⟩ | hquiet
  · have hnum := hcount.num v
    have hsmall := hcount.small v
    rw [Tracee.owed, hl, if_neg (by decide), add_zero] at hnum
    rw [hnum, BitVec.toNat_ofNat, Nat.mod_eq_of_lt hsmall]
  · exact absurd hl ((hquiet v).2 ha).1

end Runs

/-! ### Calls that are counted, and one that is not -/

/-- Both variants come to the entry of the call `nr`. -/
def arriveCalling (nr : Word) : List (Event Unit) := [.run .master (.calling nr), .run .replica (.calling nr)]

/-- Both variants are held at their first `getpid`, and the master is heard of first. -/
def getpidHeld : Sys Unit :=
  ((Sys.fresh ()).played (arriveCalling 39)).played [.wake .master (.calling 39)]

/-- After that `getpid` the master runs its own code, and has been counted once. -/
theorem counter_counts_getpid :
    ((getpidHeld.played [.wake .replica (.calling 39)]).world.var .master).syscallNum.toNat =
      ((getpidHeld.played [.wake .replica (.calling 39)]).world.proc .master).ran.length := by
  have harrive : ∀ e ∈ arriveCalling 39, ∀ t : Sys Unit, e.Counted t := by
    simp only [arriveCalling, List.forall_mem_cons, List.not_mem_nil, false_imp_iff, implies_true,
      and_true]
    exact ⟨fun t => ⟨plain_calling 39, nofun⟩, fun t => ⟨plain_calling 39, nofun⟩⟩
  have hmaster : (Event.wake .master (.calling 39)).Counted ((Sys.fresh ()).played (arriveCalling 39)) :=
    ⟨plain_calling 39, fun v K h _ => by cases h; decide +kernel⟩
  have hreplica : (Event.wake .replica (.calling 39)).Counted getpidHeld :=
    ⟨plain_calling 39, fun v K h _ => by cases h; decide +kernel⟩
  refine counter_counts (started_fresh ()) (.snoc (.snoc ((run_played (by decide +kernel)).to_restrict
    harrive) ⟨step_played (by decide +kernel), hmaster⟩) ⟨step_played (by decide +kernel), hreplica⟩)
    ?_ ?_ ?_ <;> decide +kernel

/-- Both variants make the call `nr`, and the master is heard of first. -/
def meetCalling (nr : Word) : List (Event Unit) :=
  arriveCalling nr ++ [.wake .master (.calling nr), .wake .replica (.calling nr)]

theorem plain_meetCalling (nr : Word) : ∀ e ∈ meetCalling nr, e.Plain := by
  simp [meetCalling, arriveCalling, Event.Plain, plain_calling]

/-- After its first `getrandom` the master runs its own code and has not been counted. -/
theorem getrandom_uncounted : ∃ s, ((system Unit).restrict fun _ e => e.Plain).Run (.fresh ())
    (meetCalling 318) s ∧ s.mode = .waiting ∧ (s.world.proc .master).alive = true ∧
      (s.world.proc .master).loc = .user ∧ (s.world.proc .master).ran = [Syscall.getrandom.nr] ∧
      (s.world.var .master).syscallNum = 0 := by
  refine ⟨_, (run_played (by decide +kernel)).to_restrict fun e he _ => plain_meetCalling 318 e he, ?_⟩
  decide +kernel

/-! ### A counter that wraps -/

/-- Both variants in their own code, after the same calls. -/
def Sys.idle (num : Word) (entries : ℕ) (ran : List Word) (regs : Regs) (info : SyscallInfo) :
    Sys Unit :=
  ⟨⟨pair ⟨.user, true, false, true, PTRACE_O_TRACESYSGOOD, regs, fun _ => none, entries, ran⟩
      ⟨.user, true, false, true, PTRACE_O_TRACESYSGOOD, regs, fun _ => none, entries, ran⟩,
    pair ⟨.running, num, info⟩ ⟨.running, num, info⟩, [], fun _ _ => 0, (), .compact⟩, .waiting⟩

theorem fresh_idle : Sys.fresh () = .idle 0 0 [] (fun _ => 0) .zero := by
  unfold Sys.fresh Sys.idle Tracee.fresh
  congr 2 <;> funext v <;> cases v <;> rfl

/-- Both variants make a `getuid`, and the master's exit stop is passed. -/
def getuidPassed : List (Event Unit) :=
  meetCalling 102 ++ arriveCalling 102 ++ [.wake .master (.calling 102)]

/-- A whole round: so is the replica's. -/
def getuidRound : List (Event Unit) := getuidPassed ++ [.wake .replica (.calling 102)]

theorem plain_getuidRound : ∀ e ∈ getuidRound, e.Plain := by
  simp [getuidRound, getuidPassed, meetCalling, arriveCalling, Event.Plain, plain_calling]

section Wrap

variable (num : Word) (entries : ℕ) (ran : List Word) (regs : Regs) (info : SyscallInfo)

/-- The registers after a `getuid`. -/
def getuidRegs : Regs := Tracee.retRegs (Function.update regs .origRax 102) 0 0 0

/-- The master has passed its exit stop; the replica's is still to be heard of. -/
def Sys.halfway : Sys Unit :=
  ⟨⟨pair ⟨.user, true, false, true, PTRACE_O_TRACESYSGOOD, getuidRegs regs, fun _ => none,
        entries + 1, ran ++ [102]⟩
      ⟨.exit, true, false, true, PTRACE_O_TRACESYSGOOD, getuidRegs regs, fun _ => none, entries + 1,
        ran ++ [102]⟩,
    pair ⟨.running, num + 1, .ofExit (getuidRegs regs)⟩
      ⟨.running, num, .ofEntry (Function.update regs .origRax 102)⟩, [], fun _ _ => 0, (), .compact⟩, .waiting⟩

/-- From the two entry stops to the master's exit stop. -/
theorem play_getuidPassed : (Sys.idle num entries ran regs info).play getuidPassed =
    some (.halfway num entries ran regs) := by
  have hnr : Syscall.ofNr 102#64 = some .getuid := by decide
  simp [getuidPassed, meetCalling, arriveCalling, Sys.idle, Sys.halfway, Sys.play, Sys.next,
    Tracee.running, World.advance, Kernel.calling, Tracee.arrive, Tracee.finish, World.setProc,
    World.setVar, Tracee.pending, World.woken, World.report, mainIteration, processVariantEvent,
    Prog.bind_apply, Tracee.waitStatus, checkVariantExit, requestSyscallInfo, Tracee.syscallInfo,
    Tracee.stopped, assign, Sys.after, -bind_pure_comp, processSyscallSync, syscallInfoOf, hnr,
    execSyscall, resumeBoth, resumeVariantFromWait, resumeVariantFromExit, ptrace, Tracee.resume,
    getuidRegs]

/-- The replica passes its exit stop too. -/
theorem next_wake_halfway : (Sys.halfway num entries ran regs).next (.wake .replica (.calling 102)) =
    some (.idle (num + 1) (entries + 1) (ran ++ [102]) (getuidRegs regs) (.ofExit (getuidRegs regs))) := by
  simp [Sys.halfway, Sys.idle, Sys.next, Tracee.running, World.setProc, World.setVar, Tracee.pending,
    World.woken, World.report, mainIteration, processVariantEvent, Prog.bind_apply, Tracee.waitStatus,
    checkVariantExit, requestSyscallInfo, Tracee.syscallInfo, Tracee.stopped, assign, Sys.after,
    -bind_pure_comp, resumeVariantFromExit, ptrace, Tracee.resume]

/-- The master comes to its next call, the replica's exit stop still to be heard of. -/
def Sys.ahead : Sys Unit :=
  ⟨⟨pair ⟨.entry, true, false, true, PTRACE_O_TRACESYSGOOD,
        Function.update (getuidRegs regs) .origRax 102, fun _ => none, entries + 2, ran ++ [102]⟩
      ⟨.exit, true, false, true, PTRACE_O_TRACESYSGOOD, getuidRegs regs, fun _ => none, entries + 1,
        ran ++ [102]⟩,
    pair ⟨.running, num + 1, .ofExit (getuidRegs regs)⟩
      ⟨.running, num, .ofEntry (Function.update regs .origRax 102)⟩, [], fun _ _ => 0, (), .compact⟩, .waiting⟩

theorem next_run_halfway : (Sys.halfway num entries ran regs).next (.run .master (.calling 102)) =
    some (.ahead num entries ran regs) := by
  simp [Sys.halfway, Sys.ahead, Sys.next, Tracee.running, World.advance, Kernel.calling,
    Tracee.arrive, World.setProc]

end Wrap

theorem Sys.play_append (s : Sys Unit) (es fs : List (Event Unit)) :
    s.play (es ++ fs) = (s.play es).bind fun t => t.play fs := by
  induction es generalizing s with
  | nil => rfl
  | cons e es ih =>
    show (s.next e).bind (fun t => t.play (es ++ fs)) = _
    cases hs : s.next e with
    | none => simp [Sys.play, hs]
    | some t => simp [Sys.play, hs, ih]

/-- A round counts one call in both variants. -/
theorem play_getuidRound (num : Word) (entries : ℕ) (ran : List Word) (regs : Regs)
    (info : SyscallInfo) : (Sys.idle num entries ran regs info).play getuidRound =
      some (.idle (num + 1) (entries + 1) (ran ++ [102]) (getuidRegs regs)
        (.ofExit (getuidRegs regs))) := by
  rw [getuidRound, Sys.play_append, play_getuidPassed, Option.bind_some, Sys.play, next_wake_halfway]
  rfl

/-- Any number of rounds can follow each other. -/
theorem idle_reached (n : ℕ) : ∃ es, (∀ e ∈ es, Event.Plain e) ∧
    ∃ entries ran regs info,
      (Sys.fresh ()).play es = some (.idle (BitVec.ofNat 64 n) entries ran regs info) := by
  induction n with
  | zero => exact ⟨[], by simp, 0, [], fun _ => 0, .zero, congrArg some fresh_idle⟩
  | succ n ih =>
    obtain ⟨es, hes, entries, ran, regs, info, hplay⟩ := ih
    refine ⟨es ++ getuidRound, fun e he => ?_, entries + 1, ran ++ [102], getuidRegs regs,
      .ofExit (getuidRegs regs), ?_⟩
    · rcases List.mem_append.1 he with he | he
      · exact hes e he
      · exact plain_getuidRound e he
    · rw [Sys.play_append, hplay, Option.bind_some, play_getuidRound, BitVec.ofNat_add]
      rfl

/-- After `2^64` calls the master's counter has come round to 0, and the replica's stands at
`2^64 - 1`.  The master's next wake-up at an entry stop is taken for an `Invalid State`. -/
theorem counter_wraps : ∃ es s, ((system Unit).restrict fun _ e => e.Plain).Run (.fresh ()) es s ∧
    s.mode = .waiting ∧ (s.world.var .master).syscallNum.toNat = 0 ∧
      (s.world.var .replica).syscallNum.toNat = 2 ^ 64 - 1 ∧
      ((s.world.woken .master).proc .master).syscallInfo.op = .entry ∧
      (s.played [.wake .master (.calling 102)]).mode = .gone 1 := by
  obtain ⟨es, hes, entries, ran, regs, info, hplay⟩ := idle_reached (2 ^ 64 - 1)
  have hrun : (Sys.fresh ()).play (es ++ (getuidPassed ++ [.run .master (.calling 102)])) =
      some (.ahead (BitVec.ofNat 64 (2 ^ 64 - 1)) entries ran regs) := by
    rw [Sys.play_append, hplay, Option.bind_some, Sys.play_append, play_getuidPassed,
      Option.bind_some, Sys.play, next_run_halfway]
    rfl
  refine ⟨_, _, (run_of_play hrun).to_restrict fun e he _ => ?_, rfl, rfl, rfl, rfl, ?_⟩
  · rcases List.mem_append.1 he with he | he
    · exact hes e he
    · refine (List.mem_append.1 he).elim (fun h => plain_getuidRound e ?_) fun h => ?_
      · exact List.mem_append_left _ h
      · rw [List.mem_singleton.1 h]
        exact plain_calling 102
  · rfl

/-- At the first wake-up the replica is not behind the master. -/
theorem counters_in_step_getuid :
    (((Sys.fresh ()).played Sys.firstGetuid).world.var .master).syscallNum ≤
      (((Sys.fresh ()).played Sys.firstGetuid).world.var .replica).syscallNum :=
  (counters_in_step (started_fresh ()) ((run_played (by decide +kernel)).to_restrict (by
    simp [Sys.firstGetuid, Event.Plain, plain_calling])) (by decide +kernel) .replica).2.2.2
    (by decide +kernel) (by decide +kernel) (by decide +kernel) (by decide +kernel)

end Aurora
