import AuroraMVEE.Mediation

/-!
# Divergence that only a schedule can cause

`VSTATE_WAIT` is meant to say that a variant stands at an entry stop nobody has
serviced.  It does, at every point where the main loop waits, as long as no variant
comes to the entry of `shutdown`: `wait_flag_exact`.  `execSyscall_shutdown` resumes with
the helper for exit stops, which counts and does not clear the flag; a later event then
finds a partner marked as waiting that is far from any stop, and the pair is killed
in one order of the same stops and not in another (`shutdown_diverges`).
-/

namespace Aurora

variable {ρ : Type}

/-- At an entry stop that `waitpid` has reported and nothing has serviced. -/
structure Tracee.Held (t : Tracee) : Prop where
  stopped : t.stopped = true
  atEntry : t.loc = .entry
  reported : t.reported = true

/-- An event of the two-stop model in which no variant dies in an executor's wait, and
no variant is found at the entry of `shutdown`. -/
structure Event.Orderly (s : Sys ρ) (e : Event ρ) : Prop where
  plain : e.Plain
  returns : ∀ v K, e = .wake v K → K.Returns
  noShutdown : ∀ v K, e = .wake v K → (s.world.proc v).loc = .entry →
    (s.world.proc v).regs .origRax ≠ Syscall.shutdown.nr

section Runs

variable {s₀ s : Sys ρ} {es : List (Event ρ)}

/-- Orderly runs stay in lockstep, with nothing stale. -/
theorem lockstep_run (h₀ : s₀.world.Started)
    (hrun : ((system ρ).restrict Event.Orderly).Run s₀ es s) (hmode : s.mode = .waiting) :
    Lockstep False s.world := by
  refine hrun.invariant (I := fun t => t.mode = .waiting → Lockstep False t.world)
    (fun _ => .of_started h₀) (fun t e t' ht hstep hmode' => ?_) hmode
  obtain ⟨hstep, hok⟩ := hstep
  have hlock := ht (step_cases hstep).1
  rcases lockstep_step hlock hstep hok.plain hok.noShutdown hmode' with h | ⟨⟨v, K, rfl, hK⟩, -⟩
  · exact h
  · exact absurd (hok.returns v K rfl) hK

/-- With nothing stale, the flag of a settled variant is exact. -/
theorem Settled.wait_iff {t : Tracee} {x : Variant} (h : Settled False t x)
    (ht : t.traced = true) : x.state = .wait ↔ t.Held := by
  cases h with
  | user hloc _ _ hstate =>
    exact ⟨fun hw => (hstate hw).1.elim, fun hh => absurd (hh.atEntry.symm.trans hloc) (by decide)⟩
  | arriving _ _ hrep _ hstate =>
    exact ⟨fun hw => (hstate hw).1.elim, fun hh => absurd (hh.reported.symm.trans hrep) (by decide)⟩
  | waiting hloc halive hrep _ hstate _ =>
    exact ⟨fun _ => ⟨Tracee.stopped_entry hloc halive ht, hloc, hrep⟩, fun _ => hstate⟩
  | inCall hloc _ _ hstate =>
    refine ⟨fun hw => (hstate hw).elim, fun hh => ?_⟩
    rcases hloc with hl | hl <;> exact absurd (hh.atEntry.symm.trans hl) (by decide)

/-- With nothing stale, a struct marked as waiting holds the entry stop. -/
theorem Settled.op_of_wait {t : Tracee} {x : Variant} (h : Settled False t x)
    (hw : x.state = .wait) : x.syscallInfo.op = .entry := by
  cases h with
  | user _ _ _ hstate => exact (hstate hw).1.elim
  | arriving _ _ _ _ hstate => exact (hstate hw).1.elim
  | waiting _ _ _ _ _ hinfo => rw [hinfo]; rfl
  | inCall _ _ _ hstate => exact (hstate hw).elim

/-- **No divergence by schedule.**  In every run in which no variant is found at the
entry of `shutdown`, whenever the main loop waits:

* a variant is marked as waiting exactly if it stands at an entry stop that was
  reported and not serviced;
* if the next wake-up calls `processSyscallSync`, both variants really stand at
  unserviced entry stops, and both structs say so: the ops cannot mismatch;
* the next wake-up does not find a variant behind its partner, short of a counter
  that has no successor. -/
theorem wait_flag_exact (h₀ : s₀.world.Started)
    (hrun : ((system ρ).restrict Event.Orderly).Run s₀ es s) (hmode : s.mode = .waiting) :
    (∀ v, (s.world.var v).state = .wait ↔ (s.world.proc v).Held) ∧
      (∀ v, (s.world.proc v).pending = true → ((s.world.woken v).proc v).waitStatus = .stopped →
        (s.world.woken v).callsSync v →
          ∀ x, ((s.world.woken v).proc x).Held ∧
            (((s.world.woken v).noted v).var x).syscallInfo.op = .entry) ∧
      ∀ v, (s.world.proc v).pending = true → ((s.world.woken v).proc v).waitStatus = .stopped →
        ((s.world.woken v).proc v).syscallInfo.op = .entry →
        (s.world.var v.other).syscallNum ≠ -1 →
          (s.world.var v.other).syscallNum ≤ (s.world.var v).syscallNum := by
  have h := lockstep_run h₀ hrun hmode
  refine ⟨fun v => (h.settled v).wait_iff (h.traced v), fun v hp hstat hsync x => ?_,
    fun v hp hstat hop hlast => ?_⟩
  · obtain ⟨hop, -, hwait⟩ := hsync
    obtain ⟨hloc, -, -⟩ := h.at_entry hp (alive_of_stopped hstat) hop
    have ho := h.settled v.other
    by_cases hx : x = v
    · subst hx
      have hstop := Tracee.stopped_entry hloc (alive_of_stopped hstat) (h.traced x)
      refine ⟨⟨by simpa [Tracee.stopped] using hstop, by simpa using hloc, by simp⟩, ?_⟩
      rw [World.noted_var_self]
      exact hop
    · rw [Who.eq_other_of_ne hx]
      have hproc : (s.world.woken v).proc v.other = s.world.proc v.other := by
        simp [World.woken_proc]
      rw [hproc, World.noted_var_other]
      exact ⟨(ho.wait_iff (h.traced _)).1 hwait, ho.op_of_wait hwait⟩
  · obtain ⟨hloc, -, -⟩ := h.at_entry hp (alive_of_stopped hstat) hop
    have hnum := h.num v v.other
    have hv : (s.world.proc v).owed = 0 := by rw [Tracee.owed, hloc, if_neg (by decide)]
    rw [hv] at hnum
    unfold Tracee.owed at hnum
    split at hnum <;> bv_omega

end Runs

theorem returns_calling (nr : Word) : (Kernel.calling nr).Returns := fun _ _ _ h => by
  simp [Kernel.calling] at h

/-- Both variants come to the entry of `getuid`. -/
def bothArrive : List (Event Unit) := [.run .master (.calling 102), .run .replica (.calling 102)]

/-- The master's stop is reported; it is marked as waiting, and held. -/
theorem wait_flag_exact_getuid :
    ((((Sys.fresh ()).played bothArrive).played [.wake .master (.calling 102)]).world.proc
      .master).Held := by
  have hok : ∀ e ∈ bothArrive, ∀ t : Sys Unit, e.Orderly t := by
    simp only [bothArrive, List.forall_mem_cons, List.not_mem_nil, false_imp_iff, implies_true,
      and_true]
    exact ⟨fun t => ⟨plain_calling 102, nofun, nofun⟩, fun t => ⟨plain_calling 102, nofun, nofun⟩⟩
  have hwake : (Event.wake .master (.calling 102)).Orderly ((Sys.fresh ()).played bothArrive) :=
    ⟨plain_calling 102, fun v K h => by cases h; exact returns_calling 102,
      fun v K h _ => by cases h; decide +kernel⟩
  refine ((wait_flag_exact (started_fresh ())
    (.snoc ((run_played (by decide +kernel)).to_restrict hok)
      ⟨step_played (by decide +kernel), hwake⟩) ?_).1 .master).1 ?_ <;> decide +kernel

/-! ## The order that kills -/

/-- Both variants come to the entry of `shutdown`, and the call is serviced. -/
def shutdownPair : List (Event Unit) :=
  [.run .master (.calling 48), .run .replica (.calling 48), .wake .master (.calling 48),
    .wake .replica (.calling 48)]

/-- Both leave `shutdown`; the variant `v` is the first to come to its next call. -/
def aheadAfterShutdown (v : Who) : List (Event Unit) :=
  shutdownPair ++ [.run .master (.calling 48), .run .replica (.calling 48),
    .wake .master (.calling 48), .wake .replica (.calling 48), .run v (.calling 48)]

/-- Both variants make the same calls with the same arguments.  After the first
`shutdown` the master is in the kernel and marked as waiting.  If the replica comes to
the next call first, `processSyscallSync` is called while the master runs its own code,
and the pair is killed; if the master does, the call is serviced. -/
theorem shutdown_diverges :
    (∃ s, ((system Unit).restrict fun _ e => e.Plain).Run (.fresh ()) shutdownPair s ∧
      s.mode = .waiting ∧ (s.world.var .master).state = .wait ∧
      (s.world.proc .master).loc = .kernel) ∧
    (∃ s, ((system Unit).restrict fun _ e => e.Plain).Run (.fresh ()) (aheadAfterShutdown .replica) s ∧
      (s.world.woken .replica).callsSync .replica ∧ (s.world.proc .master).loc = .user ∧
      (s.played [.wake .replica (.calling 48)]).mode = .gone 1) ∧
    (∃ s, ((system Unit).restrict fun _ e => e.Plain).Run (.fresh ()) (aheadAfterShutdown .master) s ∧
      (s.played [.wake .master (.calling 48), .run .replica (.calling 48),
        .wake .replica (.calling 48)]).mode = .waiting) := by
  have hplain : ∀ v, ∀ e ∈ aheadAfterShutdown v, e.Plain := by
    simp [aheadAfterShutdown, shutdownPair, Event.Plain, plain_calling]
  have hpair : ∀ e ∈ shutdownPair, e.Plain := fun e he => hplain .master e (by
    rw [aheadAfterShutdown]
    exact List.mem_append_left _ he)
  refine ⟨⟨_, (run_played (by decide +kernel)).to_restrict fun e he _ => hpair e he, ?_⟩,
    ⟨_, (run_played (by decide +kernel)).to_restrict fun e he _ => hplain _ e he, ?_⟩,
    ⟨_, (run_played (by decide +kernel)).to_restrict fun e he _ => hplain _ e he, ?_⟩⟩ <;>
    decide +kernel

end Aurora
