import AuroraMVEE.Mediation
import AuroraMVEE.Release
import AuroraMVEE.Verdicts
import AuroraMVEE.Channel
import AuroraMVEE.Progress

/-!
# What was executed was approved

The monitor is a reference monitor: nothing gets into the kernel but by the executor of a call, and
the executor has compared the two calls before.

* `executed_approved` — in every run, a call that a kernel executes was approved where the two
  variants met; or it is a `rseq` or `fadvise64` that was not, and then the monitor is gone with the
  same event.
* `paths_never_run` — so a call that names a path is never executed, as long as the master's paths
  are terminated strings: of such a path no comparison is ever approved.
-/

namespace Aurora

variable {ρ : Type}

/-- The comparison of the call says yes. -/
def Approved (c : Syscall) (w : World ρ) : Prop := ∃ w', verdict c w = .ret true w'

section Approval

variable {K : Kernel ρ} {c : Syscall} {w w' : World ρ} {v u : Who}

/-- `rseq` and `fadvise64` fail where their scalars differ. -/
theorem refused_of_differ (h : c = .rseq ∨ c = .fadvise64) (hno : ¬ Approved c w) :
    ¬ w.SameArgs (scalarsCompared c) ∧ ∃ w', execSyscall K c w = .ret (-1) w' := by
  have hfirst {ks : List (Fin 6)} (hv : (verdict c : Mon ρ Bool) = argsEq ks)
      (hexec : execSyscall K c = (do
        let eq ← argsEq ks
        resumeVariantFromWait .master
        resumeVariantFromWait .replica
        return if eq then 0 else -1 : Mon ρ Int)) :
      ¬ w.SameArgs ks ∧ ∃ w', execSyscall K c w = .ret (-1) w' := by
    have hdiff : ¬ w.SameArgs ks := fun hsame => by
      obtain ⟨β, hβ⟩ := (decides_argsEq ks w).ret_true hsame
      exact hno ⟨_, by rw [hv, hβ]⟩
    obtain ⟨β, hβ⟩ := (decides_argsEq ks w).ret_false hdiff
    rw [hexec, Prog.bind_of_ret hβ]
    exact ⟨hdiff, _, rfl⟩
  rcases h with rfl | rfl
  · exact hfirst rfl rfl
  · exact hfirst rfl rfl

/-- An executor that has let a variant into the kernel had approved the call, or it fails. -/
theorem approved_of_ran (hran : ((execSyscall K c w).state.proc u).ran ≠ (w.proc u).ran) :
    Approved c w ∨ (c = .rseq ∨ c = .fadvise64) ∧ ¬ w.SameArgs (scalarsCompared c) ∧
      ∃ w', execSyscall K c w = .ret (-1) w' := by
  by_cases hyes : Approved c w
  · exact .inl hyes
  by_cases hc : c = .rseq ∨ c = .fadvise64
  · exact .inr ⟨hc, refused_of_differ hc hyes⟩
  · obtain ⟨b, β, hβ⟩ := readOnly_verdict c w
    cases b with
    | true => exact absurd ⟨_, hβ⟩ hyes
    | false =>
      obtain ⟨w', hw', hproc, -⟩ := refusesUntouched_of_verdict K (fun h => hc (.inl h))
        (fun h => hc (.inr h)) hβ
      rw [hw'] at hran
      exact absurd (congrArg Tracee.ran (congrFun hproc u)) hran

end Approval

section Runs

variable {s₀ s s' : Sys ρ} {es : List (Event ρ)} {e : Event ρ} {u : Who}

/-- One step: a variant is let into the kernel where the two meet, and for a call that was approved,
or the monitor is gone. -/
theorem approved_step (hs : s.InStep True) (hstep : (system ρ).step s e s')
    (hu : (s'.world.proc u).ran ≠ (s.world.proc u).ran) :
    ∃ v K c, e = .wake v K ∧ Rendezvous c ((s.world.woken v).noted v).ctl ∧
      (∀ x, (((s.world.woken v).noted v).var x).syscallInfo = .ofEntry (s.world.proc x).regs) ∧
      (s'.world.proc u).ran = (s.world.proc u).ran ++ [(c.plan u).nr] ∧
      (Approved c ((s.world.woken v).noted v) ∨ (c = .rseq ∨ c = .fadvise64) ∧
        ¬ ((s.world.woken v).noted v).SameArgs (scalarsCompared c) ∧ s'.mode = .gone 1) := by
  obtain ⟨hmode, hcase⟩ := step_cases hstep
  obtain ⟨v, K, rfl, hp, hstat, hsync, hran⟩ := ran_only_in_sync hcase hu
  have hwoken : (((s.world.woken v).noted v).proc u).ran = (s.world.proc u).ran :=
    World.woken_ran s.world v u
  rcases hs hmode with hlock | hquiet
  · rcases hlock.meeting hp (alive_of_stopped hstat) hsync K with hno | ⟨c, hR, hexec⟩
    · rw [hran, hno] at hu
      exact absurd hwoken hu
    refine ⟨v, K, c, rfl, hR, hlock.met_infos hp (alive_of_stopped hstat) hsync hR, ?_, ?_⟩
    · rcases within_plan K hR u with hsame | hgrown
      · rw [hran, hexec] at hu
        exact absurd (hsame.trans hwoken) hu
      · rw [hran, hexec, ← hwoken]
        exact hgrown
    · rw [hran, hexec, ← hwoken] at hu
      rcases approved_of_ran hu with hyes | ⟨hc, hdiff, w', hfail⟩
      · exact .inl hyes
      · refine .inr ⟨hc, hdiff, ?_⟩
        rw [hfail] at hexec
        cases hcase with
        | wake _ _ _ hbody =>
          cases hbody with
          | ended hno => exact absurd (hstat.symm.trans hno) (by decide)
          | serviced _ _ hrun => exact absurd (hrun.symm.trans hexec) (by simp)
          | refused _ _ _ _ => rfl
          | blocked _ _ hrun => exact absurd (hrun.symm.trans hexec) (by simp)
          | left _ _ hrun => exact absurd (hrun.symm.trans hexec) (by simp)
          | held _ _ _ hwait => exact absurd hsync.2.2 (hwait hsync.2.1)
          | behind _ _ hnum => exact absurd hnum (by rw [hsync.2.1]; exact BitVec.lt_irrefl _)
          | passed _ hop => exact absurd (hsync.1.symm.trans hop) (by decide)
          | odd _ hop => exact absurd (hsync.1.symm.trans hop) (by decide)
  · exact absurd hp (by simp [Tracee.pending, show (s.world.proc v).reported = true from (hquiet v).1])

/-- **What is executed was approved.**  In every run, a step after which the kernel of `u` has executed
one more call is one in which the two variants met at the entry of one call, `c`, with the structs
that are compared up to date; and either the comparison said yes, or it is that of a `rseq` or
`fadvise64` whose scalars differ, and the monitor is gone after this very step. -/
theorem executed_approved (h₀ : s₀.world.Started)
    (hrun : ((system ρ).restrict fun _ e => e.Plain).Run s₀ es s) (hstep : (system ρ).step s e s')
    (hu : (s'.world.proc u).ran ≠ (s.world.proc u).ran) :
    ∃ v K c, e = .wake v K ∧ Rendezvous c ((s.world.woken v).noted v).ctl ∧
      (∀ x, (((s.world.woken v).noted v).var x).syscallInfo = .ofEntry (s.world.proc x).regs) ∧
      (s'.world.proc u).ran = (s.world.proc u).ran ++ [(c.plan u).nr] ∧
      (Approved c ((s.world.woken v).noted v) ∨ (c = .rseq ∨ c = .fadvise64) ∧
        ¬ ((s.world.woken v).noted v).SameArgs (scalarsCompared c) ∧ s'.mode = .gone 1) := by
  have hinv : s.InStep True := hrun.invariant (fun _ => .inl (.of_started h₀))
    fun _ _ _ hi hst => inStep_step hi hst.1 hst.2 fun _ _ _ _ _ => trivial
  exact approved_step hinv hstep hu

end Runs

/-! ## Calls that name a path -/

/-- The argument that `variantStrCmp` compares. -/
def Syscall.stringArg : Syscall → Option (Fin 6)
  | .openat | .utimensat => some 1
  | .access | .unlink | .chdir | .getcwd => some 0
  | _ => none

/-- Where the comparison says yes, that of the string has. -/
theorem sameString_of_approved {c : Syscall} {k : Fin 6} (hc : c.stringArg = some k) {w : World ρ}
    (h : Approved c w) : w.SameString k := by
  obtain ⟨w', hw'⟩ := h
  cases c
  case openat =>
    obtain rfl := Option.some.inj hc
    exact (((decides_openatEq w).iff_of_ret hw').1 rfl).pathname
  case access =>
    obtain rfl := Option.some.inj hc
    exact (((decides_accessEq w).iff_of_ret hw').1 rfl).pathname
  case getcwd =>
    obtain rfl := Option.some.inj hc
    exact (((decides_getcwdEq w).iff_of_ret hw').1 rfl).buf
  case chdir | unlink =>
    obtain rfl := Option.some.inj hc
    exact ((decides_strArgEq 0 w).iff_of_ret hw').1 rfl
  case utimensat =>
    obtain rfl := Option.some.inj hc
    have hdecides : Decides utimensatEq w ((w.SameArgs [0] ∧ w.SameString 1) ∧ w.SameArgs [3]) :=
      (decides_argsEq [0] w).bind fun b β hb => (Decides.andIf hb (decides_strArgEq 1 _)).bind
        fun b' β' hb' => .andIf hb' (decides_argsEq [3] _)
    exact ((hdecides.iff_of_ret hw').1 rfl).1.2
  all_goals exact absurd hc (by simp [Syscall.stringArg])

/-- The calls that a plan makes are the call itself, `getpid` and `lseek`. -/
theorem Syscall.plan_nr_cases (c : Syscall) (v : Who) :
    (c.plan v).nr = c.nr ∨ (c.plan v).nr = Syscall.getpid.nr ∨ (c.plan v).nr = Syscall.lseek.nr := by
  cases c <;> cases v <;> simp [Syscall.plan]

/-- So a call that compares a string is executed only where that call was made. -/
theorem Syscall.eq_of_plan_nr {c d : Syscall} {k : Fin 6} (hc : c.stringArg = some k) {v : Who}
    (h : (d.plan v).nr = c.nr) : d = c := by
  rcases d.plan_nr_cases v with hown | hnop | hseek
  · exact Syscall.nr_injective (hown.symm.trans h)
  · obtain rfl := Syscall.nr_injective (h.symm.trans hnop)
    exact absurd hc (by simp [Syscall.stringArg])
  · obtain rfl := Syscall.nr_injective (h.symm.trans hseek)
    exact absurd hc (by simp [Syscall.stringArg])

/-- Wherever the master is about to make a call that compares a string, it points to one. -/
def World.StringsEnd (w : World ρ) : Prop :=
  ∀ c k, Syscall.stringArg c = some k → (w.proc .master).loc = .entry →
    (w.proc .master).regs .origRax = c.nr →
      ∃ str, (w.proc .master).HoldsString ((w.proc .master).regs (argReg k)) str

theorem Tracee.HoldsString.of_mem {t t' : Tracee} {p : Word} {str : List Byte} (h : t.HoldsString p str)
    (hmem : t'.mem = t.mem) : t'.HoldsString p str where
  chars i hi := by
    rw [hmem]
    exact h.chars i hi
  nonzero := h.nonzero
  terminator := by
    rw [hmem]
    exact h.terminator
  readable i hi := by
    have hword := h.readable i hi
    unfold Tracee.wordMapped at hword ⊢
    rwa [hmem]
  short := h.short

/-- Such a call is not approved. -/
theorem World.StringsEnd.not_approved {c : Syscall} {k : Fin 6} {w : World ρ} {v : Who}
    (h : w.StringsEnd) (hc : c.stringArg = some k) (hR : Rendezvous c ((w.woken v).noted v).ctl)
    (hinfo : (((w.woken v).noted v).var .master).syscallInfo = .ofEntry (w.proc .master).regs) :
    ¬ Approved c ((w.woken v).noted v) := by
  intro hyes
  obtain ⟨b, hb⟩ : ∃ b, ((w.woken v).noted v).proc .master = { w.proc .master with reported := b } := by
    by_cases hv : Who.master = v
    · subst hv
      exact ⟨true, by rw [World.noted_proc, World.woken_proc_self]⟩
    · exact ⟨(w.proc .master).reported, by
        rw [World.noted_proc, World.woken_proc, Function.update_of_ne hv]⟩
  have hs := stopped_of_atEntry (hR.atEntry .master)
  have hloc : (((w.woken v).noted v).proc .master).loc = .entry := (hR.atEntry .master).loc
  have hnr : (((w.woken v).noted v).proc .master).regs .origRax = c.nr := hR.call .master
  have hnul := (sameString_of_approved hc hyes).1
  rw [hinfo, SyscallInfo.ofEntry_arg] at hnul
  rw [hb] at hs hloc hnr hnul
  obtain ⟨str, hstr⟩ := h c k hc hloc hnr
  have hstr' : Tracee.HoldsString { w.proc .master with reported := b }
      ((w.proc .master).regs (argReg k)) str := hstr.of_mem rfl
  exact hstr'.not_noNul hs hnul

/-- **No path gets through.**  In every run in which the strings that the master passes are terminated,
and can be read, neither kernel ever executes an `openat`, `access`, `unlink`, `chdir`, `utimensat`
or `getcwd`. -/
theorem paths_never_run {s₀ s : Sys ρ} {es : List (Event ρ)} (h₀ : s₀.world.Started)
    (hrun : ((system ρ).restrict fun t e => e.Plain ∧ t.world.StringsEnd).Run s₀ es s)
    {c : Syscall} {k : Fin 6} (hc : c.stringArg = some k) (u : Who) :
    c.nr ∉ (s.world.proc u).ran := by
  have hinv : s.InStep True ∧ c.nr ∉ (s.world.proc u).ran := by
    refine hrun.invariant (I := fun t : Sys ρ => t.InStep True ∧ c.nr ∉ (t.world.proc u).ran)
      ⟨fun _ => .inl (.of_started h₀), by simp [h₀.ran]⟩ ?_
    rintro t e t' ⟨ht, hnot⟩ ⟨hstep, hplain, hends⟩
    refine ⟨inStep_step ht hstep hplain fun _ _ _ _ _ => trivial, fun hmem => ?_⟩
    by_cases hu : (t'.world.proc u).ran = (t.world.proc u).ran
    · rw [hu] at hmem
      exact hnot hmem
    · obtain ⟨v, K, d, -, hR, hinfo, hran, happroved⟩ := approved_step ht hstep hu
      rw [hran, List.mem_append, List.mem_singleton] at hmem
      -- the call that was executed is the one that compares a string, so it was not approved
      obtain rfl := Syscall.eq_of_plan_nr hc (hmem.resolve_left hnot).symm
      rcases happroved with hyes | ⟨hfirst, -⟩
      · exact hends.not_approved hc hR (hinfo .master) hyes
      · rcases hfirst with rfl | rfl <;> exact absurd hc (by simp [Syscall.stringArg])
  exact hinv.2

/-! ### A user that is asked for, and a directory that is changed -/

/-- The `getuid` that the replica's wake-up lets into the kernel needs no comparison. -/
theorem executed_approved_getuid :
    ∃ v K c, (Event.wake .replica (.calling 102) : Event Unit) = .wake v K ∧
      Rendezvous c ((((Sys.fresh ()).played Sys.firstGetuid).world.woken v).noted v).ctl ∧
      (∀ x, (((((Sys.fresh ()).played Sys.firstGetuid).world.woken v).noted v).var x).syscallInfo =
        .ofEntry (((Sys.fresh ()).played Sys.firstGetuid).world.proc x).regs) ∧
      ((((Sys.fresh ()).played Sys.firstGetuid).played
          [.wake .replica (.calling 102)]).world.proc .master).ran =
        (((Sys.fresh ()).played Sys.firstGetuid).world.proc .master).ran ++ [(c.plan .master).nr] ∧
      (Approved c ((((Sys.fresh ()).played Sys.firstGetuid).world.woken v).noted v) ∨
        (c = .rseq ∨ c = .fadvise64) ∧
          ¬ ((((Sys.fresh ()).played Sys.firstGetuid).world.woken v).noted v).SameArgs
            (scalarsCompared c) ∧
          (((Sys.fresh ()).played Sys.firstGetuid).played
            [.wake .replica (.calling 102)]).mode = .gone 1) :=
  executed_approved (started_fresh ())
    ((run_played (by decide +kernel)).to_restrict (by
      simp [Sys.firstGetuid, Event.Plain, plain_calling]))
    (step_played (by decide +kernel)) (by decide +kernel)

/-- Two variants that have the string `a` at `0x1000`, and that address in their argument registers. -/
def chdirStart : Sys Unit :=
  { Sys.fresh () with world := { (Sys.fresh ()).world with
      proc := fun v => { Tracee.fresh with
        regs := callRegs 0 ![0x1000, 0x1000, 0, 0, 0, 0]
        mem := (stringA.proc v).mem } } }

theorem started_chdirStart : chdirStart.world.Started :=
  ⟨fun _ => rfl, fun _ => rfl, fun _ => rfl, fun _ => rfl, fun _ => rfl, fun _ => rfl, fun _ => rfl⟩

theorem stringsEnd_of_stringA {w : World Unit} (hmem : (w.proc .master).mem = (stringA.proc .master).mem)
    (hptr : ∀ k : Fin 6, k < 2 → (w.proc .master).regs (argReg k) = 0x1000) : w.StringsEnd := by
  intro c k hc _ _
  have hk : k < 2 := by
    cases c <;> simp [Syscall.stringArg] at hc <;> subst hc <;> decide
  rw [hptr k hk]
  exact ⟨[97], (stringA_holds .master).of_mem hmem⟩

/-- Both come to the entry of a `chdir`. -/
def chdirAsked : Sys Unit :=
  (chdirStart.played [.run .master (.calling 80)]).played [.run .replica (.calling 80)]

/-- Both are found there. -/
def chdirMet : Sys Unit :=
  (chdirAsked.played [.wake .master (.calling 80)]).played [.wake .replica (.calling 80)]

/-- Both change to the directory `a`, and neither kernel hears of it: the monitor is gone. -/
theorem paths_never_run_chdir :
    Syscall.chdir.nr ∉ (chdirMet.world.proc .replica).ran ∧ chdirMet.mode = .gone 1 := by
  have hgo (s : Sys Unit) (e : Event Unit) (he : e.Plain) (hnext : (s.next e).isSome = true)
      (hmem : (s.world.proc .master).mem = (stringA.proc .master).mem)
      (hptr : ∀ k : Fin 6, k < 2 → (s.world.proc .master).regs (argReg k) = 0x1000) :
      ((system Unit).restrict fun t e => e.Plain ∧ t.world.StringsEnd).step s e (s.played [e]) :=
    ⟨step_played hnext, he, stringsEnd_of_stringA hmem hptr⟩
  have h₁ := hgo chdirStart (.run .master (.calling 80)) (plain_calling 80)
    (by decide +kernel) rfl (by decide +kernel)
  have h₂ := hgo (chdirStart.played [.run .master (.calling 80)]) (.run .replica (.calling 80))
    (plain_calling 80) (by decide +kernel) rfl (by decide +kernel)
  have h₃ := hgo chdirAsked (.wake .master (.calling 80)) (plain_calling 80)
    (by decide +kernel) rfl (by decide +kernel)
  have h₄ := hgo (chdirAsked.played [.wake .master (.calling 80)]) (.wake .replica (.calling 80))
    (plain_calling 80) (by decide +kernel) rfl (by decide +kernel)
  exact ⟨paths_never_run (s := chdirMet) started_chdirStart (.snoc (.snoc (.snoc (.single h₁) h₂) h₃) h₄)
    (c := .chdir) rfl .replica, by decide +kernel⟩

end Aurora
