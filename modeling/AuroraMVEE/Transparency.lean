import AuroraMVEE.Parts
import AuroraMVEE.Effects
import AuroraMVEE.Counters

/-!
# The monitor is transparent to the master

A program that runs as the master should not notice.  Here it is, first, on its own: its
code, what the kernel answers it, and the states it goes through from one call to the
next (`Program.next`), with no monitor anywhere.  Then `transparent`: whatever the replica
does, and whatever the schedule, the master is always in one of these states.  So it makes
the calls it would make by itself, in the same order, with the same arguments, and finds
the same results and the same memory.

The one thing the monitor does to a master is done by `write`, which gives it the call
number of `lseek` at its exit stop.  There the slot of the call number is nothing to
anybody, and `Native` does not keep it.
-/

namespace Aurora

variable {ρ τ : Type}

/-! ## A program on its own -/

/-- What a program is: its code, up to the next call, and what the kernel answers, with a
memory `τ` of its own for the program. -/
structure Program (τ : Type) where
  code : Regs → Mem → Regs × Mem
  call : Regs → Mem → τ → (Word × Word × Word × Mem) × τ

/-- The registers without the slot of the call number. -/
def bare (regs : Regs) : Regs := Function.update regs .origRax 0

/-- A program that runs by itself. -/
structure Native (τ : Type) where
  loc : Loc
  regs : Regs
  mem : Mem
  own : τ
  /-- The calls it has made. -/
  made : List Word

/-- What it does next. -/
def Program.next (P : Program τ) (n : Native τ) : Native τ :=
  match n.loc with
  | .user => { n with loc := .entry, regs := (P.code n.regs n.mem).1, mem := (P.code n.regs n.mem).2 }
  | .entry => { n with loc := .kernel, made := n.made ++ [n.regs .origRax] }
  | .kernel => { n with
      loc := .exit
      regs := bare (Tracee.retRegs n.regs (P.call n.regs n.mem n.own).1.1
        (P.call n.regs n.mem n.own).1.2.1 (P.call n.regs n.mem n.own).1.2.2.1)
      mem := (P.call n.regs n.mem n.own).1.2.2.2
      own := (P.call n.regs n.mem n.own).2 }
  | .exit | .signal => { n with loc := .user }

/-- Under the kernel `K` the variant `v` is the program `P`: neither its code nor the kernel looks at
more of it than the program shows, and its part of what the kernel remembers is not
touched by its partner's calls. -/
structure Kernel.Runs (K : Kernel ρ) (v : Who) (P : Program τ) (own : ρ → τ) : Prop where
  code : ∀ t o, K.user v t o =
    .entry (P.code (bare t.regs) t.mem).1 (P.code (bare t.regs) t.mem).2
  answer : ∀ t o, (K.syscall v t o).1 =
    .ret (P.call t.regs t.mem (own o)).1.1 (P.call t.regs t.mem (own o)).1.2.1
      (P.call t.regs t.mem (own o)).1.2.2.1 (P.call t.regs t.mem (own o)).1.2.2.2
  memory : ∀ t o, own (K.syscall v t o).2 = (P.call t.regs t.mem (own o)).2
  apart : ∀ t o, own (K.syscall v.other t o).2 = own o

/-- An event in which the master is the program `P`. -/
def Event.Runs (P : Program τ) (own : ρ → τ) : Event ρ → Prop
  | .run _ K => K.Runs .master P own
  | .wake _ K => K.Runs .master P own
  | .kill _ => True
  | .noChild => True

/-! ## A variant as a program on its own -/

/-- What the slot of the call number holds is part of a program while the call is being made. -/
def Tracee.shown (t : Tracee) : Regs :=
  match t.loc with
  | .entry | .kernel => t.regs
  | .user | .exit | .signal => bare t.regs

/-- The variant `v`, without the monitor. -/
def World.native (w : World ρ) (v : Who) (own : ρ → τ) : Native τ :=
  ⟨(w.proc v).loc, (w.proc v).shown, (w.proc v).mem, own w.os, (w.proc v).ran⟩

/-- By itself the program comes from where `v` is in `w` to where it is in `w'`. -/
def Leads (P : Program τ) (v : Who) (own : ρ → τ) (w w' : World ρ) : Prop :=
  ∃ n, w'.native v own = P.next^[n] (w.native v own)

instance (P : Program τ) (v : Who) (own : ρ → τ) : IsPreorder (World ρ) (Leads P v own) where
  refl _ := ⟨0, rfl⟩
  trans := by
    rintro _ _ _ ⟨m, hm⟩ ⟨n, hn⟩
    exact ⟨n + m, by rw [Function.iterate_add_apply, ← hm, hn]⟩

theorem bare_update (regs : Regs) (x : Word) : bare (Function.update regs .origRax x) = bare regs := by
  simp [bare]

section Steps

variable {P : Program τ} {own : ρ → τ} {K : Kernel ρ} {w w' : World ρ} {v : Who}

theorem Leads.of_eq (h : w'.native v own = w.native v own) : Leads P v own w w' := ⟨0, h⟩

theorem Leads.of_next (h : w'.native v own = P.next (w.native v own)) : Leads P v own w w' := ⟨1, h⟩

/-- What leaves a variant and its part of the kernel's memory alone is nothing to it. -/
theorem Leads.still (hproc : w'.proc v = w.proc v) (hos : own w'.os = own w.os) :
    Leads P v own w w' := .of_eq (by simp only [World.native, hproc, hos])

/-- `PTRACE_SYSCALL`: the program goes on. -/
theorem Leads.resume (u : Who) : Leads P v own w (w.setProc u (w.proc u).resume) := by
  by_cases hu : u = v
  · subst hu
    cases hs : (w.proc u).stopped with
    | false =>
      have hsame : (w.proc u).resume = w.proc u := by simp [Tracee.resume, hs]
      rw [hsame]
      exact .still (World.setProc_proc_self _ _ _) rfl
    | true =>
      cases hl : (w.proc u).loc with
      | user | kernel => simp [Tracee.stopped, hl] at hs
      | entry | exit | signal =>
        refine .of_next ?_
        simp [World.native, Program.next, Tracee.resume, hs, hl, Tracee.shown]
  · exact .still (World.setProc_proc_of_ne w (Ne.symm hu) _) rfl

/-- What the partner's next stop takes leaves a variant's part of the kernel's memory alone. -/
theorem Kernel.Runs.os_advance (hK : K.Runs v P own) (w : World ρ) :
    own (w.advance K v.other).os = own w.os := by
  cases ha : (w.proc v.other).alive with
  | false => simp [World.advance, ha]
  | true => cases hl : (w.proc v.other).loc <;> simp [World.advance, ha, hl, hK.apart]

/-- A variant comes to its next stop. -/
theorem Leads.advance (hK : K.Runs v P own) (u : Who) : Leads P v own w (w.advance K u) := by
  by_cases hu : u = v
  · subst hu
    cases ha : (w.proc u).alive with
    | false => exact .of_eq (by simp [World.advance, ha])
    | true =>
      cases hl : (w.proc u).loc with
      | user =>
        refine .of_next ?_
        simp [World.native, Program.next, World.advance, ha, hl, hK.code, Tracee.arrive, Tracee.shown]
      | kernel =>
        refine .of_next ?_
        simp [World.native, Program.next, World.advance, ha, hl, hK.answer, hK.memory, Tracee.finish,
          Tracee.shown, World.setProc]
      | entry | exit | signal => exact .of_eq (by simp [World.advance, ha, hl])
  · rw [Who.eq_other_of_ne hu]
    exact .still (World.advance_proc_of_ne w K (Who.ne_other v)) (hK.os_advance w)

theorem native_report (w : World ρ) (u : Who) : (w.report u).native v own = w.native v own := by
  by_cases hu : v = u
  · subst hu
    simp [World.native, World.report, Tracee.shown]
  · simp [World.native, World.report, hu]

theorem native_kill (w : World ρ) (u : Who) : (w.kill u).native v own = w.native v own := by
  have hdie : ∀ t : Tracee, t.die.loc = t.loc ∧ t.die.shown = t.shown ∧ t.die.mem = t.mem ∧
      t.die.ran = t.ran := fun t => by
    unfold Tracee.die
    split <;> exact ⟨rfl, rfl, rfl, rfl⟩
  by_cases hu : v = u
  · subst hu
    obtain ⟨hloc, hshown, hmem, hran⟩ := hdie (w.proc v)
    simp [World.native, World.kill, hloc, hshown, hmem, hran]
  · simp [World.native, World.kill, hu]

theorem Leads.wait (hK : K.Runs v P own) (u : Who) :
    Prog.Within (Leads P v own) (waitVariant K u) := by
  intro w
  have hreport : ∀ w' : World ρ, Leads P v own w w' → Leads P v own w (w'.report u) :=
    fun w' h => IsTrans.trans _ _ _ h (.of_eq (native_report w' u))
  unfold Prog.wp waitVariant
  split
  · exact hreport _ (.advance hK u)
  · split
    · exact hreport _ (Std.Refl.refl w)
    · split
      · split
        · exact hreport _ (.of_eq (native_kill w u))
        · exact Std.Refl.refl (r := Leads P v own) w
      · exact Std.Refl.refl (r := Leads P v own) w

/-! ## What executors do to the master -/

/-- The same, for code that may replace the master's call number, and must then find it away
from its entry stop; it leaves it so. -/
def LeadsAway (away : Prop) (P : Program τ) (own : ρ → τ) (w w' : World ρ) : Prop :=
  (away → (w.proc .master).loc ≠ .entry) →
    Leads P .master own w w' ∧ (away → (w'.proc .master).loc ≠ .entry)

instance (away : Prop) (P : Program τ) (own : ρ → τ) : IsPreorder (World ρ) (LeadsAway away P own) where
  refl w h := ⟨Std.Refl.refl w, h⟩
  trans := by
    intro a b c hab hbc ha
    obtain ⟨hlead, hb⟩ := hab ha
    obtain ⟨hlead', hc⟩ := hbc hb
    exact ⟨IsTrans.trans _ _ _ hlead hlead', hc⟩

variable {away : Prop}

/-- A step that does not touch the master. -/
theorem LeadsAway.still (hproc : w'.proc .master = w.proc .master) (hos : own w'.os = own w.os) :
    LeadsAway away P own w w' := fun h =>
  ⟨.still hproc hos, by rwa [hproc]⟩

theorem LeadsAway.setReplica (t : Tracee) : LeadsAway away P own w (w.setProc .replica t) :=
  .still (World.setProc_proc_of_ne w (by decide) t) rfl

/-- Waiting for the replica does not touch the master. -/
theorem LeadsAway.waitReplica (hK : K.Runs .master P own) :
    Prog.Within (LeadsAway away P own) (waitVariant K .replica) := by
  intro w
  have hadvance : LeadsAway away P own w (w.advance K .replica) := by
    exact .still (World.advance_proc_of_ne w K (by decide)) (hK.os_advance w)
  unfold Prog.wp waitVariant
  split
  · exact IsTrans.trans _ _ _ hadvance (.setReplica _)
  · split
    · exact .setReplica _
    · split
      · split
        · exact IsTrans.trans _ _ _ (LeadsAway.setReplica (w.proc .replica).die) (.setReplica _)
        · exact Std.Refl.refl (r := LeadsAway away P own) w
      · exact Std.Refl.refl (r := LeadsAway away P own) w

theorem LeadsAway.ofResume (v : Who) (h : v = .replica ∨ ¬ away ∨ (w.proc .master).loc ≠ .entry) :
    LeadsAway away P own w (w.setProc v (w.proc v).resume) := by
  cases v with
  | replica => exact .setReplica _
  | master =>
    refine fun hw => ⟨.resume .master, fun haway => ?_⟩
    rw [World.setProc_proc_self]
    have hloc := hw haway
    unfold Tracee.resume
    split
    · cases hl : (w.proc .master).loc <;> simp_all
    · exact hloc

/-- A call number given to a master that is not at its entry stop. -/
theorem LeadsAway.pokeMaster (haway : away) (call : Word) :
    LeadsAway away P own w (w.setProc .master ((w.proc .master).pokeUser .origRax call)) := by
  intro hw
  have hloc := hw haway
  cases hs : (w.proc .master).stopped with
  | false =>
    have hsame : (w.proc .master).pokeUser .origRax call = w.proc .master := by
      simp [Tracee.pokeUser, hs]
    rw [hsame]
    exact ⟨.of_eq (by simp [World.native]), fun _ => by simpa using hloc⟩
  | true =>
    rw [Tracee.pokeUser_of_stopped hs]
    refine ⟨.of_eq ?_, fun _ => by simpa using hloc⟩
    cases hl : (w.proc .master).loc with
    | entry => exact absurd hl hloc
    | user | kernel => simp [Tracee.stopped, hl] at hs
    | exit | signal => simp [World.native, Tracee.shown, hl, bare_update]

theorem within_assign {R : World ρ → World ρ → Prop} (h : ∀ w v x, R w (w.setVar v x)) (v : Who)
    (f : Variant → Variant) : Prog.Within R (assign v f : Mon ρ Unit) := .modify fun w => h w v _

/-- The scope of code that may replace the master's call number if `away`, and may release the master
if not. -/
def Scope.apart (away : Prop) : Scope :=
  ⟨fun v _ => v = .replica ∨ away, fun v => v = .replica ∨ ¬ away, True, True⟩

/-- No part takes the master anywhere but where it would have gone. -/
theorem Part.leads (hK : K.Runs .master P own) (α : Type) (m : Mon ρ α)
    (h : Part K (.apart away) α m) :
    Prog.Within (LeadsAway away P own) m := by
  have hassign := within_assign (R := LeadsAway (ρ := ρ) away P own) fun _ _ _ => .still rfl rfl
  cases h with
  | look f _ => exact .gets f
  | scratch f _ => exact .modify fun w => .still rfl rfl
  | table f _ _ => exact .modify fun w => .still rfl rfl
  | readStatic v b p n => exact .of_apply fun w => ⟨_, _, rfl, .still rfl rfl⟩
  | writeFrom localBuf p n _ => exact within_writeFrom (fun w n => .setReplica _) _
  | note v => exact .modify fun w => .still rfl rfl
  | resumeFromWait v hv =>
    exact .bind (.modify fun w => .ofResume v (hv.imp id .inl)) fun _ => hassign v _
  | resumeFromExit v =>
    refine .bind (.modify fun w hw => ?_) fun _ => hassign v _
    by_cases haway : away
    · exact LeadsAway.ofResume v (.inr (.inr (hw haway))) hw
    · exact LeadsAway.ofResume v (.inr (.inl haway)) hw
  | wait v hv =>
    cases v with
    | replica => exact LeadsAway.waitReplica hK
    | master =>
      have haway : ¬ away := hv.resolve_left (by decide)
      exact (Leads.wait hK .master).mono fun _ _ h _ => ⟨h, fun ha => absurd ha haway⟩
  | setSyscall v call hv =>
    cases v with
    | replica => exact .modify fun w => .setReplica _
    | master => exact .modify fun w => .pokeMaster (hv.resolve_left (by decide)) call
  | setReturn x => exact .modify fun w => .setReplica _
  | setLseekRegs fd offset => exact .modify fun w => .setReplica _

/-- No executor but that of `write` takes the master anywhere but where it would have gone. -/
theorem leads_execSyscall (hK : K.Runs .master P own) {c : Syscall} (hc : c ≠ .write) :
    Prog.Within (Leads P .master own) (execSyscall K c) := by
  have hmade : Made K (.apart False) (execSyscall K c) :=
    Made.execSyscall (Or.inl rfl) (fun _ => Or.inr id) (fun _ => Or.inl rfl) (fun h => absurd h hc)
      (fun _ => trivial) fun _ => trivial
  exact (hmade.within (Part.leads hK)).mono fun _ _ h => (h False.elim).1

/-- Nor does that of `write`, which replaces the master's call number at its exit stop. -/
theorem leads_writeRest (hK : K.Runs .master P own) (fd : Word) :
    Prog.Within (LeadsAway True P own) (writeRest K fd) := by
  have hmade : Made K (.apart True) (writeRest K fd) := by
    refine .bind (Made.note _) fun _ => .bind (Made.syscallInfoOf _) fun _ =>
      .bind (Made.setLseekRegs _ _) fun _ => .bind (.of (.setSyscall _ _ (Or.inr trivial))) fun _ => ?_
    exact Made.through (Or.inl rfl) (.bind (Made.setReturn _) fun _ => Made.leaveBoth)
  exact hmade.within (Part.leads hK)

theorem leads_resumeAndWait (hK : K.Runs .master P own) (v : Who) :
    Prog.Within (Leads P .master own) (resumeAndWait K v) := by
  have hmade : Made K (.apart False) (resumeAndWait K v) :=
    .bind (.of (.resumeFromWait v (Or.inr id))) fun _ => .of (.wait v (Or.inr id))
  exact (hmade.within (Part.leads hK)).mono fun _ _ h => (h False.elim).1

/-- Monitor code, started somewhere after `w`, that takes the master nowhere but where it would have
gone from there. -/
def LeadsOn (P : Program τ) (own : ρ → τ) (w : World ρ) : Prog.Post (World ρ) Int :=
  ⟨fun _ => Leads P .master own w, Leads P .master own w, fun _ => Leads P .master own w⟩

theorem LeadsOn.trans {m : Mon ρ Int} {b : World ρ} (h : Leads P .master own w w')
    (hm : Prog.wp m (LeadsOn P own w') b) : Prog.wp m (LeadsOn P own w) b :=
  Prog.wp_mono (P := LeadsOn P own w') (fun _ _ h' => IsTrans.trans _ _ _ h h')
    (fun _ h' => IsTrans.trans _ _ _ h h') (fun _ _ h' => IsTrans.trans _ _ _ h h') hm

theorem leads_write (hK : K.Runs .master P own) (hR : Rendezvous .write w.ctl) :
    Prog.wp (execSyscall K .write) (LeadsOn P own w) w := by
  have hm := hR.atEntry .master
  by_cases hsame : w.SameWrite
  · have hans := hK.answer (w.proc .master).resume w.os
    obtain ⟨β, hexec⟩ := write_ret (K := K) hm hsame hans
    have hloc : (((w.withBufs β).through K .master).proc .master).loc ≠ .entry := by
      rw [through_proc_ret (w := w.withBufs β) hm hans]
      simp
    -- the master goes through its call, and from there on the executor is that of the rest
    have hthrough : Leads P .master own (w.withBufs β) ((w.withBufs β).through K .master) :=
      (leads_resumeAndWait hK .master).of_ret (resumeAndWait_apply (w := w.withBufs β) K hm)
    have hrest : Prog.wp (writeRest K (ofInt (toInt ((w.var .master).syscallInfo.arg 0))))
        (LeadsOn P own w) ((w.withBufs β).through K .master) := by
      refine LeadsOn.trans hthrough ?_
      exact Prog.wp_mono (P := ⟨fun _ => LeadsAway True P own _, LeadsAway True P own _,
        fun _ => LeadsAway True P own _⟩) (fun _ _ h => (h fun _ => hloc).1)
        (fun _ h => (h fun _ => hloc).1) (fun _ _ h => (h fun _ => hloc).1) (leads_writeRest hK _ _)
    unfold Prog.wp
    rw [hexec]
    exact hrest
  · obtain ⟨β, hβ⟩ := (decides_writeEq w).ret_false hsame
    exact Prog.wp_of_eq_ret (guarded_false hβ _) (Std.Refl.refl (r := Leads P .master own) w)

/-! ## Every event -/

/-- In lockstep, a rendezvous takes the master nowhere but where it would have gone. -/
theorem Lockstep.leads_sync {stale : Prop} (h : Lockstep stale w) (hK : K.Runs .master P own)
    (hp : (w.proc v).pending = true) (ha : (w.proc v).alive = true)
    (hsync : (w.woken v).callsSync v) :
    Prog.wp (processSyscallSync K) (LeadsOn P own w) ((w.woken v).noted v) := by
  have hnoted : Leads P .master own w ((w.woken v).noted v) := .of_eq (native_report w v)
  rcases h.meeting hp ha hsync K with hno | ⟨c, hR, hexec⟩
  · exact Prog.wp_of_eq_ret hno hnoted
  · have hafter : Prog.wp (execSyscall K c) (LeadsOn P own ((w.woken v).noted v))
        ((w.woken v).noted v) := by
      by_cases hc : c = .write
      · subst hc
        exact leads_write hK hR
      · exact leads_execSyscall hK hc _
    have hexec' := LeadsOn.trans hnoted hafter
    unfold Prog.wp at hexec' ⊢
    rwa [hexec]

theorem native_tracerGone (w : World ρ) : w.tracerGone.native .master own = w.native .master own := by
  have hgone : ∀ t : Tracee, t.tracerGone.loc = t.loc ∧ t.tracerGone.shown = t.shown ∧
      t.tracerGone.mem = t.mem ∧ t.tracerGone.ran = t.ran := fun t => by
    unfold Tracee.tracerGone Tracee.die
    split
    · split <;> exact ⟨rfl, rfl, rfl, rfl⟩
    · exact ⟨rfl, rfl, rfl, rfl⟩
  obtain ⟨hloc, hshown, hmem, hran⟩ := hgone (w.proc .master)
  unfold World.native
  rw [← hloc, ← hshown, ← hmem, ← hran]
  rfl

theorem native_bothKilled (w : World ρ) : w.bothKilled.native .master own = w.native .master own := by
  rw [World.bothKilled, native_kill, native_kill]

theorem leads_step {s s' : Sys ρ} {e : Event ρ} (hs : s.InStep True)
    (hstep : (system ρ).step s e s') (he : e.Runs P own) : Leads P .master own s.world s'.world := by
  obtain ⟨hmode, hcase⟩ := step_cases hstep
  cases hcase with
  | run v K hrun => exact .advance he v
  | kill v ha => exact .of_eq (native_kill _ v)
  | noChild hm hr => exact .of_eq (native_tracerGone _)
  | wake v K hp hbody =>
    have hnoted : ((s.world.woken v).noted v).native .master own = s.world.native .master own :=
      native_report _ v
    rcases hs hmode with h | hquiet
    · cases hbody with
      | ended hstat => exact .of_eq ((native_tracerGone _).trans (native_report _ v))
      | held hstat hop hnum hwait => exact .of_eq hnoted
      | behind hstat hop hnum => exact .of_eq ((native_tracerGone _).trans hnoted)
      | odd hstat hop => exact .of_eq ((native_tracerGone _).trans hnoted)
      | passed hstat hop =>
        exact IsTrans.trans _ _ _ (Leads.of_eq hnoted) (Leads.resume (w := (s.world.woken v).noted v) v)
      | serviced hstat hsync hrun =>
        exact Prog.ret_of_wp (h.leads_sync he hp (alive_of_stopped hstat) hsync) hrun
      | blocked hstat hsync hrun =>
        exact Prog.hung_of_wp (h.leads_sync he hp (alive_of_stopped hstat) hsync) hrun
      | left hstat hsync hrun =>
        have hleft := Prog.exited_of_wp (h.leads_sync he hp (alive_of_stopped hstat) hsync) hrun
        exact IsTrans.trans _ _ _ hleft (Leads.of_eq (native_tracerGone _))
      | refused hstat hsync hr hrun =>
        have hret := Prog.ret_of_wp (h.leads_sync he hp (alive_of_stopped hstat) hsync) hrun
        exact IsTrans.trans _ _ _ hret
          (Leads.of_eq ((native_tracerGone _).trans (native_bothKilled _)))
    · exact absurd hp (by
        simp [Tracee.pending, show (s.world.proc v).reported = true from (hquiet v).1])

end Steps

/-- **The monitor is transparent to the master.**  Take a program, and any run of the main loop in
which the master is that program, whatever the replica does, in whichever order things
happen, and however the run ends.  Where the master is then, with its registers, its
memory, its part of what the kernel remembers and the calls it has made, is where the
program comes to by itself. -/
theorem transparent {P : Program τ} {own : ρ → τ} {s₀ s : Sys ρ} {es : List (Event ρ)}
    (h₀ : s₀.world.Started)
    (hrun : ((system ρ).restrict fun _ e => e.Plain ∧ e.Runs P own).Run s₀ es s) :
    ∃ n, s.world.native .master own = P.next^[n] (s₀.world.native .master own) := by
  have hinv : s.InStep True ∧ Leads P .master own s₀.world s.world := by
    refine hrun.invariant (I := fun t => t.InStep True ∧ Leads P .master own s₀.world t.world)
      ⟨fun _ => .inl (.of_started h₀), 0, rfl⟩ fun t e t' ht hstep => ?_
    exact ⟨inStep_step ht.1 hstep.1 hstep.2.1 fun _ _ _ _ _ => trivial,
      IsTrans.trans _ _ _ ht.2 (leads_step ht.1 hstep.1 hstep.2.2)⟩
  exact hinv.2

/-! ### A program that writes -/

/-- A program that makes the call `nr` over and over, and is always answered zero. -/
def Program.calling (nr : Word) : Program Unit where
  code regs mem := (Function.update regs .origRax nr, mem)
  call _ mem _ := ((0, 0, 0, mem), ())

theorem runs_calling (nr : Word) (v : Who) : (Kernel.calling nr).Runs v (Program.calling nr) id where
  code t o := by simp [Kernel.calling, Program.calling, bare]
  answer t o := rfl
  memory t o := rfl
  apart t o := rfl

/-- After its first `write` the master holds the call number of `lseek`, and is where the program
comes to by itself. -/
theorem transparent_write :
    ((((Sys.fresh ()).played (meetCalling 1)).world.proc .master).regs .origRax = Syscall.lseek.nr) ∧
      ∃ n, ((Sys.fresh ()).played (meetCalling 1)).world.native .master id =
        (Program.calling 1).next^[n] ((Sys.fresh ()).world.native .master id) := by
  refine ⟨by decide +kernel, transparent (started_fresh ())
    ((run_played (by decide +kernel)).to_restrict fun e he _ => ⟨plain_meetCalling 1 e he, ?_⟩)⟩
  simp only [meetCalling, arriveCalling, List.cons_append, List.nil_append, List.mem_cons,
    List.not_mem_nil, or_false] at he
  rcases he with rfl | rfl | rfl | rfl <;> exact runs_calling 1 .master

end Aurora
