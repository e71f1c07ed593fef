import AuroraMVEE.Service

/-!
# What one event does

The two inversion lemmas every theorem about runs starts from.  `step_cases`
takes a step of the system apart into its four kinds of event; `loopBody_cases`
takes the loop body of `main` apart into the ways it can go, with the guard of
each, so that no later proof unfolds `processVariantEvent` again.

* `World.callsSync` — the condition under which `processVariantEvent` calls
  `processSyscallSync`.
* `LoopBody K v w s'` — handed `v` in the world `w`, the loop body can leave the
  system in `s'`.
-/

namespace Aurora

variable {ρ : Type}

namespace World

/-- `requestSyscallInfo(v)` has run. -/
def noted (w : World ρ) (v : Who) : World ρ :=
  w.setVar v { w.var v with syscallInfo := (w.proc v).syscallInfo }

/-- `v->state = VSTATE_WAIT`. -/
def held (w : World ρ) (v : Who) : World ρ := w.setVar v { w.var v with state := .wait }

/-- `resumeVariantFromExit(v)` has run. -/
def passed (w : World ρ) (v : Who) : World ρ :=
  (w.setProc v (w.proc v).resume).setVar v
    { w.var v with syscallNum := (w.var v).syscallNum + 1 }

/-- `kill` on both variants has run. -/
def bothKilled (w : World ρ) : World ρ := (w.kill .master).kill .replica

/-- Handed `v`, `processVariantEvent` calls `processSyscallSync`: `v` is at an
entry stop, it has counted as many calls as its partner, and its partner is marked
as waiting. -/
def callsSync (w : World ρ) (v : Who) : Prop :=
  (w.proc v).syscallInfo.op = .entry ∧ (w.var v).syscallNum = (w.var v.other).syscallNum ∧
    (w.var v.other).state = .wait

instance (w : World ρ) (v : Who) : Decidable (w.callsSync v) :=
  inferInstanceAs (Decidable (_ ∧ _ ∧ _))

@[simp] theorem noted_proc (w : World ρ) (v : Who) : (w.noted v).proc = w.proc := rfl

@[simp] theorem noted_var_self (w : World ρ) (v : Who) :
    (w.noted v).var v = { w.var v with syscallInfo := (w.proc v).syscallInfo } := by
  simp [noted]

@[simp] theorem noted_var_other (w : World ρ) (v : Who) :
    (w.noted v).var v.other = w.var v.other := by
  simp [noted]

@[simp] theorem report_var (w : World ρ) (v : Who) : (w.report v).var = w.var := rfl

@[simp] theorem report_regs (w : World ρ) (u v : Who) :
    ((w.report v).proc u).regs = (w.proc u).regs := by
  by_cases hu : u = v
  · subst hu; simp [report]
  · simp [report, hu]

theorem woken_proc (w : World ρ) (v : Who) :
    (w.woken v).proc = Function.update w.proc v { w.proc v with reported := true } := rfl

@[simp] theorem woken_proc_self (w : World ρ) (v : Who) :
    (w.woken v).proc v = { w.proc v with reported := true } := by
  simp [woken_proc]

@[simp] theorem woken_var (w : World ρ) (v : Who) : (w.woken v).var = w.var := rfl

theorem report_ctl (w : World ρ) (v : Who) :
    (w.report v).ctl = Function.update w.ctl v { w.ctl v with reported := true } :=
  ctl_setProc w v _

@[simp] theorem noted_ctl (w : World ρ) (v : Who) : (w.noted v).ctl = w.ctl := by
  rw [noted, ctl_setVar]
  exact Function.update_eq_self v w.ctl

end World

theorem alive_of_stopped {w : World ρ} {v : Who} (h : ((w.woken v).proc v).waitStatus = .stopped) :
    (w.proc v).alive = true := by
  by_contra ha
  simp [Tracee.waitStatus, ha] at h

theorem dead_of_terminated {w : World ρ} {v : Who}
    (h : ((w.woken v).proc v).waitStatus = .terminated) : (w.proc v).alive = false := by
  by_contra ha
  simp [Tracee.waitStatus, Bool.eq_true_of_not_eq_false ha] at h

/-! ## The rendezvous -/

/-- The checks of `processSyscallSync`, and the call they lead to. -/
theorem processSyscallSync_apply (K : Kernel ρ) (w : World ρ) : processSyscallSync K w =
    (if (w.var .master).syscallInfo.op ≠ (w.var .replica).syscallInfo.op then return -1
    else if (w.var .master).syscallInfo.nr ≠ (w.var .replica).syscallInfo.nr then return -1
    else (Syscall.ofNr (w.var .master).syscallInfo.nr).elim (return -1) (execSyscall K) :
      Mon ρ Int) w := by
  unfold processSyscallSync syscallInfoOf
  simp only [Prog.bind_apply, Prog.gets_apply]
  cases Syscall.ofNr (w.var .master).syscallInfo.nr <;> rfl

/-- `processSyscallSync` refuses at once, or the two stops are alike and carry the
number of an implemented call, which then is executed. -/
theorem processSyscallSync_cases (K : Kernel ρ) (w : World ρ) :
    processSyscallSync K w = .ret (-1) w ∨ ∃ c : Syscall,
      (∀ u v, (w.var u).syscallInfo.op = (w.var v).syscallInfo.op) ∧
      (∀ v, (w.var v).syscallInfo.nr = c.nr) ∧ processSyscallSync K w = execSyscall K c w := by
  rw [processSyscallSync_apply]
  by_cases hop : (w.var .master).syscallInfo.op = (w.var .replica).syscallInfo.op
  · rw [if_neg (not_not.2 hop)]
    by_cases hnr : (w.var .master).syscallInfo.nr = (w.var .replica).syscallInfo.nr
    · rw [if_neg (not_not.2 hnr)]
      cases hc : Syscall.ofNr (w.var .master).syscallInfo.nr with
      | none => exact .inl rfl
      | some c =>
        have hm : (w.var .master).syscallInfo.nr = c.nr := (Syscall.nr_of_ofNr hc).symm
        have hops : ∀ u v, (w.var u).syscallInfo.op = (w.var v).syscallInfo.op :=
          Who.forall_iff.2 ⟨Who.forall_iff.2 ⟨rfl, hop⟩, Who.forall_iff.2 ⟨hop.symm, rfl⟩⟩
        exact .inr ⟨c, hops, Who.forall_iff.2 ⟨hm, hnr.symm.trans hm⟩, rfl⟩
    · rw [if_pos hnr]
      exact .inl rfl
  · rw [if_pos hop]
    exact .inl rfl

/-- Where both structs carry the entry of a call, the `switch` leads to its executor. -/
theorem processSyscallSync_call (K : Kernel ρ) {c : Syscall} {w : World ρ}
    (h : ∀ u, (w.var u).syscallInfo.op = .entry ∧ (w.var u).syscallInfo.nr = c.nr) :
    processSyscallSync K w = execSyscall K c w := by
  rw [processSyscallSync_apply, (h .master).1, (h .replica).1, (h .master).2, (h .replica).2,
    if_neg (not_not.2 rfl), if_neg (not_not.2 rfl), Syscall.ofNr_nr]
  rfl

/-! ## The loop body -/

/-- Handed `v` in the world `w`, the loop body can leave the system in the state
given last. -/
inductive LoopBody (K : Kernel ρ) (v : Who) (w : World ρ) : Sys ρ → Prop
  /-- `v` is gone: the loop ends. -/
  | ended (h : (w.proc v).waitStatus = .terminated) : LoopBody K v w ⟨w.tracerGone, .gone 0⟩
  /-- The pair meets, and the call is serviced. -/
  | serviced {w' : World ρ} (h : (w.proc v).waitStatus = .stopped) (hsync : w.callsSync v)
      (hrun : processSyscallSync K (w.noted v) = .ret 0 w') : LoopBody K v w ⟨w', .waiting⟩
  /-- The pair meets, and the call fails: both are killed. -/
  | refused {w' : World ρ} {r : Int} (h : (w.proc v).waitStatus = .stopped) (hsync : w.callsSync v)
      (hr : r ≠ 0) (hrun : processSyscallSync K (w.noted v) = .ret r w') :
      LoopBody K v w ⟨w'.bothKilled.tracerGone, .gone 1⟩
  /-- The pair meets, and the monitor blocks. -/
  | blocked {w' : World ρ} (h : (w.proc v).waitStatus = .stopped) (hsync : w.callsSync v)
      (hrun : processSyscallSync K (w.noted v) = .hung w') : LoopBody K v w ⟨w', .hung⟩
  /-- The pair meets, and the executor leaves the process. -/
  | left {w' : World ρ} {code : Int} (h : (w.proc v).waitStatus = .stopped)
      (hsync : w.callsSync v) (hrun : processSyscallSync K (w.noted v) = .exited code w') :
      LoopBody K v w ⟨w'.tracerGone, .gone code⟩
  /-- `v` is at an entry stop and has to wait for its partner. -/
  | held (h : (w.proc v).waitStatus = .stopped) (hop : (w.proc v).syscallInfo.op = .entry)
      (hnum : (w.var v.other).syscallNum ≤ (w.var v).syscallNum)
      (hwait : (w.var v).syscallNum = (w.var v.other).syscallNum →
        (w.var v.other).state ≠ .wait) :
      LoopBody K v w ⟨(w.noted v).held v, .waiting⟩
  /-- `v` is at an entry stop, and behind its partner: `Invalid State`. -/
  | behind (h : (w.proc v).waitStatus = .stopped) (hop : (w.proc v).syscallInfo.op = .entry)
      (hnum : (w.var v).syscallNum < (w.var v.other).syscallNum) :
      LoopBody K v w ⟨(w.noted v).tracerGone, .gone 1⟩
  /-- `v` is at an exit stop. -/
  | passed (h : (w.proc v).waitStatus = .stopped) (hop : (w.proc v).syscallInfo.op = .exit) :
      LoopBody K v w ⟨(w.noted v).passed v, .waiting⟩
  /-- `v` is at some other stop: `Invalid State`. -/
  | odd (h : (w.proc v).waitStatus = .stopped) (hop : (w.proc v).syscallInfo.op = .none) :
      LoopBody K v w ⟨(w.noted v).tracerGone, .gone 1⟩

theorem WaitStatus.eq_stopped_of_check {x : WaitStatus} (h : ¬ checkVariantExit x ≠ 0) :
    x = .stopped := by
  cases x
  · exact absurd (by decide) h
  · rfl

theorem WaitStatus.eq_terminated_of_check {x : WaitStatus} (h : checkVariantExit x ≠ 0) :
    x = .terminated := by
  cases x
  · rfl
  · exact absurd rfl h

theorem requestSyscallInfo_apply (v : Who) (w : World ρ) :
    requestSyscallInfo v w = .ret () (w.noted v) := rfl

/-- What `processVariantEvent` does where it calls `processSyscallSync`. -/
theorem processVariantEvent_sync {K : Kernel ρ} {v : Who} {w : World ρ} (h : w.callsSync v) :
    processVariantEvent K v w = (do
      let result ← processSyscallSync K
      if result ≠ 0 then
        killBoth
        return result
      return 0 : Mon ρ Int) (w.noted v) := by
  obtain ⟨hop, hnum, hwait⟩ := h
  unfold processVariantEvent
  rw [Prog.bind_of_ret (requestSyscallInfo_apply v w), Prog.bind_of_ret (Prog.gets_apply _ _),
    Prog.bind_of_ret (Prog.gets_apply _ _), World.noted_var_self, World.noted_var_other]
  rw [if_pos hop, if_pos hnum, if_pos hwait]

/-- What it does elsewhere. -/
theorem processVariantEvent_other {K : Kernel ρ} {v : Who} {w : World ρ} (h : ¬ w.callsSync v) :
    processVariantEvent K v w =
      if (w.proc v).syscallInfo.op = .entry then
        if (w.var v.other).syscallNum ≤ (w.var v).syscallNum then .ret 0 ((w.noted v).held v)
        else .exited 1 (w.noted v)
      else if (w.proc v).syscallInfo.op = .exit then .ret 0 ((w.noted v).passed v)
      else .exited 1 (w.noted v) := by
  unfold processVariantEvent
  rw [Prog.bind_of_ret (requestSyscallInfo_apply v w), Prog.bind_of_ret (Prog.gets_apply _ _),
    Prog.bind_of_ret (Prog.gets_apply _ _), World.noted_var_self, World.noted_var_other]
  by_cases hop : (w.proc v).syscallInfo.op = .entry
  · rw [if_pos hop, if_pos hop]
    by_cases hnum : (w.var v).syscallNum = (w.var v.other).syscallNum
    · have hwait : ¬ (w.var v.other).state = .wait := fun hw => h ⟨hop, hnum, hw⟩
      have hle : (w.var v.other).syscallNum ≤ (w.var v).syscallNum := by bv_omega
      rw [if_pos hnum, if_neg hwait, if_pos hle]
      rfl
    · rw [if_neg hnum]
      by_cases hgt : (w.var v).syscallNum > (w.var v.other).syscallNum
      · have hle : (w.var v.other).syscallNum ≤ (w.var v).syscallNum := by bv_omega
        rw [if_pos hgt, if_pos hle]
        rfl
      · have hle : ¬ (w.var v.other).syscallNum ≤ (w.var v).syscallNum := by bv_omega
        rw [if_neg hgt, if_neg hle]
        rfl
  · rw [if_neg hop, if_neg hop]
    by_cases hex : (w.proc v).syscallInfo.op = .exit
    · rw [if_pos hex, if_pos hex]
      rfl
    · rw [if_neg hex, if_neg hex]
      rfl

/-- **The loop body, taken apart.** -/
theorem loopBody_cases (K : Kernel ρ) (v : Who) (w : World ρ) :
    LoopBody K v w (Sys.after (mainIteration K v w)) := by
  unfold mainIteration
  rw [Prog.bind_of_ret (Prog.gets_apply _ _)]
  by_cases hex : checkVariantExit (w.proc v).waitStatus ≠ 0
  · rw [if_pos hex]
    exact .ended (WaitStatus.eq_terminated_of_check hex)
  rw [if_neg hex]
  have h : (w.proc v).waitStatus = .stopped := WaitStatus.eq_stopped_of_check hex
  by_cases hsync : w.callsSync v
  · rw [Prog.bind_apply, processVariantEvent_sync hsync, Prog.bind_apply]
    cases hrun : processSyscallSync K (w.noted v) with
    | ret r w' =>
      by_cases hr : r = 0
      · subst hr
        exact .serviced h hsync hrun
      · have hkilled : (if r ≠ 0 then (do killBoth; return r) else return 0 : Mon ρ Int) w' =
            .ret r w'.bothKilled := by
          rw [if_pos hr]
          rfl
        simp only [hkilled]
        rw [if_pos hr]
        exact .refused h hsync hr hrun
    | hung w' => exact .blocked h hsync hrun
    | exited code w' => exact .left h hsync hrun
  · rw [Prog.bind_apply, processVariantEvent_other hsync]
    cases hop : (w.proc v).syscallInfo.op with
    | none => exact .odd h hop
    | exit => exact .passed h hop
    | entry =>
      rw [if_pos rfl]
      by_cases hnum : (w.var v.other).syscallNum ≤ (w.var v).syscallNum
      · rw [if_pos hnum]
        exact .held h hop hnum fun heq hw => hsync ⟨hop, heq, hw⟩
      · rw [if_neg hnum]
        exact .behind h hop (BitVec.not_le.1 hnum)

/-! ## Steps of the system -/

/-- The events of a step, with their guards and effects. -/
inductive StepCases (s : Sys ρ) : Event ρ → Sys ρ → Prop
  | run (v : Who) (K : Kernel ρ) (h : (s.world.proc v).running = true) :
      StepCases s (.run v K) ⟨s.world.advance K v, .waiting⟩
  | kill (v : Who) (h : (s.world.proc v).alive = true) :
      StepCases s (.kill v) ⟨s.world.kill v, .waiting⟩
  | wake (v : Who) (K : Kernel ρ) {s' : Sys ρ} (h : (s.world.proc v).pending = true)
      (hbody : LoopBody K v (s.world.woken v) s') : StepCases s (.wake v K) s'
  | noChild (hm : (s.world.proc .master).reaped = true)
      (hr : (s.world.proc .replica).reaped = true) :
      StepCases s .noChild ⟨s.world.tracerGone, .gone 1⟩

/-- **A step of the system, taken apart.** -/
theorem step_cases {s s' : Sys ρ} {e : Event ρ} (h : (system ρ).step s e s') :
    s.mode = .waiting ∧ StepCases s e s' := by
  change s.next e = some s' at h
  cases e with
  | run v K =>
    obtain ⟨⟨hm, hrun⟩, rfl⟩ := by simpa [Sys.next] using h
    exact ⟨hm, .run v K hrun⟩
  | kill v =>
    obtain ⟨⟨hm, ha⟩, rfl⟩ := by simpa [Sys.next] using h
    exact ⟨hm, .kill v ha⟩
  | wake v K =>
    obtain ⟨⟨hm, hp⟩, rfl⟩ := by simpa [Sys.next] using h
    exact ⟨hm, .wake v K hp (loopBody_cases K v _)⟩
  | noChild =>
    obtain ⟨⟨hm, hrm, hrr⟩, rfl⟩ := by simpa [Sys.next] using h
    exact ⟨hm, .noChild hrm hrr⟩

/-- The next state is determined by the event. -/
theorem system_deterministic : (system ρ).Deterministic := fun s e t t' h h' =>
  Option.some.inj ((show s.next e = some t from h).symm.trans (show s.next e = some t' from h'))

/-- A list of events, one after the other. -/
def Sys.play (s : Sys ρ) : List (Event ρ) → Option (Sys ρ)
  | [] => some s
  | e :: es => (s.next e).bind fun t => t.play es

theorem run_of_play {s s' : Sys ρ} {es : List (Event ρ)} (h : s.play es = some s') :
    (system ρ).Run s es s' := by
  induction es generalizing s with
  | nil =>
    cases h
    exact .nil
  | cons e es ih =>
    obtain ⟨t, ht, hrest⟩ := Option.bind_eq_some_iff.1 h
    exact (Machine.Run.single ht).append (ih hrest)

/-- Where a list of events leads, if all of them can happen. -/
def Sys.played (s : Sys ρ) (es : List (Event ρ)) : Sys ρ := (s.play es).getD s

/-- Events that can happen one after the other are a run. -/
theorem run_played {s : Sys ρ} {es : List (Event ρ)} (h : (s.play es).isSome = true) :
    (system ρ).Run s es (s.played es) := by
  refine run_of_play ?_
  obtain ⟨s', hs'⟩ := Option.isSome_iff_exists.1 h
  rw [Sys.played, hs']
  rfl

theorem step_played {s : Sys ρ} {e : Event ρ} (h : (s.next e).isSome = true) :
    (system ρ).step s e (s.played [e]) := by
  obtain ⟨s', hs'⟩ := Option.isSome_iff_exists.1 h
  change s.next e = some (s.played [e])
  simp [Sys.played, Sys.play, hs']

end Aurora
