import AuroraMVEE.Counters
import AuroraMVEE.Divergence

/-!
# The main loop makes progress

Two variants that wait for each other would wait for ever, and a monitor that turned
round without servicing a call would be of no use.  Neither happens:

* `never_standstill` — while the main loop waits, one of the two variants is running or has
  news for it.  The invariant behind this is that the two are never both held: the one
  that comes last finds its partner marked and is serviced with it.
* `events_paid` — each serviced call pays for the events that follow it.  `Tracee.toGo`
  counts the events a variant has before it until it is held at its next call; every event
  uses up one of them, and only a serviced call provides new ones, as many as
  `Syscall.fresh` says.  So a run has at most eight events for each call serviced in it, and
  eight.
-/

namespace Aurora

variable {ρ : Type}

/-- An event of the two-stop model in which no variant dies in an executor's wait. -/
structure Event.Returning (e : Event ρ) : Prop where
  plain : e.Plain
  returns : ∀ v K, e = .wake v K → K.Returns

section Runs

variable {s₀ s s' : Sys ρ} {e : Event ρ} {es : List (Event ρ)}

/-- Where no variant dies in a call, the two are never both silenced. -/
theorem lockstep_returning (h : Lockstep True s.world) (hstep : (system ρ).step s e s')
    (he : e.Returning) (hmode : s'.mode = .waiting) : Lockstep True s'.world := by
  rcases lockstep_step h hstep he.plain (fun _ _ _ _ _ => trivial) hmode with h | ⟨⟨v, K, rfl, hK⟩, -⟩
  · exact h
  · exact absurd (he.returns v K rfl) hK

/-- A serviced call has kept to its plan. -/
theorem Lockstep.serviced_returning {stale : Prop} {w w' : World ρ} {v : Who} {K : Kernel ρ}
    (h : Lockstep stale w) (hp : (w.proc v).pending = true) (ha : (w.proc v).alive = true)
    (hsync : (w.woken v).callsSync v)
    (hrun : processSyscallSync K ((w.woken v).noted v) = .ret 0 w') (hK : K.Returns) :
    ∃ c, Rendezvous c ((w.woken v).noted v).ctl ∧
      ∀ u, (c.plan u).Done (((w.woken v).noted v).ctl u) (w'.ctl u) := by
  rcases h.meeting hp ha hsync K with hno | ⟨c, hR, hexec⟩
  · rw [hno] at hrun
    exact absurd hrun (by simp)
  rw [hexec] at hrun
  rcases (Prog.ret_of_wp (execSyscall_follows K c hR _ rfl) hrun).1 rfl with hdone | ⟨⟨-, hno⟩, -⟩
  · exact ⟨c, hR, hdone⟩
  · exact absurd hK hno

/-- Where a variant is found at its entry stop and its partner is held at its own, the structs
hold what the two are about to do. -/
theorem Lockstep.noted_infos {stale : Prop} {w : World ρ} {v : Who} (h : Lockstep stale w)
    (hp : (w.proc v).pending = true) (ha : (w.proc v).alive = true)
    (hop : ((w.woken v).proc v).syscallInfo.op = .entry) (hloc : (w.proc v.other).loc = .entry)
    (hrep : (w.proc v.other).reported = true) (u : Who) :
    (((w.woken v).noted v).var u).syscallInfo = .ofEntry (w.proc u).regs := by
  by_cases hu : u = v
  · subst hu
    rw [World.noted_var_self]
    exact (h.at_entry hp ha hop).2.2
  · rw [Who.eq_other_of_ne hu, World.noted_var_other]
    exact (h.settled v.other).info_of_reported hloc hrep

/-- So it is where the two meet. -/
theorem Lockstep.met_infos {stale : Prop} {w : World ρ} {v : Who} {c : Syscall} (h : Lockstep stale w)
    (hp : (w.proc v).pending = true) (ha : (w.proc v).alive = true)
    (hsync : (w.woken v).callsSync v) (hR : Rendezvous c ((w.woken v).noted v).ctl) (u : Who) :
    (((w.woken v).noted v).var u).syscallInfo = .ofEntry (w.proc u).regs := by
  have hrep : (w.proc v.other).reported = true := by
    have hat := (hR.atEntry v.other).reported
    rw [World.noted_ctl, World.woken, World.report_ctl, Function.update_of_ne (Who.other_ne v)] at hat
    exact hat
  exact h.noted_infos hp ha hsync.1 ((h.met hR).1 _) hrep u

/-- The `switch` leads to the executor of the call that both structs carry. -/
theorem sync_exec {K : Kernel ρ} {c : Syscall} {w : World ρ} {regs : Who → Regs}
    (hinfo : ∀ u, (w.var u).syscallInfo = .ofEntry (regs u)) (hnr : ∀ u, regs u .origRax = c.nr) :
    processSyscallSync K w = execSyscall K c w :=
  processSyscallSync_call K fun u => by
    rw [hinfo]
    exact ⟨rfl, hnr u⟩

/-! ## No standstill -/

/-- The monitor has not heard of the present stop, or the death, of one of the two. -/
def World.Awake (w : World ρ) : Prop := ∃ v, (w.proc v).reported = false

/-- A variant held at its entry stop is marked as waiting, and owes nothing. -/
theorem Settled.held_of_reported {stale : Prop} {t : Tracee} {x : Variant} (h : Settled stale t x)
    (hrep : t.reported = true) : t.loc = .entry ∧ x.state = .wait ∧ t.owed = 0 := by
  cases h with
  | waiting hloc _ _ _ hstate _ => exact ⟨hloc, hstate, by rw [Tracee.owed, hloc, if_neg (by decide)]⟩
  | user _ hno _ _ | arriving _ _ hno _ _ | inCall _ hno _ _ =>
    exact absurd (hrep.symm.trans hno) (by decide)

/-- A variant nobody has heard of yet is running, or there is news of it. -/
theorem Tracee.running_or_pending {t : Tracee} (hrep : t.reported = false) :
    t.running = true ∨ t.pending = true := by
  cases hrun : t.running with
  | true => exact .inl rfl
  | false => exact .inr (by simp [Tracee.pending, hrun, hrep])

/-- When a variant is held, its partner is not: it would have been marked. -/
theorem Lockstep.other_awake {w : World ρ} {v : Who} (h : Lockstep True w)
    (hp : (w.proc v).pending = true) (ha : (w.proc v).alive = true)
    (hop : ((w.woken v).proc v).syscallInfo.op = .entry)
    (hwait : (w.var v).syscallNum = (w.var v.other).syscallNum → (w.var v.other).state ≠ .wait) :
    (w.proc v.other).reported = false := by
  by_contra hrep
  obtain ⟨-, hstate, howed⟩ := (h.settled v.other).held_of_reported (Bool.eq_true_of_not_eq_false hrep)
  obtain ⟨hloc, -, -⟩ := h.at_entry hp ha hop
  have hnum := h.num v v.other
  rw [Tracee.owed, hloc, if_neg (by decide), howed, add_zero, add_zero] at hnum
  exact hwait hnum hstate

theorem awake_step (h : Lockstep True s.world) (hstep : (system ρ).step s e s') (he : e.Returning)
    (hmode : s'.mode = .waiting) : s'.world.Awake := by
  obtain ⟨-, hcase⟩ := step_cases hstep
  cases hcase with
  | run v K hrun =>
    refine ⟨v, ?_⟩
    obtain ⟨ha, hl⟩ : (s.world.proc v).alive = true ∧
        ((s.world.proc v).loc = .user ∨ (s.world.proc v).loc = .kernel) := by
      simp only [Tracee.running, Bool.and_eq_true] at hrun
      refine ⟨hrun.1, ?_⟩
      cases hl : (s.world.proc v).loc <;> simp_all
    rcases hl with hl | hl
    · cases hu : K.user v (s.world.proc v) s.world.os <;>
        simp [World.advance, ha, hl, hu, Tracee.arrive, Tracee.die]
    · cases hc : (K.syscall v (s.world.proc v) s.world.os).1 <;>
        simp [World.advance, ha, hl, hc, Tracee.finish, Tracee.die, World.setProc]
  | kill v ha => exact he.plain.elim
  | noChild hm hr => exact absurd hmode (by simp)
  | wake v K hp hbody =>
    cases hbody with
    | held hstat hop _ hwait =>
      refine ⟨v.other, ?_⟩
      have hother := h.other_awake hp (alive_of_stopped hstat) hop hwait
      simpa [World.held, World.woken_proc] using hother
    | passed hstat hop =>
      refine ⟨v, ?_⟩
      obtain ⟨hl, hs⟩ := Tracee.exit_of_op hop
      show (((s.world.woken v).noted v).passed v |>.proc v).reported = false
      rw [World.passed, World.setVar_proc, World.setProc_proc_self, World.noted_proc,
        Tracee.resume_exit hl hs]
    | serviced hstat hsync hrun =>
      obtain ⟨c, -, hdone⟩ := h.serviced_returning hp (alive_of_stopped hstat) hsync hrun
        (he.returns v K rfl)
      exact ⟨v, (hdone v).reported⟩
    | _ => exact absurd hmode (by simp)

end Runs

/-! ## Every event is paid for -/

/-- How many events a variant has before it until it is held at its next call. -/
def Tracee.toGo (t : Tracee) : ℕ :=
  if t.reported then 0
  else if t.alive then
    match t.loc with
    | .kernel => 4
    | .exit => 3
    | .user => 2
    | .entry | .signal => 1
  else 1

/-- How many events the two have before them together. -/
def World.toGo (w : World ρ) : ℕ := (w.proc .master).toGo + (w.proc .replica).toGo

/-- How many a plan leaves its variant with: a call left in the kernel has to come to its exit
stop first, and to be passed there. -/
def Plan.toGo (p : Plan) : ℕ := if p.loc = .kernel then 4 else 2

/-- How many a serviced call leaves the two with. -/
def Syscall.fresh (c : Syscall) : ℕ := (c.plan .master).toGo + (c.plan .replica).toGo

/-- The events that a list of calls pays for. -/
def paidBy (cs : List Syscall) : ℕ := (cs.map Syscall.fresh).sum

theorem World.toGo_eq (w : World ρ) (v : Who) :
    w.toGo = (w.proc v).toGo + (w.proc v.other).toGo := by
  cases v with
  | master => rfl
  | replica => exact Nat.add_comm _ _

theorem Tracee.toGo_le (t : Tracee) : t.toGo ≤ 4 := by
  unfold Tracee.toGo
  split
  · omega
  · split
    · cases t.loc <;> simp
    · omega

theorem Syscall.fresh_le (c : Syscall) : c.fresh ≤ 8 := by
  have h : ∀ p : Plan, p.toGo ≤ 4 := fun p => by
    unfold Plan.toGo
    split <;> omega
  have hm := h (c.plan .master)
  have hr := h (c.plan .replica)
  unfold Syscall.fresh
  omega

theorem paidBy_append (cs : List Syscall) (c : Syscall) : paidBy (cs ++ [c]) = paidBy cs + c.fresh := by
  simp [paidBy]

theorem paidBy_le (cs : List Syscall) : paidBy cs ≤ 8 * cs.length := by
  induction cs with
  | nil => simp [paidBy]
  | cons c cs ih =>
    have hc := c.fresh_le
    simp only [paidBy, List.map_cons, List.sum_cons, List.length_cons] at ih ⊢
    omega

/-- Since `w₀` there have been `n` events, paid for by what was before the variants then and by
the calls serviced since; and exactly so, if none of them died. -/
def World.Paid (w₀ : World ρ) (n : ℕ) (w : World ρ) : Prop :=
  ∃ cs, (∀ v, (w.proc v).ran = (w₀.proc v).ran ++ history cs v) ∧
    n + w.toGo ≤ w₀.toGo + paidBy cs ∧
    ((∀ v, (w.proc v).alive = true) → n + w.toGo = w₀.toGo + paidBy cs)

namespace World.Paid

variable {w₀ w w' : World ρ} {n : ℕ} {v : Who}

/-- An event of `v` alone, that uses up one of its own; all of them, if it dies. -/
theorem move (h : w₀.Paid n w) {t : Tracee} (hproc : w'.proc = Function.update w.proc v t)
    (hran : t.ran = (w.proc v).ran) (hle : t.toGo + 1 ≤ (w.proc v).toGo)
    (heq : t.alive = true → (w.proc v).alive = true ∧ t.toGo + 1 = (w.proc v).toGo) :
    w₀.Paid (n + 1) w' := by
  obtain ⟨cs, hcs, hn, hexact⟩ := h
  have hself : w'.proc v = t := by simp [hproc]
  have hother : w'.proc v.other = w.proc v.other := by simp [hproc]
  have hgo : w'.toGo = t.toGo + (w.proc v.other).toGo := by rw [w'.toGo_eq v, hself, hother]
  have hgo₀ := w.toGo_eq v
  refine ⟨cs, fun u => ?_, by omega, fun halive => ?_⟩
  · by_cases hu : u = v
    · subst hu
      rw [hself, hran]
      exact hcs u
    · rw [Who.eq_other_of_ne hu, hother]
      exact hcs _
  · have hv := halive v
    rw [hself] at hv
    obtain ⟨ha, hsame⟩ := heq hv
    have hbefore := hexact fun u => by
      by_cases hu : u = v
      · rw [hu]
        exact ha
      · have hau := halive u
        rw [Who.eq_other_of_ne hu, hother] at hau
        rwa [Who.eq_other_of_ne hu]
    omega

end World.Paid

/-- What is before a variant whose plan was kept to. -/
theorem Plan.Done.toGo {p : Plan} {x : Ctl} {w : World ρ} {v : Who} (h : p.Done x (w.ctl v))
    (hp : p.loc = .user ∨ p.loc = .kernel) : (w.proc v).toGo = p.toGo := by
  have hloc : (w.proc v).loc = p.loc := h.loc
  have ha : (w.proc v).alive = true := h.alive
  have hrep : (w.proc v).reported = false := h.reported
  unfold Tracee.toGo Plan.toGo
  rcases hp with hl | hl <;> simp [hrep, ha, hloc, hl]

section Steps

variable {w₀ w w' : World ρ} {n : ℕ} {v : Who} {K : Kernel ρ}

/-- A variant comes to its next stop, or dies on the way. -/
theorem paid_advance (h : w₀.Paid n w) (hl : Lockstep True w) (hrun : (w.proc v).running = true)
    (hK : K.Plain) : w₀.Paid (n + 1) (w.advance K v) := by
  have ha : (w.proc v).alive = true := by
    simp only [Tracee.running, Bool.and_eq_true] at hrun
    exact hrun.1
  cases hl.settled v with
  | user hloc hrep _ _ =>
    have hw' : (w.advance K v).proc =
        Function.update w.proc v ((w.proc v).arrive (K.user v (w.proc v) w.os)) := by
      simp [World.advance, ha, hloc, World.setProc]
    cases hu : K.user v (w.proc v) w.os with
    | died =>
      refine h.move hw' ?_ ?_ ?_ <;> simp [hu, hloc, hrep, ha, Tracee.arrive, Tracee.die, Tracee.toGo]
    | entry regs mem =>
      refine h.move hw' ?_ ?_ ?_ <;> simp [hu, hloc, hrep, ha, Tracee.arrive, Tracee.toGo]
    | signal regs mem => exact absurd hu (hK.noSignal _ _ _ _ _)
  | inCall hloc hrep _ _ =>
    have hk : (w.proc v).loc = .kernel := by
      rcases hloc with hk | hx
      · exact hk
      · simp [Tracee.running, hx] at hrun
    have hw' : (w.advance K v).proc =
        Function.update w.proc v ((w.proc v).finish (K.syscall v (w.proc v) w.os).1) := by
      simp [World.advance, ha, hk, World.setProc]
    cases hc : (K.syscall v (w.proc v) w.os).1 with
    | died =>
      refine h.move hw' ?_ ?_ ?_ <;> simp [hc, hk, hrep, ha, Tracee.finish, Tracee.die, Tracee.toGo]
    | ret rax rcx r11 mem =>
      refine h.move hw' ?_ ?_ ?_ <;> simp [hc, hk, hrep, ha, Tracee.finish, Tracee.toGo]
  | arriving hloc _ _ _ _ | waiting hloc _ _ _ _ _ => simp [Tracee.running, hloc] at hrun

/-- A variant is found at its entry stop and held there. -/
theorem paid_held (h : w₀.Paid n w) (hl : Lockstep True w) (hp : (w.proc v).pending = true)
    (ha : (w.proc v).alive = true) (hop : ((w.woken v).proc v).syscallInfo.op = .entry) :
    w₀.Paid (n + 1) (((w.woken v).noted v).held v) := by
  obtain ⟨hloc, -, -⟩ := hl.at_entry hp ha hop
  obtain ⟨-, hrep⟩ : (w.proc v).running = false ∧ (w.proc v).reported = false := by
    simpa [Tracee.pending] using hp
  refine h.move (World.woken_proc w v) rfl ?_ fun _ => ⟨ha, ?_⟩ <;>
    simp [Tracee.toGo, hrep, ha, hloc]

/-- A variant is found at its exit stop and passed. -/
theorem paid_passed (h : w₀.Paid n w) (hp : (w.proc v).pending = true)
    (ha : (w.proc v).alive = true) (hop : ((w.woken v).proc v).syscallInfo.op = .exit) :
    w₀.Paid (n + 1) (((w.woken v).noted v).passed v) := by
  obtain ⟨hx, hs⟩ := Tracee.exit_of_op hop
  have hloc : (w.proc v).loc = .exit := by simpa using hx
  obtain ⟨-, hrep⟩ : (w.proc v).running = false ∧ (w.proc v).reported = false := by
    simpa [Tracee.pending] using hp
  refine h.move (v := v) (t := { w.proc v with loc := .user, reported := false }) ?_ rfl ?_
    fun _ => ⟨ha, ?_⟩
  · rw [World.passed, World.setVar_proc, World.noted_proc, Tracee.resume_exit hx hs]
    simp [World.setProc, World.woken_proc]
  · simp [Tracee.toGo, hrep, ha, hloc]
  · simp [Tracee.toGo, hrep, ha, hloc]

/-- A call is serviced: it uses up the last event of the variant that came, and provides the two
with what its plan leaves them. -/
theorem paid_serviced (h : w₀.Paid n w) (hl : Lockstep True w) (hp : (w.proc v).pending = true)
    (ha : (w.proc v).alive = true) (hsync : (w.woken v).callsSync v)
    (hrun : processSyscallSync K ((w.woken v).noted v) = .ret 0 w') (hK : K.Returns) :
    w₀.Paid (n + 1) w' := by
  obtain ⟨c, hR, hdone⟩ := hl.serviced_returning hp ha hsync hrun hK
  obtain ⟨hloc, -, -⟩ := hl.met hR
  obtain ⟨cs, hcs, hn, hexact⟩ := h
  -- the one that came has one event left, its partner none
  have hv : (w.proc v).toGo = 1 := by
    obtain ⟨-, hrep⟩ : (w.proc v).running = false ∧ (w.proc v).reported = false := by
      simpa [Tracee.pending] using hp
    simp [Tracee.toGo, hrep, ha, hloc v]
  have hpartner : (w.ctl v.other).AtEntry := by
    have hat := hR.atEntry v.other
    rwa [World.noted_ctl, World.woken, World.report_ctl,
      Function.update_of_ne (Who.other_ne v)] at hat
  have hother : (w.proc v.other).toGo = 0 := by
    have hrep : (w.proc v.other).reported = true := hpartner.reported
    simp [Tracee.toGo, hrep]
  have hbefore : w.toGo = 1 := by rw [w.toGo_eq v, hv, hother]
  have hplan : ∀ u, (c.plan u).loc = .user ∨ (c.plan u).loc = .kernel := fun u =>
    (c.plan_cases u).imp And.left And.left
  have hafter : w'.toGo = c.fresh := by
    rw [World.toGo, (hdone .master).toGo (hplan _), (hdone .replica).toGo (hplan _), Syscall.fresh]
  refine ⟨cs ++ [c], fun u => ?_, ?_, fun _ => ?_⟩
  · rw [(Lockstep.counts_of_done (hdone u)).1, hcs u, history_append, List.append_assoc]
  · rw [paidBy_append, hafter]
    omega
  · have halive : ∀ u, (w.proc u).alive = true := fun u => by
      by_cases hu : u = v
      · rw [hu]
        exact ha
      · rw [Who.eq_other_of_ne hu]
        exact hpartner.alive
    have hsame := hexact halive
    rw [paidBy_append, hafter]
    omega

theorem paid_step {s s' : Sys ρ} {e : Event ρ} (h : w₀.Paid n s.world) (hl : Lockstep True s.world)
    (hstep : (system ρ).step s e s') (he : e.Returning) (hmode : s'.mode = .waiting) :
    w₀.Paid (n + 1) s'.world := by
  obtain ⟨-, hcase⟩ := step_cases hstep
  cases hcase with
  | run v K hrun => exact paid_advance h hl hrun he.plain
  | kill v ha => exact he.plain.elim
  | noChild hm hr => exact absurd hmode (by simp)
  | wake v K hp hbody =>
    cases hbody with
    | held hstat hop _ _ => exact paid_held h hl hp (alive_of_stopped hstat) hop
    | passed hstat hop => exact paid_passed h hp (alive_of_stopped hstat) hop
    | serviced hstat hsync hrun =>
      exact paid_serviced h hl hp (alive_of_stopped hstat) hsync hrun (he.returns v K rfl)
    | _ => exact absurd hmode (by simp)

end Steps

section Runs

variable {s₀ s s' : Sys ρ} {es fs : List (Event ρ)}

/-- Such runs stay in lockstep as long as the main loop waits. -/
theorem lockstep_returning_run (h₀ : s₀.world.Started)
    (hrun : ((system ρ).restrict fun _ e => e.Returning).Run s₀ es s) (hmode : s.mode = .waiting) :
    Lockstep True s.world :=
  hrun.invariant (I := fun t => t.mode = .waiting → Lockstep True t.world)
    (fun _ => .of_started h₀)
    (fun _ _ _ ht hstep => lockstep_returning (ht (step_cases hstep.1).1) hstep.1 hstep.2) hmode

/-- **Every event is paid for.**  Take any stretch of a run in which no variant dies in an
executor's wait, at both ends of which the main loop waits.  The two variants have gone through
the same calls in it; the events of the stretch are at most those that were before the
variants at its start, and those the calls provide, less those before them at its end, and
exactly so many if no variant died; and that is never more than eight for each call, and eight. -/
theorem events_paid (h₀ : s₀.world.Started)
    (hbefore : ((system ρ).restrict fun _ e => e.Returning).Run s₀ fs s) (hmode : s.mode = .waiting)
    (hrun : ((system ρ).restrict fun _ e => e.Returning).Run s es s') (hmode' : s'.mode = .waiting) :
    ∃ cs, (∀ v, (s'.world.proc v).ran = (s.world.proc v).ran ++ history cs v) ∧
      es.length + s'.world.toGo ≤ s.world.toGo + paidBy cs ∧
      ((∀ v, (s'.world.proc v).alive = true) →
        es.length + s'.world.toGo = s.world.toGo + paidBy cs) ∧
      es.length ≤ 8 * (cs.length + 1) := by
  have hinv : s'.mode = .waiting → s.world.Paid es.length s'.world ∧ Lockstep True s'.world := by
    refine hrun.invariant_length (I := fun n t => t.mode = .waiting →
      s.world.Paid n t.world ∧ Lockstep True t.world) (fun _ => ⟨?_, ?_⟩)
      fun n t e t' ht hstep hwait => ?_
    · exact ⟨[], by simp [history], by simp [paidBy], fun _ => by simp [paidBy]⟩
    · exact lockstep_returning_run h₀ hbefore hmode
    · obtain ⟨hpaid, hl⟩ := ht (step_cases hstep.1).1
      exact ⟨paid_step hpaid hl hstep.1 hstep.2 hwait,
        lockstep_returning hl hstep.1 hstep.2 hwait⟩
  obtain ⟨⟨cs, hcs, hle, hexact⟩, -⟩ := hinv hmode'
  refine ⟨cs, hcs, hle, hexact, ?_⟩
  have hm := (s.world.proc .master).toGo_le
  have hr := (s.world.proc .replica).toGo_le
  have hcalls := paidBy_le cs
  have hgo : s.world.toGo ≤ 8 := by
    unfold World.toGo
    omega
  omega

end Runs

/-! ### A whole round -/

theorem returning_getuidRound : ∀ e ∈ getuidRound, e.Returning := by
  have hwake : ∀ v K, (Event.wake v K) ∈ getuidRound → K.Returns := by
    intro v K h
    simp only [getuidRound, getuidPassed, meetCalling, arriveCalling, List.cons_append,
      List.nil_append, List.mem_cons, Event.wake.injEq, List.not_mem_nil, or_false, reduceCtorEq,
      false_or] at h
    rcases h with ⟨-, rfl⟩ | ⟨-, rfl⟩ | ⟨-, rfl⟩ | ⟨-, rfl⟩ <;> exact returns_calling 102
  intro e he
  exact ⟨plain_getuidRound e he, fun v K h => hwake v K (h ▸ he)⟩

/-- Both variants make a `getuid` and pass its exit stop: eight events, one call. -/
theorem events_paid_getuid :
    ∃ cs, (∀ v, (((Sys.fresh ()).played getuidRound).world.proc v).ran =
        ((Sys.fresh ()).world.proc v).ran ++ history cs v) ∧
      getuidRound.length + ((Sys.fresh ()).played getuidRound).world.toGo ≤
        (Sys.fresh ()).world.toGo + paidBy cs ∧
      ((∀ v, (((Sys.fresh ()).played getuidRound).world.proc v).alive = true) →
        getuidRound.length + ((Sys.fresh ()).played getuidRound).world.toGo =
          (Sys.fresh ()).world.toGo + paidBy cs) ∧
      getuidRound.length ≤ 8 * (cs.length + 1) :=
  events_paid (started_fresh ()) .nil rfl
    ((run_played (by decide +kernel)).to_restrict fun e he _ => returning_getuidRound e he)
    (by decide +kernel)

end Aurora
