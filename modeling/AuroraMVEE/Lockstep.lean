import AuroraMVEE.Events

/-!
# The lockstep invariant

Three loosely coupled pieces of the monitor's memory decide which stops it pairs:
`state`, `syscallNum`, and a `syscallInfo` that may be out of date.  `Lockstep` says
how they hang together with what the two variants are really doing whenever the
main loop waits, and the step lemmas show that every event keeps it.

* `Settled stale` — one variant and its struct.  `stale` says whether a `WAIT` may be
  left behind in `state`; with `stale := False` the flag is exact.
* `Lockstep stale` — both variants: settled, with one common history of serviced
  calls, and with counters that differ by no more than the calls still to be counted.
* `lockstep_step` — every event of a `Plain` kernel keeps it, unless the monitor stops
  waiting, or waits for two variants that will never be heard of again.
-/

namespace Aurora

variable {ρ : Type}

/-! ## The kernel of the two-stop model -/

/-- A kernel without signals, in which a reported stop lasts. -/
structure Kernel.Plain (K : Kernel ρ) : Prop where
  noSignal : ∀ v t o regs mem, K.user v t o ≠ .signal regs mem
  lasting : ∀ v, K.killed v = false

/-- An event of the two-stop model. -/
def Event.Plain : Event ρ → Prop
  | .run _ K => K.Plain
  | .wake _ K => K.Plain
  | .kill _ => False
  | .noChild => True

/-- Both variants resumed, nothing counted, and nothing run. -/
structure World.Started (w : World ρ) : Prop where
  loc : ∀ v, (w.proc v).loc = .user
  reported : ∀ v, (w.proc v).reported = false
  traced : ∀ v, (w.proc v).traced = true
  entries : ∀ v, (w.proc v).entries = 0
  ran : ∀ v, (w.proc v).ran = []
  state : ∀ v, (w.var v).state = .running
  num : ∀ v, (w.var v).syscallNum = 0

/-! ## What the plans have in common -/

/-- A plan sees a call through and marks the variant as running, or leaves it in the
kernel; only `shutdown` leaves the mark as it was. -/
theorem Syscall.plan_cases (c : Syscall) (v : Who) :
    ((c.plan v).loc = .user ∧ (c.plan v).marked = true) ∨
      ((c.plan v).loc = .kernel ∧ ((c.plan v).marked = false → c = .shutdown)) := by
  cases c <;> cases v <;> simp [Syscall.plan]

/-- What the exit stop of a call left in the kernel will add to the count. -/
def Plan.owed (p : Plan) : Word := if p.loc = .kernel then 1 else 0

/-- The two halves of a plan count the same, sooner or later. -/
theorem Syscall.plan_balanced (c : Syscall) (u v : Who) :
    (c.plan u).counted + (c.plan u).owed = (c.plan v).counted + (c.plan v).owed := by
  cases c <;> cases u <;> cases v <;> rfl

/-! ## The invariant -/

/-- What holds of one variant, `t`, and its struct, `x`, whenever the main loop waits. -/
inductive Settled (stale : Prop) (t : Tracee) (x : Variant) : Prop
  /-- in its own code, or dead there -/
  | user (hloc : t.loc = .user) (hrep : t.reported = false) (hran : t.ran.length = t.entries)
      (hstate : x.state = .wait → stale ∧ x.syscallInfo.op = .exit)
  /-- at an entry stop the monitor has not heard of -/
  | arriving (hloc : t.loc = .entry) (halive : t.alive = true) (hrep : t.reported = false)
      (hran : t.ran.length + 1 = t.entries)
      (hstate : x.state = .wait → stale ∧ x.syscallInfo.op = .exit)
  /-- at an entry stop, held there -/
  | waiting (hloc : t.loc = .entry) (halive : t.alive = true) (hrep : t.reported = true)
      (hran : t.ran.length + 1 = t.entries) (hstate : x.state = .wait)
      (hinfo : x.syscallInfo = .ofEntry t.regs)
  /-- in a call that was serviced and not yet counted -/
  | inCall (hloc : t.loc = .kernel ∨ t.loc = .exit) (hrep : t.reported = false)
      (hran : t.ran.length = t.entries) (hstate : x.state = .wait → stale)

/-- The call a variant is in counts when its exit stop is passed. -/
def Tracee.owed (t : Tracee) : Word := if t.loc = .kernel ∨ t.loc = .exit then 1 else 0

/-- The numbers the kernel of `v` executes for a list of serviced calls. -/
def history (cs : List Syscall) (v : Who) : List Word := cs.map fun c => (c.plan v).nr

@[simp] theorem history_length (cs : List Syscall) (v : Who) : (history cs v).length = cs.length := by
  simp [history]

@[simp] theorem history_append (cs : List Syscall) (c : Syscall) (v : Who) :
    history (cs ++ [c]) v = history cs v ++ [(c.plan v).nr] := by
  simp [history]

/-- Both variants are settled, and keep step with each other. -/
structure Lockstep (stale : Prop) (w : World ρ) : Prop where
  traced : ∀ v, (w.proc v).traced = true
  settled : ∀ v, Settled stale (w.proc v) (w.var v)
  ran : ∃ cs : List Syscall, ∀ v, (w.proc v).ran = history cs v
  num : ∀ u v, (w.var u).syscallNum + (w.proc u).owed = (w.var v).syscallNum + (w.proc v).owed

theorem Settled.ran_entry {stale : Prop} {t : Tracee} {x : Variant} (h : Settled stale t x)
    (hl : t.loc = .entry) : t.ran.length + 1 = t.entries := by
  cases h with
  | user hloc _ _ _ => exact absurd (hl.symm.trans hloc) (by decide)
  | arriving _ _ _ hran _ => exact hran
  | waiting _ _ _ hran _ _ => exact hran
  | inCall hloc _ _ _ =>
    rcases hloc with hloc | hloc <;> exact absurd (hl.symm.trans hloc) (by decide)

/-- A struct kept up to date: that of an entry stop the monitor has heard of. -/
theorem Settled.info_of_reported {stale : Prop} {t : Tracee} {x : Variant} (h : Settled stale t x)
    (hl : t.loc = .entry) (hrep : t.reported = true) : x.syscallInfo = .ofEntry t.regs := by
  cases h with
  | user hloc _ _ _ => exact absurd (hl.symm.trans hloc) (by decide)
  | arriving _ _ hnot _ _ => exact absurd (hrep.symm.trans hnot) (by decide)
  | waiting _ _ _ _ _ hinfo => exact hinfo
  | inCall hloc _ _ _ =>
    rcases hloc with hloc | hloc <;> exact absurd (hl.symm.trans hloc) (by decide)

/-- A variant marked as waiting, with the struct of an entry stop and nothing owed, is held
at one. -/
theorem Settled.held_of_wait {stale : Prop} {t : Tracee} {x : Variant} (h : Settled stale t x)
    (hwait : x.state = .wait) (hop : x.syscallInfo.op = .entry) (howed : t.owed = 0) :
    t.loc = .entry ∧ t.alive = true ∧ t.reported = true := by
  cases h with
  | user _ _ _ hstate => exact absurd (hop.symm.trans (hstate hwait).2) (by decide)
  | arriving _ _ _ _ hstate => exact absurd (hop.symm.trans (hstate hwait).2) (by decide)
  | waiting hloc halive hrep _ _ _ => exact ⟨hloc, halive, hrep⟩
  | inCall hloc _ _ _ => exact absurd howed (by rw [Tracee.owed, if_pos hloc]; decide)

/-- What holds of the whole system: while it waits, the variants are in lockstep, or
there is nothing left to wait for. -/
def Sys.InStep (stale : Prop) (s : Sys ρ) : Prop :=
  s.mode = .waiting → Lockstep stale s.world ∨ ∀ v, (s.world.ctl v).Silenced

namespace Lockstep

variable {stale : Prop} {w w' : World ρ} {v : Who} {K : Kernel ρ}

theorem ran_length (h : Lockstep stale w) (u v : Who) :
    (w.proc u).ran.length = (w.proc v).ran.length := by
  obtain ⟨cs, hcs⟩ := h.ran
  rw [hcs u, hcs v, history_length, history_length]

theorem of_started (h : w.Started) : Lockstep stale w where
  traced := h.traced
  settled v := .user (h.loc v) (h.reported v) (by simp [h.ran v, h.entries v]) (by simp [h.state v])
  ran := ⟨[], h.ran⟩
  num u v := by simp [Tracee.owed, h.loc, h.num]

/-- A change at `v` alone that adds nothing to its history, and counts what it settles. -/
theorem change (h : Lockstep stale w) {t : Tracee} {x : Variant}
    (hproc : w'.proc = Function.update w.proc v t) (hvar : w'.var = Function.update w.var v x)
    (htraced : t.traced = true) (hsettled : Settled stale t x) (hran : t.ran = (w.proc v).ran)
    (hnum : x.syscallNum + t.owed = (w.var v).syscallNum + (w.proc v).owed) :
    Lockstep stale w' := by
  have hp : w'.proc v = t := by simp [hproc]
  have hx : w'.var v = x := by simp [hvar]
  have hp' : ∀ u ≠ v, w'.proc u = w.proc u := fun u hu => by simp [hproc, hu]
  have hx' : ∀ u ≠ v, w'.var u = w.var u := fun u hu => by simp [hvar, hu]
  have hcases : ∀ {p : Who → Prop}, p v → (∀ u ≠ v, p u) → ∀ u, p u := fun hv hu u => by
    by_cases h : u = v
    · exact h ▸ hv
    · exact hu u h
  refine ⟨hcases (by rwa [hp]) fun u hu => by rw [hp' u hu]; exact h.traced u,
    hcases (by rwa [hp, hx]) fun u hu => by rw [hp' u hu, hx' u hu]; exact h.settled u, ?_, ?_⟩
  · obtain ⟨cs, hcs⟩ := h.ran
    refine ⟨cs, hcases ?_ fun u hu => by rw [hp' u hu]; exact hcs u⟩
    rw [hp, hran]
    exact hcs v
  · have hsame : ∀ u, (w'.var u).syscallNum + (w'.proc u).owed =
        (w.var u).syscallNum + (w.proc u).owed :=
      hcases (by rwa [hp, hx]) fun u hu => by rw [hp' u hu, hx' u hu]
    intro u u'
    rw [hsame u, hsame u']
    exact h.num u u'

/-- Where a variant with news for the monitor can be. -/
theorem pending_cases (h : Lockstep stale w) (hp : (w.proc v).pending = true)
    (ha : (w.proc v).alive = true) :
    ((w.proc v).loc = .entry ∧ (w.proc v).ran.length + 1 = (w.proc v).entries) ∨
      ((w.proc v).loc = .exit ∧ (w.proc v).ran.length = (w.proc v).entries ∧
        ((w.var v).state = .wait → stale)) := by
  obtain ⟨hrun, hrep⟩ : (w.proc v).running = false ∧ (w.proc v).reported = false := by
    simpa [Tracee.pending] using hp
  cases h.settled v with
  | user hloc _ _ _ => simp [Tracee.running, ha, hloc] at hrun
  | arriving hloc _ _ hran _ => exact .inl ⟨hloc, hran⟩
  | waiting _ _ hrep' _ _ _ => exact absurd (hrep.symm.trans hrep') (by decide)
  | inCall hloc _ hran hstate =>
    rcases hloc with hloc | hloc
    · simp [Tracee.running, ha, hloc] at hrun
    · exact .inr ⟨hloc, hran, hstate⟩

/-! ## Events that pair nothing -/

/-- A variant comes to its next stop, or dies on the way. -/
theorem advance (h : Lockstep stale w) (hrun : (w.proc v).running = true)
    (hsignal : (w.proc v).loc = .user → ∀ regs mem, K.user v (w.proc v) w.os ≠ .signal regs mem) :
    Lockstep stale (w.advance K v) := by
  have ha : (w.proc v).alive = true := by
    simp only [Tracee.running, Bool.and_eq_true] at hrun
    exact hrun.1
  have hsame : w.var = Function.update w.var v (w.var v) := (Function.update_eq_self v w.var).symm
  cases h.settled v with
  | user hloc hrep hran hstate =>
    have hw' : w.advance K v = w.setProc v ((w.proc v).arrive (K.user v (w.proc v) w.os)) := by
      simp [World.advance, ha, hloc]
    rw [hw']
    cases hu : K.user v (w.proc v) w.os with
    | died =>
      have hdie : (w.proc v).arrive .died = { w.proc v with alive := false, reported := false } := by
        simp [Tracee.arrive, Tracee.die, ha]
      rw [hdie]
      exact h.change rfl hsame (h.traced v) (.user hloc rfl hran hstate) rfl rfl
    | entry regs mem =>
      refine h.change rfl hsame (h.traced v) (.arriving rfl ha rfl ?_ hstate) rfl ?_
      · simpa [Tracee.arrive] using hran
      · simp [Tracee.arrive, Tracee.owed, hloc]
    | signal regs mem => exact absurd hu (hsignal hloc _ _)
  | arriving hloc _ _ _ _ => simp [Tracee.running, hloc] at hrun
  | waiting hloc _ _ _ _ _ => simp [Tracee.running, hloc] at hrun
  | inCall hloc hrep hran hstate =>
    have hl : (w.proc v).loc = .kernel := by
      rcases hloc with hl | hl
      · exact hl
      · simp [Tracee.running, hl] at hrun
    have hproc : (w.advance K v).proc =
        Function.update w.proc v ((w.proc v).finish (K.syscall v (w.proc v) w.os).1) := by
      simp [World.advance, ha, hl, World.setProc]
    have hvar : (w.advance K v).var = Function.update w.var v (w.var v) := by
      simp [World.advance, ha, hl]
    refine h.change hproc hvar ?_ ?_ ?_ ?_ <;>
      cases hres : (K.syscall v (w.proc v) w.os).1 <;>
      simp [Tracee.finish, Tracee.die, ha, h.traced, Tracee.owed, hl]
    · exact .inCall (.inl rfl) rfl hran hstate
    · exact .inCall (.inr rfl) rfl hran hstate

/-- A variant whose stop is reported as a system call entry is at one. -/
theorem at_entry (h : Lockstep stale w) (hp : (w.proc v).pending = true)
    (ha : (w.proc v).alive = true) (hop : ((w.woken v).proc v).syscallInfo.op = .entry) :
    (w.proc v).loc = .entry ∧ (w.proc v).ran.length + 1 = (w.proc v).entries ∧
      ((w.woken v).proc v).syscallInfo = .ofEntry (w.proc v).regs := by
  have halive : ((w.woken v).proc v).alive = true := by simpa using ha
  have htraced : ((w.woken v).proc v).traced = true := by simpa using h.traced v
  rcases h.pending_cases hp ha with ⟨hloc, hran⟩ | ⟨hloc, -, -⟩
  · have hl : ((w.woken v).proc v).loc = .entry := by simpa using hloc
    have hinfo := Tracee.syscallInfo_entry hl (Tracee.stopped_entry hl halive htraced)
    exact ⟨hloc, hran, by simpa using hinfo⟩
  · have hl : ((w.woken v).proc v).loc = .exit := by simpa using hloc
    rw [Tracee.syscallInfo_exit hl (Tracee.stopped_exit hl halive htraced)] at hop
    exact absurd hop (by simp)

/-- A variant is found at its entry stop and held there. -/
theorem held (h : Lockstep stale w) (hp : (w.proc v).pending = true)
    (ha : (w.proc v).alive = true) (hop : ((w.woken v).proc v).syscallInfo.op = .entry) :
    Lockstep stale (((w.woken v).noted v).held v) := by
  obtain ⟨hloc, hran, hinfo⟩ := h.at_entry hp ha hop
  refine h.change (World.woken_proc w v) ?_ (h.traced v)
    (.waiting (x := { w.var v with syscallInfo := .ofEntry (w.proc v).regs, state := .wait })
      hloc ha rfl hran rfl rfl) rfl rfl
  unfold World.held World.noted
  rw [hinfo]
  simp [World.setVar]

/-- A variant is found at its exit stop and passed. -/
theorem passed (h : Lockstep stale w) (hp : (w.proc v).pending = true)
    (ha : (w.proc v).alive = true) (hop : ((w.woken v).proc v).syscallInfo.op = .exit) :
    Lockstep stale (((w.woken v).noted v).passed v) := by
  have halive : ((w.woken v).proc v).alive = true := by simpa using ha
  have htraced : ((w.woken v).proc v).traced = true := by simpa using h.traced v
  rcases h.pending_cases hp ha with ⟨hloc, -⟩ | ⟨hloc, hran, hstate⟩
  · have hl : ((w.woken v).proc v).loc = .entry := by simpa using hloc
    rw [Tracee.syscallInfo_entry hl (Tracee.stopped_entry hl halive htraced)] at hop
    exact absurd hop (by simp)
  · have hl : ((w.woken v).proc v).loc = .exit := by simpa using hloc
    have hresume := Tracee.resume_exit hl (Tracee.stopped_exit hl halive htraced)
    refine h.change (t := { w.proc v with loc := .user, reported := false })
      (x := { w.var v with
        syscallInfo := ((w.woken v).proc v).syscallInfo,
        syscallNum := (w.var v).syscallNum + 1 })
      ?_ ?_ (h.traced v) (.user rfl rfl hran fun hw => ⟨hstate hw, hop⟩) rfl ?_
    · rw [World.passed, World.setVar_proc, World.noted_proc, hresume]
      simp [World.setProc, World.woken_proc]
    · simp [World.passed, World.noted, World.setProc, World.setVar]
    · simp [Tracee.owed, hloc]

/-! ## The event that pairs two stops -/

/-- The world in which `processSyscallSync` is called differs, to the control view, in
no more than what `waitpid` has reported. -/
theorem ctl_met (w : World ρ) (v u : Who) :
    ∃ r, ((w.woken v).noted v).ctl u = { w.ctl u with reported := r } := by
  rw [World.noted_ctl, World.woken, World.report_ctl]
  by_cases hu : u = v
  · subst hu
    exact ⟨true, by simp⟩
  · exact ⟨(w.ctl u).reported, by simp [hu]⟩

/-- When `processSyscallSync` is called and both structs carry the entry of one and the same
implemented call, both variants stand there. -/
theorem rendezvous_of_call (h : Lockstep stale w) (hp : (w.proc v).pending = true)
    (ha : (w.proc v).alive = true) (hsync : (w.woken v).callsSync v) {c : Syscall}
    (hcall : ∀ u, (((w.woken v).noted v).var u).syscallInfo.op = .entry ∧
      (((w.woken v).noted v).var u).syscallInfo.nr = c.nr) :
    Rendezvous c ((w.woken v).noted v).ctl := by
  obtain ⟨hop, hnum, hwait⟩ := hsync
  obtain ⟨hloc, -, hinfo⟩ := h.at_entry hp ha hop
  have hnrv : (w.proc v).regs .origRax = c.nr := by
    have := (hcall v).2
    rwa [World.noted_var_self, hinfo] at this
  obtain ⟨hopo, hnro⟩ := hcall v.other
  rw [World.noted_var_other] at hopo hnro
  -- the partner owes nothing, so it is no longer in its last call
  have howed : (w.proc v.other).owed = 0 := by
    have := h.num v v.other
    rw [Tracee.owed, hloc, if_neg (by decide), show (w.var v).syscallNum =
      (w.var v.other).syscallNum from hnum] at this
    simpa using this
  obtain ⟨hloco, haliveo, hrepo⟩ := (h.settled v.other).held_of_wait hwait hopo howed
  have hcallo : (w.proc v.other).regs .origRax = c.nr := by
    rw [World.woken_var, (h.settled v.other).info_of_reported hloco hrepo] at hnro
    exact hnro
  have hctl : ((w.woken v).noted v).ctl = (w.woken v).ctl := World.noted_ctl _ _
  have hself : (w.woken v).ctl v = { w.ctl v with reported := true } := by
    rw [World.woken, World.report_ctl, Function.update_self]
  have hpart : (w.woken v).ctl v.other = w.ctl v.other := by
    rw [World.woken, World.report_ctl, Function.update_of_ne (Who.other_ne v)]
  refine ⟨fun u => ?_, fun u => ?_⟩ <;> rw [hctl] <;> by_cases hu : u = v
  · subst hu
    rw [hself]
    exact ⟨hloc, ha, rfl, h.traced u⟩
  · rw [Who.eq_other_of_ne hu, hpart]
    exact ⟨hloco, haliveo, hrepo, h.traced _⟩
  · subst hu
    rw [hself]
    exact hnrv
  · rw [Who.eq_other_of_ne hu, hpart]
    exact hcallo

/-- When `processSyscallSync` is called it refuses at once, or both variants stand at
the entry of one and the same implemented call. -/
theorem meeting (h : Lockstep stale w) (hp : (w.proc v).pending = true)
    (ha : (w.proc v).alive = true) (hsync : (w.woken v).callsSync v) (K : Kernel ρ) :
    processSyscallSync K ((w.woken v).noted v) = .ret (-1) ((w.woken v).noted v) ∨
      ∃ c : Syscall, Rendezvous c ((w.woken v).noted v).ctl ∧
        processSyscallSync K ((w.woken v).noted v) = execSyscall K c ((w.woken v).noted v) := by
  rcases processSyscallSync_cases K ((w.woken v).noted v) with hleft | ⟨c, hops, hnr, hexec⟩
  · exact .inl hleft
  have hself : (((w.woken v).noted v).var v).syscallInfo.op = .entry := by
    rw [World.noted_var_self]
    exact hsync.1
  exact .inr ⟨c, h.rendezvous_of_call hp ha hsync fun u => ⟨(hops u v).trans hself, hnr u⟩, hexec⟩

/-- Where two variants meet, they stand at the entry of the call, with equal counters. -/
theorem met (h : Lockstep stale w) {c : Syscall} (hR : Rendezvous c ((w.woken v).noted v).ctl) :
    (∀ u, (w.proc u).loc = .entry) ∧ (∀ u, (w.proc u).regs .origRax = c.nr) ∧
      ∀ u u', (w.var u).syscallNum = (w.var u').syscallNum := by
  have hloc : ∀ u, (w.proc u).loc = .entry := fun u => by
    obtain ⟨r, hr⟩ := ctl_met w v u
    have hloc := (hR.atEntry u).loc
    rwa [hr] at hloc
  refine ⟨hloc, fun u => ?_, fun u u' => ?_⟩
  · obtain ⟨r, hr⟩ := ctl_met w v u
    have hcall := hR.call u
    rwa [hr] at hcall
  · have hnum := h.num u u'
    rw [Tracee.owed, Tracee.owed, hloc u, hloc u', if_neg (by decide)] at hnum
    simpa using hnum

/-- A plan that was kept to, in terms of what was there before the meeting. -/
theorem counts_of_done {p : Plan} {u : Who}
    (h : p.Done (((w.woken v).noted v).ctl u) (w'.ctl u)) :
    (w'.proc u).ran = (w.proc u).ran ++ [p.nr] ∧ (w'.proc u).entries = (w.proc u).entries ∧
      (w'.var u).syscallNum = (w.var u).syscallNum + p.counted := by
  obtain ⟨r, hr⟩ := ctl_met w v u
  have hran := h.ran
  have hentries := h.entries
  have hnum := h.num
  rw [hr] at hran hentries hnum
  exact ⟨hran, hentries, hnum⟩

/-- And what is still to be counted is what the plan leaves to be counted. -/
theorem owed_of_done {c : Syscall} {u : Who} {x : Ctl} (h : (c.plan u).Done x (w'.ctl u)) :
    (w'.proc u).owed = (c.plan u).owed := by
  have hloc : (w'.proc u).loc = (c.plan u).loc := h.loc
  unfold Tracee.owed Plan.owed
  rw [hloc]
  rcases c.plan_cases u with ⟨hl, -⟩ | ⟨hl, -⟩ <;> rw [hl] <;> decide

/-- An executor that kept to its plans leaves the variants in lockstep. -/
theorem of_done (h : Lockstep stale w) {c : Syscall} (hR : Rendezvous c ((w.woken v).noted v).ctl)
    (hdone : ∀ u, (c.plan u).Done (((w.woken v).noted v).ctl u) (w'.ctl u))
    (hstale : c = .shutdown → stale) : Lockstep stale w' := by
  obtain ⟨hloc, -, hsame⟩ := h.met hR
  have hran : ∀ u, (w'.proc u).ran = (w.proc u).ran ++ [(c.plan u).nr] :=
    fun u => (counts_of_done (hdone u)).1
  have hnum : ∀ u, (w'.var u).syscallNum = (w.var u).syscallNum + (c.plan u).counted :=
    fun u => (counts_of_done (hdone u)).2.2
  have hlen : ∀ u, (w'.proc u).ran.length = (w'.proc u).entries := fun u => by
    obtain ⟨hran, hentries, -⟩ := counts_of_done (hdone u)
    rw [hran, hentries, List.length_append, ← (h.settled u).ran_entry (hloc u)]
    rfl
  refine ⟨fun u => (hdone u).traced, fun u => ?_, ?_, ?_⟩
  · have hloc' : (w'.proc u).loc = (c.plan u).loc := (hdone u).loc
    have hstate : (w'.var u).state = if (c.plan u).marked then .running else
        (((w.woken v).noted v).ctl u).state := (hdone u).state
    rcases c.plan_cases u with ⟨hl, hm⟩ | ⟨hl, hm⟩
    · refine .user (hloc'.trans hl) (hdone u).reported (hlen u) fun hw => ?_
      rw [hstate, hm] at hw
      exact absurd hw (by simp)
    · refine .inCall (.inl (hloc'.trans hl)) (hdone u).reported (hlen u) fun hw => ?_
      cases hmark : (c.plan u).marked with
      | false => exact hstale (hm hmark)
      | true =>
        rw [hstate, hmark] at hw
        exact absurd hw (by simp)
  · obtain ⟨cs, hcs⟩ := h.ran
    exact ⟨cs ++ [c], fun u => by rw [hran u, hcs u, history_append]⟩
  · intro u u'
    rw [hnum u, hnum u', owed_of_done (hdone u), owed_of_done (hdone u'), hsame u u', BitVec.add_assoc,
      BitVec.add_assoc, c.plan_balanced u u']

/-- A rendezvous that succeeds leaves them in lockstep too, if no variant is lost in `access`. -/
theorem after_sync (h : Lockstep stale w) (hp : (w.proc v).pending = true)
    (ha : (w.proc v).alive = true) (hsync : (w.woken v).callsSync v)
    (hrun : processSyscallSync K ((w.woken v).noted v) = .ret 0 w')
    (hstale : (w.proc v).loc = .entry → (w.proc v).regs .origRax = Syscall.shutdown.nr → stale) :
    Lockstep stale w' ∨ (¬ K.Returns ∧ ∀ u, (w'.ctl u).Silenced) := by
  rcases h.meeting hp ha hsync K with hno | ⟨c, hR, hexec⟩
  · rw [hno] at hrun
    exact absurd hrun (by simp)
  rw [hexec] at hrun
  have hpost := Prog.ret_of_wp (execSyscall_follows K c hR _ rfl) hrun
  rcases hpost.1 rfl with hdone | ⟨⟨-, hK⟩, hquiet⟩
  · refine .inl (h.of_done hR hdone fun hc => ?_)
    obtain ⟨hloc, hcall, -⟩ := h.met hR
    exact hstale (hloc v) (by rw [hcall v, hc])
  · exact .inr ⟨hK, hquiet⟩

end Lockstep

/-! ## Every event -/

section Steps

variable {stale : Prop} {s s' : Sys ρ} {e : Event ρ}

/-- **Every event keeps the invariant**, as long as the monitor goes on waiting; if a
variant dies in a call that `access` makes, both may be left without a word. -/
theorem lockstep_step (h : Lockstep stale s.world) (hstep : (system ρ).step s e s') (he : e.Plain)
    (hstale : ∀ v K, e = .wake v K → (s.world.proc v).loc = .entry →
      (s.world.proc v).regs .origRax = Syscall.shutdown.nr → stale) (hmode : s'.mode = .waiting) :
    Lockstep stale s'.world ∨
      ((∃ v K, e = .wake v K ∧ ¬ K.Returns) ∧ ∀ v, (s'.world.ctl v).Silenced) := by
  obtain ⟨-, hcase⟩ := step_cases hstep
  cases hcase with
  | run v K hrun => exact .inl (h.advance hrun fun _ => he.noSignal v _ _)
  | kill v ha => exact he.elim
  | noChild hm hr => exact absurd hmode (by simp)
  | wake v K hp hbody =>
    cases hbody with
    | held hstat hop _ _ => exact .inl (h.held hp (alive_of_stopped hstat) hop)
    | passed hstat hop => exact .inl (h.passed hp (alive_of_stopped hstat) hop)
    | serviced hstat hsync hrun =>
      refine (h.after_sync hp (alive_of_stopped hstat) hsync hrun (hstale v K rfl)).imp id ?_
      rintro ⟨hK, hquiet⟩
      exact ⟨⟨v, K, rfl, hK⟩, hquiet⟩
    | _ => exact absurd hmode (by simp)

/-- Once both variants are silenced, only a kill is followed by more waiting. -/
theorem kill_of_silenced (hquiet : ∀ v, (s.world.ctl v).Silenced) (hstep : (system ρ).step s e s')
    (hmode : s'.mode = .waiting) : ∃ v, e = .kill v ∧ s'.world = s.world.kill v := by
  cases (step_cases hstep).2 with
  | run v K hrun => exact absurd hrun (by simp [(hquiet v).not_running])
  | kill v ha => exact ⟨v, rfl, rfl⟩
  | noChild hm hr => exact absurd hmode (by simp)
  | wake v K hp hbody =>
    have hrep : (s.world.proc v).reported = true := (hquiet v).1
    exact absurd hp (by simp [Tracee.pending, hrep])

/-- In the two-stop model nothing happens then after which the monitor still waits. -/
theorem not_waiting_of_silenced (hquiet : ∀ v, (s.world.ctl v).Silenced)
    (hstep : (system ρ).step s e s') (he : e.Plain) : s'.mode ≠ .waiting := by
  intro hmode
  obtain ⟨v, rfl, -⟩ := kill_of_silenced hquiet hstep hmode
  exact he.elim

theorem inStep_step (hs : s.InStep stale) (hstep : (system ρ).step s e s') (he : e.Plain)
    (hstale : ∀ v K, e = .wake v K → (s.world.proc v).loc = .entry →
      (s.world.proc v).regs .origRax = Syscall.shutdown.nr → stale) : s'.InStep stale := by
  intro hmode
  rcases hs (step_cases hstep).1 with h | hquiet
  · exact (lockstep_step h hstep he hstale hmode).imp id And.right
  · exact absurd hmode (not_waiting_of_silenced hquiet hstep he)

end Steps

end Aurora
