import AuroraMVEE.Parts
import AuroraMVEE.Progress
import AuroraMVEE.Lib.Confluence

/-!
# The outcome does not depend on the schedule

Which variant comes to its next stop first, and which of two stops `waitpid(-1)` hands out
first, is up to the scheduler.  Where the variants keep to themselves (`Kernel.Apart`), none
of this shows in what becomes of them: whatever two events can happen next, they can
happen in either order with the same result.  The one pair of events that is not two
independent moves is that of both variants being found at their entry stops, where the
one found second is serviced with the other; there the two orders leave different marks
in `state` before the rendezvous, and the rendezvous does not look at them.

* `Alone` — what an event of one variant by itself makes of it.
* `diamond_observed` — any two events can be brought together.
* `schedule_independent` — so all runs from one state are on their way to the same end.
-/

namespace Aurora

variable {ρ : Type}

/-! ## What is assumed -/

/-- Variants none of which dies, and whose code does not depend on what the kernel remembers. -/
structure Kernel.Steady (K : Kernel ρ) : Prop where
  plain : K.Plain
  returns : K.Returns
  lives : ∀ v t o, K.user v t o ≠ .died
  user : ∀ v t o o', K.user v t o = K.user v t o'

/-- Variants that, moreover, keep to themselves: what the kernel does for the one it does whether or
not it has done something for the other. -/
structure Kernel.Apart (K : Kernel ρ) : Prop extends K.Steady where
  answers : ∀ v t t' o, (K.syscall v t (K.syscall v.other t' o).2).1 = (K.syscall v t o).1
  commutes : ∀ v t t' o, (K.syscall v t (K.syscall v.other t' o).2).2 =
    (K.syscall v.other t' (K.syscall v t o).2).2

/-- An event of the kernel `K`, in which no variant is found at the entry of `shutdown`, or at an
entry stop behind its partner. -/
inductive Event.In (K : Kernel ρ) (s : Sys ρ) : Event ρ → Prop
  | run (v : Who) : Event.In K s (.run v K)
  | wake (v : Who)
      (noShutdown : (s.world.proc v).loc = .entry →
        (s.world.proc v).regs .origRax ≠ Syscall.shutdown.nr)
      (notBehind : (s.world.proc v).loc = .entry →
        (s.world.var v.other).syscallNum ≤ (s.world.var v).syscallNum) : Event.In K s (.wake v K)

/-- What there is to see of the system: while the main loop waits, everything; afterwards, all but
the marks. -/
def Sys.seen (s : Sys ρ) : Sys ρ := if s.mode = .waiting then s else ⟨s.world.unmarked, s.mode⟩

/-- The system under the kernel `K`, as it is seen. -/
def observed (K : Kernel ρ) : Machine (Sys ρ) (Event ρ) where
  step s e s' := ∃ t, (system ρ).step s e t ∧ e.In K s ∧ s' = t.seen

/-- While the main loop waits, the variants are alive and in lockstep, with nothing stale. -/
def Sys.Regular (s : Sys ρ) : Prop :=
  s.mode = .waiting → Lockstep False s.world ∧ ∀ v, (s.world.proc v).alive = true

@[simp] theorem Sys.seen_waiting (w : World ρ) : (⟨w, .waiting⟩ : Sys ρ).seen = ⟨w, .waiting⟩ := rfl

theorem Sys.seen_mode (s : Sys ρ) : s.seen.mode = s.mode := by
  unfold Sys.seen
  split <;> rfl

/-! ## A variant by itself -/

namespace World

/-- A variant moves, with its struct, and the kernel's memory changes with it. -/
def put (w : World ρ) (v : Who) (t : Tracee) (x : Variant) (ω : ρ → ρ) : World ρ :=
  { (w.setProc v t).setVar v x with os := ω w.os }

variable {w : World ρ} {v u : Who} {t : Tracee} {x : Variant} {ω : ρ → ρ}

@[simp] theorem put_proc_self : (w.put v t x ω).proc v = t := by simp [put]

@[simp] theorem put_var_self : (w.put v t x ω).var v = x := by simp [put]

@[simp] theorem put_proc_of_ne (h : u ≠ v) : (w.put v t x ω).proc u = w.proc u := by simp [put, h]

@[simp] theorem put_var_of_ne (h : u ≠ v) : (w.put v t x ω).var u = w.var u := by simp [put, h]

@[simp] theorem put_os : (w.put v t x ω).os = ω w.os := rfl

/-- Two variants move independently. -/
theorem put_comm {t' : Tracee} {x' : Variant} {ω' : ρ → ρ} (h : u ≠ v)
    (hos : ω' (ω w.os) = ω (ω' w.os)) :
    (w.put v t x ω).put u t' x' ω' = (w.put u t' x' ω').put v t x ω := by
  simp only [put, setProc, setVar]
  rw [Function.update_comm h, Function.update_comm h, hos]

end World

/-- An event of `v` by itself, and what it makes of the variant, of its struct and of what the kernel
remembers. -/
inductive Alone (K : Kernel ρ) (w : World ρ) (v : Who) :
    Event ρ → Tracee → Variant → (ρ → ρ) → Prop
  /-- it comes to an entry stop -/
  | arrives (hloc : (w.proc v).loc = .user) (regs : Regs) (mem : Mem)
      (hu : ∀ o, K.user v (w.proc v) o = .entry regs mem) :
      Alone K w v (.run v K) ((w.proc v).arrive (.entry regs mem)) (w.var v) id
  /-- it comes to an exit stop -/
  | returns (hloc : (w.proc v).loc = .kernel) (res : SysResult)
      (hres : (K.syscall v (w.proc v) w.os).1 = res) :
      Alone K w v (.run v K) ((w.proc v).finish res) (w.var v) fun o => (K.syscall v (w.proc v) o).2
  /-- it is found at an entry stop, and held there -/
  | held (hloc : (w.proc v).loc = .entry) (hrep : (w.proc v).reported = false)
      (hcall : (w.proc v).regs .origRax ≠ Syscall.shutdown.nr)
      (hnum : (w.var v.other).syscallNum ≤ (w.var v).syscallNum)
      (hwait : (w.var v).syscallNum = (w.var v.other).syscallNum → (w.var v.other).state ≠ .wait) :
      Alone K w v (.wake v K) { w.proc v with reported := true }
        { w.var v with syscallInfo := .ofEntry (w.proc v).regs, state := .wait } id
  /-- it is found at an exit stop, and passed -/
  | passed (hloc : (w.proc v).loc = .exit) (hrep : (w.proc v).reported = false) :
      Alone K w v (.wake v K) { w.proc v with loc := .user, reported := false }
        { w.var v with
          syscallInfo := .ofExit (w.proc v).regs,
          syscallNum := (w.var v).syscallNum + 1 } id

/-- `v` is found at its entry stop, and its partner stands at its own. -/
structure Meets (w : World ρ) (v : Who) : Prop where
  atEntry : (w.proc v).loc = .entry
  pending : (w.proc v).reported = false
  call : (w.proc v).regs .origRax ≠ Syscall.shutdown.nr
  sync : (w.woken v).callsSync v

/-- What the main loop makes of the end of a rendezvous. -/
def concluded : Outcome (World ρ) Int → Sys ρ
  | .ret r w => if r = 0 then ⟨w, .waiting⟩ else ⟨w.bothKilled.tracerGone, .gone 1⟩
  | .hung w => ⟨w, .hung⟩
  | .exited code w => ⟨w.tracerGone, .gone code⟩

section Steps

variable {K : Kernel ρ} {w : World ρ} {s s' : Sys ρ} {e e' : Event ρ} {v : Who} {t t' : Tracee}
  {x x' : Variant} {ω ω' : ρ → ρ}

/-- There is only one thing a variant can do by itself. -/
theorem Alone.unique (h : Alone K w v e t x ω) (h' : Alone K w v e' t' x' ω') :
    e = e' ∧ t = t' ∧ x = x' ∧ ω = ω' := by
  cases h with
  | arrives hloc regs mem hu =>
    cases h' with
    | arrives _ regs' mem' hu' =>
      obtain ⟨rfl, rfl⟩ := UserStop.entry.inj ((hu w.os).symm.trans (hu' w.os))
      exact ⟨rfl, rfl, rfl, rfl⟩
    | returns hloc' _ _ => exact absurd (hloc.symm.trans hloc') (by decide)
    | held hloc' _ _ _ _ => exact absurd (hloc.symm.trans hloc') (by decide)
    | passed hloc' _ => exact absurd (hloc.symm.trans hloc') (by decide)
  | returns hloc res hres =>
    cases h' with
    | arrives hloc' _ _ _ => exact absurd (hloc.symm.trans hloc') (by decide)
    | returns _ res' hres' => exact ⟨rfl, by rw [← hres, ← hres'], rfl, rfl⟩
    | held hloc' _ _ _ _ => exact absurd (hloc.symm.trans hloc') (by decide)
    | passed hloc' _ => exact absurd (hloc.symm.trans hloc') (by decide)
  | held hloc _ _ _ _ =>
    cases h' with
    | arrives hloc' _ _ _ => exact absurd (hloc.symm.trans hloc') (by decide)
    | returns hloc' _ _ => exact absurd (hloc.symm.trans hloc') (by decide)
    | held _ _ _ _ _ => exact ⟨rfl, rfl, rfl, rfl⟩
    | passed hloc' _ => exact absurd (hloc.symm.trans hloc') (by decide)
  | passed hloc _ =>
    cases h' with
    | arrives hloc' _ _ _ => exact absurd (hloc.symm.trans hloc') (by decide)
    | returns hloc' _ _ => exact absurd (hloc.symm.trans hloc') (by decide)
    | held hloc' _ _ _ _ => exact absurd (hloc.symm.trans hloc') (by decide)
    | passed _ _ => exact ⟨rfl, rfl, rfl, rfl⟩

theorem Tracee.reported_of_pending (h : t.pending = true) : t.reported = false := by
  simp only [Tracee.pending, Bool.and_eq_true, Bool.not_eq_true'] at h
  exact h.2

theorem Tracee.pending_of_loc (hl : t.loc = .entry ∨ t.loc = .exit) (hrep : t.reported = false) :
    t.pending = true := by
  rcases hl with hl | hl <;> simp [Tracee.pending, Tracee.running, hl, hrep]

/-- A variant comes to its next stop. -/
theorem alone_advance (hK : K.Steady) (ha : (w.proc v).alive = true)
    (hrun : (w.proc v).running = true) :
    ∃ t x ω, Alone K w v (.run v K) t x ω ∧ w.advance K v = w.put v t x ω := by
  have hsame : w.var = Function.update w.var v (w.var v) := (Function.update_eq_self v w.var).symm
  cases hl : (w.proc v).loc with
  | user =>
    cases hu : K.user v (w.proc v) w.os with
    | died => exact absurd hu (hK.lives _ _ _)
    | signal regs mem => exact absurd hu (hK.plain.noSignal _ _ _ _ _)
    | entry regs mem =>
      refine ⟨_, _, _, .arrives hl regs mem fun o => (hK.user v _ o w.os).trans hu, ?_⟩
      simp only [World.advance, ha, hl, hu, World.put, World.setProc, World.setVar, id]
      rw [← hsame]
      rfl
  | kernel =>
    refine ⟨_, _, _, .returns hl _ rfl, ?_⟩
    simp only [World.advance, ha, hl, World.put, World.setProc, World.setVar]
    rw [← hsame]
    rfl
  | entry | exit | signal => simp [Tracee.running, hl] at hrun

/-- A variant found at its entry stop, noted and held. -/
theorem held_eq_put (hloc : (w.proc v).loc = .entry) (ha : (w.proc v).alive = true)
    (ht : (w.proc v).traced = true) :
    ((w.woken v).noted v).held v = w.put v { w.proc v with reported := true }
      { w.var v with syscallInfo := .ofEntry (w.proc v).regs, state := .wait } id := by
  have hinfo : ((w.woken v).proc v).syscallInfo = .ofEntry (w.proc v).regs := by
    have hl' : ((w.woken v).proc v).loc = .entry := by simpa using hloc
    have hs : ((w.woken v).proc v).stopped = true :=
      Tracee.stopped_entry hl' (by simpa using ha) (by simpa using ht)
    rw [Tracee.syscallInfo_entry hl' hs]
    simp
  unfold World.held World.noted
  rw [hinfo]
  simp [World.put, World.setVar, World.woken, World.report]

/-- There is no other stop than those of system calls. -/
theorem Lockstep.op_ne_none {stale : Prop} (h : Lockstep stale w) (hp : (w.proc v).pending = true)
    (ha : (w.proc v).alive = true) : ((w.woken v).proc v).syscallInfo.op ≠ .none := by
  have ht : ((w.woken v).proc v).traced = true := by simpa using h.traced v
  have hav : ((w.woken v).proc v).alive = true := by simpa using ha
  rcases h.pending_cases hp ha with ⟨hl, -⟩ | ⟨hl, -⟩
  · have hl' : ((w.woken v).proc v).loc = .entry := by simpa using hl
    rw [Tracee.syscallInfo_entry hl' (Tracee.stopped_entry hl' hav ht)]
    simp
  · have hl' : ((w.woken v).proc v).loc = .exit := by simpa using hl
    rw [Tracee.syscallInfo_exit hl' (Tracee.stopped_exit hl' hav ht)]
    simp

/-- An event of a regular system is a move of one variant by itself, or a meeting. -/
theorem alone_or_meets (hK : K.Steady) (h : Lockstep False s.world)
    (halive : ∀ v, (s.world.proc v).alive = true) (hstep : (system ρ).step s e s') (he : e.In K s) :
    ∃ v, (∃ t x ω, Alone K s.world v e t x ω ∧ s' = ⟨s.world.put v t x ω, .waiting⟩) ∨
      (Meets s.world v ∧ e = .wake v K ∧
        s' = concluded (processSyscallSync K ((s.world.woken v).noted v))) := by
  obtain ⟨-, hcase⟩ := step_cases hstep
  cases hcase with
  | kill v _ => exact nomatch he
  | noChild _ _ => exact nomatch he
  | run v K' hrun =>
    cases he
    obtain ⟨t, x, ω, halone, hw⟩ := alone_advance hK (halive v) hrun
    exact ⟨v, .inl ⟨t, x, ω, halone, by rw [hw]⟩⟩
  | wake v K' hp hbody =>
    cases he with
    | wake _ noShutdown notBehind =>
    have hrep := Tracee.reported_of_pending hp
    have hmeets : (s.world.woken v).callsSync v → Meets s.world v := fun hsync => by
      obtain ⟨hloc, -, -⟩ := h.at_entry hp (halive v) hsync.1
      exact ⟨hloc, hrep, noShutdown hloc, hsync⟩
    refine ⟨v, ?_⟩
    cases hbody with
    | ended hstat => exact absurd (halive v) (by simp [dead_of_terminated hstat])
    | serviced _ hsync hrun => exact .inr ⟨hmeets hsync, rfl, by rw [hrun]; rfl⟩
    | refused _ hsync hr hrun =>
      refine .inr ⟨hmeets hsync, rfl, ?_⟩
      rw [hrun]
      exact (if_neg hr).symm
    | blocked _ hsync hrun => exact .inr ⟨hmeets hsync, rfl, by rw [hrun]; rfl⟩
    | left _ hsync hrun => exact .inr ⟨hmeets hsync, rfl, by rw [hrun]; rfl⟩
    | held hstat hop hnum hwait =>
      obtain ⟨hloc, -, -⟩ := h.at_entry hp (halive v) hop
      refine .inl ⟨_, _, _, .held hloc hrep (noShutdown hloc) hnum hwait, ?_⟩
      rw [held_eq_put hloc (halive v) (h.traced v)]
    | behind hstat hop hnum =>
      obtain ⟨hloc, -, -⟩ := h.at_entry hp (halive v) hop
      exact absurd hnum (BitVec.not_lt.2 (notBehind hloc))
    | passed hstat hop =>
      obtain ⟨hx, hs⟩ := Tracee.exit_of_op hop
      have hloc : (s.world.proc v).loc = .exit := by simpa using hx
      refine .inl ⟨_, _, _, .passed hloc hrep, ?_⟩
      have hinfo := Tracee.syscallInfo_exit hx hs
      unfold World.passed
      rw [World.noted_proc, Tracee.resume_exit hx hs]
      unfold World.noted
      rw [hinfo]
      simp [World.put, World.setVar, World.setProc, World.woken, World.report]
    | odd hstat hop => exact absurd hop (h.op_ne_none hp (halive v))

theorem Alone.event (h : Alone K w v e t x ω) : e = .run v K ∨ e = .wake v K := by
  cases h with
  | arrives _ _ _ _ | returns _ _ _ => exact .inl rfl
  | held _ _ _ _ _ | passed _ _ => exact .inr rfl

/-- It can happen as soon as the main loop waits. -/
theorem Alone.enabled (h : Alone K w v e t x ω) (ha : (w.proc v).alive = true) :
    ∃ s', (system ρ).step ⟨w, .waiting⟩ e s' ∧ e.In K ⟨w, .waiting⟩ := by
  cases h with
  | arrives hloc regs mem hu =>
    exact ⟨_, if_pos ⟨rfl, by simp [Tracee.running, ha, hloc]⟩, .run v⟩
  | returns hloc res hres =>
    exact ⟨_, if_pos ⟨rfl, by simp [Tracee.running, ha, hloc]⟩, .run v⟩
  | held hloc hrep hcall hnum hwait =>
    exact ⟨_, if_pos ⟨rfl, Tracee.pending_of_loc (.inl hloc) hrep⟩, .wake v (fun _ => hcall)
      fun _ => hnum⟩
  | passed hloc hrep =>
    refine ⟨_, if_pos ⟨rfl, Tracee.pending_of_loc (.inr hloc) hrep⟩, .wake v (fun hl => ?_)
      fun hl => ?_⟩ <;> exact absurd (hloc.symm.trans hl) (by decide)

/-- A meeting calls for a partner that is marked, and so stands at its entry stop. -/
theorem Meets.partner (h : Meets w v) (hl : Lockstep False w) :
    (w.proc v.other).loc = .entry ∧ (w.proc v.other).reported = true := by
  have hheld := ((hl.settled v.other).wait_iff (hl.traced _)).1 h.sync.2.2
  exact ⟨hheld.atEntry, hheld.reported⟩

/-- A variant that moves by itself has news for the monitor, or is on its way to some. -/
theorem Alone.unreported (h : Alone K w v e t x ω) (hl : Lockstep False w) :
    (w.proc v).reported = false := by
  cases h with
  | arrives hloc regs mem hu =>
    cases hl.settled v with
    | user _ hrep _ _ => exact hrep
    | arriving hloc' _ _ _ _ => exact absurd (hloc.symm.trans hloc') (by decide)
    | waiting hloc' _ _ _ _ _ => exact absurd (hloc.symm.trans hloc') (by decide)
    | inCall hloc' hrep _ _ => exact hrep
  | returns hloc res hres =>
    cases hl.settled v with
    | user _ hrep _ _ => exact hrep
    | arriving hloc' _ _ _ _ => exact absurd (hloc.symm.trans hloc') (by decide)
    | waiting hloc' _ _ _ _ _ => exact absurd (hloc.symm.trans hloc') (by decide)
    | inCall hloc' hrep _ _ => exact hrep
  | held _ hrep _ _ _ => exact hrep
  | passed _ hrep => exact hrep

/-- So while two variants meet, neither moves by itself. -/
theorem Meets.not_alone (h : Meets w v) (hl : Lockstep False w) {u : Who} :
    ¬ Alone K w u e t x ω := by
  intro ha
  by_cases hu : u = v
  · subst hu
    cases ha with
    | arrives hloc _ _ _ => exact absurd (h.atEntry.symm.trans hloc) (by decide)
    | returns hloc _ _ => exact absurd (h.atEntry.symm.trans hloc) (by decide)
    | held _ _ _ _ hwait => exact hwait h.sync.2.1 h.sync.2.2
    | passed hloc _ => exact absurd (h.atEntry.symm.trans hloc) (by decide)
  · rw [Who.eq_other_of_ne hu] at ha
    exact absurd ((ha.unreported hl).symm.trans (h.partner hl).2) (by decide)

/-- What a variant can do by itself, it does. -/
theorem Alone.step (h : Alone K w v e t x ω) (hK : K.Steady) (hl : Lockstep False w)
    (halive : ∀ v, (w.proc v).alive = true) :
    (observed K).step ⟨w, .waiting⟩ e ⟨w.put v t x ω, .waiting⟩ := by
  obtain ⟨s', hstep, he⟩ := h.enabled (halive v)
  refine ⟨s', hstep, he, ?_⟩
  obtain ⟨u, hcase⟩ := alone_or_meets hK hl halive hstep he
  rcases hcase with ⟨t', x', ω', h', rfl⟩ | ⟨hmeets, -, -⟩
  · have huv : u = v := by
      rcases h.event with rfl | rfl <;> rcases h'.event with heq | heq <;> cases heq <;> rfl
    subst huv
    obtain ⟨-, rfl, rfl, rfl⟩ := h.unique h'
    rfl
  · exact absurd h (hmeets.not_alone hl)

/-- Two variants that meet do so in the system. -/
theorem Meets.step (h : Meets w v) (hK : K.Steady) (hl : Lockstep False w)
    (halive : ∀ v, (w.proc v).alive = true) :
    (observed K).step ⟨w, .waiting⟩ (.wake v K)
      (concluded (processSyscallSync K ((w.woken v).noted v))).seen := by
  have he : (Event.wake v K).In K ⟨w, .waiting⟩ :=
    .wake v (fun _ => h.call) fun _ => BitVec.le_of_eq h.sync.2.1.symm
  have hstep : (system ρ).step ⟨w, .waiting⟩ (.wake v K) _ :=
    if_pos ⟨rfl, Tracee.pending_of_loc (.inl h.atEntry) h.pending⟩
  obtain ⟨u, hcase⟩ := alone_or_meets hK hl halive hstep he
  rcases hcase with ⟨t', x', ω', h', -⟩ | ⟨-, hev, hs⟩
  · exact absurd h' (h.not_alone hl)
  · cases hev
    exact ⟨_, hstep, he, by rw [hs]⟩

/-! ## Two variants at once -/

/-- A variant found at its exit stop is one call behind a partner at an entry stop, and not
marked. -/
theorem Lockstep.behind_at_exit {u : Who} (hl : Lockstep False w) (hexit : (w.proc v).loc = .exit)
    (hentry : (w.proc u).loc = .entry) :
    (w.var u).syscallNum = (w.var v).syscallNum + 1 ∧ (w.var v).state ≠ .wait := by
  have hnum := hl.num u v
  rw [Tracee.owed, hentry, if_neg (by decide), Tracee.owed, hexit, if_pos (.inr rfl)] at hnum
  refine ⟨by simpa using hnum, fun hw => ?_⟩
  have hheld := ((hl.settled v).wait_iff (hl.traced v)).1 hw
  exact absurd (hheld.atEntry.symm.trans hexit) (by decide)

/-- What a variant can do by itself, it can do after its partner has moved, and it comes to the
same; unless both are found at their entry stops. -/
theorem Alone.after (hK : K.Apart) (hl : Lockstep False w) (h : Alone K w v e t x ω)
    (h' : Alone K w v.other e' t' x' ω')
    (hnot : (w.proc v).loc = .entry → (w.proc v.other).loc ≠ .entry) :
    Alone K (w.put v.other t' x' ω') v e t x ω := by
  have hp : (w.put v.other t' x' ω').proc v = w.proc v := World.put_proc_of_ne (Who.ne_other v)
  have hx : (w.put v.other t' x' ω').var v = w.var v := World.put_var_of_ne (Who.ne_other v)
  cases h with
  | arrives hloc regs mem hu =>
    rw [← hp, ← hx]
    exact .arrives (by rw [hp]; exact hloc) regs mem fun o => by rw [hp]; exact hu o
  | returns hloc res hres =>
    have hsame : (K.syscall v (w.proc v) (ω' w.os)).1 = res := by
      cases h' with
      | returns _ _ _ => rw [hK.answers, hres]
      | arrives _ _ _ _ | held _ _ _ _ _ | passed _ _ => exact hres
    rw [← hp, ← hx]
    exact .returns (by rw [hp]; exact hloc) res (by rw [hp]; exact hsame)
  | held hloc hrep hcall hnum hwait =>
    -- the partner's exit stop counts its call, and leaves its mark as it is
    have hpartner : x'.syscallNum ≤ (w.var v).syscallNum ∧
        ((w.var v).syscallNum = x'.syscallNum → x'.state ≠ .wait) := by
      cases h' with
      | arrives _ _ _ _ | returns _ _ _ => exact ⟨hnum, hwait⟩
      | held hloc' _ _ _ _ => exact absurd hloc' (hnot hloc)
      | passed hloc' _ =>
        obtain ⟨hbehind, hstate⟩ := hl.behind_at_exit hloc' hloc
        exact ⟨BitVec.le_of_eq hbehind.symm, fun _ => hstate⟩
    rw [← hp, ← hx]
    refine .held (by rw [hp]; exact hloc) (by rw [hp]; exact hrep) (by rw [hp]; exact hcall) ?_ ?_
    · rw [hx, World.put_var_self]
      exact hpartner.1
    · rw [hx, World.put_var_self]
      exact hpartner.2
  | passed hloc hrep =>
    rw [← hp, ← hx]
    exact .passed (by rw [hp]; exact hloc) (by rw [hp]; exact hrep)

/-- The kernel remembers the same, in whichever order they move. -/
theorem Alone.os_comm (hK : K.Apart) (h : Alone K w v e t x ω) (h' : Alone K w v.other e' t' x' ω') :
    ω (ω' w.os) = ω' (ω w.os) := by
  cases h with
  | arrives _ _ _ _ | held _ _ _ _ _ | passed _ _ => rfl
  | returns _ _ _ =>
    cases h' with
    | arrives _ _ _ _ | held _ _ _ _ _ | passed _ _ => rfl
    | returns _ _ _ => exact hK.commutes _ _ _ _

/-- The world in which the one meets the other, after the other was held. -/
def World.bothNoted (w : World ρ) (first second : Who) : World ρ :=
  ((((w.woken first).noted first).held first).woken second).noted second

/-- Whichever is held first, the worlds in which they meet differ in the marks only. -/
theorem unmarked_bothNoted (w : World ρ) (v : Who) :
    (w.bothNoted v v.other).unmarked = (w.bothNoted v.other v).unmarked := by
  have hproc : (w.bothNoted v v.other).proc = (w.bothNoted v.other v).proc := by
    simp only [World.bothNoted, World.noted_proc, World.woken_proc, World.held, World.setVar_proc]
    rw [Function.update_comm (Who.other_ne v)]
    simp
  have hvar : ∀ u, ((w.bothNoted v v.other).unmarked).var u = ((w.bothNoted v.other v).unmarked).var u := by
    intro u
    by_cases hu : u = v
    · subst hu
      simp [World.unmarked, World.bothNoted, World.noted, World.held, World.setVar, World.woken_proc]
    · rw [Who.eq_other_of_ne hu]
      simp [World.unmarked, World.bothNoted, World.noted, World.held, World.setVar, World.woken_proc]
  show World.mk _ _ _ _ _ _ = World.mk _ _ _ _ _ _
  congr 1
  exact funext hvar

/-! ## What a rendezvous leaves -/

theorem World.unmarked_of_running (h : ∀ u, (w.var u).state = .running) : w.unmarked = w := by
  show World.mk _ _ _ _ _ _ = w
  have hvar : (fun u => { w.var u with state := .running }) = w.var := by
    funext u
    rw [← h u]
  rw [hvar]

/-- After a meeting that succeeds both variants are alive, and marked as running. -/
theorem Meets.serviced {w' : World ρ} (h : Meets w v) (hK : K.Steady) (hl : Lockstep False w)
    (halive : ∀ v, (w.proc v).alive = true)
    (hrun : processSyscallSync K ((w.woken v).noted v) = .ret 0 w') :
    w'.unmarked = w' ∧ ∀ u, (w'.proc u).alive = true := by
  have hp := Tracee.pending_of_loc (.inl h.atEntry) h.pending
  obtain ⟨c, hR, hdone⟩ := hl.serviced_returning hp (halive v) h.sync hrun hK.returns
  have hc : c ≠ .shutdown := by
    rintro rfl
    exact h.call ((hl.met hR).2.1 v)
  refine ⟨World.unmarked_of_running fun u => ?_, fun u => (hdone u).alive⟩
  have hmarked : (c.plan u).marked = true := by
    rcases c.plan_cases u with ⟨-, hm⟩ | ⟨-, hm⟩
    · exact hm
    · by_contra hno
      exact hc (hm (Bool.eq_false_iff.2 hno))
  have hstate := (hdone u).state
  rw [hmarked, if_pos rfl] at hstate
  exact hstate

theorem unmarked_bothKilled (w : World ρ) : w.bothKilled.unmarked = w.unmarked.bothKilled := rfl

theorem unmarked_tracerGone (w : World ρ) : w.tracerGone.unmarked = w.unmarked.tracerGone := rfl

/-- Two rendezvous that end alike are seen to. -/
theorem seen_concluded {o o' : Outcome (World ρ) Int}
    (hmap : o.map World.unmarked = o'.map World.unmarked)
    (hsame : ∀ w, o = .ret 0 w ∨ o' = .ret 0 w → w.unmarked = w) :
    (concluded o).seen = (concluded o').seen := by
  cases o with
  | ret r w =>
    cases o' with
    | ret r' w' =>
      rw [Outcome.map_ret, Outcome.map_ret, Outcome.ret.injEq] at hmap
      obtain ⟨rfl, hw⟩ := hmap
      by_cases hr : r = 0
      · subst hr
        rw [hsame w (.inl rfl), hsame w' (.inr rfl)] at hw
        rw [hw]
      · simp only [concluded, if_neg hr, Sys.seen, reduceCtorEq, if_false]
        rw [unmarked_tracerGone, unmarked_bothKilled, hw]
        rfl
    | hung w' => simp at hmap
    | exited code w' => simp at hmap
  | hung w =>
    cases o' with
    | hung w' =>
      rw [Outcome.map_hung, Outcome.map_hung, Outcome.hung.injEq] at hmap
      simp [concluded, Sys.seen, hmap]
    | ret r' w' => simp at hmap
    | exited code w' => simp at hmap
  | exited code w =>
    cases o' with
    | exited code' w' =>
      rw [Outcome.map_exited, Outcome.map_exited, Outcome.exited.injEq] at hmap
      obtain ⟨rfl, hw⟩ := hmap
      simp only [concluded, Sys.seen, reduceCtorEq, if_false]
      rw [unmarked_tracerGone, hw]
      rfl
    | ret r' w' => simp at hmap
    | hung w' => simp at hmap

theorem Alone.alive (h : Alone K w v e t x ω) (hK : K.Steady) (ha : (w.proc v).alive = true) :
    t.alive = true := by
  cases h with
  | arrives _ _ _ _ => exact ha
  | returns _ res hres =>
    cases res with
    | died => exact absurd hres (hK.returns _ _ _)
    | ret _ _ _ _ => exact ha
  | held _ _ _ _ _ => exact ha
  | passed _ _ => exact ha

/-- Every event leaves a regular system. -/
theorem regular_step (hK : K.Steady) (s : Sys ρ) (e : Event ρ) (s' : Sys ρ) (hs : s.Regular)
    (hstep : (observed K).step s e s') : s'.Regular := by
  obtain ⟨s₁, hstep, he, rfl⟩ := hstep
  intro hmode
  rw [Sys.seen_mode] at hmode
  have hseen : s₁.seen = s₁ := if_pos hmode
  rw [hseen]
  obtain ⟨hl, halive⟩ := hs (step_cases hstep).1
  have hplain : e.Plain := by
    cases he with
    | run v => exact hK.plain
    | wake v _ _ => exact hK.plain
  have hstale : ∀ v K', e = .wake v K' → (s.world.proc v).loc = .entry →
      (s.world.proc v).regs .origRax = Syscall.shutdown.nr → False := by
    rintro v K' rfl hloc hcall
    cases he with
    | wake _ noShutdown _ => exact noShutdown hloc hcall
  refine ⟨?_, ?_⟩
  · rcases lockstep_step hl hstep hplain hstale hmode with h | ⟨⟨v, K', rfl, hno⟩, -⟩
    · exact h
    · cases he
      exact absurd hK.returns hno
  · obtain ⟨v, ⟨t, x, ω, halone, rfl⟩ | ⟨hmeets, -, rfl⟩⟩ := alone_or_meets hK hl halive hstep he
    · intro u
      by_cases hu : u = v
      · subst hu
        rw [World.put_proc_self]
        exact halone.alive hK (halive u)
      · rw [World.put_proc_of_ne hu]
        exact halive u
    · cases ho : processSyscallSync K ((s.world.woken v).noted v) with
      | ret r w' =>
        by_cases hr : r = 0
        · subst hr
          exact (hmeets.serviced hK hl halive ho).2
        · rw [ho, concluded, if_neg hr] at hmode
          exact absurd hmode (by simp)
      | hung w' =>
        rw [ho] at hmode
        exact absurd hmode (by simp [concluded])
      | exited code w' =>
        rw [ho] at hmode
        exact absurd hmode (by simp [concluded])

/-! ## The diamond -/

/-- Both variants were found at their entry stops: whichever was held first, the other finds it. -/
theorem Meets.after_held (hl : Lockstep False w) (halive : ∀ v, (w.proc v).alive = true)
    (h : Alone K w v e t x ω) (h' : Alone K w v.other e' t' x' ω')
    (hloc : ∀ u, (w.proc u).loc = .entry) :
    Meets (w.put v t x ω) v.other ∧
      (((w.put v t x ω).woken v.other).noted v.other) = w.bothNoted v v.other := by
  cases h with
  | arrives hl' _ _ _ => exact absurd ((hloc v).symm.trans hl') (by decide)
  | returns hl' _ _ => exact absurd ((hloc v).symm.trans hl') (by decide)
  | passed hl' _ => exact absurd ((hloc v).symm.trans hl') (by decide)
  | held _ hrep hcall hnum hwait =>
    have hput := held_eq_put (hloc v) (halive v) (hl.traced v)
    rw [← hput]
    refine ⟨?_, rfl⟩
    cases h' with
    | arrives hl' _ _ _ => exact absurd ((hloc v.other).symm.trans hl') (by decide)
    | returns hl' _ _ => exact absurd ((hloc v.other).symm.trans hl') (by decide)
    | passed hl' _ => exact absurd ((hloc v.other).symm.trans hl') (by decide)
    | held _ hrep' hcall' _ _ =>
      have hp : (((w.woken v).noted v).held v).proc v.other = w.proc v.other := by
        simp [World.held, World.woken_proc]
      have hx : (((w.woken v).noted v).held v).var v.other = w.var v.other := by
        simp [World.held]
      refine ⟨by rw [hp]; exact hloc _, by rw [hp]; exact hrep', by rw [hp]; exact hcall', ?_, ?_, ?_⟩
      · have hl' : (((((w.woken v).noted v).held v).woken v.other).proc v.other).loc = .entry := by
          rw [World.woken_proc_self, hp]
          exact hloc _
        have hs := Tracee.stopped_entry hl' (by rw [World.woken_proc_self, hp]; exact halive _)
          (by rw [World.woken_proc_self, hp]; exact hl.traced _)
        rw [Tracee.syscallInfo_entry hl' hs]
        rfl
      · have hsame := hl.num v v.other
        rw [Tracee.owed, hloc v, Tracee.owed, hloc v.other, if_neg (by decide)] at hsame
        rw [World.woken_var, hx, Who.other_other]
        simpa [World.held] using hsame.symm
      · rw [World.woken_var, Who.other_other]
        simp [World.held]

/-- Two moves of two variants can be joined. -/
theorem join_alone (hK : K.Apart) (hl : Lockstep False w) (halive : ∀ v, (w.proc v).alive = true)
    (h : Alone K w v e t x ω) (h' : Alone K w v.other e' t' x' ω') :
    ∃ f f' c, (observed K).step ⟨w.put v t x ω, .waiting⟩ f' c ∧
      (observed K).step ⟨w.put v.other t' x' ω', .waiting⟩ f c := by
  have hother : Alone K w v.other.other e t x ω := by rwa [Who.other_other]
  have hreg : (⟨w, .waiting⟩ : Sys ρ).Regular := fun _ => ⟨hl, halive⟩
  obtain ⟨hl₁, halive₁⟩ := regular_step hK.toSteady _ _ _ hreg (h.step hK.toSteady hl halive) rfl
  obtain ⟨hl₂, halive₂⟩ := regular_step hK.toSteady _ _ _ hreg (h'.step hK.toSteady hl halive) rfl
  by_cases hboth : (w.proc v).loc = .entry ∧ (w.proc v.other).loc = .entry
  · -- each finds the other held
    have hloc : ∀ u, (w.proc u).loc = .entry := fun u => by
      by_cases hu : u = v
      · rw [hu]
        exact hboth.1
      · rw [Who.eq_other_of_ne hu]
        exact hboth.2
    obtain ⟨hmeets₁, hw₁⟩ := Meets.after_held hl halive h h' hloc
    obtain ⟨hmeets₂, hw₂⟩ := Meets.after_held hl halive h' hother hloc
    refine ⟨.wake v K, _, _, hmeets₁.step hK.toSteady hl₁ halive₁, ?_⟩
    have hstep := hmeets₂.step hK.toSteady hl₂ halive₂
    rw [hw₂, Who.other_other] at hstep
    rw [hw₁]
    have hseen : (concluded (processSyscallSync K (w.bothNoted v v.other))).seen =
        (concluded (processSyscallSync K (w.bothNoted v.other v))).seen := by
      refine seen_concluded (blind_processSyscallSync K _ _ (unmarked_bothNoted w v)) fun w' hw' => ?_
      rcases hw' with ho | ho
      · rw [← hw₁] at ho
        exact (hmeets₁.serviced hK.toSteady hl₁ halive₁ ho).1
      · rw [Who.other_other] at hw₂ hmeets₂
        rw [← hw₂] at ho
        exact (hmeets₂.serviced hK.toSteady hl₂ halive₂ ho).1
    rw [hseen]
    exact hstep
  · have hafter := h.after hK hl h' fun h₁ h₂ => hboth ⟨h₁, h₂⟩
    have hafter' := h'.after hK hl hother fun h₁ h₂ => hboth ⟨by rwa [Who.other_other] at h₂, h₁⟩
    rw [Who.other_other] at hafter'
    refine ⟨e, e', _, hafter'.step hK.toSteady hl₁ halive₁, ?_⟩
    rw [World.put_comm (Who.other_ne v) (Alone.os_comm hK h h').symm]
    exact hafter.step hK.toSteady hl₂ halive₂

/-- **Any two events can be brought together.** -/
theorem diamond_observed (hK : K.Apart) : (observed K).Diamond Sys.Regular := by
  rintro ⟨w, m⟩ e f a b hs ⟨a₁, ha, hea, rfl⟩ ⟨b₁, hb, hfb, rfl⟩
  obtain rfl : m = .waiting := (step_cases ha).1
  obtain ⟨hl, halive⟩ := hs rfl
  obtain ⟨v, ⟨t, x, ω, hv, rfl⟩ | ⟨hv, rfl, rfl⟩⟩ := alone_or_meets hK.toSteady hl halive ha hea
  · obtain ⟨u, ⟨t', x', ω', hu, rfl⟩ | ⟨hu, -, -⟩⟩ := alone_or_meets hK.toSteady hl halive hb hfb
    · by_cases huv : u = v
      · subst huv
        obtain ⟨-, rfl, rfl, rfl⟩ := hv.unique hu
        exact .inl rfl
      · rw [Who.eq_other_of_ne huv] at hu
        rw [Who.eq_other_of_ne huv]
        exact .inr (join_alone hK hl halive hv hu)
    · exact absurd hv (hu.not_alone hl)
  · obtain ⟨u, ⟨t', x', ω', hu, -⟩ | ⟨hu, rfl, rfl⟩⟩ := alone_or_meets hK.toSteady hl halive hb hfb
    · exact absurd hu (hv.not_alone hl)
    · by_cases huv : u = v
      · subst huv
        exact .inl rfl
      · rw [Who.eq_other_of_ne huv] at hu
        exact absurd (hu.pending.symm.trans (hv.partner hl).2) (by decide)

end Steps

/-! ## Runs -/

section Runs

variable {K : Kernel ρ} {s₀ s s' : Sys ρ} {es fs : List (Event ρ)}

/-- A run of the system is one of the system as it is seen. -/
theorem observed_run (hrun : ((system ρ).restrict fun t e => e.In K t).Run s₀ es s)
    (hs : s₀.seen = s₀) : (observed K).Run s₀ es s.seen := by
  induction hrun with
  | nil => rw [hs]; exact .nil
  | snoc _ hlast ih =>
    have hmode := (step_cases hlast.1).1
    rw [show Sys.seen _ = _ from if_pos hmode] at ih
    exact .snoc ih ⟨_, hlast.1, hlast.2, rfl⟩

/-- A run of the system as it is seen is what is seen of a run of the system. -/
theorem of_observed_run (hrun : (observed K).Run s₀ es s) (hs : s₀.mode = .waiting) :
    ∃ t, ((system ρ).restrict fun t e => e.In K t).Run s₀ es t ∧ t.seen = s := by
  induction hrun with
  | nil => exact ⟨_, .nil, if_pos hs⟩
  | snoc _ hlast ih =>
    obtain ⟨t, hrun, rfl⟩ := ih
    obtain ⟨u, hstep, he, rfl⟩ := hlast
    have hmode := (step_cases hstep).1
    rw [Sys.seen_mode] at hmode
    have hseen : t.seen = t := if_pos hmode
    rw [hseen] at hstep he
    exact ⟨u, .snoc hrun ⟨hstep, he⟩, rfl⟩

theorem final_of_mode (hmode : s.mode ≠ .waiting) (e : Event ρ) (s' : Sys ρ) :
    ¬ (observed K).step s e s' := by
  rintro ⟨t, hstep, -, -⟩
  exact hmode (step_cases hstep).1

/-- **The outcome does not depend on the schedule.**  Take two runs of the system under a kernel
that keeps the variants apart, from the start of the main loop.

* They can be continued to runs with equally many events, at the end of which nothing tells
  them apart.
* If the monitor has stopped waiting at the end of one of them, because it is gone or blocked,
  then the other can be continued to a run with the same number of events, at the end of
  which the monitor has stopped in the same way, with the same processes, the same
  mapping table and the same kernel state. -/
theorem schedule_independent (hK : K.Apart) (h₀ : s₀.world.Started) (hmode₀ : s₀.mode = .waiting)
    (halive : ∀ v, (s₀.world.proc v).alive = true)
    (hrun : ((system ρ).restrict fun t e => e.In K t).Run s₀ es s)
    (hrun' : ((system ρ).restrict fun t e => e.In K t).Run s₀ fs s') :
    (∃ es' fs' u u', ((system ρ).restrict fun t e => e.In K t).Run s₀ (es ++ es') u ∧
        ((system ρ).restrict fun t e => e.In K t).Run s₀ (fs ++ fs') u' ∧
        u.seen = u'.seen ∧ (es ++ es').length = (fs ++ fs').length) ∧
      (s.mode ≠ .waiting → ∃ fs' u', ((system ρ).restrict fun t e => e.In K t).Run s₀ (fs ++ fs') u' ∧
        u'.seen = s.seen ∧ (fs ++ fs').length = es.length) := by
  have hreg : s₀.Regular := fun _ => ⟨.of_started h₀, halive⟩
  have hseen₀ : s₀.seen = s₀ := if_pos hmode₀
  have hobs := observed_run hrun hseen₀
  have hobs' := observed_run hrun' hseen₀
  refine ⟨?_, fun hmode => ?_⟩
  · obtain ⟨es', fs', c, hc, hc', hlen⟩ :=
      (diamond_observed hK).join (regular_step hK.toSteady) hreg hobs hobs'
    obtain ⟨u, hu, rfl⟩ := of_observed_run (hobs.append hc) hmode₀
    obtain ⟨u', hu', heq⟩ := of_observed_run (hobs'.append hc') hmode₀
    exact ⟨es', fs', u, u', hu, hu', heq.symm, by simpa using hlen⟩
  · have hfinal := final_of_mode (K := K) (s := s.seen) (by rwa [Sys.seen_mode])
    obtain ⟨fs', hc, hlen⟩ :=
      (diamond_observed hK).descent (regular_step hK.toSteady) hreg hobs hfinal hobs'
    obtain ⟨u', hu', heq⟩ := of_observed_run (hobs'.append hc) hmode₀
    exact ⟨fs', u', hu', heq, by simpa using hlen.symm⟩

end Runs

/-! ### A call that is refused -/

theorem apart_calling (nr : Word) : (Kernel.calling nr).Apart where
  plain := plain_calling nr
  returns := returns_calling nr
  lives _ _ _ h := by simp [Kernel.calling] at h
  user _ _ _ _ := rfl
  answers _ _ _ _ := rfl
  commutes _ _ _ _ := rfl

/-- Both variants come to the entry of a call that the `switch` has no case for, and both are
killed.  If the replica comes there first, the same lies before them. -/
theorem schedule_independent_refused :
    ∃ fs' u', ((system Unit).restrict fun t e => e.In (.calling 999) t).Run (.fresh ())
        ([.run .replica (.calling 999)] ++ fs') u' ∧
      u'.seen = ((Sys.fresh ()).played (meetCalling 999)).seen ∧
        ([.run .replica (.calling 999)] ++ fs').length = (meetCalling 999).length := by
  have harrive : ∀ e ∈ arriveCalling 999, ∀ t : Sys Unit, e.In (.calling 999) t := by
    simp only [arriveCalling, List.forall_mem_cons, List.not_mem_nil, false_imp_iff, implies_true,
      and_true]
    exact ⟨fun t => .run _, fun t => .run _⟩
  have hmaster : (Event.wake .master (.calling 999)).In (.calling 999)
      ((Sys.fresh ()).played (arriveCalling 999)) :=
    .wake _ (fun _ => by decide +kernel) fun _ => by decide +kernel
  have hreplica : (Event.wake .replica (.calling 999)).In (.calling 999)
      (((Sys.fresh ()).played (arriveCalling 999)).played [.wake .master (.calling 999)]) :=
    .wake _ (fun _ => by decide +kernel) fun _ => by decide +kernel
  refine (schedule_independent (s := (Sys.fresh ()).played (meetCalling 999)) (apart_calling 999)
    (started_fresh ()) rfl (fun _ => rfl)
    (.snoc (.snoc ((run_played (by decide +kernel)).to_restrict harrive)
      ⟨step_played (by decide +kernel), hmaster⟩) ⟨step_played (by decide +kernel), hreplica⟩)
    (.single ⟨step_played (by decide +kernel), .run _⟩)).2 ?_
  decide +kernel

end Aurora
