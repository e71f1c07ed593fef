import AuroraMVEE.Progress
import AuroraMVEE.Effects
import AuroraMVEE.Schedules
import AuroraMVEE.Faults

/-!
# How the main loop ends

The loop of `main` can be left at seven places, an executor can block, and a copy can fault.
`main_ends` says which of these a run ever comes to, and when.

* `World.Blocks` — the monitor blocks in a `pselect6` both variants make alike, and in no
  other call.
* `World.Fails`, `World.Wraps` — it leaves with 1 when a rendezvous fails, when a counter has
  wrapped round, or when there is no child left; with 0 when it is told of a dead variant.
* `World.FaultsIn` — it is killed by a signal in the copy of one of five calls, and nowhere else.
* `Lockstep.body_ends` — one turn of the loop.  The other `Invalid State` is never reached.
-/

namespace Aurora

variable {ρ : Type}

section Steps

variable {K : Kernel ρ} {w w' : World ρ} {s s' : Sys ρ} {e : Event ρ} {v : Who} {stale : Prop}

/-- A variant found behind its partner is one whose partner has counted up to the end. -/
theorem Lockstep.wrapped_of_behind (h : Lockstep stale w) (hp : (w.proc v).pending = true)
    (ha : (w.proc v).alive = true) (hop : ((w.woken v).proc v).syscallInfo.op = .entry)
    (hnum : (w.var v).syscallNum < (w.var v.other).syscallNum) :
    (w.var v).syscallNum = 0 ∧ (w.var v.other).syscallNum = BitVec.allOnes 64 := by
  obtain ⟨hloc, -, -⟩ := h.at_entry hp ha hop
  have hsame := h.num v v.other
  rw [Tracee.owed, hloc, if_neg (by decide), add_zero] at hsame
  unfold Tracee.owed at hsame
  split at hsame
  · have hone : (1 : Word).toNat = 1 := rfl
    rw [BitVec.lt_def, hsame, BitVec.toNat_add, hone] at hnum
    have hall : (w.var v.other).syscallNum.toNat = 2 ^ 64 - 1 := by
      have hlt := (w.var v.other).syscallNum.isLt
      omega
    have hother : (w.var v.other).syscallNum = BitVec.allOnes 64 :=
      BitVec.eq_of_toNat_eq (by rw [hall, BitVec.toNat_allOnes])
    exact ⟨by rw [hsame, hother]; decide, hother⟩
  · rw [hsame, add_zero] at hnum
    exact absurd hnum (BitVec.lt_irrefl _)

/-- A rendezvous leaves the process where its copy faults. -/
theorem Lockstep.sync_faults (h : Lockstep stale w) (hp : (w.proc v).pending = true)
    (ha : (w.proc v).alive = true) (hsync : (w.woken v).callsSync v) {code : Int} :
    (∃ w', processSyscallSync K ((w.woken v).noted v) = .exited code w') ↔
      w.FaultsIn K v ∧ code = SIGSEGV_STATUS := by
  constructor
  · rintro ⟨w', hw'⟩
    rcases h.meeting hp ha hsync K with hno | ⟨c, hR, hexec⟩
    · exact absurd (hno.symm.trans hw') (by simp)
    · obtain ⟨hcrash, hcode⟩ :=
        (execSyscall_exited_iff hR.standing).1 ⟨w', hexec.symm.trans hw'⟩
      refine ⟨⟨hsync, c, fun u => ?_, hcrash⟩, hcode⟩
      rw [h.met_infos hp ha hsync hR u]
      exact ⟨rfl, (h.met hR).2.1 u⟩
  · rintro ⟨⟨-, c, hcall, hcrash⟩, rfl⟩
    have hR := h.rendezvous_of_call hp ha hsync hcall
    rw [processSyscallSync_call K hcall]
    exact (execSyscall_exited_iff hR.standing).2 ⟨hcrash, rfl⟩

/-- It blocks in a `pselect6` only. -/
theorem Lockstep.sync_blocks (h : Lockstep stale w) (hp : (w.proc v).pending = true)
    (ha : (w.proc v).alive = true) (hsync : (w.woken v).callsSync v) (hK : K.Plain) :
    (∃ w', processSyscallSync K ((w.woken v).noted v) = .hung w') ↔
      Rendezvous .pselect6 ((w.woken v).noted v).ctl ∧ ((w.woken v).noted v).SamePselect6 ∧
        (K.answer .master ((w.woken v).noted v)).1 ≠ .died := by
  have hcall : ∀ c, Rendezvous c ((w.woken v).noted v).ctl →
      processSyscallSync K ((w.woken v).noted v) = execSyscall K c ((w.woken v).noted v) := by
    intro c hR
    exact sync_exec (h.met_infos hp ha hsync hR) (h.met hR).2.1
  rcases h.meeting hp ha hsync K with hno | ⟨c, hR, hexec⟩
  · rw [hno]
    refine iff_of_false (by simp) ?_
    rintro ⟨hR, hsame, hans⟩
    obtain ⟨w', hw'⟩ := (pselect6_hung_iff hK.lasting hR).2 ⟨hsame, hans⟩
    exact absurd (hno.symm.trans ((hcall _ hR).trans hw')) (by simp)
  · rw [hexec]
    constructor
    · rintro ⟨w', hw'⟩
      obtain rfl : c = .pselect6 := (Prog.hung_of_wp (execSyscall_follows K c hR _ rfl) hw').1
      exact ⟨hR, (pselect6_hung_iff hK.lasting hR).1 ⟨w', hw'⟩⟩
    · rintro ⟨hR', hblocks⟩
      obtain rfl : c = .pselect6 :=
        Syscall.nr_injective ((hR.call .master).symm.trans (hR'.call .master))
      exact (pselect6_hung_iff hK.lasting hR).2 hblocks

/-! ## What each ending takes -/

/-- The monitor is told of `v`, which came to make a `pselect6` and meets its partner there, both
with the same arguments, and the master's kernel lets it come back. -/
structure World.Blocks (K : Kernel ρ) (w : World ρ) (v : Who) : Prop where
  alive : (w.proc v).alive = true
  sync : (w.woken v).callsSync v
  meets : Rendezvous .pselect6 ((w.woken v).noted v).ctl
  same : ((w.woken v).noted v).SamePselect6
  answered : (K.answer .master ((w.woken v).noted v)).1 ≠ .died

/-- The monitor is told of `v`, which meets its partner, and `processSyscallSync` fails. -/
def World.Fails (K : Kernel ρ) (w : World ρ) (v : Who) : Prop :=
  (w.proc v).alive = true ∧ (w.woken v).callsSync v ∧
    ∃ r w', r ≠ 0 ∧ processSyscallSync K ((w.woken v).noted v) = .ret r w'

/-- The monitor is told of `v` at an entry stop, and `v` has counted no call where its partner has
counted the last one a counter can hold. -/
structure World.Wraps (w : World ρ) (v : Who) : Prop where
  alive : (w.proc v).alive = true
  entry : ((w.woken v).proc v).syscallInfo.op = .entry
  num : (w.var v).syscallNum = 0
  other : (w.var v.other).syscallNum = BitVec.allOnes 64

/-- Where a counter has wrapped round, the two do not meet. -/
theorem World.Wraps.not_sync (h : w.Wraps v) : ¬ (w.woken v).callsSync v := by
  rintro ⟨-, hnum, -⟩
  have hsame : (w.var v).syscallNum = (w.var v.other).syscallNum := hnum
  rw [h.num, h.other] at hsame
  exact absurd hsame (by decide)

/-- The loop body, handed a variant of the world `w`, ends in the mode `m`: it blocks, leaves with 0,
leaves with 1 and is killed by a signal just when that takes its course, and leaves in no other
way. -/
structure World.EndsIn (K : Kernel ρ) (w : World ρ) (v : Who) (m : Mode) : Prop where
  hung : m = .hung ↔ w.Blocks K v
  dead : m = .gone 0 ↔ (w.proc v).alive = false
  failed : m = .gone 1 ↔ w.Fails K v ∨ w.Wraps v
  killed : m = .gone SIGSEGV_STATUS ↔ w.FaultsIn K v
  codes : ∀ k, m = .gone k → k = 0 ∨ k = 1 ∨ k = SIGSEGV_STATUS

theorem World.FaultsIn.alive (h : w.FaultsIn K v) : (w.proc v).alive = true := by
  have hstopped : ((w.woken v).proc v).stopped = true := by
    by_contra hs
    have hop := h.1.1
    rw [Tracee.syscallInfo, if_neg hs] at hop
    exact absurd hop (by decide)
  have halive := Tracee.alive_of_stopped hstopped
  rwa [World.woken_proc_self] at halive

/-- A dead variant is the end. -/
theorem World.endsIn_dead (ha : (w.proc v).alive = false) : w.EndsIn K v (.gone 0) where
  hung := iff_of_false (by simp) fun hb => absurd (ha.symm.trans hb.alive) (by decide)
  dead := iff_of_true rfl ha
  failed := by
    refine iff_of_false (by simp) ?_
    rintro (hf | hw)
    · exact absurd (ha.symm.trans hf.1) (by decide)
    · exact absurd (ha.symm.trans hw.alive) (by decide)
  killed := iff_of_false (by decide) fun hf => absurd (ha.symm.trans hf.alive) (by decide)
  codes k hk := .inl (by simpa using hk.symm)

/-- The loop goes on where the pair does not meet and no counter has wrapped round. -/
theorem World.endsIn_waiting (ha : (w.proc v).alive = true) (hsync : ¬ (w.woken v).callsSync v)
    (hw : ¬ w.Wraps v) : w.EndsIn K v .waiting where
  hung := iff_of_false (by simp) fun hb => hsync hb.sync
  dead := iff_of_false (by simp) (by simp [ha])
  failed := iff_of_false (by simp) fun h => h.elim (fun hf => hsync hf.2.1) hw
  killed := iff_of_false (by simp) fun hf => hsync hf.1
  codes k hk := absurd hk (by simp)

/-- Where a counter has wrapped round, the loop is left. -/
theorem World.endsIn_wrapped (hw : w.Wraps v) : w.EndsIn K v (.gone 1) where
  hung := iff_of_false (by simp) fun hb => hw.not_sync hb.sync
  dead := iff_of_false (by simp) (by simp [hw.alive])
  failed := iff_of_true rfl (.inr hw)
  killed := iff_of_false (by decide) fun hf => hw.not_sync hf.1
  codes k hk := .inr (.inl (by simpa using hk.symm))

section Meetings

variable (h : Lockstep stale w) (hp : (w.proc v).pending = true) (ha : (w.proc v).alive = true)
  (hsync : (w.woken v).callsSync v) (hK : K.Plain)
include h hp ha hsync

/-- The monitor is killed in a rendezvous just where its copy faults. -/
theorem Lockstep.faults_iff :
    w.FaultsIn K v ↔ ∃ w', processSyscallSync K ((w.woken v).noted v) = .exited SIGSEGV_STATUS w' := by
  rw [h.sync_faults hp ha hsync]
  simp

include hK

/-- The monitor blocks in a rendezvous just where it would in a `pselect6`. -/
theorem Lockstep.blocks_iff :
    w.Blocks K v ↔ ∃ w', processSyscallSync K ((w.woken v).noted v) = .hung w' := by
  rw [h.sync_blocks hp ha hsync hK]
  constructor
  · intro hb
    exact ⟨hb.meets, hb.same, hb.answered⟩
  · rintro ⟨hR, hsame, hans⟩
    exact ⟨ha, hsync, hR, hsame, hans⟩

/-- A rendezvous that succeeds ends nothing. -/
theorem Lockstep.endsIn_serviced
    (hrun : processSyscallSync K ((w.woken v).noted v) = .ret 0 w') : w.EndsIn K v .waiting where
  hung := by
    rw [h.blocks_iff hp ha hsync hK, hrun]
    simp
  dead := iff_of_false (by simp) (by simp [ha])
  failed := by
    refine iff_of_false (by simp) ?_
    rintro (⟨-, -, r, w'', hr, hr'⟩ | hw)
    · exact hr (Outcome.ret.inj (hr'.symm.trans hrun)).1
    · exact hw.not_sync hsync
  killed := by
    rw [h.faults_iff hp ha hsync, hrun]
    simp
  codes k hk := absurd hk (by simp)

/-- One that fails ends in 1. -/
theorem Lockstep.endsIn_refused {r : Int} (hr : r ≠ 0)
    (hrun : processSyscallSync K ((w.woken v).noted v) = .ret r w') : w.EndsIn K v (.gone 1) where
  hung := by
    rw [h.blocks_iff hp ha hsync hK, hrun]
    simp
  dead := iff_of_false (by simp) (by simp [ha])
  failed := iff_of_true rfl (.inl ⟨ha, hsync, r, w', hr, hrun⟩)
  killed := by
    rw [h.faults_iff hp ha hsync, hrun]
    simp [SIGSEGV_STATUS]
  codes k hk := .inr (.inl (by simpa using hk.symm))

/-- One that blocks ends there. -/
theorem Lockstep.endsIn_blocked
    (hrun : processSyscallSync K ((w.woken v).noted v) = .hung w') : w.EndsIn K v .hung where
  hung := iff_of_true rfl ((h.blocks_iff hp ha hsync hK).2 ⟨w', hrun⟩)
  dead := iff_of_false (by simp) (by simp [ha])
  failed := by
    refine iff_of_false (by simp) ?_
    rintro (⟨-, -, r, w'', -, hr'⟩ | hw)
    · exact absurd (hr'.symm.trans hrun) (by simp)
    · exact hw.not_sync hsync
  killed := by
    rw [h.faults_iff hp ha hsync, hrun]
    simp
  codes k hk := absurd hk (by simp)

/-- And one whose copy faults, by the signal. -/
theorem Lockstep.endsIn_left {code : Int}
    (hrun : processSyscallSync K ((w.woken v).noted v) = .exited code w') :
    w.EndsIn K v (.gone code) := by
  obtain ⟨hfaults, rfl⟩ := (h.sync_faults hp ha hsync).1 ⟨w', hrun⟩
  exact {
    hung := by
      rw [h.blocks_iff hp ha hsync hK, hrun]
      simp
    dead := iff_of_false (by decide) (by simp [ha])
    failed := by
      refine iff_of_false (by decide) ?_
      rintro (⟨-, -, r, w'', -, hr'⟩ | hw)
      · exact absurd (hr'.symm.trans hrun) (by simp)
      · exact hw.not_sync hsync
    killed := iff_of_true rfl hfaults
    codes := fun k hk => .inr (.inr (by simpa using hk.symm)) }

end Meetings

/-- How the loop body ends, while the two are in lockstep. -/
theorem Lockstep.body_ends (h : Lockstep stale w) (hp : (w.proc v).pending = true) (hK : K.Plain)
    (hbody : LoopBody K v (w.woken v) s') : w.EndsIn K v s'.mode := by
  cases hbody with
  | ended hstat => exact World.endsIn_dead (dead_of_terminated hstat)
  | serviced hstat hsync hrun =>
    exact h.endsIn_serviced hp (alive_of_stopped hstat) hsync hK hrun
  | refused hstat hsync hr hrun =>
    exact h.endsIn_refused hp (alive_of_stopped hstat) hsync hK hr hrun
  | blocked hstat hsync hrun => exact h.endsIn_blocked hp (alive_of_stopped hstat) hsync hK hrun
  | left hstat hsync hrun => exact h.endsIn_left hp (alive_of_stopped hstat) hsync hK hrun
  | held hstat hop hnum hwait =>
    refine World.endsIn_waiting (alive_of_stopped hstat) (fun hs => hwait hs.2.1 hs.2.2) fun hw => ?_
    have hle : (w.var v.other).syscallNum ≤ (w.var v).syscallNum := hnum
    rw [hw.num, hw.other] at hle
    exact absurd hle (by decide)
  | behind hstat hop hnum =>
    have ha := alive_of_stopped hstat
    obtain ⟨hzero, hall⟩ := h.wrapped_of_behind hp ha hop hnum
    exact World.endsIn_wrapped ⟨ha, hop, hzero, hall⟩
  | passed hstat hop =>
    refine World.endsIn_waiting (alive_of_stopped hstat) (fun hs => ?_) fun hw => ?_
    · exact absurd (hop.symm.trans hs.1) (by decide)
    · exact absurd (hop.symm.trans hw.entry) (by decide)
  | odd hstat hop => exact absurd hop (h.op_ne_none hp (alive_of_stopped hstat))

end Steps

/-! ## Every run -/

section Runs

variable {s₀ s s' : Sys ρ} {es : List (Event ρ)} {e : Event ρ}

/-- **How the main loop ends.**  Take any run of the two-stop model, and an event after it.  With
that event the monitor blocks just when two variants meet in a `pselect6` with the same arguments,
and the master's comes back; it leaves with 0 just when it is told of a dead variant; it leaves
with 1 just when there is no child left, a rendezvous has failed, or a counter has wrapped
round; it is killed by a signal just when two variants meet in a call whose copy faults; and it
leaves with no other code. -/
theorem main_ends (h₀ : s₀.world.Started)
    (hrun : ((system ρ).restrict fun _ e => e.Plain).Run s₀ es s) (hstep : (system ρ).step s e s')
    (he : e.Plain) :
    (s'.mode = .hung ↔ ∃ v K, e = .wake v K ∧ s.world.Blocks K v) ∧
      (s'.mode = .gone 0 ↔ ∃ v K, e = .wake v K ∧ (s.world.proc v).alive = false) ∧
      (s'.mode = .gone 1 ↔ e = .noChild ∨
        ∃ v K, e = .wake v K ∧ (s.world.Fails K v ∨ s.world.Wraps v)) ∧
      (s'.mode = .gone SIGSEGV_STATUS ↔ ∃ v K, e = .wake v K ∧ s.world.FaultsIn K v) ∧
      ∀ k, s'.mode = .gone k → k = 0 ∨ k = 1 ∨ k = SIGSEGV_STATUS := by
  have hinv : s.InStep True :=
    hrun.invariant (I := fun t => t.InStep True) (fun _ => .inl (.of_started h₀))
      fun _ _ _ ht hstep => inStep_step ht hstep.1 hstep.2 fun _ _ _ _ _ => trivial
  obtain ⟨hmode, hcase⟩ := step_cases hstep
  cases hcase with
  | run v K _ => simp
  | kill v _ => exact he.elim
  | noChild _ _ => simp [SIGSEGV_STATUS]
  | wake v K hp hbody =>
    rcases hinv hmode with h | hquiet
    · have hends := h.body_ends hp he hbody
      refine ⟨?_, ?_, ?_, ?_, hends.codes⟩
      · simp [hends.hung]
      · simp [hends.dead]
      · simp [hends.failed]
      · simp [hends.killed]
    · have hrep : (s.world.proc v).reported = true := (hquiet v).1
      exact absurd hp (by simp [Tracee.pending, hrep])

end Runs

/-! ### A meeting that never ends -/

/-- Both variants have come to a `pselect6`, and the master is held there. -/
def pselect6Held : Sys Unit :=
  (Sys.fresh ()).played (arriveCalling 270 ++ [.wake .master (.calling 270)])

/-- When the monitor is told of the replica, it blocks, and `main_ends` says why. -/
theorem main_ends_pselect6 :
    (pselect6Held.played [.wake .replica (.calling 270)]).mode = .hung ∧
      ((pselect6Held.played [.wake .replica (.calling 270)]).mode = .hung ↔
        ∃ v K, (Event.wake .replica (.calling 270) : Event Unit) = .wake v K ∧
          pselect6Held.world.Blocks K v) := by
  have hplain : ∀ e ∈ arriveCalling 270 ++ [.wake .master (.calling 270)], e.Plain := by
    simp [arriveCalling, Event.Plain, plain_calling]
  have hrun : ((system Unit).restrict fun _ e => e.Plain).Run (.fresh ())
      (arriveCalling 270 ++ [.wake .master (.calling 270)]) pselect6Held :=
    (run_played (by decide +kernel)).to_restrict fun e he _ => hplain e he
  have hstep : (system Unit).step pselect6Held (.wake .replica (.calling 270))
      (pselect6Held.played [.wake .replica (.calling 270)]) := step_played (by decide +kernel)
  exact ⟨by decide +kernel, (main_ends (started_fresh ()) hrun hstep (plain_calling 270)).1⟩

end Aurora
