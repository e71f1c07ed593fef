import AuroraMVEE.Schedules
import AuroraMVEE.Transparency
import AuroraMVEE.Containment
import AuroraMVEE.Rounds
import AuroraMVEE.Output

/-!
# When the alarm is raised

Each variant is a program of its own (`Program`), with its own code, registers and memory, and the two
make calls that both make themselves: those whose executors compare scalars, if anything, and then
resume both (`Syscall.scalars`).  What the monitor should tell apart is then plain: whether the two
programs, left to themselves, come to the same calls with the same scalars (`SameCall`).

* `next_position` — where a program on its own is after `n` steps.
* `Lockstep.sync_scalars` — a rendezvous succeeds if the two are at the same call, and fails if not.
* `no_false_alarm` — programs that make the same calls run under the monitor as they do on their own,
  whatever the schedule.
* `divergence_caught` — and if they part at some call, every schedule ends there, with the alarm.
-/

namespace Aurora

variable {ρ τ : Type}

/-! ## The calls -/

/-- The calls that both variants make, and the scalars compared before. -/
def Syscall.scalars : Syscall → Option (List (Fin 6))
  | .getuid | .geteuid | .getgid | .getegid | .brk | .set_robust_list => some []
  | .arch_prctl | .rt_sigaction => some [0]
  | .prlimit64 => some [1]
  | .lseek | .socket => some [0, 1, 2]
  | .rseq => some [1, 2, 3]
  | .fadvise64 => some [0, 1, 2, 3]
  | _ => none

theorem argsEq_apply (ks : List (Fin 6)) (w : World ρ) :
    argsEq ks w = .ret (decide (w.SameArgs ks)) w := by
  have hsame : (ks.all fun k =>
      (w.var .master).syscallInfo.arg k == (w.var .replica).syscallInfo.arg k) =
        decide (w.SameArgs ks) := by
    rw [Bool.eq_iff_iff, decide_eq_true_iff]
    simp [World.SameArgs]
  exact congrArg (fun b => Outcome.ret b w) hsame

theorem guarded_argsEq {ks : List (Fin 6)} {body : Mon ρ Int} (w : World ρ) :
    (w.SameArgs ks → guarded (argsEq ks) body w = body w) ∧
      (¬ w.SameArgs ks → guarded (argsEq ks) body w = .ret (-1) w) := by
  constructor
  · intro h
    exact guarded_true (by rw [argsEq_apply, decide_eq_true h]) _
  · intro h
    exact guarded_false (by rw [argsEq_apply, decide_eq_false h]) _

/-- Both are resumed if the scalars agree; if not, the result is `-1`, in two cases after both have
been resumed. -/
theorem execSyscall_scalars (K : Kernel ρ) {c : Syscall} {ks : List (Fin 6)}
    (hc : c.scalars = some ks) (w : World ρ) :
    (w.SameArgs ks → execSyscall K c w = (resumeBoth : Mon ρ Int) w) ∧
      (¬ w.SameArgs ks → ∃ w', execSyscall K c w = .ret (-1) w') := by
  have hguarded {ks : List (Fin 6)} (h : execSyscall K c = guarded (argsEq ks) resumeBoth) :
      (w.SameArgs ks → execSyscall K c w = (resumeBoth : Mon ρ Int) w) ∧
        (¬ w.SameArgs ks → ∃ w', execSyscall K c w = .ret (-1) w') := by
    rw [h]
    exact ⟨(guarded_argsEq w).1, fun hno => ⟨w, (guarded_argsEq w).2 hno⟩⟩
  have hfirst {ks : List (Fin 6)} (h : execSyscall K c = (do
      let eq ← argsEq ks
      resumeVariantFromWait .master
      resumeVariantFromWait .replica
      return if eq then 0 else -1 : Mon ρ Int)) :
      (w.SameArgs ks → execSyscall K c w = (resumeBoth : Mon ρ Int) w) ∧
        (¬ w.SameArgs ks → ∃ w', execSyscall K c w = .ret (-1) w') := by
    rw [h, Prog.bind_of_ret (argsEq_apply ks w)]
    constructor
    · intro hsame
      rw [decide_eq_true hsame]
      rfl
    · intro hno
      rw [decide_eq_false hno]
      exact ⟨_, rfl⟩
  cases c
  case getuid | geteuid | getgid | getegid | brk | set_robust_list =>
    obtain rfl : [] = ks := Option.some.inj hc
    exact ⟨fun _ => rfl, fun hno => absurd (fun k hk => nomatch hk) hno⟩
  case arch_prctl | rt_sigaction | prlimit64 | lseek | socket =>
    obtain rfl := Option.some.inj hc
    exact hguarded rfl
  case rseq | fadvise64 =>
    obtain rfl := Option.some.inj hc
    exact hfirst rfl
  all_goals exact absurd hc (by simp [Syscall.scalars])

/-- Nothing is counted before the exit stops, and none of them is `shutdown`. -/
theorem Syscall.plan_scalars {c : Syscall} {ks : List (Fin 6)} (hc : c.scalars = some ks) :
    c ≠ .shutdown ∧ ∀ v, (c.plan v).counted = 0 := by
  cases c
  case getuid | geteuid | getgid | getegid | brk | set_robust_list | arch_prctl | rt_sigaction |
      prlimit64 | lseek | socket | rseq | fadvise64 =>
    exact ⟨by simp, fun v => by cases v <;> rfl⟩
  all_goals exact absurd hc (by simp [Syscall.scalars])

/-! ## Two programs on their own -/

/-- Where a program that starts in its own code is after `n` steps. -/
def locAfter (n : ℕ) : Loc :=
  if n % 4 = 0 then .user else if n % 4 = 1 then .entry else if n % 4 = 2 then .kernel else .exit

/-- A program on its own goes round through its code, the entry, the kernel and the exit of one call
after the other. -/
theorem next_position (P : Program τ) {N : Native τ} (hloc : N.loc = .user) (hmade : N.made = [])
    (n : ℕ) : (P.next^[n] N).loc = locAfter n ∧ (P.next^[n] N).made.length = (n + 2) / 4 := by
  induction n with
  | zero => exact ⟨hloc, by simp [hmade]⟩
  | succ n ih =>
    rw [Function.iterate_succ_apply']
    generalize P.next^[n] N = M at ih
    obtain ⟨hM, hlen⟩ := ih
    have hcases : n % 4 = 0 ∨ n % 4 = 1 ∨ n % 4 = 2 ∨ n % 4 = 3 := by omega
    rcases hcases with h | h | h | h
    · have hnow : M.loc = .user := by rw [hM]; simp [locAfter, h]
      simp only [Program.next, hnow, locAfter]
      exact ⟨by rw [if_neg (by omega), if_pos (by omega)], by omega⟩
    · have hnow : M.loc = .entry := by rw [hM]; simp [locAfter, h]
      simp only [Program.next, hnow, locAfter, List.length_append, List.length_singleton]
      exact ⟨by rw [if_neg (by omega), if_neg (by omega), if_pos (by omega)], by omega⟩
    · have hnow : M.loc = .kernel := by rw [hM]; simp [locAfter, h]
      simp only [Program.next, hnow, locAfter]
      exact ⟨by rw [if_neg (by omega), if_neg (by omega), if_neg (by omega)], by omega⟩
    · have hnow : M.loc = .exit := by rw [hM]; simp [locAfter, h]
      simp only [Program.next, hnow, locAfter]
      exact ⟨by rw [if_pos (by omega)], by omega⟩

theorem mod_of_locAfter {j k : ℕ} (h : locAfter j = locAfter k) : j % 4 = k % 4 := by
  unfold locAfter at h
  split_ifs at h <;> omega

/-- It is at each place only once after each number of calls. -/
theorem position_unique (P : Program τ) {N : Native τ} (hloc : N.loc = .user) (hmade : N.made = [])
    {j k : ℕ} (hat : (P.next^[j] N).loc = (P.next^[k] N).loc)
    (hlen : (P.next^[j] N).made.length = (P.next^[k] N).made.length) : j = k := by
  obtain ⟨hj, hj'⟩ := next_position P hloc hmade j
  obtain ⟨hk, hk'⟩ := next_position P hloc hmade k
  have hmod := mod_of_locAfter (hj.symm.trans (hat.trans hk))
  rw [hj', hk'] at hlen
  omega

/-- At the entry of its call number `m` it is `4 * m + 1` steps from its start. -/
theorem steps_of_entry (P : Program τ) {N : Native τ} (hloc : N.loc = .user) (hmade : N.made = [])
    {n : ℕ} (h : (P.next^[n] N).loc = .entry) : n = 4 * (P.next^[n] N).made.length + 1 := by
  obtain ⟨hn, hlen⟩ := next_position P hloc hmade n
  have hmod : n % 4 = 1 % 4 := mod_of_locAfter (hn.symm.trans h)
  rw [hlen]
  omega

/-- At its entry stop a program has just come from its own code. -/
theorem Program.entry_of_code (P : Program τ) {N : Native τ} (hloc : N.loc = .user) {k : ℕ}
    (h : (P.next^[k] N).loc = .entry) :
    ∃ regs mem, (P.next^[k] N).regs = (P.code regs mem).1 ∧ (P.next^[k] N).mem = (P.code regs mem).2 := by
  cases k with
  | zero => exact absurd (hloc.symm.trans h) (by decide)
  | succ k =>
    rw [Function.iterate_succ_apply'] at h ⊢
    generalize P.next^[k] N = M at h ⊢
    cases hl : M.loc with
    | user =>
      simp only [Program.next, hl]
      exact ⟨_, _, rfl, rfl⟩
    | entry | kernel | exit | signal =>
      simp only [Program.next, hl] at h
      exact absurd h (by decide)

/-- The two are about to make the same call, with the same scalars. -/
def SameCall (N : Who → Native τ) : Prop :=
  ∃ c ks, Syscall.scalars c = some ks ∧ (∀ v, (N v).regs .origRax = c.nr) ∧
    ∀ k ∈ ks, (N .master).regs (argReg k) = (N .replica).regs (argReg k)

/-- They are about to make calls that have to be told apart: of two numbers, neither of them that of
`shutdown`, or of one number with different scalars. -/
def Differ (N : Who → Native τ) : Prop :=
  (∀ v, (N v).regs .origRax ≠ Syscall.shutdown.nr) ∧
    ((N .master).regs .origRax ≠ (N .replica).regs .origRax ∨
      ∃ c ks, Syscall.scalars c = some ks ∧ (∀ v, (N v).regs .origRax = c.nr) ∧
        ∃ k ∈ ks, (N .master).regs (argReg k) ≠ (N .replica).regs (argReg k))

/-- What the two come to before their call number `m`, each on its own. -/
def atCall (P : Who → Program τ) (N : Who → Native τ) (m : ℕ) (v : Who) : Native τ :=
  (P v).next^[4 * m + 1] (N v)

/-- They are not about to do both. -/
theorem SameCall.not_differ {N : Who → Native τ} (h : SameCall N) : ¬ Differ N := by
  rintro ⟨-, hdiff⟩
  obtain ⟨c, ks, hc, hnr, hargs⟩ := h
  rcases hdiff with hne | ⟨d, ks', hd, hnr', k, hk, hne⟩
  · exact hne ((hnr .master).trans (hnr .replica).symm)
  · obtain rfl := Syscall.nr_injective ((hnr .master).symm.trans (hnr' .master))
    obtain rfl := Option.some.inj (hc.symm.trans hd)
    exact hne (hargs k hk)

/-! ## Under the monitor -/

/-- The kernel runs the two programs, each with a memory of its own. -/
structure Kernel.RunsBoth (K : Kernel ρ) (P : Who → Program τ) (own : Who → ρ → τ) : Prop where
  plain : K.Plain
  runs : ∀ v, K.Runs v (P v) (own v)

/-- An event under the kernel `K`, in which no variant is killed. -/
def Event.By (K : Kernel ρ) : Event ρ → Prop
  | .run _ K' => K' = K
  | .wake _ K' => K' = K
  | .kill _ => False
  | .noChild => True

/-- A lockstep with nothing stale. -/
theorem Lockstep.relax {w : World ρ} (h : Lockstep False w) : Lockstep True w where
  traced := h.traced
  settled v := by
    cases h.settled v with
    | user hloc hrep hran hstate => exact .user hloc hrep hran fun hw => (hstate hw).1.elim
    | arriving hloc ha hrep hran hstate => exact .arriving hloc ha hrep hran fun hw => (hstate hw).1.elim
    | waiting hloc ha hrep hran hstate hinfo => exact .waiting hloc ha hrep hran hstate hinfo
    | inCall hloc hrep hran hstate => exact .inCall hloc hrep hran fun hw => (hstate hw).elim
  ran := h.ran
  num := h.num

section Sync

variable {K : Kernel ρ} {w w' : World ρ} {v : Who}

/-- Where two variants meet, both stand at their entry stops. -/
theorem Lockstep.meet_entry (h : Lockstep False w) (hp : (w.proc v).pending = true)
    (ha : (w.proc v).alive = true) (hsync : (w.woken v).callsSync v) :
    (∀ u, (w.proc u).loc = .entry) ∧
      ∀ u, (((w.woken v).noted v).var u).syscallInfo = .ofEntry (w.proc u).regs := by
  obtain ⟨hloc, -, -⟩ := h.at_entry hp ha hsync.1
  have hheld := ((h.settled v.other).wait_iff (h.traced _)).1 hsync.2.2
  refine ⟨fun u => ?_, h.noted_infos hp ha hsync.1 hheld.atEntry hheld.reported⟩
  by_cases hu : u = v
  · rw [hu]
    exact hloc
  · rw [Who.eq_other_of_ne hu]
    exact hheld.atEntry

/-- A rendezvous of two variants at the same call resumes both; one of two that differ fails. -/
theorem Lockstep.sync_scalars (h : Lockstep False w) (own : Who → ρ → τ)
    (hp : (w.proc v).pending = true) (ha : (w.proc v).alive = true)
    (hsync : (w.woken v).callsSync v) :
    (SameCall (fun u => w.native u (own u)) →
      processSyscallSync K ((w.woken v).noted v) = (resumeBoth : Mon ρ Int) ((w.woken v).noted v)) ∧
    (Differ (fun u => w.native u (own u)) →
      ∃ w', processSyscallSync K ((w.woken v).noted v) = .ret (-1) w') := by
  obtain ⟨hloc, hinfo⟩ := h.meet_entry hp ha hsync
  have hregs (u : Who) : (w.native u (own u)).regs = (w.proc u).regs := by
    simp [World.native, Tracee.shown, hloc u]
  have hsame (ks : List (Fin 6)) : ((w.woken v).noted v).SameArgs ks ↔
      ∀ k ∈ ks, (w.proc .master).regs (argReg k) = (w.proc .replica).regs (argReg k) := by
    simp [World.SameArgs, hinfo]
  simp only [SameCall, Differ, hregs]
  constructor
  · rintro ⟨c, ks, hc, hnr, hargs⟩
    rw [sync_exec hinfo hnr]
    exact (execSyscall_scalars K hc _).1 ((hsame ks).2 hargs)
  · rintro ⟨-, hne | ⟨c, ks, hc, hnr, k, hk, hne⟩⟩
    · refine ⟨(w.woken v).noted v, ?_⟩
      rw [processSyscallSync_apply, hinfo, hinfo, SyscallInfo.ofEntry_op, SyscallInfo.ofEntry_op,
        SyscallInfo.ofEntry_nr, SyscallInfo.ofEntry_nr, if_neg (not_not.2 rfl), if_pos hne]
      rfl
    · rw [sync_exec hinfo hnr]
      exact (execSyscall_scalars K hc _).2 fun hargs => hne ((hsame ks).1 hargs k hk)

/-- A variant is never found behind its partner, as long as a counter cannot wrap round. -/
theorem Lockstep.not_behind (h : Lockstep False w) (hloc : (w.proc v).loc = .entry)
    (hbound : (w.var v.other).syscallNum.toNat + 1 < 2 ^ 64) :
    (w.var v.other).syscallNum ≤ (w.var v).syscallNum := by
  have hsame := h.num v v.other
  rw [Tracee.owed, hloc, if_neg (by decide), add_zero] at hsame
  rw [hsame, BitVec.le_def]
  unfold Tracee.owed
  split
  · rw [BitVec.toNat_add, Nat.mod_eq_of_lt]
    · exact Nat.le_add_right _ _
    · have hone : (1 : Word).toNat = 1 := rfl
      omega
  · simp

theorem Syscall.counted_le (c : Syscall) (v : Who) : (c.plan v).counted.toNat ≤ 1 := by
  cases c <;> cases v <;> decide

/-- A serviced call is counted once at the most. -/
theorem Lockstep.num_serviced (h : Lockstep False w) (hp : (w.proc v).pending = true)
    (ha : (w.proc v).alive = true) (hsync : (w.woken v).callsSync v)
    (hrun : processSyscallSync K ((w.woken v).noted v) = .ret 0 w') (hK : K.Returns) (u : Who) :
    (w'.var u).syscallNum.toNat ≤ (w.var u).syscallNum.toNat + 1 := by
  obtain ⟨c, -, hdone⟩ := h.serviced_returning hp ha hsync hrun hK
  obtain ⟨-, -, hnum⟩ := Lockstep.counts_of_done (hdone u)
  have hle := c.counted_le u
  rw [hnum, BitVec.toNat_add]
  exact (Nat.mod_le _ _).trans (by omega)

theorem leads_resumeBoth {P : Program τ} {own : ρ → τ} (u : Who) :
    Prog.Within (Leads P u own) (resumeBoth : Mon ρ Int) := by
  have hresume (v : Who) : Prog.Within (Leads P u own) (resumeVariantFromWait v : Mon ρ Unit) :=
    .bind (.modify fun _ => .resume v) fun _ => within_assign (fun _ _ _ => .of_eq rfl) v _
  exact .bind (hresume _) fun _ => .bind (hresume _) fun _ => .pure _

end Sync

/-! ## Every event -/

/-- After `n` events the two are in lockstep, and each is where its program comes to by itself. -/
structure World.OnCourse (P : Who → Program τ) (own : Who → ρ → τ) (N : Who → Native τ) (n : ℕ)
    (w : World ρ) : Prop where
  lock : Lockstep False w
  alive : ∀ v, (w.proc v).alive = true
  course : ∀ v, ∃ k, w.native v (own v) = (P v).next^[k] (N v)
  num : ∀ v, (w.var v).syscallNum.toNat ≤ n

/-- A program that has run no instruction yet. -/
structure Native.Fresh (N : Native τ) : Prop where
  loc : N.loc = .user
  made : N.made = []

section Steps

variable {P : Who → Program τ} {own : Who → ρ → τ} {N : Who → Native τ} {n : ℕ} {K : Kernel ρ}
  {w w' : World ρ} {s s' : Sys ρ} {e : Event ρ} {v : Who}

theorem Kernel.RunsBoth.returns (hK : K.RunsBoth P own) : K.Returns := by
  intro v t o h
  rw [(hK.runs v).answer] at h
  exact absurd h (by simp)

/-- A variant at its entry stop is at the call it is at by itself, after as many calls. -/
theorem World.OnCourse.atCall (h : w.OnCourse P own N n) (hN : ∀ v, (N v).Fresh)
    (hloc : (w.proc v).loc = .entry) :
    w.native v (own v) = Aurora.atCall P N (w.proc .master).ran.length v := by
  obtain ⟨k, hk⟩ := h.course v
  have hentry : ((P v).next^[k] (N v)).loc = .entry := by
    rw [← hk]
    exact hloc
  have hsteps := steps_of_entry (P v) (hN v).loc (hN v).made hentry
  have hmade : ((P v).next^[k] (N v)).made.length = (w.proc .master).ran.length := by
    rw [← hk]
    exact h.lock.ran_length v .master
  rw [hk, Aurora.atCall, ← hmade, ← hsteps]

/-- A step that leads each variant along its own course. -/
theorem World.OnCourse.go (h : w.OnCourse P own N n) (hlock : Lockstep False w')
    (halive : ∀ v, (w'.proc v).alive = true) (hlead : ∀ v, Leads (P v) v (own v) w w')
    (hnum : ∀ v, (w'.var v).syscallNum.toNat ≤ (w.var v).syscallNum.toNat + 1) :
    w'.OnCourse P own N (n + 1) := by
  refine ⟨hlock, halive, fun v => ?_, fun v => ?_⟩
  · obtain ⟨k, hk⟩ := h.course v
    obtain ⟨m, hm⟩ := hlead v
    exact ⟨m + k, by rw [hm, hk, Function.iterate_add_apply]⟩
  · have hbefore := h.num v
    have hafter := hnum v
    omega

theorem Kernel.RunsBoth.steady (hK : K.RunsBoth P own) : K.Steady where
  plain := hK.plain
  returns := hK.returns
  lives v t o h := by
    rw [(hK.runs v).code] at h
    exact absurd h (by simp)
  user v t o o' := by rw [(hK.runs v).code, (hK.runs v).code]

/-- A variant is never found behind its partner: a counter does not wrap round in so few events. -/
theorem World.OnCourse.not_behind (h : w.OnCourse P own N n) (hn : n + 1 < 2 ^ 64)
    (hp : (w.proc v).pending = true) (hop : ((w.woken v).proc v).syscallInfo.op = .entry) :
    (w.var v.other).syscallNum ≤ (w.var v).syscallNum := by
  obtain ⟨hloc, -, -⟩ := h.lock.at_entry hp (h.alive v) hop
  have hbound := h.num v.other
  exact h.lock.not_behind hloc (by omega)

/-- A variant comes to its next stop. -/
theorem onCourse_advance (hK : K.RunsBoth P own) (h : w.OnCourse P own N n)
    (hrun : (w.proc v).running = true) : (w.advance K v).OnCourse P own N (n + 1) := by
  obtain ⟨t, x, ω, halone, hput⟩ := alone_advance hK.steady (h.alive v) hrun
  refine h.go (h.lock.advance hrun fun _ => hK.plain.noSignal v _ _) (fun u => ?_)
    (fun u => .advance (hK.runs u) v) fun u => ?_
  · rw [hput]
    by_cases hu : u = v
    · rw [hu, World.put_proc_self]
      exact halone.alive hK.steady (h.alive v)
    · rw [World.put_proc_of_ne hu]
      exact h.alive u
  · rw [World.advance_var]
    exact Nat.le_succ _

/-- A variant is found at its entry stop and held there. -/
theorem onCourse_held (h : w.OnCourse P own N n) (hp : (w.proc v).pending = true)
    (hop : ((w.woken v).proc v).syscallInfo.op = .entry) :
    (((w.woken v).noted v).held v).OnCourse P own N (n + 1) := by
  refine h.go (h.lock.held hp (h.alive v) hop) (fun u => ?_) (fun u => .of_eq (native_report w v))
    fun u => ?_
  · have halive := h.alive u
    by_cases hu : u = v
    · subst hu
      simpa [World.held, World.woken_proc] using halive
    · simpa [World.held, World.woken_proc, hu] using halive
  · by_cases hu : u = v
    · subst hu
      simp [World.held, World.noted]
    · simp [World.held, World.noted, hu]

/-- A variant is found at its exit stop and passed. -/
theorem onCourse_passed (h : w.OnCourse P own N n) (hp : (w.proc v).pending = true)
    (hop : ((w.woken v).proc v).syscallInfo.op = .exit) :
    (((w.woken v).noted v).passed v).OnCourse P own N (n + 1) := by
  refine h.go (h.lock.passed hp (h.alive v) hop) (fun u => ?_) (fun u => ?_) fun u => ?_
  · obtain ⟨hx, hs⟩ := Tracee.exit_of_op hop
    rw [World.passed, World.setVar_proc, World.noted_proc, Tracee.resume_exit hx hs]
    have halive := h.alive u
    by_cases hu : u = v
    · subst hu
      simpa [World.setProc, World.woken_proc] using halive
    · simpa [World.setProc, World.woken_proc, hu] using halive
  · exact IsTrans.trans _ _ _ (Leads.of_eq (native_report w v))
      (Leads.resume (w := (w.woken v).noted v) v)
  · by_cases hu : u = v
    · subst hu
      simp only [World.passed, World.noted, World.setVar, World.setProc, Function.update_self, World.woken_var]
      rw [BitVec.toNat_add]
      exact Nat.mod_le _ _
    · simp [World.passed, World.noted, hu]

/-- Two variants at the same call are resumed. -/
theorem onCourse_serviced (hK : K.RunsBoth P own) (hN : ∀ v, (N v).Fresh) (h : w.OnCourse P own N n)
    (hp : (w.proc v).pending = true) (hsync : (w.woken v).callsSync v)
    (hcall : SameCall (Aurora.atCall P N (w.proc .master).ran.length))
    (hrun : processSyscallSync K ((w.woken v).noted v) = .ret 0 w') :
    w'.OnCourse P own N (n + 1) ∧
      (w'.proc .master).ran.length = (w.proc .master).ran.length + 1 := by
  obtain ⟨hloc, -⟩ := h.lock.meet_entry hp (h.alive v) hsync
  have hnative : (fun u => w.native u (own u)) = Aurora.atCall P N (w.proc .master).ran.length :=
    funext fun u => h.atCall hN (hloc u)
  have hres := (h.lock.sync_scalars (K := K) own hp (h.alive v) hsync).1 (by rwa [hnative])
  obtain ⟨d, -, hdone⟩ := h.lock.serviced_returning hp (h.alive v) hsync hrun hK.returns
  have hlock : Lockstep False w' := by
    refine (h.lock.after_sync hp (h.alive v) hsync hrun fun _ hshut => ?_).resolve_right
      fun hno => hno.1 hK.returns
    obtain ⟨c, ks, hc, hnr, -⟩ := hcall
    have hregs : (w.proc v).regs .origRax = c.nr := by
      rw [← hnr v, ← h.atCall hN (hloc v)]
      simp [World.native, Tracee.shown, hloc v]
    exact (Syscall.plan_scalars hc).1 (Syscall.nr_injective (hregs.symm.trans hshut))
  refine ⟨h.go hlock (fun u => (hdone u).alive) (fun u => ?_) fun u => ?_, ?_⟩
  · rw [hres] at hrun
    have hnoted : Leads (P u) u (own u) w ((w.woken v).noted v) := .of_eq (native_report w v)
    exact IsTrans.trans _ _ _ hnoted ((leads_resumeBoth u).of_ret hrun)
  · exact h.lock.num_serviced hp (h.alive v) hsync hrun hK.returns u
  · rw [(Lockstep.counts_of_done (hdone .master)).1, List.length_append, List.length_singleton]

/-- What an event makes of two variants on course that have been through `m` calls together. -/
inductive Sys.Goes (P : Who → Program τ) (own : Who → ρ → τ) (N : Who → Native τ) (n m : ℕ)
    (s : Sys ρ) : Prop
  /-- They stay on course, and if one more call was serviced, it was the same in both. -/
  | on (hmode : s.mode = .waiting) (hcourse : s.world.OnCourse P own N n)
      (hran : (s.world.proc .master).ran.length = m ∨
        (s.world.proc .master).ran.length = m + 1 ∧ SameCall (Aurora.atCall P N m))
  /-- They differ, and are killed. -/
  | alarm (hmode : s.mode = .gone 1) (hdead : ∀ v, (s.world.proc v).alive = false)
      (hdiffer : Differ (Aurora.atCall P N m))

/-- Where the two meet, they are resumed if they are at the same call, and killed if they differ. -/
theorem goes_meeting (hK : K.RunsBoth P own) (hN : ∀ v, (N v).Fresh)
    (h : s.world.OnCourse P own N n) (hp : (s.world.proc v).pending = true)
    (hbody : LoopBody K v (s.world.woken v) s') (hsync : (s.world.woken v).callsSync v) {m : ℕ}
    (hm : (s.world.proc .master).ran.length = m)
    (hcall : SameCall (Aurora.atCall P N m) ∨ Differ (Aurora.atCall P N m)) :
    s'.Goes P own N (n + 1) m := by
  subst hm
  obtain ⟨hloc, -⟩ := h.lock.meet_entry hp (h.alive v) hsync
  have hnative : (fun u => s.world.native u (own u)) =
      Aurora.atCall P N (s.world.proc .master).ran.length := funext fun u => h.atCall hN (hloc u)
  obtain ⟨hsame, hdiff⟩ := h.lock.sync_scalars (K := K) own hp (h.alive v) hsync
  rw [hnative] at hsame hdiff
  obtain ⟨w₁, hresumed, -⟩ := resumeBoth_apply ((s.world.woken v).noted v)
  cases hbody with
  | ended hstat => exact absurd (h.alive v) (by simp [dead_of_terminated hstat])
  | odd _ hop => exact absurd (hsync.1.symm.trans hop) (by decide)
  | passed _ hop => exact absurd (hsync.1.symm.trans hop) (by decide)
  | behind _ _ hnum => exact absurd hnum (by rw [hsync.2.1]; exact BitVec.lt_irrefl _)
  | held _ _ _ hwait => exact absurd hsync.2.2 (hwait hsync.2.1)
  | serviced _ _ hrun =>
    rcases hcall with hcall | hcall
    · obtain ⟨hcourse, hran⟩ := onCourse_serviced hK hN h hp hsync hcall hrun
      exact .on rfl hcourse (.inr ⟨hran, hcall⟩)
    · obtain ⟨w', hw'⟩ := hdiff hcall
      exact absurd (hrun.symm.trans hw') (by simp)
  | refused _ _ hr hrun =>
    rcases hcall with hcall | hcall
    · exact absurd (Outcome.ret.inj (hrun.symm.trans ((hsame hcall).trans hresumed))).1 hr
    · exact .alarm rfl (fun u => staysDead_tracerGone _ u (not_alive_bothKilled _ u)) hcall
  | blocked _ _ hrun =>
    rcases hcall with hcall | hcall
    · exact absurd (hrun.symm.trans ((hsame hcall).trans hresumed)) (by simp)
    · obtain ⟨w', hw'⟩ := hdiff hcall
      exact absurd (hrun.symm.trans hw') (by simp)
  | left _ _ hrun =>
    rcases hcall with hcall | hcall
    · exact absurd (hrun.symm.trans ((hsame hcall).trans hresumed)) (by simp)
    · obtain ⟨w', hw'⟩ := hdiff hcall
      exact absurd (hrun.symm.trans hw') (by simp)

/-- **Every event** keeps the two on course, or is the last one. -/
theorem goes_step (hK : K.RunsBoth P own) (hN : ∀ v, (N v).Fresh) (h : s.world.OnCourse P own N n)
    (hn : n + 1 < 2 ^ 64) (hstep : (system ρ).step s e s') (he : e.By K) {m : ℕ}
    (hm : (s.world.proc .master).ran.length = m)
    (hcall : SameCall (Aurora.atCall P N m) ∨ Differ (Aurora.atCall P N m)) :
    s'.Goes P own N (n + 1) m := by
  obtain ⟨-, hcase⟩ := step_cases hstep
  cases hcase with
  | run v K' hrun =>
    obtain rfl : K' = K := he
    refine .on rfl (onCourse_advance hK h hrun) (.inl ?_)
    rw [← hm, World.advance_ran]
  | kill v ha => exact he.elim
  | noChild hmaster _ => exact absurd (h.alive .master) (by simp [Tracee.not_alive_of_reaped hmaster])
  | wake v K' hp hbody =>
    obtain rfl : K' = K := he
    have hwoken := World.woken_ran s.world v .master
    by_cases hsync : (s.world.woken v).callsSync v
    · exact goes_meeting hK hN h hp hbody hsync hm hcall
    · cases hbody with
      | ended hstat => exact absurd (h.alive v) (by simp [dead_of_terminated hstat])
      | serviced _ hyes _ => exact absurd hyes hsync
      | refused _ hyes _ _ => exact absurd hyes hsync
      | blocked _ hyes _ => exact absurd hyes hsync
      | left _ hyes _ => exact absurd hyes hsync
      | odd _ hop => exact absurd hop (h.lock.op_ne_none hp (h.alive v))
      | behind _ hop hnum => exact absurd hnum (BitVec.not_lt.2 (h.not_behind hn hp hop))
      | held _ hop _ _ =>
        refine .on rfl (onCourse_held h hp hop) (.inl ?_)
        rw [← hm]
        exact congrArg List.length hwoken
      | passed _ hop =>
        refine .on rfl (onCourse_passed h hp hop) (.inl ?_)
        rw [← hm]
        exact congrArg List.length
          ((World.passed_ran (Tracee.loc_ne_entry hop) .master).trans hwoken)

end Steps

/-! ## Every run -/

section Runs

variable {P : Who → Program τ} {own : Who → ρ → τ} {K : Kernel ρ} {s₀ s : Sys ρ} {es : List (Event ρ)}

/-- What the two are at the start. -/
def World.natives (w : World ρ) (own : Who → ρ → τ) (v : Who) : Native τ := w.native v (own v)

theorem fresh_natives (h₀ : s₀.world.Started) (v : Who) : (s₀.world.natives own v).Fresh where
  loc := h₀.loc v
  made := h₀.ran v

theorem onCourse_started (h₀ : s₀.world.Started) (halive : ∀ v, (s₀.world.proc v).alive = true) :
    s₀.world.OnCourse P own (s₀.world.natives own) 0 where
  lock := .of_started h₀
  alive := halive
  course v := ⟨0, rfl⟩
  num v := by simp [h₀.num v]

theorem Event.By.returning {e : Event ρ} (he : e.By K) (hK : K.RunsBoth P own) : e.Returning := by
  refine ⟨?_, fun v K' h => ?_⟩
  · cases e with
    | run v K' =>
      obtain rfl : K' = K := he
      exact hK.plain
    | wake v K' =>
      obtain rfl : K' = K := he
      exact hK.plain
    | kill v => exact he.elim
    | noChild => trivial
  · subst h
    obtain rfl : K' = K := he
    exact hK.returns

/-- **No false alarm.**  Let the two variants be programs that, each on its own, would make the same
calls with the same scalars, whatever else they do.  In every run under the monitor, as long as no
counter can have wrapped round, the main loop waits, both are alive, and each is where it would be
without the monitor. -/
theorem no_false_alarm (hK : K.RunsBoth P own) (h₀ : s₀.world.Started) (hmode₀ : s₀.mode = .waiting)
    (halive : ∀ v, (s₀.world.proc v).alive = true)
    (hcalls : ∀ m, SameCall (atCall P (s₀.world.natives own) m))
    (hrun : ((system ρ).restrict fun _ e => e.By K).Run s₀ es s) (hlen : es.length < 2 ^ 64) :
    s.mode = .waiting ∧ (∀ v, (s.world.proc v).alive = true) ∧
      ∀ v, ∃ n, s.world.native v (own v) = (P v).next^[n] (s₀.world.native v (own v)) := by
  have hinv : es.length < 2 ^ 64 →
      s.mode = .waiting ∧ s.world.OnCourse P own (s₀.world.natives own) es.length := by
    refine hrun.invariant_length (I := fun n t => n < 2 ^ 64 →
      t.mode = .waiting ∧ t.world.OnCourse P own (s₀.world.natives own) n)
      (fun _ => ⟨hmode₀, onCourse_started h₀ halive⟩) fun n t e t' ht hstep hn => ?_
    obtain ⟨-, h⟩ := ht (by omega)
    have hgoes := goes_step hK (fresh_natives h₀) h hn hstep.1 hstep.2 rfl (.inl (hcalls _))
    cases hgoes with
    | on hmode hcourse _ => exact ⟨hmode, hcourse⟩
    | alarm _ _ hdiffer => exact absurd hdiffer (hcalls _).not_differ
  obtain ⟨hmode, h⟩ := hinv hlen
  exact ⟨hmode, h.alive, h.course⟩

/-- While it waits, no more events have gone by than the calls before have paid for. -/
theorem World.Paid.le_calls {w₀ w : World ρ} {n k : ℕ} (h : w₀.Paid n w) (h₀ : w₀.Started)
    (halive : ∀ v, (w₀.proc v).alive = true) (hk : (w.proc .master).ran.length ≤ k) :
    n ≤ 8 * k + 4 := by
  obtain ⟨cs, hcs, hn, -⟩ := h
  have hgo (v : Who) : (w₀.proc v).toGo = 2 := by
    simp [Tracee.toGo, h₀.reported v, halive v, h₀.loc v]
  have hstart : w₀.toGo = 4 := by rw [World.toGo, hgo, hgo]
  have hlen : cs.length ≤ k := by
    rw [hcs .master, h₀.ran, List.nil_append, history_length] at hk
    exact hk
  have hpaid := paidBy_le cs
  omega

/-- **Every divergence is caught.**  Let the two make the same calls up to their call number `k`, and
differ there.  Then every run ends with the alarm and with both variants dead, after no more than
`8 * k + 5` events; until then something can happen. -/
theorem divergence_caught {k : ℕ} (hK : K.RunsBoth P own) (h₀ : s₀.world.Started)
    (hmode₀ : s₀.mode = .waiting) (halive : ∀ v, (s₀.world.proc v).alive = true)
    (hbefore : ∀ m < k, SameCall (atCall P (s₀.world.natives own) m))
    (hdiffer : Differ (atCall P (s₀.world.natives own) k)) (hk : 8 * k + 5 < 2 ^ 64)
    (hrun : ((system ρ).restrict fun _ e => e.By K).Run s₀ es s) :
    es.length ≤ 8 * k + 5 ∧
      ((s.mode = .gone 1 ∧ ∀ v, (s.world.proc v).alive = false) ∨
        s.mode = .waiting ∧ es.length ≤ 8 * k + 4 ∧
          ∃ v, (∃ s', (system ρ).step s (.run v K) s') ∨ ∃ s', (system ρ).step s (.wake v K) s') := by
  have hinv : (s.mode = .waiting ∧ s.world.OnCourse P own (s₀.world.natives own) es.length ∧
      s₀.world.Paid es.length s.world ∧ s.world.Awake ∧ (s.world.proc .master).ran.length ≤ k) ∨
      (s.mode = .gone 1 ∧ ∀ v, (s.world.proc v).alive = false) ∧ es.length ≤ 8 * k + 5 := by
    refine hrun.invariant_length (I := fun n t =>
      (t.mode = .waiting ∧ t.world.OnCourse P own (s₀.world.natives own) n ∧
        s₀.world.Paid n t.world ∧ t.world.Awake ∧ (t.world.proc .master).ran.length ≤ k) ∨
      (t.mode = .gone 1 ∧ ∀ v, (t.world.proc v).alive = false) ∧ n ≤ 8 * k + 5)
      (.inl ⟨hmode₀, onCourse_started h₀ halive, ?_, ?_, ?_⟩) fun n t e t' ht hstep => ?_
    · exact ⟨[], by simp [history], by simp [paidBy], fun _ => by simp [paidBy]⟩
    · exact ⟨.master, h₀.reported _⟩
    · simp [h₀.ran]
    · rcases ht with ⟨-, h, hpaid, -, hran⟩ | ⟨⟨hgone, -⟩, -⟩
      · have hn := hpaid.le_calls h₀ halive hran
        have hret := hstep.2.returning hK
        have hcall : SameCall (atCall P (s₀.world.natives own) (t.world.proc .master).ran.length) ∨
            Differ (atCall P (s₀.world.natives own) (t.world.proc .master).ran.length) := by
          rcases hran.lt_or_eq with hlt | heq
          · exact .inl (hbefore _ hlt)
          · rw [heq]
            exact .inr hdiffer
        have hgoes := goes_step hK (fresh_natives h₀) h (by omega) hstep.1 hstep.2 rfl hcall
        cases hgoes with
        | on hmode hcourse hnow =>
          refine .inl ⟨hmode, hcourse, paid_step hpaid h.lock.relax hstep.1 hret hmode,
            awake_step h.lock.relax hstep.1 hret hmode, ?_⟩
          rcases hnow with hsame | ⟨hmore, hcall⟩
          · omega
          · -- the call that was serviced is not the one at which they differ
            have hne : (t.world.proc .master).ran.length ≠ k := fun heq =>
              hcall.not_differ (by rw [heq]; exact hdiffer)
            omega
        | alarm hmode hdead _ => exact .inr ⟨⟨hmode, hdead⟩, by omega⟩
      · exact absurd ((step_cases hstep.1).1.symm.trans hgone) (by simp)
  rcases hinv with ⟨hmode, h, hpaid, ⟨v, hrep⟩, hran⟩ | ⟨hgone, hle⟩
  · have hle := hpaid.le_calls h₀ halive hran
    refine ⟨by omega, .inr ⟨hmode, hle, v, ?_⟩⟩
    exact (Tracee.running_or_pending hrep).imp (fun hr => ⟨_, if_pos ⟨hmode, hr⟩⟩)
      fun hp => ⟨_, if_pos ⟨hmode, hp⟩⟩
  · exact ⟨hle, .inl hgone⟩

end Runs

/-! ### Two programs that call one thing over and over -/

/-- Each variant makes a call of its own over and over, and is always answered zero. -/
def Kernel.callingEach (nr : Who → Word) : Kernel Unit where
  syscall _ t o := (.ret 0 0 0 t.mem, o)
  user v t _ := .entry (Function.update t.regs .origRax (nr v)) t.mem
  killed _ := false
  junk := .stopped

theorem runsBoth_callingEach (nr : Who → Word) :
    (Kernel.callingEach nr).RunsBoth (fun v => Program.calling (nr v)) fun _ => id where
  plain := ⟨fun v t o regs mem h => by simp [Kernel.callingEach] at h, fun _ => rfl⟩
  runs v := ⟨fun t o => by simp [Kernel.callingEach, Program.calling, bare], fun _ _ => rfl,
    fun _ _ => rfl, fun _ _ => rfl⟩

theorem atCall_calling (nr : Who → Word) {N : Who → Native Unit} (hN : ∀ v, (N v).Fresh) (m : ℕ)
    (v : Who) : (atCall (fun v => Program.calling (nr v)) N m v).regs .origRax = nr v := by
  have hloc := (next_position (Program.calling (nr v)) (hN v).loc (hN v).made (4 * m + 1)).1
  have hentry : locAfter (4 * m + 1) = .entry := by
    unfold locAfter
    rw [if_neg (by omega), if_pos (by omega)]
  obtain ⟨regs, mem, hregs, -⟩ := (Program.calling (nr v)).entry_of_code (hN v).loc (hloc.trans hentry)
  rw [atCall, hregs]
  simp [Program.calling]

/-- A master that asks for its user, and a replica that asks for its group: both are on their way to
the entry stop, and are found there. -/
def partingMeet : List (Event Unit) :=
  let K := Kernel.callingEach fun v => if v = .master then 102 else 104
  [.run .master K, .run .replica K, .wake .master K, .wake .replica K]

/-- Two variants that ask for their user over and over are still at it after a round. -/
theorem no_false_alarm_getuid :
    ((Sys.fresh ()).played getuidRound).mode = .waiting ∧
      (∀ v, (((Sys.fresh ()).played getuidRound).world.proc v).alive = true) ∧
      ∀ v, ∃ n, ((Sys.fresh ()).played getuidRound).world.native v id =
        (Program.calling 102).next^[n] ((Sys.fresh ()).world.native v id) := by
  have hK : (Kernel.calling 102).RunsBoth (fun _ => Program.calling 102) fun _ => id :=
    ⟨plain_calling 102, runs_calling 102⟩
  refine no_false_alarm hK (started_fresh ()) rfl (fun _ => rfl) (fun m => ?_)
    ((run_played (by decide +kernel)).to_restrict fun e he _ => ?_) (by decide)
  · exact ⟨.getuid, [], rfl,
      atCall_calling (fun _ => 102) (fresh_natives (started_fresh ())) m, by simp⟩
  · simp only [getuidRound, getuidPassed, meetCalling, arriveCalling, List.cons_append,
      List.nil_append, List.mem_cons, List.not_mem_nil, or_false] at he
    rcases he with rfl | rfl | rfl | rfl | rfl | rfl | rfl | rfl <;> rfl

/-- Two variants that part at their first call are caught there. -/
theorem divergence_caught_first :
    partingMeet.length ≤ 5 ∧
      ((((Sys.fresh ()).played partingMeet).mode = .gone 1 ∧
          ∀ v, (((Sys.fresh ()).played partingMeet).world.proc v).alive = false) ∨
        ((Sys.fresh ()).played partingMeet).mode = .waiting ∧ partingMeet.length ≤ 4 ∧
          ∃ v, (∃ s', (system Unit).step ((Sys.fresh ()).played partingMeet)
              (.run v (.callingEach fun v => if v = .master then 102 else 104)) s') ∨
            ∃ s', (system Unit).step ((Sys.fresh ()).played partingMeet)
              (.wake v (.callingEach fun v => if v = .master then 102 else 104)) s') := by
  have hfresh : ∀ v, ((Sys.fresh ()).world.natives (fun _ => id) v).Fresh :=
    fresh_natives (started_fresh ())
  have hnr := atCall_calling (fun v => if v = .master then 102 else 104) hfresh 0
  refine divergence_caught (k := 0) (runsBoth_callingEach _) (started_fresh ()) rfl (fun _ => rfl)
    (fun m hm => absurd hm (by omega)) ⟨fun v => ?_, .inl ?_⟩ (by decide)
    ((run_played (by decide +kernel)).to_restrict fun e he _ => ?_)
  · rw [hnr]
    cases v <;> decide
  · rw [hnr, hnr]
    decide
  · simp only [partingMeet, List.mem_cons, List.not_mem_nil, or_false] at he
    rcases he with rfl | rfl | rfl | rfl <;> rfl

end Aurora
