import AuroraMVEE.Events
import AuroraMVEE.Midway
import AuroraMVEE.Verdicts
import AuroraMVEE.Parts

/-!
# When a copy ends the monitor

`writeVariantMem` takes the last word of a size that is not a whole number of words from far
behind its buffer, and from 1.25 million words on that may be behind everything the monitor has
mapped.  Five executors copy as many bytes as the kernel, or the program, says.
`execSyscall_exited_iff` says when one of them ends the monitor; no other executor ever does.

* `World.requested` — how many bytes an executor asks to have copied.
* `World.Crashes` — the comparison is passed, the calls come back, and the copy faults.
* `World.Standing` — each variant stands at its entry stop, or has died there.  A variant may be
  killed while it is held, so this is as much as the main loop can promise.
* `World.FaultsIn` — an event of the main loop comes to such a copy.
-/

namespace Aurora

variable {ρ : Type}

/-! ## What is copied -/

/-- The `socklen_t` at `a`, as the monitor reads it. -/
def Tracee.socklenAt (t : Tracee) (a : Word) : ℕ :=
  (t.byteAt a 0).toNat + 256 * (t.byteAt a 1).toNat + 65536 * (t.byteAt a 2).toNat +
    16777216 * (t.byteAt a 3).toNat

theorem lowHalf_socklenWord (t : Tracee) (a : Word) : lowHalf (t.socklenWord a) = t.socklenAt a := rfl

/-- The size the executor asks to have copied, where the master's call returned `rm` and left
the memory `mm`. -/
def World.requested (w : World ρ) (c : Syscall) (rm : Word) (mm : Mem) : ℕ :=
  match c with
  | .newfstatat => sizeofStat
  | .accept4 => if (w.var .master).syscallInfo.arg 1 ≠ 0 then
      { w.proc .master with mem := mm }.socklenAt ((w.var .master).syscallInfo.arg 2) else 0
  | .getsockname => if rm = 0 then
      (w.proc .master).socklenAt ((w.var .master).syscallInfo.arg 2) else 0
  | .poll => ((w.var .master).syscallInfo.arg 1 * sizeofPollfd).toNat
  | .read => if rm ≠ -1 then rm.toNat else 0
  | _ => rm.toNat

/-- A copy of `size` bytes is made, and its last load is of a word that is not mapped. -/
def Image.FaultsAt (I : Image) (size : ℕ) : Prop := size ≤ BUF_SIZE ∧ I.Faults size

instance (I : Image) (size : ℕ) : Decidable (I.FaultsAt size) := inferInstanceAs (Decidable (_ ∧ _))

/-- Does the executor copy only once the replica has made its `getpid`? -/
def Syscall.copiesLast (c : Syscall) : Bool := c ∈ [accept4, getsockname]

/-- The master's result and memory make the copy of `c` fault, if the calls before it return. -/
def World.CopyFaults (K : Kernel ρ) (w : World ρ) (c : Syscall) : Prop :=
  ∃ rm rcx r11 mm, (w.proc .master).alive = true ∧ (K.answer .master w).1 = .ret rm rcx r11 mm ∧
    (c.copiesLast = true → (w.proc .replica).alive = true ∧ (K.nopAnswer w).1 ≠ .died) ∧
      w.image.FaultsAt (w.requested c rm mm)

/-- Serviced in `w`, the call `c` ends the monitor: the comparison finds no difference, the calls
that come before the copy return, and the copy faults. -/
def World.Crashes (K : Kernel ρ) (w : World ρ) (c : Syscall) : Prop :=
  c ∈ sizedCalls ∧ w.Accepts c ∧ w.CopyFaults K c

/-- Gone, and the monitor has not been told. -/
def Tracee.Dead (t : Tracee) : Prop := t.alive = false ∧ t.reported = false

/-- Each variant stands at an entry stop, or has died there. -/
def World.Standing (w : World ρ) : Prop := ∀ v, (w.ctl v).AtEntry ∨ (w.proc v).Dead

theorem Rendezvous.standing {c : Syscall} {w : World ρ} (h : Rendezvous c w.ctl) : w.Standing :=
  fun v => .inl (h.atEntry v)

theorem not_faultsAt_zero (I : Image) : ¬ I.FaultsAt 0 := fun h => absurd h.2.1 (by decide)

/-! ## Following the copy -/

/-- The monitor is ended by a fault if `p` holds, with the master back from its call, and by nothing
otherwise. -/
def faultsIf (p : Prop) : Prog.Post (World ρ) Int :=
  ⟨fun _ _ => ¬ p, fun _ => ¬ p,
    fun code b => (p ∧ code = SIGSEGV_STATUS) ∧ (b.proc .master).alive = true⟩

theorem faultsIf_congr {p q : Prop} (h : p ↔ q) {m : Mon ρ Int} {w : World ρ}
    (hm : Prog.wp m (faultsIf p) w) : Prog.wp m (faultsIf q) w := by
  rwa [propext h] at hm

/-- What contains no copy that may fault. -/
theorem wp_stays {p : Prop} {m : Mon ρ Int} {w : World ρ} (hno : ¬ p) (h : m.Stays) :
    Prog.wp m (faultsIf p) w := by
  unfold Prog.wp
  cases hrun : m w with
  | ret a b => exact hno
  | hung b => exact hno
  | exited code b => exact absurd hrun (h w code b)

section

variable {K : Kernel ρ} {w b : World ρ} {l : Loc} {rm : Word} {mm : Mem} {t : Tracee} {o : ρ}
  {p : Prop} {g : Int → Mon ρ Int}

/-- A transfer, and a rest that copies nothing more. -/
theorem MasterBack.wp_faults (hb : MasterBack w b rm mm) (src dst : Word) {size : ℕ}
    (hp : w.image.FaultsAt size ↔ p) (hg : ∀ a, Made K .sound (g a)) :
    Prog.wp (transferVariantMem .master src .replica dst size >>= g) (faultsIf p) b := by
  rw [← hb.image] at hp
  rw [Prog.wp_bind]
  by_cases hsize : size ≤ BUF_SIZE
  · by_cases hload : b.image.Faults size
    · obtain ⟨b', hexit, hkept⟩ := transferVariantMem_faults .master src .replica dst hsize b hload
      unfold Prog.wp
      rw [hexit]
      refine ⟨⟨hp.1 ⟨hsize, hload⟩, rfl⟩, ?_⟩
      rw [hkept .master (by decide)]
      exact Tracee.alive_of_stopped hb.stopped
    · obtain ⟨β, happly, -⟩ := transferVariantMem_apply .master src .replica dst hsize b hload
      exact Prog.wp_of_eq_ret happly (wp_stays (fun h => hload (hp.2 h).2) (hg 0).stays)
  · exact Prog.wp_of_eq_ret (transferVariantMem_large .master src .replica dst (by omega) b)
      (wp_stays (fun h => hsize (hp.2 h).1) (hg (-1)).stays)

theorem wp_guardedFault {eq : Mon ρ Bool} {body : Mon ρ Int} (heq : ReadOnly eq)
    (hbody : ∀ β, Prog.wp body (faultsIf p) (w.withBufs β)) :
    Prog.wp (guarded eq body) (faultsIf ((eq w).val? = some true ∧ p)) w := by
  obtain ⟨a, β, hβ⟩ := heq w
  unfold Prog.wp
  rw [hβ]
  cases a with
  | true =>
    rw [guarded_true hβ]
    exact faultsIf_congr (by simp [Outcome.val?]) (hbody β)
  | false =>
    rw [guarded_false hβ]
    exact fun h => absurd h.1 (by simp [Outcome.val?])

/-- Waiting for a dead variant reports its death. -/
theorem resumeAndWait_dead (K : Kernel ρ) {v : Who} (hv : (b.proc v).Dead) :
    ∃ b', resumeAndWait K v b = .ret (-1) b' := by
  have hresume : (b.proc v).resume = b.proc v := by simp [Tracee.resume, Tracee.stopped, hv.1]
  unfold resumeAndWait resumeVariantFromWait ptrace assign
  simp only [Prog.bind_apply, Prog.modify_apply, hresume]
  unfold waitVariant
  simp [Tracee.running, Tracee.waitStatus, checkVariantExit, hv.1, hv.2]

theorem wp_resumeDead {v : Who} (hv : (b.proc v).Dead) (hno : ¬ p) (hfail : g (-1) = pure (-1)) :
    Prog.wp (resumeAndWait K v >>= g) (faultsIf p) b := by
  obtain ⟨b', hrun⟩ := resumeAndWait_dead K hv
  unfold Prog.wp
  rw [Prog.bind_of_ret hrun, hfail]
  exact hno

theorem wp_masterFault {f : Mon ρ Int} {q : Word → Mem → Prop}
    (hx : (w.ctl .master).AtEntry ∨ (w.proc .master).Dead) (hfail : g (-1) = pure (-1))
    (hgo : g 0 = requestSyscallInfo .master >>= fun _ => f)
    (h : ∀ rm mm b, (w.ctl .master).AtEntry → MasterBack w b rm mm →
      b.proc .replica = w.proc .replica → b.os = (K.answer .master w).2 →
        Prog.wp f (faultsIf (q rm mm)) b) :
    Prog.wp (resumeAndWait K .master >>= g) (faultsIf (∃ rm rcx r11 mm,
      (w.proc .master).alive = true ∧ (K.answer .master w).1 = .ret rm rcx r11 mm ∧ q rm mm)) w := by
  rcases hx with hx | hdead
  · refine wp_masterBack hx hgo (fun hdied => ?_) fun rm rcx r11 mm hans b hb hproc hos => ?_
    · rw [hfail]
      rintro ⟨rm, rcx, r11, mm, -, hans, -⟩
      exact absurd (hdied.symm.trans hans) (by simp)
    · refine faultsIf_congr ?_ (h rm mm b hx hb hproc hos)
      constructor
      · exact fun hq => ⟨rm, rcx, r11, mm, hx.alive, hans, hq⟩
      · rintro ⟨rm', rcx', r11', mm', -, hans', hq⟩
        obtain ⟨rfl, -, -, rfl⟩ := SysResult.ret.inj (hans.symm.trans hans')
        exact hq
  · refine wp_resumeDead hdead ?_ hfail
    rintro ⟨rm, rcx, r11, mm, halive, -⟩
    exact absurd (hdead.1.symm.trans halive) (by decide)

/-- What the replica is told does not concern the master. -/
theorem MasterBack.wp_tellReplica (hb : MasterBack w b rm mm) (x : Word) {f : Mon ρ Int}
    {P : Prog.Post (World ρ) Int} (h : ∀ b', MasterBack w b' rm mm → Prog.wp f P b') :
    Prog.wp (setSyscallReturnValue .replica x >>= fun _ => f) P b :=
  h (b.setProc .replica ((b.proc .replica).pokeUser .rax x))
    ⟨hb.image, hb.info, hb.stopped, hb.rax, hb.mem⟩

/-- The replica's `getpid` before a copy. -/
theorem MasterBack.wp_nopFault {q : Prop} (hb : MasterBack w b rm mm)
    (hproc : b.proc .replica = w.proc .replica) (hos : b.os = (K.answer .master w).2)
    (hy : (w.ctl .replica).AtEntry ∨ (w.proc .replica).Dead) (hfail : g (-1) = pure (-1))
    (h : ∀ b', MasterBack w b' rm mm → Prog.wp (g 0) (faultsIf q) b') :
    Prog.wp (setNopSyscall .replica >>= fun _ => resumeAndWait K .replica >>= g)
      (faultsIf (((w.proc .replica).alive = true ∧ (K.nopAnswer w).1 ≠ .died) ∧ q)) b := by
  rcases hy with hy | hdead
  · have hmid : Midway w b .entry rm mm (w.proc .replica) (K.answer .master w).2 :=
      ⟨hb, hproc, hos, hy.loc, hy.alive, hy.reported, hy.traced⟩
    refine hmid.wp_setSyscall _ fun b₁ hb₁ => hb₁.wp_replica (fun hdied b' _ => ?_) ?_
    · rw [hfail]
      exact fun hq => hq.1.2 (by rw [nopAnswer_apply hy]; exact hdied)
    · intro rr rcx r11 mr hans b' hb'
      refine faultsIf_congr (and_iff_right ⟨hy.alive, ?_⟩).symm (h b' hb'.toMasterBack)
      rw [nopAnswer_apply hy, hans]
      simp
  · have hgone : ∀ {a : Prop}, ¬ (((w.proc .replica).alive = true ∧ a) ∧ q) := by
      rintro a ⟨⟨halive, -⟩, -⟩
      exact absurd (hdead.1.symm.trans halive) (by decide)
    refine wp_resumeDead (b := b.setProc .replica ((b.proc .replica).pokeUser .origRax Syscall.getpid.nr))
      ?_ hgone hfail
    have hsame : (w.proc .replica).pokeUser .origRax Syscall.getpid.nr = w.proc .replica := by
      simp [Tracee.pokeUser, Tracee.stopped, hdead.1]
    rw [World.setProc_proc_self, hproc, hsame]
    exact hdead

end

/-! ## The five executors -/

section

variable {K : Kernel ρ} {w : World ρ} {p q : Prop}

/-- The copy comes before the replica's call. -/
theorem faultsAt_first {c : Syscall} (hc : c.copiesLast = false) :
    p ↔ (c.copiesLast = true → q) ∧ p := by
  rw [hc]
  exact (and_iff_right fun h => absurd h (by decide)).symm

/-- The copy comes after it. -/
theorem faultsAt_last {c : Syscall} (hc : c.copiesLast = true) :
    q ∧ p ↔ (c.copiesLast = true → q) ∧ p := by
  rw [hc]
  simp

/-- What comes after the copy of `read`. -/
theorem made_readRest (fd x : Word) : Made K .sound (do
    setLseekRegs .replica fd x
    setSyscall .replica Syscall.lseek.nr
    if (← resumeAndWait K .replica) ≠ 0 then return -1
    setSyscallReturnValue .replica x
    resumeVariantFromExit .master
    resumeVariantFromExit .replica
    return 0 : Mon ρ Int) :=
  .bind (Made.setLseekRegs _ _) fun _ => .bind (.of (.setSyscall _ _ trivial)) fun _ =>
    Made.through trivial (.bind (Made.setReturn _) fun _ => Made.leaveBoth)

/-- What comes after the copy of `getrandom`. -/
theorem made_getrandomRest (x : Word) : Made K .sound (do
    setNopSyscall .replica
    if (← resumeAndWait K .replica) ≠ 0 then return -1
    setSyscallReturnValue .replica x
    resumeVariantFromWait .master
    resumeVariantFromWait .replica
    return 0 : Mon ρ Int) :=
  Made.nopReplica trivial (fun _ => trivial) (.bind (Made.setReturn _) fun _ =>
    .bind (.of (.resumeFromWait _ trivial)) fun _ => .bind (.of (.resumeFromWait _ trivial)) fun _ =>
      .pure _)

/-- What comes after the copy of `accept4`. -/
theorem made_accept4Rest : Made K .sound (do
    setSyscallReturnValue .replica (← syscallInfoOf .master).rval
    resumeVariantFromExit .master
    resumeVariantFromExit .replica
    return 0 : Mon ρ Int) :=
  .bind (Made.syscallInfoOf _) fun _ => .bind (Made.setReturn _) fun _ => Made.leaveBoth

variable (hR : w.Standing)
include hR

theorem faults_read : Prog.wp (execSyscallRead K)
    (faultsIf (w.Accepts .read ∧ w.CopyFaults K .read)) w := by
  refine wp_guardedFault (readOnly_verdict .read) fun β => ?_
  refine wp_argOf_eq (wp_argOf_eq (wp_argOf_eq ?_))
  refine wp_masterFault (w := w.withBufs β) (hR .master) rfl rfl fun rm mm b _ hb _ _ => hb.wp_rval ?_
  rintro i rfl
  refine wp_doIf (fun hc => ?_) fun hc => ?_
  · rw [show i.rval.toNat = w.requested .read i.rval mm from (if_pos hc).symm]
    exact hb.wp_faults _ _ (faultsAt_first rfl) fun _ => .ite (.pure _) (made_readRest _ _)
  · refine wp_stays (fun h => not_faultsAt_zero w.image ?_) (made_readRest _ _).stays
    rw [← show w.requested .read i.rval mm = 0 from if_neg hc]
    exact h.2

theorem faults_pread64 : Prog.wp (execSyscallPread64 K)
    (faultsIf (w.Accepts .pread64 ∧ w.CopyFaults K .pread64)) w := by
  refine wp_guardedFault (readOnly_verdict .pread64) fun β => wp_argOf_eq (wp_argOf_eq ?_)
  refine wp_masterFault (w := w.withBufs β) (hR .master) rfl rfl fun rm mm b _ hb _ _ => hb.wp_rval ?_
  rintro i rfl
  exact hb.wp_faults _ _ (faultsAt_first rfl) fun _ => .ite (.pure _)
    (Made.nopReplica trivial (fun _ => trivial) (.bind (Made.setReturn _) fun _ => Made.leaveBoth))

theorem faults_getrandom : Prog.wp (execSyscallGetrandom K)
    (faultsIf (w.Accepts .getrandom ∧ w.CopyFaults K .getrandom)) w := by
  refine wp_guardedFault (readOnly_verdict .getrandom) fun β => wp_argOf_eq (wp_argOf_eq ?_)
  refine wp_masterFault (w := w.withBufs β) (hR .master) rfl rfl fun rm mm b _ hb _ _ => hb.wp_rval ?_
  rintro i rfl
  refine wp_doIf (fun hc => ?_) fun hc => ?_
  · exact hb.wp_faults _ _ (faultsAt_first rfl) fun _ => .ite (.pure _) (made_getrandomRest _)
  · -- `-1` is no size that is copied
    refine wp_stays (fun h => absurd h.2.1 ?_) (made_getrandomRest _).stays
    rw [show w.requested .getrandom i.rval mm = i.rval.toNat from rfl, not_not.1 hc]
    decide

theorem faults_accept4 : Prog.wp (execSyscallAccept4 K)
    (faultsIf (w.Accepts .accept4 ∧ w.CopyFaults K .accept4)) w := by
  refine wp_guardedFault (readOnly_verdict .accept4) fun β => ?_
  refine wp_argOf_eq (wp_argOf_eq (wp_argOf_eq ?_))
  refine wp_masterFault (w := w.withBufs β) (hR .master) rfl rfl fun rm mm b hx hb hproc hos => ?_
  refine faultsIf_congr (faultsAt_last rfl) ?_
  refine hb.wp_nopFault hproc hos (hR .replica) rfl fun b₁ hb₁ => ?_
  refine wp_doIf (fun hc => ?_) fun hc => ?_
  · have hsize : lowHalf ((b₁.proc .master).socklenWord ((w.var .master).syscallInfo.arg 2)) =
        w.requested .accept4 rm mm := by
      rw [Tracee.socklenWord_congr (t := { w.proc .master with mem := mm })
        (hb₁.stopped.trans (stopped_of_atEntry hx).symm) hb₁.mem]
      exact (if_pos hc).symm
    rw [bind_assoc]
    refine wp_readShort ?_
    rw [bind_assoc, readShort_word]
    refine hb₁.wp_image ?_
    exact hb₁.wp_faults (K := K) _ _ (by rw [← hsize]; rfl) fun _ => made_accept4Rest
  · refine wp_stays (fun h => not_faultsAt_zero w.image ?_) (made_accept4Rest (K := K)).stays
    rw [← show w.requested .accept4 rm mm = 0 from if_neg hc]
    exact h

theorem faults_getsockname : Prog.wp (execSyscallGetsockname K)
    (faultsIf (w.Accepts .getsockname ∧ w.CopyFaults K .getsockname)) w := by
  refine wp_guardedFault (readOnly_verdict .getsockname) fun β => ?_
  refine wp_argOf_eq (wp_argOf_eq (wp_argOf_eq (wp_readShort ?_)))
  rw [readShort_word]
  have hlen := lowHalf_socklenWord (w.proc .master) ((w.var .master).syscallInfo.arg 2)
  change lowHalf (((w.withBufs β).proc .master).socklenWord
    (((w.withBufs β).var .master).syscallInfo.arg 2)) = _ at hlen
  generalize ((w.withBufs β).proc .master).socklenWord _ = masterLen at hlen ⊢
  refine wp_look fun image => ?_
  refine wp_masterFault (w := w.withBufs β) (hR .master) rfl rfl fun rm mm b hx hb hproc hos => ?_
  refine faultsIf_congr (faultsAt_last rfl) ?_
  refine hb.wp_nopFault hproc hos (hR .replica) rfl fun b₁ hb₁ => hb₁.wp_rval fun _ _ => ?_
  refine hb₁.wp_tellReplica _ fun b₂ hb₂ => hb₂.wp_rval ?_
  rintro i rfl
  refine wp_doIf (fun hc => ?_) fun hc => ?_
  · have hsize : w.requested .getsockname i.rval mm =
        (w.proc .master).socklenAt ((w.var .master).syscallInfo.arg 2) := if_pos hc
    rw [hlen]
    exact hb₂.wp_faults (K := K) _ _ (by rw [hsize]; rfl) fun _ => Made.leaveBoth
  · refine wp_stays (fun h => not_faultsAt_zero w.image ?_) (Made.leaveBoth (K := K)).stays
    rw [← show w.requested .getsockname i.rval mm = 0 from if_neg hc]
    exact h

/-- What becomes of the monitor in an executor that copies what it is told to. -/
theorem execSyscall_faultsIf {c : Syscall} (hc : c ∈ sizedCalls) :
    Prog.wp (execSyscall K c) (faultsIf (w.Crashes K c)) w := by
  refine faultsIf_congr (and_iff_right hc).symm ?_
  simp only [sizedCalls, List.mem_cons, List.not_mem_nil, or_false] at hc
  rcases hc with rfl | rfl | rfl | rfl | rfl
  · exact faults_read hR
  · exact faults_pread64 hR
  · exact faults_getrandom hR
  · exact faults_accept4 hR
  · exact faults_getsockname hR

/-- **The end of the monitor in a copy.**  Where each variant stands at its entry stop or has died
there, an executor leaves the process if and only if its copy faults, and then by the signal. -/
theorem execSyscall_exited_iff {c : Syscall} {code : Int} :
    (∃ w', execSyscall K c w = .exited code w') ↔ w.Crashes K c ∧ code = SIGSEGV_STATUS := by
  by_cases hc : c ∈ sizedCalls
  · have hpost := execSyscall_faultsIf (K := K) hR hc
    constructor
    · rintro ⟨w', hrun⟩
      exact (Prog.exited_of_wp hpost hrun).1
    · rintro ⟨hcrash, rfl⟩
      cases hrun : execSyscall K c w with
      | ret r w' => exact absurd hcrash (Prog.ret_of_wp hpost hrun)
      | hung w' => exact absurd hcrash (Prog.hung_of_wp hpost hrun)
      | exited code w' =>
        obtain ⟨⟨-, rfl⟩, -⟩ := Prog.exited_of_wp hpost hrun
        exact ⟨w', rfl⟩
  · refine iff_of_false ?_ fun h => hc h.1.1
    rintro ⟨w', hrun⟩
    exact stays_execSyscall K hc w code w' hrun

/-- It leaves the master alive. -/
theorem alive_of_exited {c : Syscall} {code : Int} {w' : World ρ}
    (hrun : execSyscall K c w = .exited code w') : (w'.proc .master).alive = true := by
  have hc : c ∈ sizedCalls := ((execSyscall_exited_iff hR).1 ⟨w', hrun⟩).1.1
  exact (Prog.exited_of_wp (execSyscall_faultsIf hR hc) hrun).2

end

/-! ## In the main loop -/

/-- The monitor is told of `v`, which meets its partner at the entry of a call, and the copy that
its executor makes faults. -/
def World.FaultsIn (K : Kernel ρ) (w : World ρ) (v : Who) : Prop :=
  (w.woken v).callsSync v ∧ ∃ c : Syscall,
    (∀ u, (((w.woken v).noted v).var u).syscallInfo.op = .entry ∧
      (((w.woken v).noted v).var u).syscallInfo.nr = c.nr) ∧ ((w.woken v).noted v).Crashes K c

end Aurora
