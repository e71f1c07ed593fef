import AuroraMVEE.Replication
import AuroraMVEE.Effects

/-!
# What the replica learns of readiness

`poll` and `pselect6` are made in the master alone; the replica makes a `getpid` and is told
the master's result, and the descriptors that are ready are copied over.

* `poll_replicated` — after a `poll` the replica's array is the master's, byte for byte, and
  nothing else of its memory has changed.
* `ready_sets_replicated_iff` — the sets of a `pselect6` are copied only if some descriptor is
  ready; but the kernel clears them, too, when the time is up.
-/

namespace Aurora

variable {ρ : Type}

/-! ## A transfer of whole words -/

/-- A write of no bytes stores the word it has just read. -/
theorem writeVariantMem_zero (t : Tracee) (localBuf : Buf) (p : Word) :
    (writeVariantMem t localBuf p 0).1.mem = t.mem := by
  unfold writeVariantMem
  rw [if_pos (by norm_num)]
  show (t.poke p (CBuffer.overlay (t.peek p) localBuf 0)).mem = t.mem
  unfold Tracee.poke
  by_cases h : (t.stopped && t.wordMapped p) = true
  · rw [if_pos h]
    funext b
    show (if hd : _ then some (CBuffer.overlay _ _ _ _) else _) = _
    by_cases hd : (b - p).toNat < 8
    · have hmapped : ∀ k : Fin 8, (t.mem (p + BitVec.ofNat 64 k)).isSome :=
        of_decide_eq_true (Bool.and_eq_true_iff.1 h).2
      obtain ⟨x, hx⟩ := Option.isSome_iff_exists.1 (hmapped ⟨(b - p).toNat, hd⟩)
      rw [add_offset] at hx
      rw [dif_pos hd, CBuffer.overlay, if_neg (Nat.not_lt_zero _), Tracee.peek, if_pos h, add_offset, hx]
      rfl
    · rw [dif_neg hd]
  · rw [if_neg h]

/-- Between two mapped ranges of whole words, none included, the transfer is exact. -/
theorem transferVariantMem_words {s d : Who} {w : World ρ} {p q : Word} {n : ℕ}
    (hs : (w.proc s).stopped = true) (hd : (w.proc d).stopped = true)
    (hsrc : (w.proc s).Mapped p (8 * n)) (hdst : (w.proc d).Mapped q (8 * n))
    (hsize : 8 * n ≤ BUF_SIZE) :
    ∃ β, transferVariantMem s p d q (8 * n) w = .ret 0 ((w.withBufs β).setProc d
      { w.proc d with mem := copied (w.proc s).mem (w.proc d).mem p q (8 * n) }) := by
  obtain ⟨β, happly, -⟩ := transferVariantMem_apply s p d q hsize w
    (w.image.not_faults (.inr (Nat.mul_mod_right 8 n)))
  obtain ⟨m, hm⟩ := writeVariantMem_onlyMem (w.proc d) (β .bufA) q (8 * n)
  have hmem : m = copied (w.proc s).mem (w.proc d).mem p q (8 * n) := by
    cases n with
    | zero =>
      have hzero := writeVariantMem_zero (w.proc d) (β .bufA) q
      rw [Nat.mul_zero] at hm ⊢
      rw [hm] at hzero
      rw [copied_zero]
      exact hzero
    | succ n =>
      have hread : (w.proc s).Readable p (8 * (n + 1)) := by
        intro i hi
        apply hsrc.wordMapped
        omega
      have hmax : max (8 * (n + 1)) 8 = 8 * (n + 1) := by omega
      funext b
      have hexact := transferVariantMem_exact hs hd hread (by rw [hmax]; exact hdst)
        (.inr (by omega)) hsize b
      rw [happly, hm] at hexact
      unfold transferExactly at hexact
      rw [if_neg (by omega)] at hexact
      have hleft : (Outcome.state (.ret (0 : Int) ((w.withBufs β).setProc d
          { w.proc d with mem := m }))).proc d = { w.proc d with mem := m } :=
        World.setProc_proc_self _ _ _
      rw [hleft] at hexact
      exact hexact.trans (congrFun (congrArg Tracee.mem (World.setProc_proc_self w d _)) b)
  rw [hm, hmem] at happly
  exact ⟨β, happly⟩

/-- The transfer of an executor, between ranges of whole words that are there. -/
theorem Midway.wp_words {w b : World ρ} {rm : Word} {mm : Mem} {t : Tracee} {o : ρ}
    {P : Prog.Post (World ρ) Int} {g : Int → Mon ρ Int} (hb : Midway w b .exit rm mm t o)
    {p q : Word} {n : ℕ} (hsrc : ∀ i < 8 * n, (mm (p + BitVec.ofNat 64 i)).isSome)
    (hdst : t.Mapped q (8 * n)) (hsize : 8 * n ≤ BUF_SIZE)
    (h : ∀ b', Midway w b' .exit rm mm { t with mem := copied mm t.mem p q (8 * n) } o →
      Prog.wp (g 0) P b') :
    Prog.wp (transferVariantMem .master p .replica q (8 * n) >>= g) P b := by
  obtain ⟨β, happly⟩ := transferVariantMem_words (p := p) (q := q) hb.stopped
    (by rw [hb.proc]; exact hb.replica_stopped (.inr rfl))
    (by unfold Tracee.Mapped; rw [hb.mem]; exact hsrc) (by rw [hb.proc]; exact hdst) hsize
  rw [Prog.wp_bind]
  apply Prog.wp_of_eq_ret happly
  apply h
  rw [hb.mem, hb.proc]
  exact hb.change β t.regs _

/-! ## `poll` -/

/-- The bytes of the `pollfd` array. -/
def World.fdsSize (w : World ρ) : ℕ := 8 * ((w.var .master).syscallInfo.arg 1).toNat

/-- The array is there in both variants, and the master's still after its call. -/
structure World.FdsMapped (K : Kernel ρ) (w : World ρ) : Prop where
  before : ∀ v, (w.proc v).Mapped (w.output .poll v) w.fdsSize
  after : ∀ rm rcx r11 mm, (K.answer .master w).1 = .ret rm rcx r11 mm →
    ∀ i < w.fdsSize, (mm (w.output .poll .master + BitVec.ofNat 64 i)).isSome

/-- In `w'` the replica has the array and the result of the master's `poll`, which returned
`rm`, and its memory is otherwise what it was in `w`. -/
structure World.PollReplicated (w w' : World ρ) (rm : Word) : Prop where
  fds : ∀ i < w.fdsSize, (w'.proc .replica).mem (w.output .poll .replica + BitVec.ofNat 64 i) =
    (w'.proc .master).mem (w.output .poll .master + BitVec.ofNat 64 i)
  frame : ∀ b, w.fdsSize ≤ (b - w.output .poll .replica).toNat →
    (w'.proc .replica).mem b = (w.proc .replica).mem b
  returns : (w'.proc .replica).regs .rax = rm

section

variable {K : Kernel ρ} {w : World ρ}

/-- An array that fits the buffer has as many bytes as its count says. -/
theorem requested_poll (hsize : w.fdsSize ≤ BUF_SIZE) :
    ((w.var .master).syscallInfo.arg 1 * sizeofPollfd).toNat = w.fdsSize := by
  have hbuf : BUF_SIZE = 10000000 := rfl
  have height : (sizeofPollfd : Word).toNat = 8 := rfl
  unfold World.fdsSize at *
  rw [BitVec.toNat_mul, height]
  omega

/-- What a `poll` leaves in the two memories. -/
theorem wp_poll (hx : (w.ctl .master).AtEntry) (hy : (w.ctl .replica).AtEntry)
    (hK : K.SubstitutesQuiet) (hsize : w.fdsSize ≤ BUF_SIZE) (hfds : w.FdsMapped K) :
    Prog.wp (execSyscallPoll K) (onZero fun w' => ∃ rm rcx r11 mm,
      (K.answer .master w).1 = .ret rm rcx r11 mm ∧ (w'.proc .master).mem = mm ∧
      (w'.proc .replica).mem = copied mm (w.proc .replica).mem (w.output .poll .master)
        (w.output .poll .replica) w.fdsSize) w := by
  apply wp_guarded (readOnly_verdict .poll)
  intro β
  apply wp_argOf_eq
  apply wp_argOf_eq
  apply wp_argOf_eq
  refine wp_master (w := w.withBufs β) hx hy rfl (fun _ => onZero_fail) ?_
  intro rm rcx r11 mm hans b hb
  refine hb.wp_substitute hK (.inl rfl) (fun _ _ _ => onZero_fail) ?_
  intro b₁ t o ht hb₁
  have hmem : t.mem = (w.proc .replica).mem := ht
  rw [World.withBufs_var, requested_poll hsize]
  refine hb₁.wp_words (hfds.after rm rcx r11 mm hans) ?_ hsize ?_
  · unfold Tracee.Mapped
    rw [hmem]
    exact hfds.before .replica
  · intro b₂ hb₂
    refine hb₂.wp_rval fun _ _ => hb₂.wp_setReturn _ fun b₃ hb₃ => hb₃.wp_leave fun b₄ hb₄ _ => ?_
    refine ⟨rm, rcx, r11, mm, hans, hb₄.mem, ?_⟩
    rw [hb₄.proc, ← hmem]
    rfl

/-- **`poll` results are replicated exactly.**  Of an array that fits the buffer and is mapped
in both variants, a `poll` that is let through leaves the replica with the master's array,
byte for byte, with the master's whole return value, and with no other byte changed. -/
theorem poll_replicated {w' : World ρ} (hw : w.Arrived .poll) (hK : K.SubstitutesQuiet)
    (hsize : w.fdsSize ≤ BUF_SIZE) (hfds : w.FdsMapped K)
    (hrun : execSyscall K .poll w = .ret 0 w') : ∃ rm rcx r11 mm,
      (K.answer .master w).1 = .ret rm rcx r11 mm ∧ (w'.proc .master).mem = mm ∧
        (w'.proc .master).regs .rax = rm ∧ w.PollReplicated w' rm := by
  have hx := hw.rendezvous.atEntry .master
  have hy := hw.rendezvous.atEntry .replica
  have hbuf : BUF_SIZE = 10000000 := rfl
  obtain ⟨rm, rcx, r11, mm, hans, hmaster, hreplica⟩ := of_onZero (wp_poll hx hy hK hsize hfds) hrun
  obtain ⟨_, rm', _, hserved⟩ := execSyscall_served hx hy (by decide) hrun nofun
  obtain rfl : rm' = rm := by
    obtain ⟨_, _, _, hans'⟩ := hserved.master
    exact (SysResult.ret.inj (hans'.symm.trans hans)).1
  refine ⟨rm', rcx, r11, mm, hans, hmaster, hserved.masterRax, ?_, ?_, hserved.replicaRax⟩
  · intro i hi
    have hoff := offset_add (w.output .poll .replica) (i := i) (by omega)
    have haddr : w.output .poll .replica + BitVec.ofNat 64 i - w.output .poll .replica =
        BitVec.ofNat 64 i := add_sub_cancel_left _ _
    have hsrc := hfds.after rm' rcx r11 mm hans i hi
    rw [← haddr] at hsrc
    rw [hreplica, hmaster, copied_inside (by omega) hsrc (hfds.before .replica i hi), haddr]
  · intro b hb
    rw [hreplica, copied_outside hb]

end

/-! ### One descriptor that is ready -/

/-- A kernel under which the master's call returns 1 and stores `1` at offset 6 from its first
argument, and the replica's calls return 77. -/
def Kernel.oneReady : Kernel Unit where
  syscall v t o := if v = .master then
      (.ret 1 0 0 (fun a => if a = t.regs .rdi + 6 then some 1 else t.mem a), o)
    else (.ret 77 0 0 t.mem, o)
  user _ _ _ := .died
  killed _ := false
  junk := .stopped

theorem oneReady_quiet : Kernel.oneReady.SubstitutesQuiet := by
  intro t o rax rcx r11 mem _ h
  exact (SysResult.ret.inj h).2.2.2.symm

/-- Both variants call `poll(fds, 1, 0)`, with the array at `0x1000` and at `0x2000`. -/
def readyFd : World Unit := .standing
  (fun v => callRegs Syscall.poll.nr ![if v = .master then 0x1000 else 0x2000, 1, 0, 0, 0, 0])
  (fun v a => if (a - if v = .master then 0x1000 else 0x2000).toNat < 8 then some 0 else none) ()

theorem readyFd_mapped : readyFd.FdsMapped .oneReady where
  before v := by cases v <;> (unfold Tracee.Mapped; decide +kernel)
  after rm rcx r11 mm hans := by
    obtain ⟨-, -, -, rfl⟩ := SysResult.ret.inj hans
    decide +kernel

/-- The replica learns of the descriptor that is ready. -/
theorem poll_replicated_one : ∃ w', execSyscall .oneReady .poll readyFd = .ret 0 w' ∧
    readyFd.PollReplicated w' 1 := by
  have hrun : execSyscall .oneReady .poll readyFd = .ret 0 _ :=
    Outcome.eq_ret_of_val? (by decide +kernel)
  obtain ⟨rm, rcx, r11, mm, hans, -, -, hpoll⟩ := poll_replicated
    ⟨rendezvous_standing .poll _ _ (), fun _ => rfl⟩ oneReady_quiet (by decide +kernel)
    readyFd_mapped hrun
  obtain ⟨rfl, -⟩ := SysResult.ret.inj hans
  exact ⟨_, hrun, hpoll⟩

/-! ## `pselect6` -/

/-- The code is that of the source, whose transfer is `transferVariantMem` and which waits with
`waitVariant`. -/
theorem execSyscallPselect6With_waitVariant (K : Kernel ρ) :
    execSyscallPselect6With transferVariantMem K (waitVariant K .replica) = execSyscall K .pselect6 :=
  rfl

/-- A wait that reports the replica's exit stop: its memory is as before, and its registers
and what the kernel remembers are whatever the call has made of them. -/
def ReportsExit (wait : Mon ρ Int) : Prop := ∀ w : World ρ, (w.ctl .replica).AtEntry →
  ∃ regs o, wait w = .ret 0 { w.setProc .replica
    { w.proc .replica with loc := .exit, reported := true, regs := regs } with os := o }

/-! ### What the sets are -/

/-- The sets the two variants hand over: the same are missing, and where a missing one points
there is no memory; the others are there, and in the replica two of them are apart, or
overlap as they do in the master. -/
structure World.SetsPlaced (w : World ρ) : Prop where
  missing : ∀ k, w.fdSets .master k = 0 ↔ w.fdSets .replica k = 0
  nothing : ∀ b : Word, b.toNat < sizeofFdSet → (w.proc .replica).mem b = none
  there : ∀ k, w.fdSets .replica k ≠ 0 → (w.proc .replica).Mapped (w.fdSets .replica k) sizeofFdSet
  alike : ∀ j k, w.fdSets .replica j ≠ 0 → w.fdSets .replica k ≠ 0 →
    w.fdSets .replica j - w.fdSets .replica k = w.fdSets .master j - w.fdSets .master k ∨
      ∀ b, (b - w.fdSets .replica k).toNat < sizeofFdSet →
        sizeofFdSet ≤ (b - w.fdSets .replica j).toNat

/-- What the kernel makes of the master's sets, where it reports `rm` ready descriptors: all
of them are there, and cleared if there is none. -/
structure World.SetsWritten (w : World ρ) (rm : Word) (mm : Mem) : Prop where
  there : ∀ k, w.fdSets .master k ≠ 0 →
    ∀ i < sizeofFdSet, (mm (w.fdSets .master k + BitVec.ofNat 64 i)).isSome
  cleared : rm = 0 → ∀ k, w.fdSets .master k ≠ 0 →
    ∀ i < sizeofFdSet, mm (w.fdSets .master k + BitVec.ofNat 64 i) = some 0

/-- Nobody is waited for: the sets are empty before the call. -/
def World.SetsEmpty (w : World ρ) : Prop := ∀ k, w.fdSets .replica k ≠ 0 →
  ∀ i < sizeofFdSet, (w.proc .replica).mem (w.fdSets .replica k + BitVec.ofNat 64 i) = some 0

/-- In `w'` the replica has the master's sets, and the result `rm`. -/
structure World.SetsReplicated (w w' : World ρ) (rm : Word) : Prop where
  sets : ∀ k, w.fdSets .replica k ≠ 0 → ∀ i < sizeofFdSet,
    (w'.proc .replica).mem (w.fdSets .replica k + BitVec.ofNat 64 i) =
      (w'.proc .master).mem (w.fdSets .master k + BitVec.ofNat 64 i)
  returns : (w'.proc .replica).regs .rax = rm

/-! ### Copying them -/

/-- The memory `m` after the sets `ks` of the master's memory `mm` were copied over, in turn. -/
def World.copiedSets (w : World ρ) (mm : Mem) (ks : List (Fin 3)) (m : Mem) : Mem :=
  ks.foldl (fun m k => copied mm m (w.fdSets .master k) (w.fdSets .replica k) sizeofFdSet) m

section

variable {w : World ρ} {mm m : Mem} {k : Fin 3}

/-- In the memory `m` the set `k` is the master's. -/
def World.HasSet (w : World ρ) (mm m : Mem) (k : Fin 3) : Prop :=
  ∀ b, (b - w.fdSets .replica k).toNat < sizeofFdSet →
    m b = mm (w.fdSets .master k + (b - w.fdSets .replica k))

/-- A copy of one set leaves the others as they should be. -/
theorem World.HasSet.keep (h : w.HasSet mm m k) (hw : w.SetsPlaced) (hk : w.fdSets .replica k ≠ 0)
    (hm : ∀ b, (m b).isSome = ((w.proc .replica).mem b).isSome) (j : Fin 3) :
    w.HasSet mm (copied mm m (w.fdSets .master j) (w.fdSets .replica j) sizeofFdSet) k := by
  intro b hb
  by_cases hin : (b - w.fdSets .replica j).toNat < sizeofFdSet
  · unfold copied
    split
    · -- both sets have this byte: they are apart from each other as in the master
      by_cases hj : w.fdSets .replica j = 0
      · rename_i hsome
        rw [hj, sub_zero] at hin
        have hnone := hm b
        rw [hw.nothing b hin, hsome.2.2] at hnone
        exact absurd hnone (by decide)
      · rcases hw.alike j k hj hk with halike | hapart
        · have haddr : w.fdSets .master j + (b - w.fdSets .replica j) =
              w.fdSets .master k + (b - w.fdSets .replica k) := by
            bv_omega
          rw [haddr]
        · exact absurd (hapart b hb) (by omega)
    · exact h b hb
  · rw [copied_outside (by omega)]
    exact h b hb

/-- A set that is copied is the master's. -/
theorem hasSet_copied (hw : w.SetsPlaced) (hk : w.fdSets .replica k ≠ 0)
    (hm : ∀ b, (m b).isSome = ((w.proc .replica).mem b).isSome)
    (hmm : ∀ i < sizeofFdSet, (mm (w.fdSets .master k + BitVec.ofNat 64 i)).isSome) :
    w.HasSet mm (copied mm m (w.fdSets .master k) (w.fdSets .replica k) sizeofFdSet) k := by
  intro b hb
  have hsrc := hmm _ hb
  have hdst := hw.there k hk _ hb
  rw [ofNat_toNat_word] at hsrc
  rw [add_offset] at hdst
  exact copied_inside hb hsrc ((hm b).trans hdst)

/-- Of the sets that are copied in turn, each is the master's in the end. -/
theorem hasSet_copiedSets (hw : w.SetsPlaced) (hk : w.fdSets .replica k ≠ 0)
    (hmm : ∀ i < sizeofFdSet, (mm (w.fdSets .master k + BitVec.ofNat 64 i)).isSome) :
    ∀ (ks : List (Fin 3)) (m : Mem), (∀ b, (m b).isSome = ((w.proc .replica).mem b).isSome) →
      k ∈ ks ∨ w.HasSet mm m k → w.HasSet mm (w.copiedSets mm ks m) k := by
  intro ks
  induction ks with
  | nil =>
    intro m _ h
    exact h.resolve_left List.not_mem_nil
  | cons j ks ih =>
    intro m hm h
    apply ih _ fun b => copied_isSome.trans (hm b)
    rcases h with hmem | hset
    · rcases List.mem_cons.1 hmem with rfl | hlater
      · exact .inr (hasSet_copied hw hk hm hmm)
      · exact .inl hlater
    · exact .inr (hset.keep hw hk hm j)

end

/-! ### The call -/

section

variable {K : Kernel ρ} {wait : Mon ρ Int} {w v b : World ρ} {rm : Word} {mm : Mem} {t : Tracee} {o : ρ}
  {P : Prog.Post (World ρ) Int} {g : Int → Mon ρ Int}

/-- The `getpid` of the replica, over a wait that reports its end. -/
theorem Midway.wp_reported (hb : Midway v b .entry rm mm t o) (hwait : ReportsExit wait)
    (h : ∀ b' t' o', t'.mem = t.mem → Midway v b' .exit rm mm t' o' → Prog.wp (g 0) P b') :
    Prog.wp (setNopSyscall .replica >>= fun _ => wait >>= g) P b := by
  refine hb.wp_setSyscall _ fun b₁ hb₁ => ?_
  obtain ⟨regs, o', happly⟩ := hwait b₁ hb₁.atEntry
  rw [Prog.wp_bind]
  apply Prog.wp_of_eq_ret happly
  refine h _ { t with loc := .exit, reported := true, regs := regs } o' rfl ?_
  rw [hb₁.proc]
  exact { hb₁ with
    proc := by simp
    os := rfl
    loc := rfl
    reported := rfl }

/-- The three transfers, made only if something is ready. -/
theorem Midway.wp_fdSets (hb : Midway v b .exit rm mm t o) (c : Prop) [Decidable c]
    (h : ∀ a b', Midway v b' .exit rm mm
      { t with mem := if c then w.copiedSets mm [0, 1, 2] t.mem else t.mem } o → Prog.wp (g a) P b') :
    Prog.wp (doIf c (transferFdSets transferExactly (w.fdSets .master) (w.fdSets .replica)) >>= g) P b := by
  have hsize : copySize sizeofFdSet = sizeofFdSet := if_pos (by decide)
  refine wp_doIf (fun hc => ?_) fun hc => ?_
  · rw [if_pos hc] at h
    unfold transferFdSets
    rw [bind_assoc]
    apply hb.wp_exactly
    intro _ b₁ hb₁
    rw [bind_assoc]
    apply hb₁.wp_exactly
    intro _ b₂ hb₂
    apply hb₂.wp_exactly
    simp only [hsize]
    exact h
  · rw [if_neg hc] at h
    exact h 0 b hb

/-- What a `pselect6` leaves behind, over a wait that comes back and an exact transfer. -/
theorem wp_pselect6 (hx : (w.ctl .master).AtEntry) (hy : (w.ctl .replica).AtEntry)
    (hwait : ReportsExit wait) (hans : ∃ rcx r11, (K.answer .master w).1 = .ret rm rcx r11 mm) :
    Prog.wp (execSyscallPselect6With transferExactly K wait) (onZero fun w' =>
      (w'.proc .master).mem = mm ∧
      (w'.proc .replica).mem = (if BitVec.slt 0 (toInt rm) = true then
        w.copiedSets mm [0, 1, 2] (w.proc .replica).mem else (w.proc .replica).mem) ∧
      (w'.proc .replica).regs .rax = ofInt (toInt rm)) w := by
  apply wp_guarded (readOnly_verdict .pselect6)
  intro β
  refine wp_argOf_eq (wp_argOf_eq (wp_argOf_eq (wp_argOf_eq (wp_argOf_eq (wp_argOf_eq ?_)))))
  refine wp_master (w := w.withBufs β) hx hy rfl (fun _ => onZero_fail) ?_
  intro rm' rcx r11 mm' hans' b hb
  obtain ⟨rcx', r11', hans⟩ := hans
  obtain ⟨rfl, -, -, rfl⟩ := SysResult.ret.inj (hans'.symm.trans hans)
  apply hb.wp_rval
  rintro i rfl
  apply hb.wp_reported hwait
  intro b₁ t o ht hb₁
  have hmem : t.mem = (w.proc .replica).mem := ht
  refine hb₁.wp_setReturn _ fun b₂ hb₂ => ?_
  have hsets : ∀ v, ![(w.var v).syscallInfo.arg 1, (w.var v).syscallInfo.arg 2,
      (w.var v).syscallInfo.arg 3] = w.fdSets v := by
    intro v
    funext k
    fin_cases k <;> rfl
  rw [World.withBufs_var, hsets, hsets]
  apply hb₂.wp_fdSets (w := w)
  intro _ b₃ hb₃
  refine hb₃.wp_leave fun b₄ hb₄ _ => ⟨hb₄.mem, ?_, ?_⟩
  · rw [hb₄.proc, ← hmem]
  · rw [hb₄.proc]
    exact told_rax t _

/-- A result that fits an `int` and is no error counts as positive exactly if it is not zero. -/
theorem slt_toInt_iff (hfit : ofInt (toInt rm) = rm) (hr : 0 ≤ rm.toInt) :
    BitVec.slt 0 (toInt rm) = true ↔ rm ≠ 0 := by
  have hvalue : rm.toInt = (toInt rm).toInt := by
    conv_lhs => rw [← hfit]
    exact BitVec.toInt_signExtend_of_le (by norm_num)
  rw [BitVec.slt_iff_toInt_lt, show BitVec.toInt (0 : BitVec 32) = 0 from rfl, ← hvalue]
  constructor
  · rintro hpos rfl
    exact absurd hpos (by decide)
  · intro hne
    refine lt_of_le_of_ne hr fun hzero => hne ?_
    exact BitVec.eq_of_toInt_eq (hzero.symm.trans BitVec.toInt_zero.symm)

/-- **Ready sets.**  Taking the wait to report the replica's exit stop and the transfers to be
exact, a `pselect6` of which the master's call returns `rm`, no error, leaves the replica
with the master's sets and result if and only if `rm` fits an `int` and some descriptor is
ready, or the sets were empty in the first place. -/
theorem ready_sets_replicated_iff {w' : World ρ} {rcx r11 : Word} (hwait : ReportsExit wait)
    (hw : w.Arrived .pselect6) (hplaced : w.SetsPlaced)
    (hans : (K.answer .master w).1 = .ret rm rcx r11 mm) (hr : 0 ≤ rm.toInt)
    (hwritten : w.SetsWritten rm mm)
    (hrun : execSyscallPselect6With transferExactly K wait w = .ret 0 w') :
    w.SetsReplicated w' rm ↔ ofInt (toInt rm) = rm ∧ (rm ≠ 0 ∨ w.SetsEmpty) := by
  obtain ⟨hmaster, hreplica, hrax⟩ := of_onZero (wp_pselect6 (hw.rendezvous.atEntry .master)
    (hw.rendezvous.atEntry .replica) hwait ⟨rcx, r11, hans⟩) hrun
  constructor
  · intro h
    refine ⟨hrax.symm.trans h.returns, or_iff_not_imp_left.2 fun hzero k hk i hi => ?_⟩
    -- nothing was copied, and the master's sets are cleared
    have hset := h.sets k hk i hi
    have hnone := (slt_toInt_iff (hrax.symm.trans h.returns) hr).not.2 hzero
    rw [hreplica, if_neg hnone, hmaster] at hset
    rw [hset]
    exact hwritten.cleared (not_not.1 hzero) k (mt (hplaced.missing k).1 hk) i hi
  · rintro ⟨hfit, hready⟩
    refine ⟨fun k hk i hi => ?_, hrax.trans hfit⟩
    have hk' : w.fdSets .master k ≠ 0 := mt (hplaced.missing k).1 hk
    rw [hreplica, hmaster]
    by_cases hzero : rm = 0
    · rw [if_neg fun hpos => (slt_toInt_iff hfit hr).1 hpos hzero]
      rw [hready.resolve_left (not_not.2 hzero) k hk i hi, hwritten.cleared hzero k hk' i hi]
    · rw [if_pos ((slt_toInt_iff hfit hr).2 hzero)]
      have hset := hasSet_copiedSets hplaced hk (hwritten.there k hk') [0, 1, 2] _ (fun _ => rfl)
        (.inl (by fin_cases k <;> decide))
      have hsize : sizeofFdSet < 2 ^ 64 := by decide
      have hoff := offset_add (w.fdSets .replica k) (i := i) (by omega)
      have haddr : w.fdSets .replica k + BitVec.ofNat 64 i - w.fdSets .replica k =
          BitVec.ofNat 64 i := add_sub_cancel_left _ _
      rw [hset _ (by omega), haddr]

end

/-! ### The time is up -/

/-- A wait that comes back with the replica at its exit stop, whatever it was. -/
def exitReported : Mon ρ Int := fun w =>
  .ret 0 (w.setProc .replica { w.proc .replica with loc := .exit, reported := true })

theorem reportsExit_exitReported : ReportsExit (exitReported : Mon ρ Int) :=
  fun w _ => ⟨(w.proc .replica).regs, w.os, rfl⟩

/-- Memory in which the kernel has stored a set at `a`, of one descriptor if `r` is not zero. -/
def selectedMem (m : Mem) (a r : Word) : Mem := fun b =>
  if (b - a).toNat < sizeofFdSet then some (if b = a ∧ r ≠ 0 then 1 else 0) else m b

/-- A kernel under which every call returns `r`, and stores such a set at its second argument. -/
def Kernel.selecting (r : Word) : Kernel Unit where
  syscall _ t o := (.ret r 0 0 (selectedMem t.mem (t.regs .rsi) r), o)
  user _ _ _ := .died
  killed _ := false
  junk := .stopped

/-- Both variants ask which of the descriptors 0 and 1 are readable, with the set at `0x1000` and at
`0x2000`, and a timeout of zero at `0x3000`. -/
def selectTwo : World Unit := .standing
  (fun v => callRegs Syscall.pselect6.nr
    ![2, if v = .master then 0x1000 else 0x2000, 0, 0, 0x3000, 0])
  (fun v a => if (a - if v = .master then 0x1000 else 0x2000).toNat < sizeofFdSet then
      some (if a = 0x1000 ∨ a = 0x2000 then 3 else 0)
    else if (a - 0x3000).toNat < 16 then some 0 else none) ()

theorem selectTwo_arrived : selectTwo.Arrived .pselect6 :=
  ⟨rendezvous_standing .pselect6 _ _ (), fun _ => rfl⟩

theorem selectTwo_placed : selectTwo.SetsPlaced where
  missing := by decide +kernel
  nothing b hb := by
    have hfar : ¬ (b - 0x2000).toNat < sizeofFdSet ∧ ¬ (b - 0x3000).toNat < 16 := by
      unfold sizeofFdSet at *
      bv_omega
    exact (if_neg hfar.1).trans (if_neg hfar.2)
  there := by
    unfold Tracee.Mapped
    decide +kernel
  alike j k hj hk := by
    left
    fin_cases j <;> fin_cases k <;> first | rfl | exact absurd rfl hj | exact absurd rfl hk

theorem selectTwo_written (r : Word) :
    selectTwo.SetsWritten r (selectedMem (selectTwo.proc .master).mem 0x1000 r) := by
  have hset : ∀ i < sizeofFdSet, selectedMem (selectTwo.proc .master).mem 0x1000 r
      (0x1000 + BitVec.ofNat 64 i) = some (if (0x1000 + BitVec.ofNat 64 i : Word) = 0x1000 ∧ r ≠ 0
        then 1 else 0) := by
    intro i hi
    have hsize : sizeofFdSet < 2 ^ 64 := by decide
    have hoff := offset_add 0x1000 (i := i) (by omega)
    exact if_pos (by omega)
  constructor
  · intro k hk i hi
    fin_cases k
    · show (selectedMem (selectTwo.proc .master).mem 0x1000 r (0x1000 + BitVec.ofNat 64 i)).isSome
      rw [hset i hi]
      rfl
    · exact absurd rfl hk
    · exact absurd rfl hk
  · rintro rfl k hk i hi
    fin_cases k
    · show selectedMem (selectTwo.proc .master).mem 0x1000 0 (0x1000 + BitVec.ofNat 64 i) = some 0
      rw [hset i hi, if_neg (by simp)]
    · exact absurd rfl hk
    · exact absurd rfl hk

/-- The master's set is cleared, and the replica still finds both descriptors in its own. -/
theorem timeout_leaves_request : ReportsExit (exitReported : Mon Unit Int) ∧ selectTwo.SetsPlaced ∧
    selectTwo.SetsWritten 0 (selectedMem (selectTwo.proc .master).mem 0x1000 0) ∧
    ∃ w', execSyscallPselect6With transferExactly (.selecting 0) exitReported selectTwo = .ret 0 w' ∧
      (w'.proc .master).mem 0x1000 = some 0 ∧ (w'.proc .replica).mem 0x2000 = some 3 ∧
        ¬ selectTwo.SetsReplicated w' 0 := by
  have hrun : execSyscallPselect6With transferExactly (.selecting 0) exitReported selectTwo = .ret 0 _ :=
    Outcome.eq_ret_of_val? (by decide +kernel)
  have hmaster : ((execSyscallPselect6With transferExactly (.selecting 0)
      exitReported selectTwo).state.proc .master).mem 0x1000 = some 0 := by decide +kernel
  have hreplica : ((execSyscallPselect6With transferExactly (.selecting 0)
      exitReported selectTwo).state.proc .replica).mem 0x2000 = some 3 := by decide +kernel
  refine ⟨reportsExit_exitReported, selectTwo_placed, selectTwo_written 0, _, hrun, hmaster, hreplica,
    fun h => ?_⟩
  have hset := h.sets 0 (by decide) 0 (by decide)
  exact absurd (hreplica.symm.trans (hset.trans hmaster)) (by decide)

/-- One of the two is ready, and the replica learns which. -/
theorem ready_sets_replicated_two : ∃ w',
    execSyscallPselect6With transferExactly (.selecting 1) exitReported selectTwo = .ret 0 w' ∧
      selectTwo.SetsReplicated w' 1 := by
  have hrun : execSyscallPselect6With transferExactly (.selecting 1) exitReported selectTwo = .ret 0 _ :=
    Outcome.eq_ret_of_val? (by decide +kernel)
  exact ⟨_, hrun, (ready_sets_replicated_iff reportsExit_exitReported selectTwo_arrived
    selectTwo_placed rfl (by decide) (selectTwo_written 1) hrun).2 ⟨by decide, .inl (by decide)⟩⟩

end Aurora
