import AuroraMVEE.Served
import AuroraMVEE.Faults

/-!
# Replication writes what the kernel wrote

Six executors copy an output buffer of the master over to the replica.  How the copy is
made is left open here: `execSyscallWith` is their code over any transfer, and
`transferExactly` is one that copies what it is asked to, byte by byte.  What it is asked to
copy, and where to, is the code's own: `accept4` and `getsockname` may find a pointer changed
by the read of the length (`World.copiedFrom`, `World.copiedTo`).

What the kernel writes for a call is what the manual says (`kernelWrites`); it need not be
as much as the executor asks for.  `replicates_only_written_iff` says when all the same
nothing else of the replica's memory is changed.
-/

namespace Aurora

variable {ρ : Type}

/-! ## The executors over a transfer -/

/-- The executors that copy an output buffer. -/
def replicatingCalls : List Syscall := [.newfstatat, .accept4, .getsockname, .poll, .read, .pread64]

section

variable (T : Transfer ρ) (K : Kernel ρ)

/-- The executors over the transfer `T`; the others make none. -/
def execSyscallWith : Syscall → Mon ρ Int
  | .newfstatat => execSyscallNewfstatatWith T K
  | .accept4 => execSyscallAccept4With T K
  | .getsockname => execSyscallGetsocknameWith T K
  | .poll => execSyscallPollWith T K
  | .read => execSyscallReadWith T K
  | .pread64 => execSyscallPread64With T K
  | c => execSyscall K c

/-- The code is that of the source, whose transfer is `transferVariantMem`. -/
theorem execSyscallWith_transferVariantMem (c : Syscall) :
    execSyscallWith transferVariantMem K c = execSyscall K c := by
  cases c <;> rfl

end

/-! ## The exact transfer -/

/-- Memory after a copy of `size` bytes from `p` in `src` to `q`; a byte that is missing at
either end is not copied. -/
def copied (src dst : Mem) (p q : Word) (size : ℕ) : Mem := fun b =>
  if (b - q).toNat < size ∧ (src (p + (b - q))).isSome ∧ (dst b).isSome then src (p + (b - q)) else dst b

/-- A transfer that copies exactly the requested bytes. -/
def transferExactly : Transfer ρ := fun s p d q size =>
  if BUF_SIZE < size then return -1
  else do
    Prog.modify fun w =>
      w.setProc d { w.proc d with mem := copied (w.proc s).mem (w.proc d).mem p q size }
    return 0

@[simp] theorem copied_zero (src dst : Mem) (p q : Word) : copied src dst p q 0 = dst := by
  funext b
  exact if_neg fun h => absurd h.1 (Nat.not_lt_zero _)

/-- A mapped byte of the copied range is the source's. -/
theorem copied_inside {src dst : Mem} {p q b : Word} {size : ℕ} (h : (b - q).toNat < size)
    (hsrc : (src (p + (b - q))).isSome) (hdst : (dst b).isSome) :
    copied src dst p q size b = src (p + (b - q)) := if_pos ⟨h, hsrc, hdst⟩

/-- Outside of the copied range memory is as it was. -/
theorem copied_outside {src dst : Mem} {p q b : Word} {size : ℕ} (h : size ≤ (b - q).toNat) :
    copied src dst p q size b = dst b := if_neg fun hb => absurd hb.1 (by omega)

/-- A copy maps nothing and unmaps nothing. -/
theorem copied_isSome {src dst : Mem} {p q b : Word} {size : ℕ} :
    (copied src dst p q size b).isSome = (dst b).isSome := by
  unfold copied
  split
  · next h => rw [h.2.1, h.2.2]
  · rfl

/-- Within it a byte stays exactly if the two sides do not hold different ones. -/
theorem copied_eq_iff {src dst : Mem} {p q b : Word} {size : ℕ} (h : (b - q).toNat < size) :
    copied src dst p q size b = dst b ↔
      ∀ x y, src (p + (b - q)) = some x → dst b = some y → x = y := by
  unfold copied
  cases hsrc : src (p + (b - q)) with
  | none => simp
  | some x => cases hdst : dst b with
    | none => simp
    | some y =>
      rw [if_pos ⟨h, rfl, rfl⟩]
      exact ⟨fun he _ _ hx hy => Option.some.inj (hx.symm.trans (he.trans hy)),
        fun he => congrArg some (he x y rfl rfl)⟩

/-- Between buffers that are there at both ends, and for a whole number of words,
`transferVariantMem` is exact. -/
theorem transferVariantMem_exact {s d : Who} {w : World ρ} {p q : Word} {size : ℕ}
    (hs : (w.proc s).stopped = true) (hd : (w.proc d).stopped = true)
    (hread : (w.proc s).Readable p size) (hmap : (w.proc d).Mapped q (max size 8))
    (hwhole : WholeWords size) (hsize : size ≤ BUF_SIZE) (b : Word) :
    ((transferVariantMem s p d q size w).state.proc d).mem b =
      ((transferExactly s p d q size w).state.proc d).mem b := by
  have hword : BUF_SIZE < 2 ^ 63 := by decide
  have hexact := (exactWrite_iff hd hmap (by omega)).2 hwhole
  obtain ⟨β, happly, hβ⟩ := transferVariantMem_apply s p d q hsize w (w.image.not_faults hwhole)
  have hexactly : ((transferExactly s p d q size w).state.proc d).mem =
      copied (w.proc s).mem (w.proc d).mem p q size := by
    unfold transferExactly
    rw [if_neg (by omega)]
    exact congrArg Tracee.mem (World.setProc_proc_self w d _)
  rw [happly, hexactly]
  show (((w.withBufs β).setProc d _).proc d).mem b = _
  rw [World.setProc_proc_self]
  by_cases hb : (b - q).toNat < size
  · have hstored := (hexact (β .bufA)).stores _ hb
    have hsrc := mem_of_wordMapped hs (hread _ hb)
    have hdst := hmap (b - q).toNat (lt_max_of_lt_left hb)
    rw [add_offset] at hstored hdst
    rw [ofNat_toNat_word] at hsrc
    rw [hstored, copied_inside hb (by rw [hsrc]; rfl) hdst, hsrc, hβ _ hb]
  · rw [(hexact (β .bufA)).frame b (by omega), copied_outside (by omega)]

/-! ## Following an executor -/

/-- What an executor returns, and what it leaves in the replica's memory. -/
def leaves (R : Int → Mem → Prop) : Prog.Post (World ρ) Int :=
  ⟨fun r w' => R r (w'.proc .replica).mem, fun _ => False, fun _ _ => False⟩

/-- The replica's kernel leaves its memory alone in the calls the monitor puts in. -/
def Kernel.SubstitutesQuiet (K : Kernel ρ) : Prop := ∀ t o rax rcx r11 mem,
  t.regs .origRax = Syscall.getpid.nr ∨ t.regs .origRax = Syscall.lseek.nr →
    (K.syscall .replica t o).1 = .ret rax rcx r11 mem → mem = t.mem

/-- How much of the size asked for is copied. -/
def copySize (size : ℕ) : ℕ := if size ≤ BUF_SIZE then size else 0

section

variable {K : Kernel ρ} {w b : World ρ} {l : Loc} {rm : Word} {mm mr : Mem} {t : Tracee} {o : ρ}
  {R : Int → Mem → Prop} {P : Prog.Post (World ρ) Int} {f : Mon ρ Int} {g : Int → Mon ρ Int}

theorem wp_masterCopy (hx : (w.ctl .master).AtEntry) (hy : (w.ctl .replica).AtEntry)
    (hfail : g (-1) = pure (-1)) (hgo : g 0 = requestSyscallInfo .master >>= fun _ => f)
    (hR : R (-1) (w.proc .replica).mem)
    (h : ∀ rm rcx r11 mm, (K.answer .master w).1 = .ret rm rcx r11 mm → ∀ b,
      Midway w b .entry rm mm (w.proc .replica) (K.answer .master w).2 → Prog.wp f (leaves R) b) :
    Prog.wp (resumeAndWait K .master >>= g) (leaves R) w := by
  refine wp_master hx hy hgo (fun _ => ?_) h
  rw [hfail]
  show R (-1) ((w.through K .master).proc .replica).mem
  rw [through_proc_of_ne K (by decide)]
  exact hR

namespace Midway

theorem wp_fail (hb : Midway w b l rm mm t o) (hR : R (-1) t.mem) :
    Prog.wp (pure (-1)) (leaves R) b := by
  show R (-1) (b.proc .replica).mem
  rw [hb.proc]
  exact hR

/-- The last two steps of each executor. -/
theorem wp_leaves (hb : Midway w b .exit rm mm t o) (hR : R 0 t.mem) :
    Prog.wp (do
      resumeVariantFromExit .master
      resumeVariantFromExit .replica
      return 0 : Mon ρ Int) (leaves R) b := by
  refine hb.wp_leave fun b' hb' => ?_
  show R 0 (b'.proc .replica).mem
  rw [hb'.proc]
  exact hR

/-- The exact transfer. -/
theorem wp_exactly (hb : Midway w b l rm mm t o) (p q : Word) (size : ℕ)
    (h : ∀ a b', Midway w b' l rm mm { t with mem := copied mm t.mem p q (copySize size) } o →
      Prog.wp (g a) P b') : Prog.wp (transferExactly .master p .replica q size >>= g) P b := by
  unfold transferExactly copySize at *
  by_cases hsize : size ≤ BUF_SIZE
  · rw [if_neg (by omega)]
    rw [if_pos hsize] at h
    refine h 0 (b.setProc .replica { b.proc .replica with
      mem := copied (b.proc .master).mem (b.proc .replica).mem p q size }) ?_
    rw [hb.mem, hb.proc]
    exact hb.change b.bufs t.regs _
  · rw [if_pos (by omega)]
    rw [if_neg hsize, copied_zero] at h
    exact h (-1) b hb

theorem wp_doExactly (hb : Midway w b l rm mm t o) (c : Prop) [Decidable c] (p q : Word) (size : ℕ)
    (h : ∀ a b', Midway w b' l rm mm
      { t with mem := copied mm t.mem p q (copySize (if c then size else 0)) } o → Prog.wp (g a) P b') :
    Prog.wp (doIf c (transferExactly .master p .replica q size) >>= g) P b := by
  refine wp_doIf (fun hc => ?_) fun hc => ?_
  · rw [if_pos hc] at h
    exact hb.wp_exactly p q size h
  · rw [if_neg hc, copySize, if_pos (Nat.zero_le _), copied_zero] at h
    exact h 0 b hb

/-- The replica's half: the monitor puts a call in, which leaves the memory. -/
theorem wp_substitute (hb : Midway w b .entry rm mm t o) (hK : K.SubstitutesQuiet) {call : Word}
    (hcall : call = Syscall.getpid.nr ∨ call = Syscall.lseek.nr)
    (hdied : ¬ K.Returns → ∀ b' : World ρ, (b'.proc .replica).mem = t.mem → Prog.wp (g (-1)) P b')
    (h : ∀ b' t' o', t'.mem = t.mem → Midway w b' .exit rm mm t' o' → Prog.wp (g 0) P b') :
    Prog.wp (setSyscall .replica call >>= fun _ => resumeAndWait K .replica >>= g) P b := by
  refine hb.wp_setSyscall call fun b₁ hb₁ => hb₁.wp_replica
    (fun hans => hdied fun hret => hret _ _ _ hans) ?_
  intro rr rcx r11 mr hans b' hb'
  refine h b' _ _ ?_ hb'
  have hnr : Function.update t.regs .origRax call .origRax = call := Function.update_self _ _ _
  have hquiet := hK _ o rr rcx r11 mr (by rw [resume_regs]; simpa only [hnr] using hcall) hans
  exact hquiet.trans (resume_mem _)

/-- A replica that does not come back leaves its memory behind. -/
theorem wp_lost (hR : R (-1) mr) (hfail : g (-1) = pure (-1)) (b' : World ρ)
    (hb' : (b'.proc .replica).mem = mr) : Prog.wp (g (-1)) (leaves R) b' := by
  rw [hfail]
  show R (-1) (b'.proc .replica).mem
  rw [hb']
  exact hR

end Midway

end

/-! ## What each executor copies -/

/-- The position of the output buffer among the arguments. -/
def outputArg : Syscall → Fin 6
  | .newfstatat => 2
  | .poll => 0
  | _ => 1

/-- The address of the output buffer of `v`. -/
def World.output (w : World ρ) (c : Syscall) (v : Who) : Word := (w.var v).syscallInfo.arg (outputArg c)

/-- Pointer `n` of the executor when it copies, of `p` before it read the length. -/
def World.pointer (w : World ρ) (c : Syscall) (mm : Mem) (n : Neighbour) (p : Word) : Word :=
  match c with
  | .accept4 => w.image.pointerAfter .masterAddrLen n
      ({ w.proc .master with mem := mm }.socklenWord ((w.var .master).syscallInfo.arg 2)) p
  | .getsockname => w.image.pointerAfter .masterLen n
      ((w.proc .master).socklenWord ((w.var .master).syscallInfo.arg 2)) p
  | _ => p

/-- Where the executor copies from. -/
def World.copiedFrom (w : World ρ) (c : Syscall) (mm : Mem) : Word :=
  w.pointer c mm .source (w.output c .master)

/-- Where the executor copies to. -/
def World.copiedTo (w : World ρ) (c : Syscall) (mm : Mem) : Word :=
  w.pointer c mm .destination (w.output c .replica)

/-- Nothing that matters lies behind a four-byte variable. -/
def World.ReadsExactly (w : World ρ) : Prop := ∀ l, w.image.neighbour l = .spare

/-- Then the pointers are those of the program. -/
theorem World.ReadsExactly.pointer {w : World ρ} (h : w.ReadsExactly) (c : Syscall) (mm : Mem)
    {n : Neighbour} (hn : n ≠ .spare) (p : Word) : w.pointer c mm n p = p := by
  have hkeeps : ∀ l b, w.image.pointerAfter l n b p = p := fun l b =>
    if_neg fun heq => hn (heq.symm.trans (h l))
  unfold World.pointer
  split
  · exact hkeeps _ _
  · exact hkeeps _ _
  · rfl

/-- `m` is the replica's memory with the master's output copied over. -/
def World.Replicated (K : Kernel ρ) (c : Syscall) (w : World ρ) (m : Mem) : Prop :=
  ∃ rm rcx r11 mm, (K.answer .master w).1 = .ret rm rcx r11 mm ∧
    m = copied mm (w.proc .replica).mem (w.copiedFrom c mm) (w.copiedTo c mm)
      (copySize (w.requested c rm mm))

/-- An executor that succeeds has copied the output; one that does not has done so or not. -/
def World.ReplicatedOr (K : Kernel ρ) (c : Syscall) (w : World ρ) (r : Int) (m : Mem) : Prop :=
  (r = 0 → w.Replicated K c m) ∧ (m = (w.proc .replica).mem ∨ w.Replicated K c m)

section

variable {K : Kernel ρ} {w : World ρ} {c : Syscall}

theorem replicatedOr_none : w.ReplicatedOr K c (-1) (w.proc .replica).mem :=
  ⟨fun h => absurd h (by decide), .inl rfl⟩

theorem World.Replicated.or {m : Mem} (h : w.Replicated K c m) (r : Int) : w.ReplicatedOr K c r m :=
  ⟨fun _ => h, .inr h⟩

/-- A comparison comes first. -/
theorem replicated_guarded {eq : Mon ρ Bool} {body : Mon ρ Int} (heq : ReadOnly eq)
    (hx : (w.ctl .master).AtEntry) (hy : (w.ctl .replica).AtEntry)
    (h : ∀ b : World ρ, (b.ctl .master).AtEntry → (b.ctl .replica).AtEntry →
      Prog.wp body (leaves (b.ReplicatedOr K c)) b) :
    Prog.wp (guarded eq body) (leaves (w.ReplicatedOr K c)) w := by
  obtain ⟨a, β, hβ⟩ := heq w
  unfold Prog.wp
  cases a with
  | true =>
    rw [guarded_true hβ]
    exact h (w.withBufs β) hx hy
  | false =>
    rw [guarded_false hβ]
    exact replicatedOr_none

variable (hK : K.SubstitutesQuiet) (hx : (w.ctl .master).AtEntry) (hy : (w.ctl .replica).AtEntry)

include hK hx hy

theorem replicated_read :
    Prog.wp (execSyscallReadWith transferExactly K) (leaves (w.ReplicatedOr K .read)) w := by
  refine replicated_guarded (readOnly_verdict .read) hx hy fun w hx hy => ?_
  refine wp_argOf_eq (wp_argOf_eq (wp_argOf_eq ?_))
  refine wp_masterCopy hx hy rfl rfl replicatedOr_none fun rm rcx r11 mm hans b hb => hb.wp_rval ?_
  rintro i rfl
  refine hb.wp_doExactly _ _ _ _ fun a b₁ hb₁ => ?_
  have hdone : w.Replicated K .read _ := ⟨_, rcx, r11, mm, hans, rfl⟩
  split
  · exact hb₁.wp_fail (hdone.or _)
  refine hb₁.wp_setLseekRegs _ _ fun b₂ hb₂ => ?_
  refine hb₂.wp_substitute hK (.inr rfl) (fun _ => Midway.wp_lost (hdone.or _) rfl)
    fun b₃ t' o' ht' hb₃ => ?_
  exact hb₃.wp_setReturn _ fun b₄ hb₄ => hb₄.wp_leaves (ht' ▸ hdone.or _)

theorem replicated_pread64 :
    Prog.wp (execSyscallPread64With transferExactly K) (leaves (w.ReplicatedOr K .pread64)) w := by
  refine replicated_guarded (readOnly_verdict .pread64) hx hy fun w hx hy => ?_
  refine wp_argOf_eq (wp_argOf_eq ?_)
  refine wp_masterCopy hx hy rfl rfl replicatedOr_none fun rm rcx r11 mm hans b hb => hb.wp_rval ?_
  rintro i rfl
  refine hb.wp_exactly _ _ _ fun a b₁ hb₁ => ?_
  have hdone : w.Replicated K .pread64 _ := ⟨_, rcx, r11, mm, hans, rfl⟩
  split
  · exact hb₁.wp_fail (hdone.or _)
  refine hb₁.wp_substitute hK (.inl rfl) (fun _ => Midway.wp_lost (hdone.or _) rfl)
    fun b₂ t' o' ht' hb₂ => ?_
  exact hb₂.wp_setReturn _ fun b₃ hb₃ => hb₃.wp_leaves (ht' ▸ hdone.or _)

theorem replicated_newfstatat : Prog.wp (execSyscallNewfstatatWith transferExactly K)
    (leaves (w.ReplicatedOr K .newfstatat)) w := by
  refine replicated_guarded (readOnly_verdict .newfstatat) hx hy fun w hx hy => ?_
  refine wp_argOf_eq (wp_argOf_eq ?_)
  refine wp_masterCopy hx hy rfl rfl replicatedOr_none fun rm rcx r11 mm hans b hb => hb.wp_rval ?_
  rintro i rfl
  refine hb.wp_exactly _ _ _ fun a b₁ hb₁ => ?_
  have hdone : w.Replicated K .newfstatat _ := ⟨_, rcx, r11, mm, hans, rfl⟩
  split
  · exact hb₁.wp_fail (hdone.or _)
  refine hb₁.wp_substitute hK (.inl rfl) (fun _ => Midway.wp_lost (hdone.or _) rfl)
    fun b₂ t' o' ht' hb₂ => ?_
  exact hb₂.wp_setReturn _ fun b₃ hb₃ => hb₃.wp_leaves (ht' ▸ hdone.or _)

theorem replicated_poll :
    Prog.wp (execSyscallPollWith transferExactly K) (leaves (w.ReplicatedOr K .poll)) w := by
  refine replicated_guarded (readOnly_verdict .poll) hx hy fun w hx hy => ?_
  refine wp_argOf_eq (wp_argOf_eq (wp_argOf_eq ?_))
  refine wp_masterCopy hx hy rfl rfl replicatedOr_none fun rm rcx r11 mm hans b hb => ?_
  refine hb.wp_substitute hK (.inl rfl) (fun _ => Midway.wp_lost replicatedOr_none rfl)
    fun b₁ t' o' ht' hb₁ => ?_
  refine hb₁.wp_exactly _ _ _ fun a b₂ hb₂ => ?_
  rw [ht'] at hb₂
  have hdone : w.Replicated K .poll _ := ⟨_, rcx, r11, mm, hans, rfl⟩
  show Prog.wp (if a ≠ 0 then pure (-1) else _) _ _
  split
  · exact hb₂.wp_fail (hdone.or _)
  exact hb₂.wp_rval fun _ _ => hb₂.wp_setReturn _ fun b₃ hb₃ => hb₃.wp_leaves (hdone.or _)

/-- Here the size is read once the kernel has written it. -/
theorem replicated_accept4 :
    Prog.wp (execSyscallAccept4With transferExactly K) (leaves (w.ReplicatedOr K .accept4)) w := by
  refine replicated_guarded (readOnly_verdict .accept4) hx hy fun w hx hy => ?_
  refine wp_argOf_eq (wp_argOf_eq (wp_argOf_eq ?_))
  refine wp_masterCopy hx hy rfl rfl replicatedOr_none fun rm rcx r11 mm hans b hb => ?_
  refine hb.wp_substitute hK (.inl rfl) (fun _ => Midway.wp_lost replicatedOr_none rfl)
    fun b₁ t' o' ht' hb₁ => ?_
  have hword : (b₁.proc .master).socklenWord ((w.var .master).syscallInfo.arg 2) =
      { w.proc .master with mem := mm }.socklenWord ((w.var .master).syscallInfo.arg 2) :=
    Tracee.socklenWord_congr (t := { w.proc .master with mem := mm })
      (hb₁.stopped.trans (stopped_of_atEntry hx).symm) hb₁.mem _
  have hrest : ∀ b₂ m, Midway w b₂ .exit rm mm { t' with mem := m } o' →
      w.ReplicatedOr K .accept4 0 m → Prog.wp (do
        setSyscallReturnValue .replica (← syscallInfoOf .master).rval
        resumeVariantFromExit .master
        resumeVariantFromExit .replica
        return 0 : Mon ρ Int) (leaves (w.ReplicatedOr K .accept4)) b₂ := fun b₂ m hb₂ hm =>
    hb₂.wp_rval fun _ _ => hb₂.wp_setReturn _ fun b₃ hb₃ => hb₃.wp_leaves hm
  refine wp_doIf (fun haddr => ?_) fun haddr => ?_
  · rw [bind_assoc]
    refine wp_readShort ?_
    rw [bind_assoc, readShort_word, hword]
    refine hb₁.wp_image (hb₁.wp_exactly _ _ _ fun a b₂ hb₂ => hrest b₂ _ hb₂ ?_)
    have hsize : w.requested .accept4 rm mm =
        { w.proc .master with mem := mm }.socklenAt ((w.var .master).syscallInfo.arg 2) := if_pos haddr
    rw [ht', lowHalf_socklenWord, ← hsize]
    exact World.Replicated.or ⟨rm, rcx, r11, mm, hans, rfl⟩ 0
  · have hsize : w.requested .accept4 rm mm = 0 := if_neg haddr
    refine hrest b₁ t'.mem hb₁ (World.Replicated.or ⟨rm, rcx, r11, mm, hans, ?_⟩ 0)
    rw [hsize, copySize, if_pos (Nat.zero_le _), copied_zero, ht']

/-- Here before. -/
theorem replicated_getsockname : Prog.wp (execSyscallGetsocknameWith transferExactly K)
    (leaves (w.ReplicatedOr K .getsockname)) w := by
  refine replicated_guarded (readOnly_verdict .getsockname) hx hy fun w hx hy => ?_
  refine wp_argOf_eq (wp_argOf_eq (wp_argOf_eq (wp_readShort ?_)))
  rw [readShort_word]
  show Prog.wp (resumeAndWait K .master >>= _) _ w
  refine wp_masterCopy hx hy rfl rfl replicatedOr_none fun rm rcx r11 mm hans b hb => ?_
  refine hb.wp_substitute hK (.inl rfl) (fun _ => Midway.wp_lost replicatedOr_none rfl)
    fun b₁ t' o' ht' hb₁ => ?_
  refine hb₁.wp_rval fun _ _ => hb₁.wp_setReturn _ fun b₂ hb₂ => hb₂.wp_rval ?_
  rintro i rfl
  refine hb₂.wp_doExactly _ _ _ _ fun a b₃ hb₃ => hb₃.wp_leaves ?_
  exact World.Replicated.or ⟨_, rcx, r11, mm, hans, by rw [← ht']; rfl⟩ 0

/-- **What the six executors copy.** -/
theorem execSyscallWith_replicated (hc : c ∈ replicatingCalls) :
    Prog.wp (execSyscallWith transferExactly K c) (leaves (w.ReplicatedOr K c)) w := by
  simp only [replicatingCalls, List.mem_cons, List.not_mem_nil, or_false] at hc
  rcases hc with rfl | rfl | rfl | rfl | rfl | rfl
  · exact replicated_newfstatat hK hx hy
  · exact replicated_accept4 hK hx hy
  · exact replicated_getsockname hK hx hy
  · exact replicated_poll hK hx hy
  · exact replicated_read hK hx hy
  · exact replicated_pread64 hK hx hy

end

/-! ## What the kernel writes -/

/-- The `socklen_t` at `a`. -/
def socklenIn (m : Mem) (a : Word) : ℕ :=
  ((m (a + 0)).getD 0).toNat + 256 * ((m (a + 1)).getD 0).toNat +
    65536 * ((m (a + 2)).getD 0).toNat + 16777216 * ((m (a + 3)).getD 0).toNat

/-- Of a socket address the kernel writes no more than there is, and no more than the
buffer is said to hold. -/
def addressBytes (m m' : Mem) (addrlen : Word) : ℕ := min (socklenIn m addrlen) (socklenIn m' addrlen)

/-- The bytes the kernel writes in the call `c` with the arguments `args`, which returns `rm`
and turns the memory `m` into `m'`: none if it fails. -/
def kernelWrites (c : Syscall) (args : Fin 6 → Word) (rm : Word) (m m' : Mem) (a : Word) : Prop :=
  SyscallInfo.isErr rm = false ∧ match c with
    | .newfstatat => (a - args 2).toNat < sizeofStat
    | .accept4 => args 1 ≠ 0 ∧
        ((a - args 1).toNat < addressBytes m m' (args 2) ∨ (a - args 2).toNat < sizeofSocklen)
    | .getsockname =>
        (a - args 1).toNat < addressBytes m m' (args 2) ∨ (a - args 2).toNat < sizeofSocklen
    | .poll => (a - args 0).toNat < 8 * ((args 1).setWidth 32).toNat ∧ 6 ≤ (a - args 0).toNat % 8
    | .read | .pread64 => (a - args 1).toNat < rm.toNat
    | _ => False

/-- A kernel that writes no more than that for the master, and nothing for the replica in
the calls the monitor puts in. -/
structure WritesDocumented (K : Kernel ρ) : Prop where
  output : ∀ t o c rm rcx r11 m', c ∈ replicatingCalls → t.regs .origRax = c.nr →
    (K.syscall .master t o).1 = .ret rm rcx r11 m' →
      ∀ a, ¬ kernelWrites c (fun k => t.regs (argReg k)) rm t.mem m' a → m' a = t.mem a
  substitutes : K.SubstitutesQuiet

/-- Both variants stand at the entry of `c`, and both structs are up to date. -/
structure World.Arrived (w : World ρ) (c : Syscall) : Prop where
  rendezvous : Rendezvous c w.ctl
  info : ∀ v, (w.var v).syscallInfo = .ofEntry (w.proc v).regs

/-- Outside of what corresponds to the addresses `W` of the master, and apart from the
`pollfd` array that was compared, the replica's memory `m` is what it was in `w`. -/
def World.OnlyWritten (w : World ρ) (c : Syscall) (W : Word → Prop) (m : Mem) : Prop :=
  ∀ b, ¬ W (w.output c .master + (b - w.output c .replica)) →
    ¬ (c = .poll ∧ (b - w.output c .replica).toNat <
      ((w.var .master).syscallInfo.arg 1 * sizeofPollfd).toNat) →
    m b = (w.proc .replica).mem b

/-- Where in the replica's output buffer offset `i` of the copy comes to lie. -/
def World.placed (w : World ρ) (c : Syscall) (mm : Mem) (i : ℕ) : Word :=
  w.copiedTo c mm + BitVec.ofNat 64 i - w.output c .replica

/-- An offset of the copy that comes to lie where the kernel did not write: all of them if a
`stat` or an `accept4` failed; of an address those beyond the length supplied or beyond the
length reported. -/
def World.Leftover (w : World ρ) (c : Syscall) (rm : Word) (mm : Mem) (i : ℕ) : Prop :=
  i < copySize (w.requested c rm mm) ∧ match c with
    | .newfstatat => SyscallInfo.isErr rm = true
    | .accept4 | .getsockname => SyscallInfo.isErr rm = true ∨
        addressBytes (w.proc .master).mem mm ((w.var .master).syscallInfo.arg 2) ≤
            (w.placed c mm i).toNat ∧
          sizeofSocklen ≤ ((w.var .master).syscallInfo.arg 1 + w.placed c mm i -
            (w.var .master).syscallInfo.arg 2).toNat
    | _ => False

/-- What is copied at offset `i` is there already. -/
def World.SameLeftover (w : World ρ) (c : Syscall) (mm : Mem) (i : ℕ) : Prop :=
  ∀ x y, mm (w.copiedFrom c mm + BitVec.ofNat 64 i) = some x →
    (w.proc .replica).mem (w.copiedTo c mm + BitVec.ofNat 64 i) = some y → x = y

theorem copySize_le (size : ℕ) : copySize size ≤ BUF_SIZE ∧ copySize size ≤ size := by
  unfold copySize
  split <;> omega

/-- An error is never a size. -/
theorem copySize_of_isErr {rm : Word} (h : SyscallInfo.isErr rm = true) : copySize rm.toNat = 0 := by
  have hle := BitVec.le_def.1 (of_decide_eq_true h)
  have hneg : (-4095 : Word).toNat = 18446744073709547521 := by decide
  have hbuf : BUF_SIZE = 10000000 := rfl
  unfold copySize
  rw [if_neg (by omega)]

/-- What is copied of a `read` is no error, and was read. -/
theorem read_of_copied {rm : Word} {i : ℕ} (h : i < copySize rm.toNat) :
    SyscallInfo.isErr rm = false ∧ i < rm.toNat := by
  refine ⟨?_, lt_of_lt_of_le h (copySize_le _).2⟩
  by_contra herr
  rw [copySize_of_isErr (by simpa using herr)] at h
  exact absurd h (Nat.not_lt_zero i)

/-- Of a socket address: offset `i` was not written. -/
theorem address_leftover_iff {err : Bool} {n i len off : ℕ} {given poll : Prop}
    (hgiven : given ↔ i < n ∨ off < len) (hpoll : ¬ poll) :
    (err = true ∨ n ≤ i ∧ len ≤ off) ↔ ¬ (err = false ∧ given) ∧ ¬ poll := by
  rw [hgiven]
  cases err with
  | true => simp [hpoll]
  | false => simp [hpoll]

/-- Where no pointer was changed, an offset of the copy is one of the buffer. -/
theorem World.placed_eq {w : World ρ} {c : Syscall} {mm : Mem} (h : w.copiedTo c mm = w.output c .replica)
    (i : ℕ) : w.placed c mm i = BitVec.ofNat 64 i := by
  rw [World.placed, h, add_sub_cancel_left]

/-- The leftovers are what is copied over something that was neither written nor compared. -/
theorem leftover_iff {w : World ρ} {c : Syscall} (hc : c ∈ replicatingCalls) (rm : Word) (mm : Mem)
    (i : ℕ) : w.Leftover c rm mm i ↔ i < copySize (w.requested c rm mm) ∧
      ¬ kernelWrites c (w.var .master).syscallInfo.arg rm (w.proc .master).mem mm
        (w.output c .master + w.placed c mm i) ∧
      ¬ (c = .poll ∧ (w.placed c mm i).toNat <
        ((w.var .master).syscallInfo.arg 1 * sizeofPollfd).toNat) := by
  unfold World.Leftover
  refine and_congr_right fun hi => ?_
  have hlt : i < 2 ^ 64 := by
    have hbuf : BUF_SIZE = 10000000 := rfl
    have := (copySize_le (w.requested c rm mm)).1
    omega
  have hle := (copySize_le (w.requested c rm mm)).2
  have hoff : ∀ p : Word, p + w.placed c mm i - p = w.placed c mm i := fun p => add_sub_cancel_left _ _
  have hsame : w.copiedTo c mm = w.output c .replica → (w.placed c mm i).toNat = i := fun h => by
    rw [World.placed_eq h, BitVec.toNat_ofNat, Nat.mod_eq_of_lt hlt]
  simp only [replicatingCalls, List.mem_cons, List.not_mem_nil, or_false] at hc
  rcases hc with rfl | rfl | rfl | rfl | rfl | rfl
  case inl =>
    have hstat : (w.placed .newfstatat mm i).toNat < sizeofStat := by
      rw [hsame rfl]
      exact lt_of_lt_of_le hi hle
    unfold kernelWrites
    show SyscallInfo.isErr rm = true ↔ ¬ (_ ∧ ((w.var .master).syscallInfo.arg 2 + _ -
      (w.var .master).syscallInfo.arg 2).toNat < sizeofStat) ∧ _
    rw [hoff]
    cases SyscallInfo.isErr rm with
    | true => exact iff_of_true rfl ⟨fun h => absurd h.1 (by decide), nofun⟩
    | false => exact iff_of_false (by decide) fun h => h.1 ⟨rfl, hstat⟩
  case inr.inl =>
    have haddr : (w.var .master).syscallInfo.arg 1 ≠ 0 := by
      intro h0
      simp [World.requested, h0, copySize] at hi
    unfold kernelWrites
    show _ ↔ ¬ (_ ∧ _ ∧ (((w.var .master).syscallInfo.arg 1 + _ -
      (w.var .master).syscallInfo.arg 1).toNat < _ ∨ _)) ∧ _
    rw [hoff]
    exact address_leftover_iff (and_iff_right haddr) nofun
  case inr.inr.inl =>
    unfold kernelWrites
    show _ ↔ ¬ (_ ∧ (((w.var .master).syscallInfo.arg 1 + _ -
      (w.var .master).syscallInfo.arg 1).toNat < _ ∨ _)) ∧ _
    rw [hoff]
    exact address_leftover_iff Iff.rfl nofun
  case inr.inr.inr.inl =>
    refine iff_of_false id fun h => h.2 ⟨rfl, ?_⟩
    rw [hsame rfl]
    exact lt_of_lt_of_le hi hle
  case inr.inr.inr.inr.inl =>
    have hsize : rm ≠ -1 := by
      intro h
      simp [World.requested, h, copySize] at hi
    have hcopied : w.requested .read rm mm = rm.toNat := if_pos hsize
    have hwritten := read_of_copied (hcopied ▸ hi)
    refine iff_of_false id fun h => h.1 ⟨hwritten.1, ?_⟩
    exact lt_of_eq_of_lt ((congrArg BitVec.toNat (hoff _)).trans (hsame rfl)) hwritten.2
  case inr.inr.inr.inr.inr =>
    have hwritten := read_of_copied hi
    refine iff_of_false id fun h => h.1 ⟨hwritten.1, ?_⟩
    exact lt_of_eq_of_lt ((congrArg BitVec.toNat (hoff _)).trans (hsame rfl)) hwritten.2

/-- A byte that is copied over stays as it is exactly if what is copied is the same. -/
theorem copied_keeps_iff {w : World ρ} {c : Syscall} {mm : Mem} {size : ℕ} {b : Word}
    (hin : (b - w.copiedTo c mm).toNat < size) :
    copied mm (w.proc .replica).mem (w.copiedFrom c mm) (w.copiedTo c mm) size b =
      (w.proc .replica).mem b ↔ w.SameLeftover c mm (b - w.copiedTo c mm).toNat := by
  rw [copied_eq_iff hin, World.SameLeftover, ofNat_toNat_word, add_sub_cancel]

/-- **Replication writes only what the kernel wrote.**  Over an exact transfer, an executor
changes nothing of the replica's memory but what corresponds to bytes the kernel wrote in the
master, if, and where it succeeds only if, all that is left over is the same in both. -/
theorem replicates_only_written_iff {K : Kernel ρ} {w w' : World ρ} {c : Syscall} {r : Int}
    {rm rcx r11 : Word} {mm : Mem} (hc : c ∈ replicatingCalls) (hK : WritesDocumented K)
    (hw : w.Arrived c) (hans : (K.answer .master w).1 = .ret rm rcx r11 mm)
    (hrun : execSyscallWith transferExactly K c w = .ret r w') :
    ((∀ i, w.Leftover c rm mm i → w.SameLeftover c mm i) →
      w.OnlyWritten c (kernelWrites c (w.var .master).syscallInfo.arg rm (w.proc .master).mem mm)
        (w'.proc .replica).mem) ∧
    (r = 0 → w.OnlyWritten c (kernelWrites c (w.var .master).syscallInfo.arg rm (w.proc .master).mem mm)
        (w'.proc .replica).mem → ∀ i, w.Leftover c rm mm i → w.SameLeftover c mm i) := by
  have hspec : w.ReplicatedOr K c r (w'.proc .replica).mem := Prog.ret_of_wp
    (execSyscallWith_replicated hK.substitutes (hw.rendezvous.atEntry .master)
      (hw.rendezvous.atEntry .replica) hc) hrun
  have hcopied : ∀ {m}, w.Replicated K c m → m = copied mm (w.proc .replica).mem (w.copiedFrom c mm)
      (w.copiedTo c mm) (copySize (w.requested c rm mm)) := by
    rintro m ⟨rm', rcx', r11', mm', hans', hm⟩
    obtain ⟨rfl, -, -, rfl⟩ := SysResult.ret.inj (hans.symm.trans hans')
    exact hm
  have hplaced : ∀ b, w.placed c mm (b - w.copiedTo c mm).toNat = b - w.output c .replica := fun b => by
    rw [World.placed, add_offset]
  constructor
  · intro hsame b hb hpoll
    rcases hspec.2 with hm | hm
    · rw [hm]
    rw [hcopied hm]
    by_cases hin : (b - w.copiedTo c mm).toNat < copySize (w.requested c rm mm)
    · refine (copied_keeps_iff hin).2 (hsame _ ?_)
      rw [← hplaced b] at hb hpoll
      exact (leftover_iff hc rm mm _).2 ⟨hin, hb, hpoll⟩
    · exact copied_outside (by omega)
  · intro hr honly i hi
    obtain ⟨hin, hunwritten, hpoll⟩ := (leftover_iff hc rm mm i).1 hi
    have hbuf : BUF_SIZE = 10000000 := rfl
    have hle := (copySize_le (w.requested c rm mm)).1
    -- where offset `i` of the copy comes to lie
    obtain ⟨b, rfl⟩ : ∃ b : Word, (b - w.copiedTo c mm).toNat = i :=
      ⟨w.copiedTo c mm + BitVec.ofNat 64 i, offset_add _ (by omega)⟩
    rw [hplaced b] at hunwritten hpoll
    have hunchanged := honly b hunwritten hpoll
    rw [hcopied (hspec.1 hr)] at hunchanged
    exact (copied_keeps_iff hin).1 hunchanged

/-! ### What is left on the stack -/

/-- A kernel under which every call fails. -/
def Kernel.refusing : Kernel Unit where
  syscall _ t o := (.ret (-2) 0 0 t.mem, o)
  user _ _ _ := .died
  killed _ := false
  junk := .stopped

theorem refusing_documented : WritesDocumented Kernel.refusing where
  output _ _ _ _ _ _ _ _ _ h a _ := by
    obtain ⟨-, -, -, rfl⟩ := SysResult.ret.inj h
    rfl
  substitutes _ _ _ _ _ _ _ h := (SysResult.ret.inj h).2.2.2.symm

/-- Memory once a peer's address of `reported` bytes, all of them 7, was stored. -/
def acceptedMem (t : Tracee) (reported : Byte) : Mem := fun a =>
  if (a - t.regs .rdx).toNat < 4 then some (if a = t.regs .rdx then reported else 0)
  else if (a - t.regs .rsi).toNat < min (socklenIn t.mem (t.regs .rdx)) reported.toNat then some 7
  else t.mem a

/-- A kernel under which the master's `accept4` succeeds, and every other call fails. -/
def Kernel.accepting (reported : Byte) : Kernel Unit where
  syscall v t o := if v = .master ∧ t.regs .origRax = Syscall.accept4.nr ∧ t.regs .rsi ≠ 0 then
      (.ret 5 0 0 (acceptedMem t reported), o) else (.ret (-11) 0 0 t.mem, o)
  user _ _ _ := .died
  killed _ := false
  junk := .stopped

theorem accepting_syscall (reported : Byte) (v : Who) (t : Tracee) (o : Unit) :
    (Kernel.accepting reported).syscall v t o =
      if v = .master ∧ t.regs .origRax = Syscall.accept4.nr ∧ t.regs .rsi ≠ 0 then
        (.ret 5 0 0 (acceptedMem t reported), o) else (.ret (-11) 0 0 t.mem, o) := rfl

theorem socklenIn_acceptedMem (t : Tracee) (reported : Byte) :
    socklenIn (acceptedMem t reported) (t.regs .rdx) = reported.toNat := by
  have hbyte : ∀ k : Word, k.toNat < 4 → acceptedMem t reported (t.regs .rdx + k) =
      some (if k = 0 then reported else 0) := by
    intro k hk
    have hoff : t.regs .rdx + k - t.regs .rdx = k := add_sub_cancel_left _ _
    have hself : (t.regs .rdx + k = t.regs .rdx) ↔ k = 0 := by
      constructor
      · intro h
        rw [← hoff, h]
        exact BitVec.sub_self _
      · intro h
        rw [h, add_zero]
    unfold acceptedMem
    rw [hoff, if_pos hk]
    simp only [hself]
  unfold socklenIn
  rw [hbyte 0 (by decide), hbyte 1 (by decide), hbyte 2 (by decide), hbyte 3 (by decide)]
  simp

theorem accepting_documented (reported : Byte) : WritesDocumented (.accepting reported) where
  output t o c rm rcx r11 m' _ hnr h a ha := by
    rw [accepting_syscall] at h
    split_ifs at h with hcall
    · obtain ⟨rfl, -, -, rfl⟩ := SysResult.ret.inj h
      obtain rfl : c = .accept4 := Syscall.nr_injective (hnr.symm.trans hcall.2.1)
      have hout : ¬ ((a - t.regs .rsi).toNat < min (socklenIn t.mem (t.regs .rdx)) reported.toNat ∨
          (a - t.regs .rdx).toNat < sizeofSocklen) := by
        rw [← socklenIn_acceptedMem t reported]
        exact fun hin => ha ⟨by decide, hcall.2.2, hin⟩
      have h4 : ¬ (a - t.regs .rdx).toNat < 4 := fun h => hout (.inr h)
      unfold acceptedMem
      rw [if_neg h4, if_neg fun hlt => hout (.inl hlt)]
    · obtain ⟨-, -, -, rfl⟩ := SysResult.ret.inj h
      rfl
  substitutes t o rax rcx r11 mem _ h := by
    rw [accepting_syscall, if_neg (by simp)] at h
    exact (SysResult.ret.inj h).2.2.2.symm

/-- At `0x1000` an empty path, or a length of 16; behind it the byte `x`. -/
def stackMem (x : Byte) : Mem := fun a =>
  if 0x1000 ≤ a.toNat ∧ a.toNat < 0x1100 then
    some (if a.toNat < 0x1008 then (if a = 0x1004 then 16 else 0) else x) else none

/-- Both variants call `c`; the master's stack is full of `x`, the replica's of zeros. -/
def onStack (c : Syscall) (args : Fin 6 → Word) (x : Byte) : World Unit :=
  .standing (fun _ => callRegs c.nr args) (fun v => stackMem (if v = .master then x else 0)) ()

theorem onStack_arrived (c : Syscall) (args : Fin 6 → Word) (x : Byte) :
    (onStack c args x).Arrived c := ⟨rendezvous_standing c _ _ _, fun _ => rfl⟩

/-- `newfstatat(0, "", 0x1010, 0)` -/
def staleStat : World Unit := onStack .newfstatat ![0, 0x1000, 0x1010, 0, 0, 0] 0x55

/-- `accept4(3, 0x1010, &len, 0)`, where `len` is 16. -/
def shortAccept : World Unit := onStack .accept4 ![3, 0x1010, 0x1004, 0, 0, 0] 0x55

theorem shortAccept_answer (reported : Byte) :
    ((Kernel.accepting reported).answer .master shortAccept).1 =
      .ret 5 0 0 (acceptedMem (shortAccept.proc .master).resume reported) := by
  have hcalls : Who.master = Who.master ∧ (shortAccept.proc .master).resume.regs .origRax =
      Syscall.accept4.nr ∧ (shortAccept.proc .master).resume.regs .rsi ≠ 0 := by decide +kernel
  rw [Kernel.answer, accepting_syscall, if_pos hcalls]

/-- A failed `stat` copies what was on the master's stack; and so does an `accept4` whose
peer has a longer address than the buffer, behind the end of the buffer. -/
theorem stale_stack_imported :
    (WritesDocumented .refusing ∧ ∃ w',
      execSyscallWith transferExactly .refusing .newfstatat staleStat = .ret 0 w' ∧
      (w'.proc .replica).mem 0x1010 = some 0x55 ∧ (staleStat.proc .replica).mem 0x1010 = some 0 ∧
      ¬ staleStat.OnlyWritten .newfstatat (kernelWrites .newfstatat
        (staleStat.var .master).syscallInfo.arg (-2) (staleStat.proc .master).mem
        (staleStat.proc .master).mem) (w'.proc .replica).mem) ∧
    WritesDocumented (.accepting 32) ∧ ∃ w',
      execSyscallWith transferExactly (.accepting 32) .accept4 shortAccept = .ret 0 w' ∧
      (w'.proc .replica).mem 0x1020 = some 0x55 ∧ (shortAccept.proc .replica).mem 0x1020 = some 0 ∧
      ¬ shortAccept.OnlyWritten .accept4 (kernelWrites .accept4
        (shortAccept.var .master).syscallInfo.arg 5 (shortAccept.proc .master).mem
        (acceptedMem (shortAccept.proc .master).resume 32)) (w'.proc .replica).mem := by
  have hstat : ((execSyscallWith transferExactly .refusing .newfstatat staleStat).state.proc
      .replica).mem 0x1010 = some 0x55 := by decide +kernel
  have hzero : (staleStat.proc .replica).mem 0x1010 = some 0 := by decide +kernel
  have haccept : ((execSyscallWith transferExactly (.accepting 32) .accept4 shortAccept).state.proc
      .replica).mem 0x1020 = some 0x55 := by decide +kernel
  have hzero' : (shortAccept.proc .replica).mem 0x1020 = some 0 := by decide +kernel
  refine ⟨⟨refusing_documented, _, Outcome.eq_ret_of_val? (by decide +kernel), hstat, hzero, fun h => ?_⟩,
    accepting_documented 32, _, Outcome.eq_ret_of_val? (by decide +kernel), haccept, hzero', fun h => ?_⟩
  · have hkept := h 0x1010 (fun hw => absurd hw.1 (by decide)) (fun hp => absurd hp.1 (by decide))
    rw [hstat, hzero] at hkept
    exact absurd hkept (by decide)
  · have hunwritten : ¬ kernelWrites .accept4 (shortAccept.var .master).syscallInfo.arg 5
        (shortAccept.proc .master).mem (acceptedMem (shortAccept.proc .master).resume 32)
        (shortAccept.output .accept4 .master + (0x1020 - shortAccept.output .accept4 .replica)) := by
      rintro ⟨-, -, hin | hin⟩
      · exact absurd hin (by decide +kernel)
      · exact absurd hin (by decide +kernel)
    have hkept := h 0x1020 hunwritten (fun hp => absurd hp.1 (by decide))
    rw [haccept, hzero'] at hkept
    exact absurd hkept (by decide)

/-- A peer's address that fits is all there is to copy. -/
theorem replicates_only_written_fits : ∃ w',
    execSyscallWith transferExactly (.accepting 16) .accept4 shortAccept = .ret 0 w' ∧
      shortAccept.OnlyWritten .accept4 (kernelWrites .accept4
        (shortAccept.var .master).syscallInfo.arg 5 (shortAccept.proc .master).mem
        (acceptedMem (shortAccept.proc .master).resume 16)) (w'.proc .replica).mem := by
  have hrun : execSyscallWith transferExactly (.accepting 16) .accept4 shortAccept = .ret 0 _ :=
    Outcome.eq_ret_of_val? (by decide +kernel)
  have hsize : copySize (shortAccept.requested .accept4 5
      (acceptedMem (shortAccept.proc .master).resume 16)) = 16 := by decide +kernel
  have hbytes : addressBytes (shortAccept.proc .master).mem
      (acceptedMem (shortAccept.proc .master).resume 16)
      ((shortAccept.var .master).syscallInfo.arg 2) = 16 := by decide +kernel
  have harrived : shortAccept.Arrived .accept4 := onStack_arrived _ _ _
  refine ⟨_, hrun, (replicates_only_written_iff (by decide) (accepting_documented 16) harrived
    (shortAccept_answer 16) hrun).1 ?_⟩
  rintro i ⟨hin, herr | hbeyond⟩
  · exact absurd herr (by decide)
  · rw [hsize] at hin
    rw [hbytes, World.placed_eq rfl, BitVec.toNat_ofNat] at hbeyond
    omega

end Aurora
