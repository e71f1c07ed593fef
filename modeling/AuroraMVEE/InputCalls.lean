import AuroraMVEE.Replication
import AuroraMVEE.Verdicts

/-!
# Calls that bring input

`read`, `pread64` and `getrandom` pass the master's result on to the replica, and the bytes
it counts.  The result may be an error; as a size an error other than `-1` is far too large,
the copy refuses it, and with it the executor gives up.  And the result may be a size whose
last load the monitor does not survive (`input_passed_on_iff`).
-/

namespace Aurora

variable {ρ : Type}

/-- The executors in question. -/
def inputCalls : List Syscall := [.read, .pread64, .getrandom]

/-- The scalars that the two variants have to agree on. -/
def inputScalars : Syscall → List (Fin 6)
  | .read => [0, 2]
  | .pread64 => [0, 2, 3]
  | _ => [1, 2]

/-- The executor succeeds, the replica sees the result `r`, and an error leaves its memory. -/
def World.InputPassedOn (K : Kernel ρ) (w : World ρ) (c : Syscall) (r : Word) : Prop :=
  ∃ w', execSyscall K c w = .ret 0 w' ∧ (w'.proc .replica).regs .rax = r ∧
    (r.toInt < 0 → (w'.proc .replica).mem = (w.proc .replica).mem)

/-- The copy takes the result for a size it can do, or is not made. -/
def Copies (I : Image) (c : Syscall) (r : Word) : Prop :=
  (r.toNat ≤ BUF_SIZE ∧ ¬ I.Faults r.toNat) ∨ r = -1 ∧ c ≠ .pread64

theorem not_copies_of_large {I : Image} {c : Syscall} {r : Word} (hlarge : BUF_SIZE < r.toNat)
    (hminus : r = -1 → c = .pread64) : ¬ Copies I c r := by
  rintro (⟨hsize, -⟩ | ⟨hr, hc⟩)
  · exact absurd hsize (not_le.2 hlarge)
  · exact hc (hminus hr)

theorem not_copies_of_faults {I : Image} {c : Syscall} {r : Word} (hsize : r.toNat ≤ BUF_SIZE)
    (hfaults : I.Faults r.toNat) : ¬ Copies I c r := by
  rintro (⟨-, hno⟩ | ⟨rfl, -⟩)
  · exact hno hfaults
  · exact absurd hsize (by decide)

/-- What the executor comes to, past its comparison. -/
def inputPost (w : World ρ) (c : Syscall) (r : Word) : Prog.Post (World ρ) Int where
  ret n w' := (Copies w.image c r ∧ n = 0 ∧ (w'.proc .replica).regs .rax = r ∧
      (r.toInt < 0 → (w'.proc .replica).mem = (w.proc .replica).mem)) ∨
    (¬ Copies w.image c r ∧ n = -1)
  hung _ := False
  exited _ _ := ¬ Copies w.image c r

/-- A result that is a size within the buffer is no error. -/
theorem toInt_nonneg_of_le {r : Word} (h : r.toNat ≤ BUF_SIZE) : 0 ≤ r.toInt := by
  have hbuf : BUF_SIZE = 10000000 := rfl
  rw [BitVec.toInt_eq_toNat_of_lt (by omega)]
  exact Int.natCast_nonneg _

/-! ## One rule for each half -/

namespace Midway

variable {K : Kernel ρ} {w b : World ρ} {rm : Word} {mm : Mem} {t : Tracee} {o : ρ}
  {P : Prog.Post (World ρ) Int} {f : Mon ρ Int} {g : Int → Mon ρ Int}

/-- The copy of as many bytes as the result says, made under a condition. -/
theorem wp_copyResult (hb : Midway w b .entry rm mm t o) (p q : Word) (c : Prop) [Decidable c]
    (hgo : (rm.toNat ≤ BUF_SIZE ∧ ¬ w.image.Faults rm.toNat) ∨ ¬ c → ∀ b' m,
      Midway w b' .entry rm mm { t with mem := m } o → (rm.toInt < 0 → m = t.mem) → Prog.wp (g 0) P b')
    (hlarge : BUF_SIZE < rm.toNat → c → Prog.wp (g (-1)) P b)
    (hfault : rm.toNat ≤ BUF_SIZE → w.image.Faults rm.toNat → ∀ b', P.exited SIGSEGV_STATUS b') :
    Prog.wp (doIf c (transferVariantMem .master p .replica q rm.toNat) >>= g) P b := by
  refine wp_doIf (fun hcopy => ?_) fun hcopy => hgo (.inr hcopy) b t.mem hb fun _ => rfl
  rw [Prog.wp_bind]
  by_cases hsize : rm.toNat ≤ BUF_SIZE
  · by_cases hload : w.image.Faults rm.toNat
    · obtain ⟨b', happly, -⟩ := transferVariantMem_faults .master p .replica q hsize b (hb.image ▸ hload)
      unfold Prog.wp
      rw [happly]
      exact hfault hsize hload b'
    · obtain ⟨β, happly, -⟩ := transferVariantMem_apply .master p .replica q hsize b (hb.image ▸ hload)
      obtain ⟨m, hm⟩ := writeVariantMem_onlyMem (b.proc .replica) (β .bufA) q rm.toNat
      rw [hm, hb.proc] at happly
      refine Prog.wp_of_eq_ret happly (hgo (.inl ⟨hsize, hload⟩) _ m (hb.change β t.regs m) fun hneg => ?_)
      exact absurd (toInt_nonneg_of_le hsize) (by omega)
  · have hlt : BUF_SIZE < rm.toNat := by omega
    exact Prog.wp_of_eq_ret (transferVariantMem_large .master p .replica q hlt b) (hlarge hlt hcopy)

/-- The replica makes its substituted call, and is told the result. -/
theorem wp_tell (hb : Midway w b .entry rm mm t o) (hK : K.Returns) (hquiet : K.SubstitutesQuiet)
    {call : Word} (hcall : call = Syscall.getpid.nr ∨ call = Syscall.lseek.nr) (x : Word)
    (h : ∀ b' t' o', Midway w b' .exit rm mm t' o' → t'.regs .rax = x → t'.mem = t.mem →
      Prog.wp f P b') : Prog.wp (do
      setSyscall .replica call
      if (← resumeAndWait K .replica) ≠ 0 then return -1
      setSyscallReturnValue .replica x
      f) P b := by
  refine hb.wp_substitute hquiet hcall (fun hno => absurd hK hno) fun b₁ t' o' hmem hb₁ => ?_
  exact hb₁.wp_setReturn x fun b₂ hb₂ => h b₂ _ o' hb₂ (Function.update_self Reg.rax x t'.regs) hmem

end Midway

/-! ## The executors -/

/-- Once the copy is made and both are on their way, there is nothing left to go wrong. -/
theorem inputPost_told {w b : World ρ} {c : Syscall} {r : Word} {t : Tracee} {m mm : Mem} {o : ρ}
    (hok : Copies w.image c r) (hb : LetGo b r mm t o) (hrax : t.regs .rax = r) (hmem : t.mem = m)
    (hm : r.toInt < 0 → m = (w.proc .replica).mem) : (inputPost w c r).ret 0 b := by
  refine .inl ⟨hok, rfl, ?_, fun hneg => ?_⟩
  · rw [hb.proc]
    exact hrax
  · rw [hb.proc]
    exact hmem.trans (hm hneg)

section

variable {K : Kernel ρ} {w : World ρ} {r rcx r11 : Word} {mem : Mem} (hx : (w.ctl .master).AtEntry)
  (hy : (w.ctl .replica).AtEntry) (hK : K.Returns) (hquiet : K.SubstitutesQuiet)
  (hans : (K.answer .master w).1 = .ret r rcx r11 mem)

include hx hy hK hquiet hans

theorem input_read {masterFd masterBuf replicaBuf : Word} : Prog.wp (do
    if (← resumeAndWait K .master) ≠ 0 then return -1
    requestSyscallInfo .master
    let bytesRead := (← syscallInfoOf .master).rval
    let ret ← doIf (bytesRead ≠ -1)
      (transferVariantMem .master masterBuf .replica replicaBuf bytesRead.toNat)
    if ret ≠ 0 then return -1
    setLseekRegs .replica masterFd bytesRead
    setSyscall .replica Syscall.lseek.nr
    if (← resumeAndWait K .replica) ≠ 0 then return -1
    setSyscallReturnValue .replica bytesRead
    resumeVariantFromExit .master
    resumeVariantFromExit .replica
    return 0 : Mon ρ Int) (inputPost w .read r) w := by
  refine wp_answered hx hy hans rfl fun b hb => hb.wp_rval ?_
  rintro i rfl
  refine hb.wp_copyResult _ _ _ (fun hok b₁ m hb₁ hm => ?_) (fun hlarge hne => ?_) fun hsize hload _ => ?_
  · have hcopies : Copies w.image .read i.rval := hok.imp_right fun h => ⟨not_not.1 h, by decide⟩
    refine hb₁.wp_setLseekRegs _ _ fun b₂ hb₂ => ?_
    refine hb₂.wp_tell hK hquiet (.inr rfl) _ fun b₃ t' o' hb₃ hrax hmem => ?_
    exact hb₃.wp_leave fun b₄ hb₄ => inputPost_told hcopies hb₄ hrax hmem hm
  · exact .inr ⟨not_copies_of_large hlarge fun h => absurd h hne, rfl⟩
  · exact not_copies_of_faults hsize hload

theorem input_pread64 {masterBuf replicaBuf : Word} : Prog.wp (do
    if (← resumeAndWait K .master) ≠ 0 then return -1
    requestSyscallInfo .master
    let bytesRead := (← syscallInfoOf .master).rval
    let ret ← transferVariantMem .master masterBuf .replica replicaBuf bytesRead.toNat
    if ret ≠ 0 then return -1
    setNopSyscall .replica
    if (← resumeAndWait K .replica) ≠ 0 then return -1
    setSyscallReturnValue .replica bytesRead
    resumeVariantFromExit .master
    resumeVariantFromExit .replica
    return 0 : Mon ρ Int) (inputPost w .pread64 r) w := by
  refine wp_answered hx hy hans rfl fun b hb => hb.wp_rval ?_
  rintro i rfl
  refine hb.wp_copyResult _ _ True (fun hok b₁ m hb₁ hm => ?_) (fun hlarge _ => ?_) fun hsize hload _ => ?_
  · have hcopies : Copies w.image .pread64 i.rval := hok.imp_right fun h => absurd trivial h
    refine hb₁.wp_tell hK hquiet (.inl rfl) _ fun b₂ t' o' hb₂ hrax hmem => ?_
    exact hb₂.wp_leave fun b₃ hb₃ => inputPost_told hcopies hb₃ hrax hmem hm
  · exact .inr ⟨not_copies_of_large hlarge fun _ => rfl, rfl⟩
  · exact not_copies_of_faults hsize hload

theorem input_getrandom {masterBuf replicaBuf : Word} : Prog.wp (do
    if (← resumeAndWait K .master) ≠ 0 then return -1
    requestSyscallInfo .master
    let bytesWritten := (← syscallInfoOf .master).rval
    let ret ← doIf (bytesWritten ≠ -1)
      (transferVariantMem .master masterBuf .replica replicaBuf bytesWritten.toNat)
    if ret ≠ 0 then return -1
    setNopSyscall .replica
    if (← resumeAndWait K .replica) ≠ 0 then return -1
    setSyscallReturnValue .replica bytesWritten
    resumeVariantFromWait .master
    resumeVariantFromWait .replica
    return 0 : Mon ρ Int) (inputPost w .getrandom r) w := by
  refine wp_answered hx hy hans rfl fun b hb => hb.wp_rval ?_
  rintro i rfl
  refine hb.wp_copyResult _ _ _ (fun hok b₁ m hb₁ hm => ?_) (fun hlarge hne => ?_) fun hsize hload _ => ?_
  · have hcopies : Copies w.image .getrandom i.rval := hok.imp_right fun h => ⟨not_not.1 h, by decide⟩
    refine hb₁.wp_tell hK hquiet (.inl rfl) _ fun b₂ t' o' hb₂ hrax hmem => ?_
    exact hb₂.wp_release fun b₃ hb₃ => inputPost_told hcopies hb₃ hrax hmem hm
  · exact .inr ⟨not_copies_of_large hlarge fun h => absurd h hne, rfl⟩
  · exact not_copies_of_faults hsize hload

end

/-! ## Which results are passed on -/

/-- Of the results in question, the copy takes those that are no errors and do not fault. -/
theorem copies_iff {I : Image} {c : Syscall} {r : Word} (hr : r.toInt ≤ BUF_SIZE) :
    Copies I c r ↔ (0 ≤ r.toInt ∧ ¬ I.Faults r.toNat) ∨ r = -1 ∧ c ≠ .pread64 := by
  refine or_congr_left (and_congr_left fun _ => ⟨toInt_nonneg_of_le, fun h => ?_⟩)
  rw [BitVec.toInt_eq_toNat_cond] at h hr
  split at h <;> omega

/-- An executor that compares `p` and comes to that passes the result on exactly if the
comparison finds `p` and the copy takes the result. -/
theorem inputPassedOn_iff {K : Kernel ρ} {w : World ρ} {c : Syscall} {r : Word} {eq : Mon ρ Bool}
    {body : Mon ρ Int} {p : Prop} (hexec : execSyscall K c = guarded eq body) (hd : Decides eq w p)
    (hbody : ∀ β, Prog.wp body (inputPost w c r) (w.withBufs β)) :
    w.InputPassedOn K c r ↔ p ∧ Copies w.image c r := by
  unfold World.InputPassedOn
  rw [hexec]
  by_cases hp : p
  · obtain ⟨β, hβ⟩ := hd.ret_true hp
    rw [guarded_true hβ]
    cases hrun : body (w.withBufs β) with
    | hung w' => exact (Prog.hung_of_wp (hbody β) hrun).elim
    | exited code w' =>
      refine iff_of_false ?_ fun h => Prog.exited_of_wp (hbody β) hrun h.2
      rintro ⟨w'', hret, -⟩
      exact absurd hret (by simp)
    | ret n w' =>
      rcases Prog.ret_of_wp (hbody β) hrun with ⟨hcopies, rfl, htold⟩ | ⟨hrefused, rfl⟩
      · exact iff_of_true ⟨w', rfl, htold⟩ ⟨hp, hcopies⟩
      · refine iff_of_false ?_ fun h => hrefused h.2
        rintro ⟨w'', hret, -⟩
        exact absurd (Outcome.ret.inj hret).1 (by decide)
  · obtain ⟨β, hβ⟩ := hd.ret_false hp
    rw [guarded_false hβ]
    refine iff_of_false ?_ fun h => hp h.1
    rintro ⟨w'', hret, -⟩
    exact absurd (Outcome.ret.inj hret).1 (by decide)

/-- **The result of an input call is passed on**, where the variants agree on the arguments and
neither dies, if and only if it is no error and not a size whose last load faults, or is `-1` and
the call not a `pread64`; and the descriptor of a `read` has to be an `int`. -/
theorem input_passed_on_iff {K : Kernel ρ} {w : World ρ} {c : Syscall} {r rcx r11 : Word} {mem : Mem}
    (hc : c ∈ inputCalls) (hw : ∀ v, (w.ctl v).AtEntry) (hargs : w.SameArgs (inputScalars c))
    (hK : K.Returns) (hquiet : K.SubstitutesQuiet) (hans : (K.answer .master w).1 = .ret r rcx r11 mem)
    (hr : r.toInt ≤ BUF_SIZE) :
    w.InputPassedOn K c r ↔
      (c = .read → ofInt (toInt ((w.var .master).syscallInfo.arg 0)) = (w.var .master).syscallInfo.arg 0) ∧
        ((0 ≤ r.toInt ∧ ¬ w.image.Faults r.toNat) ∨ r = -1 ∧ c ≠ .pread64) := by
  have hx : (w.ctl .master).AtEntry := hw .master
  have hy : (w.ctl .replica).AtEntry := hw .replica
  rw [← copies_iff hr]
  simp only [inputCalls, List.mem_cons, List.not_mem_nil, or_false] at hc
  rcases hc with rfl | rfl | rfl
  · refine (inputPassedOn_iff rfl (decides_readEq w) fun β => ?_).trans (and_congr_left fun _ => ?_)
    · refine wp_argOf_eq (wp_argOf_eq (wp_argOf_eq ?_))
      exact input_read (w := w.withBufs β) hx hy hK hquiet hans
    · refine ⟨fun h _ => h.fd.trans (hargs 0 (by decide)).symm, fun h => ⟨?_, fun k hk => hargs k ?_⟩⟩
      · exact (h rfl).trans (hargs 0 (by decide))
      · exact List.mem_cons_of_mem 0 hk
  · refine (inputPassedOn_iff rfl (decides_argsEq [0, 2, 3] w) fun β => ?_).trans
      (and_congr_left fun _ => iff_of_true hargs nofun)
    refine wp_argOf_eq (wp_argOf_eq ?_)
    exact input_pread64 (w := w.withBufs β) hx hy hK hquiet hans
  · refine (inputPassedOn_iff rfl (decides_argsEq [1, 2] w) fun β => ?_).trans
      (and_congr_left fun _ => iff_of_true hargs nofun)
    refine wp_argOf_eq (wp_argOf_eq ?_)
    exact input_getrandom (w := w.withBufs β) hx hy hK hquiet hans

/-! ### An interrupted read -/

/-- The call `c` with the same arguments in both variants, each with a word at `0x1000`. -/
def inputCall (c : Syscall) (args : Fin 6 → Word) : World Unit :=
  .standing (fun _ => callRegs c.nr args)
    (fun _ a => if 0x1000 ≤ a.toNat ∧ a.toNat < 0x1008 then some 0 else none) ()

theorem returning_returns (rax : Word) : (Kernel.returning rax).Returns := fun _ _ _ => nofun

theorem returning_quiet (rax : Word) : (Kernel.returning rax).SubstitutesQuiet :=
  fun _ _ _ _ _ _ _ h => (SysResult.ret.inj h).2.2.2.symm

/-- A `read` or a `getrandom` that is interrupted, and a `pread64` that fails with `-1`, end the
executor; and so does a `read` whose descriptor register has a bit above the `int`. -/
theorem input_not_passed_on :
    ¬ (inputCall .read ![3, 0x1000, 8, 0, 0, 0]).InputPassedOn (.returning (-4)) .read (-4) ∧
    ¬ (inputCall .getrandom ![0x1000, 8, 0, 0, 0, 0]).InputPassedOn (.returning (-4)) .getrandom (-4) ∧
    ¬ (inputCall .pread64 ![3, 0x1000, 8, 0, 0, 0]).InputPassedOn (.returning (-1)) .pread64 (-1) ∧
    ¬ (inputCall .read ![0x100000003, 0x1000, 8, 0, 0, 0]).InputPassedOn (.returning 8) .read 8 := by
  have hfails : ∀ {K : Kernel Unit} {c : Syscall} {w : World Unit} {r : Word},
      (execSyscall K c w).val? = some (-1) → ¬ w.InputPassedOn K c r := by
    rintro K c w r hval ⟨w', hrun, -⟩
    rw [hrun] at hval
    exact absurd (Option.some.inj hval) (by decide)
  exact ⟨hfails (by decide +kernel), hfails (by decide +kernel), hfails (by decide +kernel),
    hfails (by decide +kernel)⟩

/-- A `read` of eight bytes is passed on. -/
theorem input_passed_on_eight :
    (inputCall .read ![3, 0x1000, 8, 0, 0, 0]).InputPassedOn (.returning 8) .read 8 :=
  (input_passed_on_iff (K := .returning 8) (by decide) (atEntry_standing _ _ ()) (by decide)
    (returning_returns 8) (returning_quiet 8) rfl (by decide)).2
      ⟨fun _ => by decide, .inl ⟨by decide, by decide⟩⟩

end Aurora
