import AuroraMVEE.SharedMemory

/-!
# File offsets

The replica does not read or write regular files; it is to seek by as much as the master's
call has moved.  Here the kernel's state is the offset of each open file description of
each variant, and a run is any sequence of accepted `openat`, `read`, `write`, `lseek` and
`close` calls.

The seek after a `read` is made for the result `-1` too.  The seek after a `write` is not
made at all: its number goes to the master, which has made its call, and the replica
writes once more.  `offsets_agree_iff` says which runs keep the offsets equal all the same.
-/

namespace Aurora

/-! ## The kernel's side -/

/-- The offset of the description behind each descriptor that is open. -/
abbrev Offsets := BitVec 32 → Option ℕ

/-- The descriptor a process names in its first argument. -/
def fdOf (regs : Regs) : BitVec 32 := toInt (regs .rdi)

/-- How far a `read` or a `write` with this result has moved. -/
def SysResult.advance (answer : SysResult) : ℕ :=
  match answer.success? with
  | none => 0
  | some n => n.toNat

/-- Where an `lseek` that returned `pos` has left a descriptor that was at `o`. -/
def landing (regs : Regs) (pos : Word) (o : ℕ) : ℕ :=
  if toInt (regs .rdx) = toInt SEEK_CUR then ((o : ℤ) + (regs .rsi).toInt).toNat else pos.toNat

/-- What the call of the process `t`, answered so, does to its offsets. -/
def offsetCall (t : Tracee) (answer : SysResult) (τ : Offsets) : Offsets :=
  match answer.success?, Syscall.ofNr (t.regs .origRax) with
  | some fd, some .openat => Function.update τ (toInt fd) (some 0)
  | some _, some .close => Function.update τ (fdOf t.regs) none
  | some n, some .read | some n, some .write =>
      Function.update τ (fdOf t.regs) ((τ (fdOf t.regs)).map (· + n.toNat))
  | some pos, some .lseek =>
      Function.update τ (fdOf t.regs) ((τ (fdOf t.regs)).map (landing t.regs pos))
  | _, _ => τ

/-- A kernel that keeps the offsets.  An `openat` of the two variants comes out the same;
what `lseek` makes of an offset does not depend on the variant, and with `SEEK_CUR` it fails
exactly where the offset would become negative. -/
structure OffsetKernel (K : Kernel (Who → Offsets)) : Prop where
  effect : ∀ v t σ, (K.syscall v t σ).2 =
    Function.update σ v (offsetCall t (K.syscall v t σ).1 (σ v))
  opens : ∃ fd, ∀ v t σ, Syscall.ofNr (t.regs .origRax) = some .openat →
    (K.syscall v t σ).1.success? = fd
  seeks : ∃ seek : BitVec 32 → Word → Word → ℕ → Option Word,
    (∀ fd d whence (o : ℕ), toInt whence = toInt SEEK_CUR →
      ((seek fd d whence o).isSome ↔ 0 ≤ (o : ℤ) + d.toInt)) ∧
    ∀ v t σ o, Syscall.ofNr (t.regs .origRax) = some .lseek → σ v (fdOf t.regs) = some o →
      (K.syscall v t σ).1.success? = seek (fdOf t.regs) (t.regs .rsi) (t.regs .rdx) o

/-- The calls on regular files. -/
def fileCalls : List Syscall := [.openat, .read, .write, .lseek, .close]

/-- A round of such a call, under a kernel that keeps the offsets. -/
structure OffsetRound (e : Round (Who → Offsets)) : Prop where
  call : e.call ∈ fileCalls
  kernel : OffsetKernel e.kernel

/-- The machine of accepted calls on files. -/
def offsetRounds : Machine (World (Who → Offsets)) (Round (Who → Offsets)) :=
  (rounds (Who → Offsets)).restrict fun _ e => OffsetRound e

/-- A descriptor that is open on both sides is at the same offset on both. -/
def Offsets.Alike (τ τ' : Offsets) : Prop := ∀ fd o o', τ fd = some o → τ' fd = some o' → o = o'

/-- Where a descriptor is open in both variants, both are at the same offset. -/
def SameOffsets (σ : Who → Offsets) : Prop := (σ .master).Alike (σ .replica)

/-- Both sides change the same descriptor. -/
theorem Offsets.Alike.update_iff {τ τ' : Offsets} (h : τ.Alike τ') (fd : BitVec 32) (x x' : Option ℕ) :
    Offsets.Alike (Function.update τ fd x) (Function.update τ' fd x') ↔
      ∀ o o', x = some o → x' = some o' → o = o' := by
  constructor
  · intro hnew o o' ho ho'
    exact hnew fd o o' (by rw [Function.update_self, ho]) (by rw [Function.update_self, ho'])
  · intro hx d o o' ho ho'
    by_cases hd : d = fd
    · subst hd
      rw [Function.update_self] at ho ho'
      exact hx o o' ho ho'
    · rw [Function.update_of_ne hd] at ho ho'
      exact h d o o' ho ho'

/-- Both sides move the same descriptor. -/
theorem Offsets.Alike.update_map_iff {τ τ' : Offsets} (h : τ.Alike τ') (fd : BitVec 32)
    (f g : ℕ → ℕ) :
    Offsets.Alike (Function.update τ fd ((τ fd).map f)) (Function.update τ' fd ((τ' fd).map g)) ↔
      ∀ o, τ fd = some o → τ' fd = some o → f o = g o := by
  rw [h.update_iff]
  simp only [Option.map_eq_some_iff]
  constructor
  · intro hnew o ho ho'
    exact hnew _ _ ⟨o, ho, rfl⟩ ⟨o, ho', rfl⟩
  · rintro hmoves _ _ ⟨o, ho, rfl⟩ ⟨o', ho', rfl⟩
    obtain rfl := h fd o o' ho ho'
    exact hmoves o ho ho'

/-- Closing takes nothing away from it. -/
theorem Offsets.Alike.of_le {τ τ' υ υ' : Offsets} (h : τ.Alike τ')
    (hle : ∀ d o, υ d = some o → τ d = some o) (hle' : ∀ d o, υ' d = some o → τ' d = some o) :
    υ.Alike υ' := fun d o o' ho ho' => h d o o' (hle d o ho) (hle' d o' ho')

/-- `read` and `write` move the offset they are made at. -/
theorem offsetCall_advance {t : Tracee} (answer : SysResult) (τ : Offsets)
    (hc : Syscall.ofNr (t.regs .origRax) = some .read ∨
      Syscall.ofNr (t.regs .origRax) = some .write) :
    offsetCall t answer τ = Function.update τ (fdOf t.regs)
      ((τ (fdOf t.regs)).map (· + answer.advance)) := by
  unfold offsetCall SysResult.advance
  cases answer.success? with
  | none => simp
  | some n => rcases hc with hc | hc <;> rw [hc]

/-- Where a relative seek by `d` leads from `o`: below zero it fails. -/
def seekFrom (d : ℤ) (o : ℕ) : ℕ := if 0 ≤ o + d then (o + d).toNat else o

theorem offsetCall_lseek {t : Tracee} (answer : SysResult) (τ : Offsets)
    (hc : Syscall.ofNr (t.regs .origRax) = some .lseek) :
    offsetCall t answer τ = Function.update τ (fdOf t.regs)
      ((τ (fdOf t.regs)).map fun o => answer.success?.elim o (landing t.regs · o)) := by
  unfold offsetCall
  rw [hc]
  cases answer.success? with
  | none => simp
  | some pos => rfl

/-- A relative `lseek` adds, unless that leads below zero. -/
theorem offsetCall_seekCur {t : Tracee} {answer : SysResult} {τ : Offsets}
    (hc : Syscall.ofNr (t.regs .origRax) = some .lseek)
    (hwhence : toInt (t.regs .rdx) = toInt SEEK_CUR)
    (hsucc : ∀ o, τ (fdOf t.regs) = some o →
      (answer.success?.isSome ↔ 0 ≤ (o : ℤ) + (t.regs .rsi).toInt)) :
    offsetCall t answer τ = Function.update τ (fdOf t.regs)
      ((τ (fdOf t.regs)).map (seekFrom (t.regs .rsi).toInt)) := by
  rw [offsetCall_lseek answer τ hc]
  congr 1
  refine Option.map_congr fun o ho => ?_
  have hiff := hsucc o ho
  unfold seekFrom
  cases hans : answer.success? with
  | none =>
    rw [hans] at hiff
    rw [if_neg fun h => by simpa using hiff.2 h]
    rfl
  | some pos =>
    rw [hans] at hiff
    rw [if_pos (hiff.1 rfl), Option.elim_some, landing, if_pos hwhence]

/-! ## What a round does to the offsets -/

section

variable {w w' : World (Who → Offsets)} {e : Round (Who → Offsets)}

/-- A call of each variant, one after the other: each changes its own offsets. -/
theorem OffsetKernel.both {K : Kernel (Who → Offsets)} (hK : OffsetKernel K) (v : Who)
    (t t' : Tracee) (σ : Who → Offsets) :
    (K.syscall v.other t' (K.syscall v t σ).2).2 v = offsetCall t (K.syscall v t σ).1 (σ v) ∧
      (K.syscall v.other t' (K.syscall v t σ).2).2 v.other =
        offsetCall t' (K.syscall v.other t' (K.syscall v t σ).2).1 (σ v.other) ∧
      (K.syscall v t σ).2 v.other = σ v.other := by
  have hfirst : (K.syscall v t σ).2 v = offsetCall t (K.syscall v t σ).1 (σ v) := by
    rw [hK.effect, Function.update_self]
  have hkept : (K.syscall v t σ).2 v.other = σ v.other := by
    rw [hK.effect, Function.update_of_ne (Who.other_ne v)]
  refine ⟨?_, ?_, hkept⟩
  · rw [hK.effect v.other, Function.update_of_ne (Who.ne_other v), hfirst]
  · rw [hK.effect v.other, Function.update_self, hkept]

/-- A call that is seen through: each variant's offsets change as its own call says, and the
replica's is the call it was released into. -/
theorem offsetRound_seen (he : OffsetRound e) (hc : e.call ∈ seenThrough) (hne : e.call ≠ .access)
    (hstep : (rounds (Who → Offsets)).step w e w') :
    ∃ m rm rr, Served e.kernel e.call (e.start w) w' m rm rr ∧
      w'.os .master = offsetCall ((e.start w).proc .master).resume (e.answer w) (w.os .master) ∧
      w'.os .replica = offsetCall ((e.start w).released e.call rm m).resume
        (e.kernel.syscall .replica ((e.start w).released e.call rm m).resume
          (e.kernel.answer .master (e.start w)).2).1 (w.os .replica) ∧
      (e.kernel.answer .master (e.start w)).2 .replica = w.os .replica := by
  obtain ⟨m, rm, rr, hs⟩ := seenThrough_round hc hne hstep
  obtain ⟨hm, hr, hkept⟩ := he.kernel.both .master ((e.start w).proc .master).resume
    ((e.start w).released e.call rm m).resume w.os
  exact ⟨m, rm, rr, hs, (congrFun hs.os _).trans hm, (congrFun hs.os _).trans hr, hkept⟩

/-- `lseek`: both variants make it, in either order. -/
theorem offsetRound_lseek (he : OffsetRound e) (hc : e.call = .lseek)
    (hstep : (rounds (Who → Offsets)).step w e w') :
    (e.start w).SameArgs [0, 1, 2] ∧ ∀ v, ∃ σ : Who → Offsets, σ v = w.os v ∧
      w'.os v = offsetCall ((e.start w).proc v).resume
        (e.kernel.syscall v ((e.start w).proc v).resume σ).1 (w.os v) := by
  obtain ⟨hnr, w₁, hrun, rfl⟩ := hstep
  rw [hc] at hrun
  obtain ⟨hsame, β, hbody⟩ := (decides_argsEq [0, 1, 2] (e.start w)).accepted hrun
  have hos : (w₁.settle e.kernel e.first).os = _ :=
    os_resumeBoth (w := (e.start w).withBufs β) e.kernel e.first (start_atEntry w e) hbody
  obtain ⟨hfirst, hother, hkept⟩ := he.kernel.both e.first ((e.start w).proc e.first).resume
    ((e.start w).proc e.first.other).resume w.os
  refine ⟨hsame, fun v => ?_⟩
  by_cases hv : v = e.first
  · subst hv
    exact ⟨w.os, rfl, (congrFun hos _).trans hfirst⟩
  · obtain rfl := Who.eq_other_of_ne hv
    exact ⟨_, hkept, (congrFun hos _).trans hother⟩

end

/-- A `read` is accepted only if all that was read was copied, or the result is `-1`. -/
theorem read_accepted {ρ : Type} {K : Kernel ρ} {w w' : World ρ} (hx : (w.ctl .master).AtEntry)
    (hy : (w.ctl .replica).AtEntry) (hrun : execSyscall K .read w = .ret 0 w') {rm rcx r11 : Word}
    {mem : Mem} (hans : (K.answer .master w).1 = .ret rm rcx r11 mem) :
    rm = -1 ∨ rm.toNat ≤ BUF_SIZE := by
  by_contra hlarge
  obtain ⟨hne, hsize⟩ := not_or.1 hlarge
  refine of_onZero (Q := fun _ => False) ?_ hrun
  refine wp_guarded (readOnly_verdict .read) fun β => wp_argOf_eq (wp_argOf_eq (wp_argOf_eq ?_))
  refine wp_masterHalf (w := w.withBufs β) hx hy rfl rfl fun rm' mm b hm hb => hb.wp_rval ?_
  rintro i rfl
  obtain ⟨_, _, _, hans'⟩ := hm
  obtain ⟨rfl, -⟩ := SysResult.ret.inj (hans.symm.trans hans')
  unfold doIf
  dsimp only
  unfold Prog.wp
  rw [if_pos hne, Prog.bind_of_ret (transferVariantMem_large _ _ _ _ (by omega) b),
    if_pos (by decide)]
  exact onZero_fail

/-- A size that fits the transfer buffer is no error. -/
theorem advance_of_le {rm : Word} (h : rm.toNat ≤ BUF_SIZE) (rcx r11 : Word) (mem : Mem) :
    (SysResult.ret rm rcx r11 mem).advance = rm.toNat := by
  have hok : SyscallInfo.isErr rm = false := by
    have hmax : (-4095 : Word).toNat = 2 ^ 64 - 4095 := by decide
    unfold BUF_SIZE at h
    rw [SyscallInfo.isErr, decide_eq_false_iff_not, BitVec.le_def, hmax]
    omega
  rw [SysResult.advance, SysResult.success?, hok]
  rfl

theorem ne_minusOne_of_le {rm : Word} (h : rm.toNat ≤ BUF_SIZE) : rm ≠ -1 := by
  rintro rfl
  exact absurd h (by decide)

/-- Sought by, such a size is added. -/
theorem seekFrom_of_le {rm : Word} (h : rm.toNat ≤ BUF_SIZE) (o : ℕ) :
    seekFrom rm.toInt o = o + rm.toNat := by
  unfold BUF_SIZE at h
  have hint : rm.toInt = rm.toNat := BitVec.toInt_eq_toNat_of_lt (by omega)
  rw [hint, seekFrom, if_pos (by omega)]
  omega

/-- What `read` gets from the kernel, if it is accepted, moves the offset as the seek for it
does, except that the seek for `-1` goes back by one. -/
theorem advance_eq_seekFrom_iff {rm : Word} (h : rm = -1 ∨ rm.toNat ≤ BUF_SIZE) (rcx r11 : Word)
    (mem : Mem) (o : ℕ) :
    o + (SysResult.ret rm rcx r11 mem).advance = seekFrom rm.toInt o ↔ (rm = -1 → o = 0) := by
  rcases h with rfl | hsize
  · have hfail : (SysResult.ret (-1) rcx r11 mem).advance = 0 := rfl
    have hback : (-1 : Word).toInt = -1 := by decide
    rw [hfail, hback, seekFrom]
    simp only [forall_const]
    split <;> omega
  · rw [advance_of_le hsize, seekFrom_of_le hsize]
    exact iff_of_true rfl fun h => absurd h (ne_minusOne_of_le hsize)

/-- The process `t` is about to seek by `rm`, relative to where its descriptor `fd` is. -/
structure Tracee.SeeksBy (t : Tracee) (fd : BitVec 32) (rm : Word) : Prop where
  call : Syscall.ofNr (t.regs .origRax) = some .lseek
  fd : fdOf t.regs = fd
  offset : t.regs .rsi = rm
  whence : toInt (t.regs .rdx) = toInt SEEK_CUR

/-- In a `read` the replica is released into a seek by the master's result. -/
theorem released_read_seeks {ρ : Type} (w : World ρ) (e : Round ρ) (rm : Word) (m : Mem) :
    ((e.start w).released .read rm m).resume.SeeksBy (fdOf (e.regs .master)) rm := by
  have hregs : ((e.start w).released .read rm m).resume.regs =
      Function.update (lseekRegs (e.regs .replica) (ofInt (fdOf (e.regs .master))) rm) .origRax
        Syscall.lseek.nr := resume_regs _
  constructor <;> rw [hregs]
  case call => exact Syscall.ofNr_nr .lseek
  case fd => exact toInt_ofInt _
  all_goals rfl

/-! ## What keeps the offsets equal -/

/-- The `write` that the replica makes in its turn: of one byte, which is `SEEK_CUR`, from the
address that is the master's result. -/
def Round.stray (e : Round (Who → Offsets)) (w : World (Who → Offsets)) (rm : Word) : SysResult :=
  (e.kernel.syscall .replica ((e.start w).released .write rm (e.mem .replica)).resume
    (e.kernel.answer .master (e.start w)).2).1

/-- On a descriptor that is open in both variants, at the offset `o`: a `read` does not return
`-1`, except at the start of the file; and a `write` of the master moves it as far as the
replica's stray one. -/
def MovesAlike (w : World (Who → Offsets)) (e : Round (Who → Offsets)) : Prop :=
  ∀ o, w.os .master (fdOf (e.regs .master)) = some o →
    w.os .replica (fdOf (e.regs .master)) = some o → ∀ rm rcx r11 mem,
      e.answer w = .ret rm rcx r11 mem → match e.call with
        | .read => rm = -1 → o = 0
        | .write => (e.answer w).advance = (e.stray w rm).advance
        | _ => True

section

variable {w w' : World (Who → Offsets)} {e : Round (Who → Offsets)}

theorem sameOffsets_read (he : OffsetRound e) (hc : e.call = .read)
    (hstep : (rounds (Who → Offsets)).step w e w') (hw : SameOffsets w.os) :
    SameOffsets w'.os ↔ ∀ o, w.os .master (fdOf (e.regs .master)) = some o →
      w.os .replica (fdOf (e.regs .master)) = some o → ∀ rm rcx r11 mem,
        e.answer w = .ret rm rcx r11 mem → rm = -1 → o = 0 := by
  obtain ⟨m, rm, rr, hs, hm, hr, hkept⟩ :=
    offsetRound_seen he (by rw [hc]; decide) (by rw [hc]; decide) hstep
  obtain ⟨rcx, r11, mem, hans⟩ := hs.master
  have hnr := hstep.1 .master
  obtain ⟨-, w₁, hrun, -⟩ := hstep
  rw [hc] at hr hnr hrun
  have hsize := read_accepted (start_atEntry w e .master) (start_atEntry w e .replica) hrun hans
  have hregs : ((e.start w).proc .master).resume.regs = e.regs .master := resume_regs _
  have hreplica := released_read_seeks w e rm m
  obtain ⟨seek, hcur, hseek⟩ := he.kernel.seeks
  rw [offsetCall_advance _ _ (.inl (by rw [hregs, hnr, Syscall.ofNr_nr])), hregs] at hm
  rw [offsetCall_seekCur hreplica.call hreplica.whence fun o ho => ?_, hreplica.fd,
    hreplica.offset] at hr
  · rw [SameOffsets, hm, hr, hw.update_map_iff]
    have hiff := advance_eq_seekFrom_iff hsize rcx r11 mem
    rw [← hans] at hiff
    constructor
    · rintro h o ho ho' rm' rcx' r11' mem' hans' hminus
      obtain ⟨rfl, -⟩ := SysResult.ret.inj (hans.symm.trans hans')
      exact (hiff o).1 (h o ho ho') hminus
    · intro h o ho ho'
      exact (hiff o).2 (h o ho ho' _ _ _ _ hans)
  · rw [← hkept] at ho
    rw [hseek _ _ _ o hreplica.call ho]
    exact hcur _ _ _ o hreplica.whence

theorem sameOffsets_write (he : OffsetRound e) (hc : e.call = .write)
    (hstep : (rounds (Who → Offsets)).step w e w') (hw : SameOffsets w.os) :
    SameOffsets w'.os ↔ ∀ o, w.os .master (fdOf (e.regs .master)) = some o →
      w.os .replica (fdOf (e.regs .master)) = some o → ∀ rm rcx r11 mem,
        e.answer w = .ret rm rcx r11 mem → (e.answer w).advance = (e.stray w rm).advance := by
  obtain ⟨m, rm, rr, hs, hm, hr, -⟩ :=
    offsetRound_seen he (by rw [hc]; decide) (by rw [hc]; decide) hstep
  obtain ⟨rcx, r11, mem, hans⟩ := hs.master
  obtain rfl : m = e.mem .replica := hs.mem (by rw [hc]; decide)
  have hnr := hstep.1
  rw [hc] at hr hnr
  have hregs : ((e.start w).proc .master).resume.regs = e.regs .master := resume_regs _
  have hregs' : ((e.start w).released .write rm (e.mem .replica)).resume.regs =
      lseekRegs (e.regs .replica) (ofInt (fdOf (e.regs .master))) rm := resume_regs _
  have hfd : fdOf ((e.start w).released .write rm (e.mem .replica)).resume.regs =
      fdOf (e.regs .master) := by
    rw [hregs', fdOf]
    exact toInt_ofInt _
  -- the replica's number is still that of `write`
  have hwrite : Syscall.ofNr (((e.start w).released .write rm (e.mem .replica)).resume.regs .origRax) =
      some .write := by
    rw [hregs', show lseekRegs (e.regs .replica) (ofInt (fdOf (e.regs .master))) rm .origRax =
      e.regs .replica .origRax from rfl, hnr .replica]
    exact Syscall.ofNr_nr .write
  rw [offsetCall_advance _ _ (.inr (by rw [hregs, hnr .master, Syscall.ofNr_nr])), hregs] at hm
  rw [offsetCall_advance _ _ (.inr hwrite), hfd] at hr
  rw [SameOffsets, hm, hr, hw.update_map_iff]
  constructor
  · rintro h o ho ho' rm' rcx' r11' mem' hans'
    obtain ⟨rfl, -⟩ := SysResult.ret.inj (hans.symm.trans hans')
    exact Nat.add_left_cancel (h o ho ho')
  · intro h o ho ho'
    exact congrArg (o + ·) (h o ho ho' _ _ _ _ hans)

theorem sameOffsets_lseek (he : OffsetRound e) (hc : e.call = .lseek)
    (hstep : (rounds (Who → Offsets)).step w e w') (hw : SameOffsets w.os) : SameOffsets w'.os := by
  obtain ⟨hsame, heach⟩ := offsetRound_lseek he hc hstep
  have hnr := hstep.1
  rw [hc] at hnr
  have hregs : ∀ v, ((e.start w).proc v).resume.regs = e.regs v := fun v => resume_regs _
  have hlseek : ∀ v, Syscall.ofNr (((e.start w).proc v).resume.regs .origRax) = some .lseek := by
    intro v
    rw [hregs, hnr]
    exact Syscall.ofNr_nr .lseek
  obtain ⟨σ, hσ, hm⟩ := heach .master
  obtain ⟨σ', hσ', hr⟩ := heach .replica
  have hrdi : e.regs .replica .rdi = e.regs .master .rdi := (hsame 0 (by simp)).symm
  have hrsi : e.regs .replica .rsi = e.regs .master .rsi := (hsame 1 (by simp)).symm
  have hrdx : e.regs .replica .rdx = e.regs .master .rdx := (hsame 2 (by simp)).symm
  have hfd : fdOf (e.regs .replica) = fdOf (e.regs .master) := congrArg toInt hrdi
  obtain ⟨seek, -, hseek⟩ := he.kernel.seeks
  rw [offsetCall_lseek _ _ (hlseek _), hregs] at hm hr
  rw [hfd] at hr
  rw [SameOffsets, hm, hr, hw.update_map_iff]
  intro o ho ho'
  have hans := hseek .master ((e.start w).proc .master).resume σ o (hlseek _) (by rw [hσ, hregs]; exact ho)
  have hans' := hseek .replica ((e.start w).proc .replica).resume σ' o (hlseek _)
    (by rw [hσ', hregs, hfd]; exact ho')
  rw [hregs] at hans hans'
  rw [hans, hans', hfd, hrsi, hrdx]
  simp only [landing, hrsi, hrdx]

theorem sameOffsets_openat (he : OffsetRound e) (hc : e.call = .openat)
    (hstep : (rounds (Who → Offsets)).step w e w') (hw : SameOffsets w.os) : SameOffsets w'.os := by
  obtain ⟨m, rm, rr, hs, hm, hr, -⟩ :=
    offsetRound_seen he (by rw [hc]; decide) (by rw [hc]; decide) hstep
  have hnr := hstep.1
  rw [hc] at hnr hr
  have hopenat : ∀ v, Syscall.ofNr (((e.start w).proc v).resume.regs .origRax) = some .openat := by
    intro v
    rw [resume_regs, start_regs, hnr]
    exact Syscall.ofNr_nr .openat
  have hreleased : (e.start w).released .openat rm m = { (e.start w).proc .replica with mem := m } :=
    rfl
  have hopenat' : Syscall.ofNr (((e.start w).released .openat rm m).resume.regs .origRax) =
      some .openat := by
    rw [resume_regs, hreleased, ← resume_regs ((e.start w).proc .replica)]
    exact hopenat .replica
  obtain ⟨fd, hfd⟩ := he.kernel.opens
  have hans : (e.answer w).success? = fd := hfd _ _ _ (hopenat .master)
  rw [SameOffsets, hm, hr]
  unfold offsetCall
  rw [hans, hfd _ _ _ hopenat', hopenat .master, hopenat']
  cases fd with
  | none => exact hw
  | some n => exact (hw.update_iff _ _ _).2 fun o o' ho ho' => Option.some.inj (ho.symm.trans ho')

theorem sameOffsets_close (he : OffsetRound e) (hc : e.call = .close)
    (hstep : (rounds (Who → Offsets)).step w e w') (hw : SameOffsets w.os) : SameOffsets w'.os := by
  obtain ⟨m, rm, rr, hs, hm, hr, -⟩ :=
    offsetRound_seen he (by rw [hc]; decide) (by rw [hc]; decide) hstep
  have hclosed : ∀ (t : Tracee) (answer : SysResult) (τ : Offsets) (d : BitVec 32) (o : ℕ),
      Syscall.ofNr (t.regs .origRax) = some .close → offsetCall t answer τ d = some o → τ d = some o := by
    intro t answer τ d o hclose h
    unfold offsetCall at h
    rw [hclose] at h
    cases hans : answer.success? with
    | none =>
      rw [hans] at h
      exact h
    | some n =>
      rw [hans] at h
      by_cases hd : d = fdOf t.regs
      · subst hd
        simp at h
      · simpa [hd] using h
  have hnr := hstep.1
  rw [hc] at hnr hr
  rw [SameOffsets, hm, hr]
  refine hw.of_le (fun d o h => hclosed _ _ _ d o ?_ h) fun d o h => hclosed _ _ _ d o ?_ h
  · rw [resume_regs, start_regs, hnr]
    exact Syscall.ofNr_nr .close
  · rw [resume_regs]
    exact (congrArg Syscall.ofNr (hnr .replica)).trans (Syscall.ofNr_nr .close)

/-- Equal offsets stay equal in an accepted call exactly if it moves them alike. -/
theorem sameOffsets_step_iff (he : OffsetRound e) (hstep : (rounds (Who → Offsets)).step w e w')
    (hw : SameOffsets w.os) : SameOffsets w'.os ↔ MovesAlike w e := by
  unfold MovesAlike
  have hcall := he.call
  simp only [fileCalls, List.mem_cons, List.not_mem_nil, or_false] at hcall
  rcases hcall with hc | hc | hc | hc | hc
  · rw [hc]
    exact iff_of_true (sameOffsets_openat he hc hstep hw) fun _ _ _ _ _ _ _ _ => trivial
  · rw [hc]
    exact sameOffsets_read he hc hstep hw
  · rw [hc]
    exact sameOffsets_write he hc hstep hw
  · rw [hc]
    exact iff_of_true (sameOffsets_lseek he hc hstep hw) fun _ _ _ _ _ _ _ _ => trivial
  · rw [hc]
    exact iff_of_true (sameOffsets_close he hc hstep hw) fun _ _ _ _ _ _ _ _ => trivial

/-- **File offsets agree.**  All along a run of accepted `openat`, `read`, `write`, `lseek` and
`close` calls that starts with equal offsets, both variants are at the same offset of every
file, if and only if every call of the run moves them alike where it is made. -/
theorem offsets_agree_iff {es : List (Round (Who → Offsets))} (hw : SameOffsets w.os)
    (hrun : offsetRounds.Run w es w') :
    offsetRounds.Always (fun t => SameOffsets t.os) w es ↔
      (offsetRounds.restrict MovesAlike).Run w es w' :=
  hrun.always_iff (rounds_deterministic.restrict _) hw fun _ _ _ ht hstep =>
    sameOffsets_step_iff hstep.2 hstep.1 ht

end

/-! ## Two calls that part the offsets -/

/-- What a relative `lseek` from the offset `o` returns. -/
def seekCur (d whence : Word) (o : ℕ) : Option Word :=
  if toInt whence = toInt SEEK_CUR ∧ 0 ≤ (o : ℤ) + d.toInt then
    some (BitVec.ofNat 64 (((o : ℤ) + d.toInt).toNat % 2 ^ 63))
  else none

/-- An offset is no error number. -/
theorem isErr_of_seekCur {d whence pos : Word} {o : ℕ} (h : seekCur d whence o = some pos) :
    SyscallInfo.isErr pos = false := by
  unfold seekCur at h
  split at h
  · obtain rfl := Option.some.inj h
    have hmax : (-4095 : Word).toNat = 2 ^ 64 - 4095 := by decide
    rw [SyscallInfo.isErr, decide_eq_false_iff_not, BitVec.le_def, BitVec.toNat_ofNat, hmax]
    omega
  · exact absurd h (by simp)

/-- What a call returns whose `read` or `write` of the master's comes to `n`, and whose
`write` of the replica's is one from an address that is not mapped. -/
def filed (n : Word) (v : Who) (t : Tracee) (τ : Offsets) : SysResult :=
  match Syscall.ofNr (t.regs .origRax) with
  | some .openat => .ret 3 0 0 t.mem
  | some .read => .ret n 0 0 t.mem
  | some .write => .ret (if v = .master then n else -14) 0 0 t.mem
  | some .lseek => .ret (((τ (fdOf t.regs)).bind (seekCur (t.regs .rsi) (t.regs .rdx))).getD (-22))
      0 0 t.mem
  | _ => .ret 0 0 0 t.mem

/-- A kernel that keeps the offsets, and answers so. -/
def Kernel.filing (n : Word) : Kernel (Who → Offsets) where
  syscall v t σ := (filed n v t (σ v),
    Function.update σ v (offsetCall t (filed n v t (σ v)) (σ v)))
  user _ _ _ := .died
  killed _ := false
  junk := .stopped

/-- Its `lseek` of an open descriptor. -/
theorem filed_lseek (n : Word) (v : Who) {t : Tracee} {τ : Offsets} {o : ℕ}
    (hc : Syscall.ofNr (t.regs .origRax) = some .lseek) (ho : τ (fdOf t.regs) = some o) :
    (filed n v t τ).success? = seekCur (t.regs .rsi) (t.regs .rdx) o := by
  unfold filed
  rw [hc, ho, Option.bind_some]
  cases hseek : seekCur (t.regs .rsi) (t.regs .rdx) o with
  | none => rfl
  | some pos => rw [Option.getD_some, SysResult.success?, isErr_of_seekCur hseek]; rfl

/-- A relative one fails below zero. -/
theorem seekCur_isSome_iff {d whence : Word} (o : ℕ) (h : toInt whence = toInt SEEK_CUR) :
    (seekCur d whence o).isSome ↔ 0 ≤ (o : ℤ) + d.toInt := by
  simp [seekCur, h]

theorem offsetKernel_filing (n : Word) : OffsetKernel (.filing n) where
  effect _ _ _ := rfl
  opens := ⟨some 3, fun v t σ h => by
    show (filed n v t (σ v)).success? = some 3
    unfold filed
    rw [h]
    rfl⟩
  seeks := ⟨fun _ => seekCur, fun _ _ _ o hwhence => seekCur_isSome_iff o hwhence,
    fun v _ _ _ hc ho => filed_lseek n v hc ho⟩

/-- Descriptor 3 is open in both variants, at the offset `o`. -/
def openAt (o : ℕ) : World (Who → Offsets) :=
  .standing (fun _ => callRegs 0 fun _ => 0) (fun _ _ => none)
    fun _ => Function.update (fun _ => none) 3 (some o)

theorem sameOffsets_openAt (o : ℕ) : SameOffsets (openAt o).os := fun _ _ _ h h' =>
  Option.some.inj (h.symm.trans h')

/-- A call with the arguments `args`, in variants whose memory is full of the letter `a`. -/
def fileRound (c : Syscall) (n : Word) (args : Fin 6 → Word) : Round (Who → Offsets) :=
  { Round.alike c (.filing n) args with mem := fun _ _ => some 0x61 }

theorem offsetRound_fileRound {c : Syscall} (hc : c ∈ fileCalls) (n : Word) (args : Fin 6 → Word) :
    OffsetRound (fileRound c n args) := ⟨hc, offsetKernel_filing n⟩

theorem step_fileRound {c : Syscall} {n : Word} {args : Fin 6 → Word} {w : World (Who → Offsets)}
    (hc : c ∈ fileCalls)
    (h : (execSyscall (.filing n) c ((fileRound c n args).start w)).val? = some 0) :
    offsetRounds.step w (fileRound c n args) ((fileRound c n args).next w) :=
  ⟨rounds_step_iff.2 ⟨fun _ => rfl, h, rfl⟩, offsetRound_fileRound hc n args⟩

/-- `write(3, 0x1000, 5)`, which writes everything. -/
def writeFive : Round (Who → Offsets) := fileRound .write 5 ![3, 0x1000, 5, 0, 0, 0]

/-- `read(3, 0x1000, 4)`, which returns `-1`. -/
def readFails : Round (Who → Offsets) := fileRound .read (-1) ![3, 0x1000, 4, 0, 0, 0]

/-- After the `write` the master is at 5 and the replica at 0; after the `read`, at 7 and 6. -/
theorem offsets_part :
    (∃ w, offsetRounds.Run (openAt 0) [writeFive] w ∧ ¬ SameOffsets w.os) ∧
      ∃ w, offsetRounds.Run (openAt 7) [readFails] w ∧ ¬ SameOffsets w.os := by
  have hwrite : offsetRounds.step (openAt 0) writeFive (writeFive.next (openAt 0)) :=
    step_fileRound (by decide) (by decide +kernel)
  have hread : offsetRounds.step (openAt 7) readFails (readFails.next (openAt 7)) :=
    step_fileRound (by decide) (by decide +kernel)
  refine ⟨⟨_, .single hwrite, fun h => ?_⟩, _, .single hread, fun h => ?_⟩
  · exact absurd (h 3 5 0 (by decide +kernel) (by decide +kernel)) (by decide)
  · exact absurd (h 3 7 6 (by decide +kernel) (by decide +kernel)) (by decide)

/-- `read(3, 0x1000, 4)`, which reads four bytes. -/
def readFour : Round (Who → Offsets) := fileRound .read 4 ![3, 0x1000, 4, 0, 0, 0]

/-- After a `read` of four bytes both are at 4. -/
theorem offsets_agree_read :
    offsetRounds.Always (fun t => SameOffsets t.os) (openAt 0) [readFour] := by
  have hstep : offsetRounds.step (openAt 0) readFour (readFour.next (openAt 0)) :=
    step_fileRound (by decide) (by decide +kernel)
  refine (offsets_agree_iff (sameOffsets_openAt 0) (.single hstep)).2 (.single ⟨hstep, ?_⟩)
  intro o _ _ rm rcx r11 mem hans
  obtain ⟨rfl, -⟩ := SysResult.ret.inj (show SysResult.ret 4 0 0 _ = _ from hans)
  exact fun h => absurd h (by decide)

end Aurora
