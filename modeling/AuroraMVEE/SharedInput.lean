import AuroraMVEE.Offsets

/-!
# Shared input

The variants are forked from the monitor.  A descriptor that the monitor had open names one
open file description in both of them, with one offset.  Here the kernel's state has the
descriptions apart from the descriptors, and a run is any sequence of accepted `read` calls
on descriptors of one shared description.

The replica's seek by the master's result is to catch up with the master.  On a shared
description there is nothing to catch up with, and the next `read` begins as many bytes too
far.  `shared_input_once_iff` says which runs show nothing of it.
-/

namespace Aurora

/-! ## Open file descriptions -/

/-- The description each descriptor of a variant names, and the offset of each description. -/
structure Files where
  table : Who → BitVec 32 → Option ℕ
  offset : ℕ → ℕ

/-- The description `d` moves. -/
def Files.move (σ : Files) (d : ℕ) (f : ℕ → ℕ) : Files :=
  { σ with offset := Function.update σ.offset d (f (σ.offset d)) }

@[simp] theorem Files.move_table (σ : Files) (d : ℕ) (f : ℕ → ℕ) : (σ.move d f).table = σ.table := rfl

@[simp] theorem Files.move_offset (σ : Files) (d : ℕ) (f : ℕ → ℕ) :
    (σ.move d f).offset d = f (σ.offset d) := Function.update_self _ _ _

theorem Files.move_of_eq {σ : Files} {d : ℕ} {f : ℕ → ℕ} (h : f (σ.offset d) = σ.offset d) :
    σ.move d f = σ := by
  unfold Files.move
  rw [h, Function.update_eq_self]

/-- What a `read` or an `lseek` of the process `t`, which is `v`, does to the description its
descriptor names, if it is answered so. -/
def fileCall (v : Who) (t : Tracee) (answer : SysResult) (σ : Files) : Files :=
  match σ.table v (fdOf t.regs), answer.success?, Syscall.ofNr (t.regs .origRax) with
  | some d, some n, some .read => σ.move d (· + n.toNat)
  | some d, some pos, some .lseek => σ.move d (landing t.regs pos)
  | _, _, _ => σ

/-- A kernel that keeps the descriptions.  A relative `lseek` fails exactly where the offset
would become negative. -/
structure FileKernel (K : Kernel Files) : Prop where
  effect : ∀ v t σ, Syscall.ofNr (t.regs .origRax) ∈ [some .read, some .lseek] →
    (K.syscall v t σ).2 = fileCall v t (K.syscall v t σ).1 σ
  seeks : ∀ v t σ d, Syscall.ofNr (t.regs .origRax) = some .lseek →
    toInt (t.regs .rdx) = toInt SEEK_CUR → σ.table v (fdOf t.regs) = some d →
      ((K.syscall v t σ).1.success?.isSome ↔ 0 ≤ (σ.offset d : ℤ) + (t.regs .rsi).toInt)

/-- A `read` from a descriptor that names the description `d` in both variants. -/
structure SharedRead (d : ℕ) (w : World Files) (e : Round Files) : Prop where
  call : e.call = .read
  kernel : FileKernel e.kernel
  inherited : ∀ v, w.os.table v (fdOf (e.regs .master)) = some d

/-- The machine of accepted reads from the description `d`. -/
def sharedReads (d : ℕ) : Machine (World Files) (Round Files) :=
  (rounds Files).restrict (SharedRead d)

/-- How many bytes the master receives. -/
def received (w : World Files) (e : Round Files) : ℕ := (e.answer w).advance

/-- The executor moves the shared offset by what the master receives. -/
def AdvancesOnce (d : ℕ) (w : World Files) (e : Round Files) (w' : World Files) : Prop :=
  w'.os.offset d = w.os.offset d + received w e

/-- The kernel reads nothing: it returns 0, or it returns `-1` at the start of the file. -/
def NothingRead (d : ℕ) (w : World Files) (e : Round Files) : Prop :=
  ∀ rm rcx r11 mem, e.answer w = .ret rm rcx r11 mem → rm = 0 ∨ rm = -1 ∧ w.os.offset d = 0

/-! ## What a round does to the description -/

/-- `read` moves the description it is made at. -/
theorem fileCall_read {v : Who} {t : Tracee} {σ : Files} {d : ℕ} (answer : SysResult)
    (hc : Syscall.ofNr (t.regs .origRax) = some .read) (hd : σ.table v (fdOf t.regs) = some d) :
    fileCall v t answer σ = σ.move d (· + answer.advance) := by
  unfold fileCall SysResult.advance
  rw [hd, hc]
  cases answer.success? with
  | none => exact (Files.move_of_eq rfl).symm
  | some n => rfl

/-- A relative `lseek` adds, unless that leads below zero. -/
theorem fileCall_seeksBy {v : Who} {t : Tracee} {σ : Files} {d : ℕ} {fd : BitVec 32} {rm : Word}
    {answer : SysResult} (ht : t.SeeksBy fd rm) (hd : σ.table v fd = some d)
    (hsucc : answer.success?.isSome ↔ 0 ≤ (σ.offset d : ℤ) + rm.toInt) :
    fileCall v t answer σ = σ.move d (seekFrom rm.toInt) := by
  unfold fileCall
  rw [ht.fd, hd, ht.call]
  cases hans : answer.success? with
  | none =>
    rw [hans] at hsucc
    refine (Files.move_of_eq ?_).symm
    exact if_neg fun h => absurd (hsucc.2 h) (by decide)
  | some pos =>
    rw [hans] at hsucc
    show σ.move d (landing t.regs pos) = _
    unfold Files.move
    rw [landing, if_pos ht.whence, ht.offset, seekFrom, if_pos (hsucc.1 rfl)]

section

variable {w w' : World Files} {e : Round Files} {d : ℕ}

/-- The master's `read` moves the description, and then the replica's seek does. -/
theorem sharedRead_moves (he : SharedRead d w e) (hstep : (rounds Files).step w e w') :
    ∃ rm rcx r11 mem, e.answer w = .ret rm rcx r11 mem ∧ (rm = -1 ∨ rm.toNat ≤ BUF_SIZE) ∧
      w'.os = (w.os.move d (· + received w e)).move d (seekFrom rm.toInt) := by
  obtain ⟨m, rm, rr, hs⟩ :=
    seenThrough_round (by rw [he.call]; decide) (by rw [he.call]; decide) hstep
  obtain ⟨rcx, r11, mem, hans⟩ := hs.master
  have hos := hs.os
  have hnr := hstep.1 .master
  obtain ⟨-, w₁, hrun, -⟩ := hstep
  rw [he.call] at hos hnr hrun
  refine ⟨rm, rcx, r11, mem, hans,
    read_accepted (start_atEntry w e .master) (start_atEntry w e .replica) hrun hans, ?_⟩
  -- the master's call
  have hregs : ((e.start w).proc .master).resume.regs = e.regs .master := resume_regs _
  have hread : Syscall.ofNr (((e.start w).proc .master).resume.regs .origRax) = some .read := by
    rw [hregs, hnr]
    exact Syscall.ofNr_nr .read
  have hmaster : (e.kernel.answer .master (e.start w)).2 = w.os.move d (· + received w e) := by
    refine (he.kernel.effect _ _ _ (by simp [hread])).trans (fileCall_read _ hread ?_)
    rw [hregs]
    exact he.inherited .master
  -- the replica's
  have hreplica := released_read_seeks w e rm m
  rw [hos, he.kernel.effect _ _ _ (by simp [hreplica.call]), hmaster]
  refine fileCall_seeksBy hreplica (he.inherited .replica) ?_
  have hseek := he.kernel.seeks .replica _ (w.os.move d (· + received w e)) d hreplica.call
    hreplica.whence (by rw [hreplica.fd]; exact he.inherited .replica)
  rwa [hreplica.offset] at hseek

/-- The second move is none exactly if nothing was read. -/
theorem advancesOnce_iff (he : SharedRead d w e) (hstep : (rounds Files).step w e w') :
    AdvancesOnce d w e w' ↔ NothingRead d w e := by
  obtain ⟨rm, rcx, r11, mem, hans, hsize, hos⟩ := sharedRead_moves he hstep
  have hoffset : w'.os.offset d = seekFrom rm.toInt (w.os.offset d + received w e) := by
    rw [hos, Files.move_offset, Files.move_offset]
  have hnothing : NothingRead d w e ↔ rm = 0 ∨ rm = -1 ∧ w.os.offset d = 0 := by
    constructor
    · exact fun h => h rm rcx r11 mem hans
    · rintro h rm' rcx' r11' mem' hans'
      obtain ⟨rfl, -⟩ := SysResult.ret.inj (hans.symm.trans hans')
      exact h
  rw [AdvancesOnce, hoffset, hnothing]
  unfold received
  rw [hans]
  rcases hsize with rfl | hle
  · have hfail : (SysResult.ret (-1) rcx r11 mem).advance = 0 := rfl
    have hback : (-1 : Word).toInt = -1 := by decide
    have hzero : (-1 : Word) ≠ 0 := by decide
    rw [hfail, hback, seekFrom]
    simp only [hzero, false_or, true_and]
    split <;> omega
  · have hne := ne_minusOne_of_le hle
    have hrm : rm = 0 ↔ rm.toNat = 0 := ⟨fun h => by rw [h]; rfl, fun h => BitVec.eq_of_toNat_eq h⟩
    rw [advance_of_le hle, seekFrom_of_le hle, hrm]
    simp only [hne, false_and, or_false]
    omega

/-- **Shared input is consumed once.**  In a run of accepted reads from a description that the
variants share, each moves its offset by as many bytes as the master receives, if and only if
none of them reads anything. -/
theorem shared_input_once_iff {es : List (Round Files)} (hrun : (sharedReads d).Run w es w') :
    (sharedReads d).EachStep (AdvancesOnce d) w es ↔
      ((sharedReads d).restrict (NothingRead d)).Run w es w' :=
  hrun.eachStep_iff (rounds_deterministic.restrict _) fun _ _ _ hstep =>
    advancesOnce_iff hstep.2 hstep.1

/-- If each does, then the reads are consecutive: the next begins where the last one ended. -/
theorem reads_consecutive {es : List (Round Files)} {n : ℕ}
    (hrun : (sharedReads d).Total received w es w' n)
    (honce : (sharedReads d).EachStep (AdvancesOnce d) w es) :
    w'.os.offset d = w.os.offset d + n := hrun.counter honce

end

/-! ## Two reads -/

/-- The offsets behind the descriptors of `v`. -/
def Files.offsetsOf (σ : Files) (v : Who) : Offsets := fun fd => (σ.table v fd).map σ.offset

/-- A kernel that keeps the descriptions, and whose reads come to `n`. -/
def Kernel.sharing (n : Word) : Kernel Files where
  syscall v t σ := (filed n v t (σ.offsetsOf v), fileCall v t (filed n v t (σ.offsetsOf v)) σ)
  user _ _ _ := .died
  killed _ := false
  junk := .stopped

theorem fileKernel_sharing (n : Word) : FileKernel (.sharing n) where
  effect _ _ _ _ := rfl
  seeks v t σ d hc hwhence hd := by
    have ho : σ.offsetsOf v (fdOf t.regs) = some (σ.offset d) := by
      rw [Files.offsetsOf, hd, Option.map_some]
    show (filed n v t (σ.offsetsOf v)).success?.isSome ↔ _
    rw [filed_lseek n v hc ho]
    exact seekCur_isSome_iff _ hwhence

/-- Standard input is a file, at its start. -/
def redirected : World Files :=
  .standing (fun _ => callRegs 0 fun _ => 0) (fun _ _ => none)
    ⟨fun _ fd => if fd = 0 then some 0 else none, fun _ => 0⟩

/-- `read(0, 0x1000, 4)`, which returns `n`. -/
def readInput (n : Word) : Round Files :=
  { Round.alike .read (.sharing n) ![0, 0x1000, 4, 0, 0, 0] with mem := fun _ _ => some 0x61 }

theorem step_readInput {n : Word} {w : World Files} (htable : w.os.table = redirected.os.table)
    (h : (execSyscall (.sharing n) .read ((readInput n).start w)).val? = some 0) :
    (sharedReads 0).step w (readInput n) ((readInput n).next w) := by
  refine ⟨rounds_step_iff.2 ⟨fun _ => rfl, h, rfl⟩, rfl, fileKernel_sharing n, fun v => ?_⟩
  rw [htable]
  rfl

/-- The master has received eight bytes, the first four of the file and the third four. -/
theorem shared_input_skipped : ∃ w, (sharedReads 0).Run redirected [readInput 4, readInput 4] w ∧
    (sharedReads 0).Total received redirected [readInput 4, readInput 4] w 8 ∧
    w.os.offset 0 = 16 ∧
    ¬ (sharedReads 0).EachStep (AdvancesOnce 0) redirected [readInput 4, readInput 4] := by
  have hfirst : (sharedReads 0).step redirected (readInput 4) ((readInput 4).next redirected) :=
    step_readInput rfl (by decide +kernel)
  have htable : ((readInput 4).next redirected).os.table = redirected.os.table := by
    obtain ⟨rm, -, -, -, -, -, hos⟩ := sharedRead_moves hfirst.2 hfirst.1
    rw [hos]
    rfl
  have hsecond := step_readInput (n := 4) htable (by decide +kernel)
  have htotal : (sharedReads 0).Total received redirected [readInput 4, readInput 4]
      ((readInput 4).next ((readInput 4).next redirected)) 8 := .snoc (.snoc .nil hfirst) hsecond
  have hone : ((readInput 4).next redirected).os.offset 0 = 8 := by decide +kernel
  refine ⟨_, htotal.run, htotal, by decide +kernel, fun h => ?_⟩
  have honce := h [] (readInput 4) redirected _ ⟨[readInput 4], rfl⟩ .nil hfirst
  rw [AdvancesOnce, hone] at honce
  exact absurd honce (by decide +kernel)

/-- At the end of the file nothing is lost. -/
theorem shared_input_once_end :
    (sharedReads 0).EachStep (AdvancesOnce 0) redirected [readInput 0] := by
  have hstep : (sharedReads 0).step redirected (readInput 0) ((readInput 0).next redirected) :=
    step_readInput rfl (by decide +kernel)
  refine (shared_input_once_iff (.single hstep)).2 (.single ⟨hstep, ?_⟩)
  intro rm rcx r11 mem hans
  obtain ⟨rfl, -⟩ := SysResult.ret.inj (show SysResult.ret 0 0 0 _ = _ from hans)
  exact .inl rfl

end Aurora
