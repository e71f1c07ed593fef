import AuroraMVEE.Rounds
import AuroraMVEE.Lib.AddressSpace

/-!
# Shared writable memory

The mapping policy is to keep the master from ever having memory that is both
shared and writable.  Here the kernel's state is the master's address space, changed
by `mmap`, `munmap` and `mprotect` as the system calls say, and a run is any sequence
of calls that the executors accept.

Two ways past the policy remain.  Its flag test takes `MAP_SHARED_VALIDATE` for a
private mapping; and its table knows a mapping by its start address only, because
the length it records is read from a struct that no longer holds it.
`safe_step_iff` says of each accepted call whether it keeps the space safe, and
`no_shared_writable_iff` carries that through every run.
-/

namespace Aurora

/-! ## The master's address space -/

/-- What the kernel knows of the mapping an address belongs to. -/
structure Area where
  prot : BitVec 32
  flags : BitVec 32
  deriving DecidableEq, Repr

/-- The kernel treats the mapping as shared. -/
def Area.Shared (a : Area) : Prop :=
  a.flags &&& MAP_TYPE = MAP_SHARED ∨ a.flags &&& MAP_TYPE = MAP_SHARED_VALIDATE

instance (a : Area) : Decidable a.Shared := inferInstanceAs (Decidable (_ ∨ _))

/-- Shared, and writable. -/
def Area.SharedWritable (a : Area) : Prop := a.Shared ∧ a.prot &&& PROT_WRITE ≠ 0

instance (a : Area) : Decidable a.SharedWritable := inferInstanceAs (Decidable (_ ∧ _))

/-- The master's address space. -/
abbrev Space := AddressSpace Word Area

/-- No address is both shared and writable. -/
def Space.Safe (σ : Space) : Prop := AddressSpace.All σ fun a => ¬ a.SharedWritable

/-- The addresses from `addr` up to `addr + len`. -/
def inRange (addr len x : Word) : Prop := addr.toNat ≤ x.toNat ∧ x.toNat < addr.toNat + len.toNat

instance (addr len : Word) : DecidablePred (inRange addr len) :=
  fun _ => inferInstanceAs (Decidable (_ ∧ _))

theorem exists_inRange_iff (addr len : Word) : (∃ x, inRange addr len x) ↔ len ≠ 0 := by
  constructor
  · rintro ⟨x, h₁, h₂⟩ rfl
    simp at h₂
    omega
  · intro h
    refine ⟨addr, le_refl _, ?_⟩
    have hpos : 0 < len.toNat := Nat.pos_of_ne_zero fun h0 => h (BitVec.eq_of_toNat_eq (by simpa using h0))
    omega

/-- The value a call returns, if it succeeds. -/
def SysResult.success? : SysResult → Option Word
  | .died => none
  | .ret rax _ _ _ => if SyscallInfo.isErr rax then none else some rax

theorem ret_of_success {answer : SysResult} {x : Word} (h : answer.success? = some x) :
    ∃ rcx r11 mem, answer = .ret x rcx r11 mem := by
  cases answer with
  | died => exact absurd h (by simp [SysResult.success?])
  | ret rax rcx r11 mem =>
    rw [SysResult.success?] at h
    by_cases herr : SyscallInfo.isErr rax
    · rw [if_pos herr] at h
      exact absurd h (by simp)
    · rw [if_neg herr] at h
      obtain rfl := Option.some.inj h
      exact ⟨rcx, r11, mem, rfl⟩

/-- What the call of the master `t`, answered so, does to the address space. -/
def memoryCall (t : Tracee) (σ : Space) (answer : SysResult) : Space :=
  match answer.success? with
  | none => σ
  | some rax => match Syscall.ofNr (t.regs .origRax) with
    | some .mmap => σ.map (inRange rax (t.regs .rsi)) ⟨toInt (t.regs .rdx), toInt (t.regs .r10)⟩
    | some .munmap => σ.unmap (inRange (t.regs .rdi) (t.regs .rsi))
    | some .mprotect => σ.modify (inRange (t.regs .rdi) (t.regs .rsi)) fun a =>
        { a with prot := toInt (t.regs .rdx) }
    | _ => σ

/-- A kernel that keeps the master's address space.  Where a mapping goes, and whether
a call succeeds, is left to it. -/
structure MemoryKernel (K : Kernel Space) : Prop where
  master : ∀ t σ, (K.syscall .master t σ).2 = memoryCall t σ (K.syscall .master t σ).1
  replica : ∀ t σ, (K.syscall .replica t σ).2 = σ

/-! ## Accepted calls -/

/-- The calls that change an address space. -/
def memoryCalls : List Syscall := [.mmap, .munmap, .mprotect]

/-- A round of such a call, under a kernel that keeps the address space. -/
structure MemoryRound (e : Round Space) : Prop where
  call : e.call ∈ memoryCalls
  kernel : MemoryKernel e.kernel

/-- What the kernel answers to the master's call. -/
def Round.answer {ρ : Type} (e : Round ρ) (w : World ρ) : SysResult :=
  (e.kernel.answer .master (e.start w)).1

/-- An accepted `mmap`: the master is through its call, and what it returned is in the table,
with the length that an exit stop leaves in the struct; the replica is in its own call. -/
theorem mmap_accepted {ρ : Type} {K : Kernel ρ} {w w' : World ρ} (hw : ∀ v, (w.ctl v).AtEntry)
    (hrun : execSyscall K .mmap w = .ret 0 w') :
    w.MmapAllowed ∧ w'.os = (K.answer .master w).2 ∧ (w'.proc .master).loc = .user ∧
      w'.proc .replica = (w.proc .replica).resume ∧ ∃ rax rcx r11 mem,
        (K.answer .master w).1 = .ret rax rcx r11 mem ∧
        w'.mappings = addMapping w.mappings rax 0 (toInt ((w.var .master).syscallInfo.arg 2))
          (toInt ((w.var .master).syscallInfo.arg 3)) := by
  obtain ⟨hallowed, β, hbody⟩ := (decides_mmapEq w).accepted hrun
  refine ⟨hallowed, ?_⟩
  have hm : (w.ctl .master).AtEntry := hw .master
  have hwait := hbody
  rw [Prog.bind_of_ret (show argOf .master 2 (w.withBufs β) = .ret _ _ from rfl),
    Prog.bind_of_ret (show argOf .master 3 (w.withBufs β) = .ret _ _ from rfl)] at hwait
  cases hans : (K.answer .master w).1 with
  | died =>
    rw [resumeAndWait_or_died (w := w.withBufs β) hm hans] at hwait
    exact absurd (Outcome.ret.inj hwait).1 (by decide)
  | ret rax rcx r11 mem =>
    rw [resumeAndWait_or_ret (w := w.withBufs β) hm hans] at hwait
    obtain ⟨-, rfl⟩ := Outcome.ret.inj hwait
    have hexit := through_atExit (w := w.withBufs β) hm hans
    refine ⟨rfl, congrArg Tracee.loc (resume_atExit hexit), rfl, rax, rcx, r11, mem, rfl, ?_⟩
    -- `args[1]` comes from the struct of the exit stop
    change addMapping w.mappings (((w.withBufs β).through K .master).proc .master).syscallInfo.rval
      ((((w.withBufs β).through K .master).proc .master).syscallInfo.arg 1) _ _ = _
    rw [through_syscallInfo (w := w.withBufs β) hm hans, SyscallInfo.ofExit_rval, retRegs_rax]
    rfl

/-- An accepted `munmap`: its entry is out of the table, and both variants are in their call. -/
theorem munmap_accepted {ρ : Type} {K : Kernel ρ} {w w' : World ρ}
    (hrun : execSyscall K .munmap w = .ret 0 w') :
    ∃ w₂, (resumeBoth : Mon ρ Int) w₂ = .ret 0 w' ∧ w₂.proc = w.proc ∧ w₂.ctl = w.ctl ∧
      w₂.os = w.os ∧
      w₂.mappings = (removeMapping w.mappings ((w.var .master).syscallInfo.arg 0)).1 := by
  obtain ⟨a, β, h⟩ := readOnly_verdict .munmap w
  cases a with
  | false =>
    rw [show execSyscall K .munmap w = .ret (-1) _ from guarded_false h _] at hrun
    exact absurd (Outcome.ret.inj hrun).1 (by decide)
  | true =>
    rw [show execSyscall K .munmap w = _ from guarded_true h _] at hrun
    exact ⟨_, hrun, rfl, rfl, rfl, rfl⟩

/-- What an accepted `munmap` leaves of the table. -/
theorem munmap_mappings {ρ : Type} {K : Kernel ρ} {w w' : World ρ}
    (hrun : execSyscall K .munmap w = .ret 0 w') :
    w'.mappings = (removeMapping w.mappings ((w.var .master).syscallInfo.arg 0)).1 := by
  obtain ⟨w₂, hbody, -, -, -, htable⟩ := munmap_accepted hrun
  obtain ⟨w₃, hres, -, -, hkept⟩ := resumeBoth_apply w₂
  obtain ⟨-, rfl⟩ := Outcome.ret.inj (hbody.symm.trans hres)
  rw [hkept, htable]

/-- A round changes the kernel state as the master's call does, if only that changes it. -/
theorem round_os {ρ : Type} {f : Tracee → ρ → SysResult → ρ} {w w' : World ρ} {e : Round ρ}
    (hcall : e.call ∈ memoryCalls)
    (hmaster : ∀ t σ, (e.kernel.syscall .master t σ).2 = f t σ (e.kernel.syscall .master t σ).1)
    (hreplica : ∀ t σ, (e.kernel.syscall .replica t σ).2 = σ) (hstep : (rounds ρ).step w e w') :
    w'.os = f ((e.start w).proc .master).resume w.os (e.answer w) := by
  obtain ⟨hnr, w₁, hrun, rfl⟩ := hstep
  have hat := start_atEntry w e
  have hdone : (e.kernel.answer .master (e.start w)).2 =
      f ((e.start w).proc .master).resume w.os (e.answer w) := hmaster _ _
  -- the two calls that both variants make, in either order
  have hboth : ∀ w₂ : World ρ, (resumeBoth : Mon ρ Int) w₂ = .ret 0 w₁ →
      w₂.proc = (e.start w).proc → w₂.ctl = (e.start w).ctl → w₂.os = w.os →
      (w₁.settle e.kernel e.first).os =
        f ((e.start w).proc .master).resume w.os (e.answer w) := by
    intro w₂ hres hproc hctl hos
    rw [os_resumeBoth e.kernel e.first (by rw [hctl]; exact hat) hres, hos, hproc]
    cases e.first with
    | master => exact (hreplica _ _).trans hdone
    | replica => rw [hreplica]; exact hdone
  simp only [memoryCalls, List.mem_cons, List.not_mem_nil, or_false] at hcall
  rcases hcall with hc | hc | hc <;> rw [hc] at hrun
  · obtain ⟨-, hos, hm, hr, -⟩ := mmap_accepted hat hrun
    have hwork : (w₁.proc .replica).AtWork := by
      rw [hr]
      exact atWork_resume (hat .replica)
    rw [settle_os_one e.kernel e.first hwork (by simp [Who.other, hm]), hreplica, hos]
    exact hdone
  · obtain ⟨w₂, hbody, hproc, hctl, hos, -⟩ := munmap_accepted hrun
    exact hboth w₂ hbody hproc hctl hos
  · obtain ⟨-, β, hbody⟩ := (decides_mprotectEq (e.start w)).accepted hrun
    exact hboth _ hbody rfl rfl rfl

/-- A round changes the address space as the master's call does. -/
theorem memoryRound_os {w w' : World Space} {e : Round Space} (he : MemoryRound e)
    (hstep : (rounds Space).step w e w') :
    w'.os = memoryCall ((e.start w).proc .master).resume w.os (e.answer w) :=
  round_os he.call he.kernel.master he.kernel.replica hstep

/-! ## What keeps the space safe -/

/-- Where the policy holds, only one kind of mapping is shared and writable. -/
theorem sharedWritable_iff_of_policy {a : Area} (h : checkMMapPerms a.prot a.flags = 0) :
    a.SharedWritable ↔ a.prot &&& PROT_WRITE ≠ 0 ∧ a.flags &&& MAP_TYPE = MAP_SHARED_VALIDATE := by
  refine ⟨fun ⟨hshared, hw⟩ => ⟨hw, hshared.resolve_left fun hs => ?_⟩, fun ⟨hw, hs⟩ => ⟨.inr hs, hw⟩⟩
  have hmask : a.flags &&& MAP_PRIVATE = a.flags &&& MAP_TYPE &&& MAP_PRIVATE := by
    rw [BitVec.and_assoc]
    rfl
  refine checkMMapPerms_eq_zero_iff.1 h hw ?_
  rw [hmask, hs]
  rfl

/-- A call that gives write permission, and does so safely if it succeeds: a mapping is
not one of the kind the flag test overlooks; and where a change of protection would reach
a shared page, the table knows the address as that of a mapping that is not private. -/
def Harmless (w : World Space) (e : Round Space) : Prop :=
  (e.answer w).success?.isSome → toInt (e.regs .master .rdx) &&& PROT_WRITE ≠ 0 →
    match e.call with
    | .mmap => e.regs .master .rsi ≠ 0 →
        toInt (e.regs .master .r10) &&& MAP_TYPE ≠ MAP_SHARED_VALIDATE
    | .mprotect => ∀ x a, inRange (e.regs .master .rdi) (e.regs .master .rsi) x → w.os x = some a →
        a.Shared → ∃ map, findMapping w.mappings (e.regs .master .rdi) = some map ∧
          map.flags &&& MAP_PRIVATE = 0
    | _ => True

/-- A safe space stays safe under an accepted call exactly if the call is harmless. -/
theorem safe_step_iff {w w' : World Space} {e : Round Space} (he : MemoryRound e)
    (hstep : (rounds Space).step w e w') (hw : w.os.Safe) : w'.os.Safe ↔ Harmless w e := by
  rw [memoryRound_os he hstep]
  obtain ⟨hnr, w₁, hrun, -⟩ := hstep
  have hat := start_atEntry w e
  have hregs : ((e.start w).proc .master).resume.regs = e.regs .master :=
    congrArg Tracee.regs (resume_atEntry (hat .master))
  unfold memoryCall Harmless
  rw [hregs, hnr .master, Syscall.ofNr_nr]
  cases e.answer w |>.success? with
  | none => simp [hw]
  | some rax =>
    have hcall := he.call
    simp only [memoryCalls, List.mem_cons, List.not_mem_nil, or_false] at hcall
    rcases hcall with hc | hc | hc <;> rw [hc] at hrun ⊢
    · -- the new mapping passed the policy
      have hpolicy := (mmap_accepted hat hrun).1.policy
      rw [start_arg, start_arg] at hpolicy
      rw [Space.Safe, AddressSpace.all_map_iff hw, exists_inRange_iff,
        sharedWritable_iff_of_policy hpolicy]
      simp only [Option.isSome_some, forall_const, not_and]
      exact ⟨fun h hprot hlen => h hlen hprot, fun h hlen hprot => h hprot hlen⟩
    · exact iff_of_true (AddressSpace.All.unmap hw) fun _ _ => trivial
    · have hpolicy := ((decides_mprotectEq (e.start w)).accepted hrun).1.policy
      rw [start_arg, start_arg, start_mappings] at hpolicy
      rw [Space.Safe, AddressSpace.all_modify_iff hw]
      constructor
      · intro h _ hprot x a hx ha hshared
        exact absurd ⟨hshared, hprot⟩ (h x a hx ha)
      · rintro h x a hx ha ⟨hshared, hprot⟩
        obtain ⟨map, hmap, hflags⟩ := h rfl hprot x a hx ha hshared
        exact checkMMapPerms_eq_zero_iff.1 (hpolicy map hmap) hprot hflags

/-- The machine of accepted memory calls. -/
def memoryRounds : Machine (World Space) (Round Space) :=
  (rounds Space).restrict fun _ e => MemoryRound e

/-- **No shared writable memory.**  All along a run of accepted `mmap`, `munmap` and
`mprotect` calls that starts from a safe space, no page of the master is both shared and
writable, if and only if every call of the run is harmless where it is made. -/
theorem no_shared_writable_iff {w w' : World Space} {es : List (Round Space)} (hw : w.os.Safe)
    (hrun : memoryRounds.Run w es w') :
    memoryRounds.Always (fun t => t.os.Safe) w es ↔ (memoryRounds.restrict Harmless).Run w es w' :=
  hrun.always_iff (rounds_deterministic.restrict _) hw fun _ _ _ ht hstep =>
    safe_step_iff hstep.2 hstep.1 ht

/-! ## Two ways past the policy -/

/-- A kernel that lets every call succeed, and places a mapping at `rax`. -/
def Kernel.placing (rax : Word) : Kernel Space where
  syscall v t σ := (.ret rax 0 0 t.mem,
    if v = .master then memoryCall t σ (.ret rax 0 0 t.mem) else σ)
  user _ _ _ := .died
  killed _ := false
  junk := .stopped

theorem memoryRound_alike {c : Syscall} (hc : c ∈ memoryCalls) (rax : Word) (args : Fin 6 → Word) :
    MemoryRound (.alike c (.placing rax) args) := ⟨hc, fun _ _ => rfl, fun _ _ => rfl⟩

/-- Nothing is mapped, and the table is empty. -/
def nothingMapped : World Space :=
  .standing (fun _ => callRegs 0 fun _ => 0) (fun _ _ => none) fun _ => none

theorem safe_nothingMapped : nothingMapped.os.Safe := fun _ _ h =>
  absurd h (by simp [nothingMapped, World.standing])

/-- `mmap(0, 0x2000, PROT_READ, MAP_SHARED, 3, 0)`, placed at `0x10000`. -/
def mapShared : Round Space := .alike .mmap (.placing 0x10000) ![0, 0x2000, 1, 1, 3, 0]

/-- `mprotect(0x11000, 0x1000, PROT_READ | PROT_WRITE)`. -/
def protectInside : Round Space := .alike .mprotect (.placing 0) ![0x11000, 0x1000, 3, 0, 0, 0]

/-- `mmap(0, 0x1000, PROT_READ | PROT_WRITE, MAP_SHARED_VALIDATE, 3, 0)`. -/
def mapValidate : Round Space := .alike .mmap (.placing 0x10000) ![0, 0x1000, 3, 3, 3, 0]

/-- The second page of a shared mapping is made writable; or a shared mapping is writable
from the start. -/
theorem shared_writable_reached :
    (∃ w, memoryRounds.Run nothingMapped [mapShared, protectInside] w ∧ ¬ w.os.Safe) ∧
      ∃ w, memoryRounds.Run nothingMapped [mapValidate] w ∧ ¬ w.os.Safe := by
  have hmap : memoryRounds.step nothingMapped mapShared (mapShared.next nothingMapped) :=
    ⟨step_alike (by decide +kernel), memoryRound_alike (by decide) _ _⟩
  have hprotect : memoryRounds.step (mapShared.next nothingMapped) protectInside
      (protectInside.next (mapShared.next nothingMapped)) :=
    ⟨step_alike (by decide +kernel), memoryRound_alike (by decide) _ _⟩
  have hvalidate : memoryRounds.step nothingMapped mapValidate (mapValidate.next nothingMapped) :=
    ⟨step_alike (by decide +kernel), memoryRound_alike (by decide) _ _⟩
  refine ⟨⟨_, (Machine.Run.single hmap).snoc hprotect, fun h => ?_⟩, _, .single hvalidate, fun h => ?_⟩
  · exact h 0x11000 ⟨3, 1⟩ (by decide +kernel) (by decide)
  · exact h 0x10000 ⟨3, 3⟩ (by decide +kernel) (by decide)

/-- `mmap(0, 0x1000, PROT_READ | PROT_WRITE, MAP_PRIVATE, 3, 0)`. -/
def mapPrivate : Round Space := .alike .mmap (.placing 0x10000) ![0, 0x1000, 3, 2, 3, 0]

/-- A private mapping is harmless. -/
theorem no_shared_writable_private :
    memoryRounds.Always (fun t => t.os.Safe) nothingMapped [mapPrivate] := by
  have hstep : memoryRounds.step nothingMapped mapPrivate (mapPrivate.next nothingMapped) :=
    ⟨step_alike (by decide +kernel), memoryRound_alike (by decide) _ _⟩
  exact (no_shared_writable_iff safe_nothingMapped (.single hstep)).2
    (.single ⟨hstep, fun _ _ _ => by decide⟩)

end Aurora
