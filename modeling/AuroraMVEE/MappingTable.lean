import AuroraMVEE.Lib.Cover
import AuroraMVEE.SharedMemory

/-!
# One live entry per address

The table is meant to tell of every mapped address which `mmap` made it.  Here the
kernel's state is the master's mappings as they were made, and a run is any sequence of
accepted `mmap` and `munmap` calls.

* `World.NotStale`: entries start apart and do not overlap, and an entry found for a live
  address is that of the mapping the address belongs to.
* `World.Found`: and for every live address there is such an entry.

An entry has no length, so it stands for one address; and `mmap` appends, whatever is in
the table for the addresses it maps over.  `one_live_entry_iff` says which runs keep the
one and the other.
-/

namespace Aurora

/-! ## The table -/

/-- Two entries start apart, and cover no address in common. -/
def VariantMMap.Apart (e f : VariantMMap) : Prop :=
  e.addr ≠ f.addr ∧ ∀ x, e.covers x = true → f.covers x = false

/-- Any two entries are apart. -/
def Separate (ms : List VariantMMap) : Prop := ms.Pairwise VariantMMap.Apart

/-- No entry has a length. -/
def Lengthless (ms : List VariantMMap) : Prop := ∀ e ∈ ms, e.len = 0

/-- The entry says how the mapping was made. -/
def VariantMMap.Records (e made : VariantMMap) : Prop :=
  e.addr = made.addr ∧ e.prot = made.prot ∧ e.flags = made.flags

theorem VariantMMap.covers_iff {e : VariantMMap} (h : e.len = 0) (x : Word) :
    e.covers x = true ↔ e.addr = x := by
  simp [VariantMMap.covers, h]

theorem VariantMMap.apart_iff {e f : VariantMMap} (he : e.len = 0) (hf : f.len = 0) :
    e.Apart f ↔ e.addr ≠ f.addr := by
  refine ⟨And.left, fun hne => ⟨hne, fun x hx => ?_⟩⟩
  rw [e.covers_iff he] at hx
  rw [← Bool.not_eq_true, f.covers_iff hf]
  intro hfx
  exact hne (hx.trans hfx.symm)

theorem Lengthless.append {ms : List VariantMMap} {e : VariantMMap} (h : Lengthless ms)
    (he : e.len = 0) : Lengthless (ms ++ [e]) := by
  intro f hf
  rcases List.mem_append.1 hf with hf | hf
  · exact h f hf
  · rw [List.mem_singleton.1 hf]
    exact he

/-- An entry is appended to a separate table. -/
theorem Lengthless.separate_append_iff {ms : List VariantMMap} {e : VariantMMap}
    (h : Lengthless ms) (he : e.len = 0) :
    Separate (ms ++ [e]) ↔ Separate ms ∧ ∀ f ∈ ms, f.addr ≠ e.addr := by
  unfold Separate
  rw [List.pairwise_append]
  constructor
  · rintro ⟨hms, -, hnew⟩
    exact ⟨hms, fun f hf => (hnew f hf e (by simp)).1⟩
  · rintro ⟨hms, hnew⟩
    refine ⟨hms, by simp, fun f hf g hg => ?_⟩
    obtain rfl := List.mem_singleton.1 hg
    exact (f.apart_iff (h f hf) he).2 (hnew f hf)

theorem Separate.disjoint {ms : List VariantMMap} (h : Separate ms) :
    Cover.Disjoint VariantMMap.covers ms := List.Pairwise.imp And.right h

/-- What `findMapping` finds there: the one entry that starts at the address. -/
theorem Lengthless.findMapping_iff {ms : List VariantMMap} (h : Lengthless ms)
    (hsep : Separate ms) {x : Word} {e : VariantMMap} :
    findMapping ms x = some e ↔ e ∈ ms ∧ e.addr = x := by
  have hfind : findMapping ms x = some e ↔ e ∈ ms ∧ e.covers x = true :=
    hsep.disjoint.find_eq_some_iff
  rw [hfind]
  exact and_congr_right fun hmem => e.covers_iff (h e hmem) x

theorem removeMapping_sublist (ms : List VariantMMap) (addr : Word) :
    (removeMapping ms addr).1.Sublist ms := by
  unfold removeMapping
  split_ifs
  · exact List.eraseP_sublist
  · exact List.Sublist.refl ms

/-! ## The master's mappings -/

/-- The kernel's state: the mapping an address belongs to, as `mmap` made it. -/
abbrev Maps := AddressSpace Word VariantMMap

/-- A length in bytes, rounded up to whole pages. -/
def pagesOf (len : Word) : ℕ := (len.toNat + 4095) / 4096 * 4096

/-- The addresses of the pages from `addr` on. -/
def inPages (addr len x : Word) : Prop :=
  addr.toNat ≤ x.toNat ∧ x.toNat < addr.toNat + pagesOf len

instance (addr len : Word) : DecidablePred (inPages addr len) :=
  fun _ => inferInstanceAs (Decidable (_ ∧ _))

/-- Where a mapping can be: it has a page, and it ends before the addresses that would read
as errors. -/
def PlacedAt (addr len : Word) : Prop :=
  len ≠ 0 ∧ addr.toNat + pagesOf len ≤ (-4095 : Word).toNat

instance (addr len : Word) : Decidable (PlacedAt addr len) := inferInstanceAs (Decidable (_ ∧ _))

/-- The mapping that the call of a process with these registers makes at `addr`. -/
def madeBy (regs : Regs) (addr : Word) : VariantMMap :=
  ⟨addr, regs .rsi, toInt (regs .rdx), toInt (regs .r10)⟩

/-- What the monitor records of it. -/
def recordedOf (regs : Regs) (addr : Word) : VariantMMap :=
  ⟨addr, 0, toInt (regs .rdx), toInt (regs .r10)⟩

@[simp] theorem recordedOf_addr (regs : Regs) (addr : Word) : (recordedOf regs addr).addr = addr := rfl

/-- What the call of the master `t`, answered so, does to its mappings. -/
def mappingCall (t : Tracee) (σ : Maps) (answer : SysResult) : Maps :=
  match answer.success? with
  | none => σ
  | some rax => match Syscall.ofNr (t.regs .origRax) with
    | some .mmap => σ.map (inPages rax (t.regs .rsi)) (madeBy t.regs rax)
    | some .munmap => σ.unmap (inPages (t.regs .rdi) (t.regs .rsi))
    | _ => σ

/-- A kernel that keeps the master's mappings.  Where a mapping goes, over others or not,
and whether a call succeeds, is left to it. -/
structure MappingKernel (K : Kernel Maps) : Prop where
  master : ∀ t σ, (K.syscall .master t σ).2 = mappingCall t σ (K.syscall .master t σ).1
  replica : ∀ t σ, (K.syscall .replica t σ).2 = σ
  placed : ∀ t σ rax, Syscall.ofNr (t.regs .origRax) = some .mmap →
    (K.syscall .master t σ).1.success? = some rax → PlacedAt rax (t.regs .rsi)

/-- A round of `mmap` or `munmap`, under such a kernel. -/
structure MappingRound (e : Round Maps) : Prop where
  call : e.call = .mmap ∨ e.call = .munmap
  kernel : MappingKernel e.kernel

theorem success?_ret (rax rcx r11 : Word) (mem : Mem) : (SysResult.ret rax rcx r11 mem).success? =
    if SyscallInfo.isErr rax then none else some rax := rfl

theorem PlacedAt.pages {addr len : Word} (h : PlacedAt addr len) : 4096 ≤ pagesOf len := by
  have hpos : 0 < len.toNat :=
    Nat.pos_of_ne_zero fun h0 => h.1 (BitVec.eq_of_toNat_eq (by simpa using h0))
  unfold pagesOf
  omega

theorem PlacedAt.not_isErr {addr len x : Word} (h : PlacedAt addr len) (hx : inPages addr len x) :
    SyscallInfo.isErr x = false := by
  have hlt : x.toNat < (-4095 : Word).toNat := lt_of_lt_of_le hx.2 h.2
  exact decide_eq_false fun hle => absurd (BitVec.le_def.1 hle) (not_le.2 hlt)

/-- The start of a mapping, and the address after it. -/
theorem PlacedAt.two {addr len : Word} (h : PlacedAt addr len) :
    inPages addr len addr ∧ inPages addr len (addr + 1) := by
  have hp := h.pages
  have hend := h.2
  have hnext : (addr + 1).toNat = addr.toNat + 1 := by
    rw [BitVec.toNat_add]
    exact Nat.mod_eq_of_lt (lt_of_le_of_lt (by simpa using by omega) (-4095 : Word).isLt)
  refine ⟨⟨le_refl _, by omega⟩, ?_, ?_⟩ <;> rw [hnext] <;> omega

/-! ## One accepted call -/

/-- What an accepted call does to the table and the mappings. -/
theorem mappingRound_cases {w w' : World Maps} {e : Round Maps} (he : MappingRound e)
    (hstep : (rounds Maps).step w e w') :
    (e.call = .mmap ∧ ∃ rax rcx r11 mem, e.answer w = .ret rax rcx r11 mem ∧
      w'.mappings = w.mappings ++ [recordedOf (e.regs .master) rax] ∧
      ((SyscallInfo.isErr rax = true ∧ w'.os = w.os) ∨
        SyscallInfo.isErr rax = false ∧ PlacedAt rax (e.regs .master .rsi) ∧
          w'.os = w.os.map (inPages rax (e.regs .master .rsi)) (madeBy (e.regs .master) rax))) ∨
    e.call = .munmap ∧ w'.mappings.Sublist w.mappings ∧
      ∀ x m, w'.os x = some m → w.os x = some m := by
  have hos := round_os (by rcases he.call with h | h <;> rw [h] <;> decide) he.kernel.master
    he.kernel.replica hstep
  obtain ⟨hnr, w₁, hrun, rfl⟩ := hstep
  have hat := start_atEntry w e
  have hregs : ((e.start w).proc .master).resume.regs = e.regs .master :=
    congrArg Tracee.regs (resume_atEntry (hat .master))
  have hcall : Syscall.ofNr (e.regs .master .origRax) = some e.call := by
    rw [hnr .master, Syscall.ofNr_nr]
  unfold mappingCall at hos
  rw [hregs, hcall] at hos
  rw [settle_mappings, hos]
  rcases he.call with hc | hc <;> rw [hc] at hrun ⊢
  · obtain ⟨-, -, -, -, rax, rcx, r11, mem, hans, htable⟩ := mmap_accepted hat hrun
    have hplaced := he.kernel.placed ((e.start w).proc .master).resume w.os rax
    rw [hregs, hcall, hc] at hplaced
    refine .inl ⟨rfl, rax, rcx, r11, mem, hans, htable, ?_⟩
    rw [show e.answer w = _ from hans, success?_ret]
    cases herr : SyscallInfo.isErr rax with
    | true => exact .inl ⟨rfl, rfl⟩
    | false =>
      refine .inr ⟨rfl, hplaced rfl ?_, rfl⟩
      rw [show (e.kernel.syscall .master ((e.start w).proc .master).resume w.os).1 = _ from hans,
        success?_ret, herr]
      rfl
  · refine .inr ⟨rfl, ?_, fun x m hx => ?_⟩
    · rw [munmap_mappings hrun]
      exact removeMapping_sublist _ _
    · cases hsucc : (e.answer w).success? with
      | none =>
        rw [hsucc] at hx
        exact hx
      | some rax =>
        rw [hsucc] at hx
        simp only [AddressSpace.unmap] at hx
        split_ifs at hx
        exact hx

/-! ## The two readings -/

/-- Entries are apart, and what is found for a live address records its mapping. -/
def World.NotStale (w : World Maps) : Prop := Separate w.mappings ∧
  ∀ x made, w.os x = some made → ∀ e, findMapping w.mappings x = some e → e.Records made

/-- Entries are apart, and for a live address the entry of its mapping is found. -/
def World.Found (w : World Maps) : Prop := Separate w.mappings ∧
  ∀ x made, w.os x = some made → ∃ e, findMapping w.mappings x = some e ∧ e.Records made

/-- An `mmap` returns a value at which no entry starts, and where it maps pages, no entry
starts in them. -/
def Fresh (w : World Maps) (e : Round Maps) : Prop := e.call = .mmap →
  ∀ rax rcx r11 mem, e.answer w = .ret rax rcx r11 mem → ∀ f ∈ w.mappings,
    f.addr ≠ rax ∧ (SyscallInfo.isErr rax = false → ¬ inPages rax (e.regs .master .rsi) f.addr)

/-- An `mmap` fails. -/
def MapsNothing (w : World Maps) (e : Round Maps) : Prop :=
  e.call = .mmap → (e.answer w).success? = none

/-- The machine of accepted `mmap` and `munmap` calls. -/
def mappingRounds : Machine (World Maps) (Round Maps) :=
  (rounds Maps).restrict fun _ e => MappingRound e

/-- What every step keeps. -/
structure World.Tabled (w : World Maps) : Prop where
  len : Lengthless w.mappings
  live : ∀ x made, w.os x = some made → SyscallInfo.isErr x = false

section

variable {w w' : World Maps} {e : Round Maps}

theorem notStale_iff (hlen : Lengthless w.mappings) : w.NotStale ↔ Separate w.mappings ∧
    ∀ f ∈ w.mappings, ∀ made, w.os f.addr = some made → f.Records made := by
  refine and_congr_right fun hsep => ⟨fun h f hf made hmade => ?_, fun h x made hmade f hf => ?_⟩
  · exact h f.addr made hmade f ((hlen.findMapping_iff hsep).2 ⟨hf, rfl⟩)
  · obtain ⟨hmem, rfl⟩ := (hlen.findMapping_iff hsep).1 hf
    exact h f hmem made hmade

theorem World.Tabled.step (ht : w.Tabled) (hstep : mappingRounds.step w e w') : w'.Tabled := by
  obtain ⟨-, rax, rcx, r11, mem, -, htable, hos⟩ | ⟨-, hsub, hos⟩ :=
    mappingRound_cases hstep.2 hstep.1
  · refine ⟨htable ▸ ht.len.append rfl, fun x made hx => ?_⟩
    rcases hos with ⟨-, hos⟩ | ⟨-, hplaced, hos⟩
    · exact ht.live x made (hos ▸ hx)
    · rw [hos] at hx
      simp only [AddressSpace.map] at hx
      split_ifs at hx with hin
      · exact hplaced.not_isErr hin
      · exact ht.live x made hx
  · exact ⟨fun f hf => ht.len f (hsub.subset hf), fun x made hx => ht.live x made (hos x made hx)⟩

/-- A call leaves the table without a stale entry exactly if it is fresh. -/
theorem notStale_step_iff (hw : w.NotStale) (ht : w.Tabled)
    (hstep : mappingRounds.step w e w') : w'.NotStale ↔ Fresh w e := by
  have ht' := ht.step hstep
  rw [notStale_iff ht'.len]
  rw [notStale_iff ht.len] at hw
  obtain ⟨hsep, hrec⟩ := hw
  obtain ⟨hc, rax, rcx, r11, mem, hans, htable, hos⟩ | ⟨hc, hsub, hos⟩ :=
    mappingRound_cases hstep.2 hstep.1
  · rw [htable, ht.len.separate_append_iff rfl]
    constructor
    · rintro ⟨⟨-, hnew⟩, hrec'⟩ - rax' rcx' r11' mem' hans' f hf
      obtain ⟨rfl, -⟩ := SysResult.ret.inj (hans.symm.trans hans')
      refine ⟨hnew f hf, fun hok hin => ?_⟩
      rcases hos with ⟨herr, -⟩ | ⟨-, -, hos⟩
      · rw [herr] at hok
        exact absurd hok (by decide)
      · have hmade := hrec' f (List.mem_append_left _ hf) (madeBy (e.regs .master) rax)
          (by rw [hos, AddressSpace.map, if_pos hin])
        exact hnew f hf hmade.1
    · intro hfresh
      have hnew := hfresh hc rax rcx r11 mem hans
      refine ⟨⟨hsep, fun f hf => (hnew f hf).1⟩, fun f hf made hmade => ?_⟩
      rcases hos with ⟨herr, hos⟩ | ⟨hok, hplaced, hos⟩ <;> rw [hos] at hmade
      · rcases List.mem_append.1 hf with hf | hf
        · exact hrec f hf made hmade
        · -- nothing is mapped where the call failed
          rw [List.mem_singleton.1 hf, recordedOf_addr] at hmade
          have hlive := ht.live rax made hmade
          rw [herr] at hlive
          exact absurd hlive (by decide)
      · rcases List.mem_append.1 hf with hf | hf
        · rw [AddressSpace.map, if_neg ((hnew f hf).2 hok)] at hmade
          exact hrec f hf made hmade
        · obtain rfl := List.mem_singleton.1 hf
          rw [recordedOf_addr, AddressSpace.map, if_pos hplaced.two.1] at hmade
          obtain rfl := Option.some.inj hmade
          exact ⟨rfl, rfl, rfl⟩
  · refine iff_of_true ⟨hsep.sublist hsub, fun f hf made hmade => ?_⟩ fun h => ?_
    · exact hrec f (hsub.subset hf) made (hos f.addr made hmade)
    · rw [hc] at h
      exact absurd h (by decide)

/-- Where nothing is mapped, a call leaves every live address with its entry exactly if it is
fresh and maps nothing. -/
theorem found_step_iff (hw : Separate w.mappings) (hlen : Lengthless w.mappings)
    (hnone : ∀ x, w.os x = none) (hstep : mappingRounds.step w e w') :
    w'.Found ↔ Fresh w e ∧ MapsNothing w e := by
  obtain ⟨hc, rax, rcx, r11, mem, hans, htable, hos⟩ | ⟨hc, hsub, hos⟩ :=
    mappingRound_cases hstep.2 hstep.1
  · have hlen' : Lengthless w'.mappings := htable ▸ hlen.append rfl
    have hsep : Separate w'.mappings ↔ ∀ f ∈ w.mappings, f.addr ≠ rax := by
      rw [htable, hlen.separate_append_iff rfl]
      exact and_iff_right hw
    unfold Fresh MapsNothing World.Found
    rw [hsep, hans, success?_ret]
    rcases hos with ⟨herr, hos⟩ | ⟨hok, hplaced, hos⟩ <;> rw [hos]
    · constructor
      · rintro ⟨hnew, -⟩
        refine ⟨fun _ rax' rcx' r11' mem' h f hf => ?_, fun _ => if_pos herr⟩
        obtain ⟨rfl, -⟩ := SysResult.ret.inj h
        exact ⟨hnew f hf, fun hok => absurd (herr.symm.trans hok) (by decide)⟩
      · rintro ⟨hfresh, -⟩
        refine ⟨fun f hf => (hfresh hc rax rcx r11 mem rfl f hf).1, fun x made hx => ?_⟩
        rw [hnone x] at hx
        exact absurd hx (by simp)
    · -- the address after the start of the new mapping has no entry
      refine iff_of_false ?_ fun h => ?_
      · rintro ⟨hnew, hfound⟩
        obtain ⟨f, hf, hrec⟩ := hfound (rax + 1) (madeBy (e.regs .master) rax)
          (by rw [AddressSpace.map, if_pos hplaced.two.2])
        have haddr := ((hlen'.findMapping_iff (hsep.2 hnew)).1 hf).2
        have hne : rax + 1 ≠ rax := by
          intro h
          bv_omega
        exact hne (haddr.symm.trans hrec.1)
      · have hnone' := h.2 hc
        rw [hok] at hnone'
        exact absurd hnone' (by simp)
  · refine iff_of_true ⟨hw.sublist hsub, fun x made hx => ?_⟩ ⟨fun h => ?_, fun h => ?_⟩
    · have hold := hos x made hx
      rw [hnone x] at hold
      exact absurd hold (by simp)
    · rw [hc] at h
      exact absurd h (by decide)
    · rw [hc] at h
      exact absurd h (by decide)

/-- A call that maps nothing leaves nothing mapped. -/
theorem nothing_live_step (hnone : ∀ x, w.os x = none) (hnothing : MapsNothing w e)
    (hstep : mappingRounds.step w e w') : ∀ x, w'.os x = none := by
  obtain ⟨hc, rax, rcx, r11, mem, hans, -, hos⟩ | ⟨-, -, hos⟩ :=
    mappingRound_cases hstep.2 hstep.1
  · have hfails := hnothing hc
    rw [hans, success?_ret] at hfails
    rcases hos with ⟨-, hos⟩ | ⟨hok, -, -⟩
    · rw [hos]
      exact hnone
    · rw [hok] at hfails
      exact absurd hfails (by simp)
  · intro x
    by_contra hx
    obtain ⟨made, hmade⟩ := Option.ne_none_iff_exists'.1 hx
    have hold := hos x made hmade
    rw [hnone x] at hold
    exact absurd hold (by simp)

/-- **One live entry per address.**  All along a run of accepted `mmap` and `munmap` calls
from the empty table no stale entry is found, if and only if every `mmap` is fresh where it
is made; and every live address has the entry of its mapping, if and only if moreover no
`mmap` maps anything. -/
theorem one_live_entry_iff {es : List (Round Maps)} (hempty : w.mappings = [])
    (hnone : ∀ x, w.os x = none) (hrun : mappingRounds.Run w es w') :
    (mappingRounds.Always World.NotStale w es ↔ (mappingRounds.restrict Fresh).Run w es w') ∧
      (mappingRounds.Always World.Found w es ↔
        (mappingRounds.restrict fun t e => Fresh t e ∧ MapsNothing t e).Run w es w') := by
  have hdet : mappingRounds.Deterministic := rounds_deterministic.restrict _
  have hsep : Separate w.mappings := by
    rw [hempty]
    exact List.Pairwise.nil
  have htabled : w.Tabled :=
    ⟨by rw [hempty]; simp [Lengthless], fun x made hx => absurd hx (by simp [hnone x])⟩
  constructor
  · refine hrun.always_iff_along hdet ⟨hsep, fun x made hx => ?_⟩ htabled ?_ ?_
    · exact absurd hx (by simp [hnone x])
    · intro t e t' _ ht hstep _
      exact ht.step hstep
    · intro t e t' hns ht hstep
      exact notStale_step_iff hns ht hstep
  · refine hrun.always_iff_along hdet (J := fun t => t.Tabled ∧ ∀ x, t.os x = none)
      ⟨hsep, fun x made hx => ?_⟩ ⟨htabled, hnone⟩ ?_ ?_
    · exact absurd hx (by simp [hnone x])
    · rintro t e t' hfound ⟨ht, hlive⟩ hstep hfound'
      have hnothing := ((found_step_iff hfound.1 ht.len hlive hstep).1 hfound').2
      exact ⟨ht.step hstep, nothing_live_step hlive hnothing hstep⟩
    · rintro t e t' hfound ⟨ht, hlive⟩ hstep
      exact found_step_iff hfound.1 ht.len hlive hstep

end

/-! ## A mapping over a mapping -/

/-- A kernel that places every mapping at `rax`, and lets every other call succeed. -/
def Kernel.mapsAt (rax : Word) : Kernel Maps where
  syscall v t σ :=
    let value := if Syscall.ofNr (t.regs .origRax) = some .mmap then
      if PlacedAt rax (t.regs .rsi) then rax else -22 else 0
    (.ret value 0 0 t.mem, if v = .master then mappingCall t σ (.ret value 0 0 t.mem) else σ)
  user _ _ _ := .died
  killed _ := false
  junk := .stopped

theorem mapsAt_mappingKernel (rax : Word) : MappingKernel (.mapsAt rax) where
  master _ _ := rfl
  replica _ _ := rfl
  placed t σ r hc hr := by
    change (SysResult.ret (if Syscall.ofNr (t.regs .origRax) = some .mmap then
      if PlacedAt rax (t.regs .rsi) then rax else -22 else 0) 0 0 t.mem).success? = some r at hr
    rw [if_pos hc] at hr
    split_ifs at hr with hplaced
    · rw [success?_ret] at hr
      split_ifs at hr
      obtain rfl := Option.some.inj hr
      exact hplaced
    · rw [success?_ret, if_pos (by decide)] at hr
      exact absurd hr (by simp)

/-- Nothing is mapped, and the table is empty. -/
def noMaps : World Maps := .standing (fun _ => callRegs 0 fun _ => 0) (fun _ _ => none) fun _ => none

/-- `mmap(0, 0x2000, PROT_READ, MAP_PRIVATE, 3, 0)`, placed at `0x10000`. -/
def reserve : Round Maps := .alike .mmap (.mapsAt 0x10000) ![0, 0x2000, 1, 2, 3, 0]

/-- `mmap(0x10000, 0x1000, PROT_READ, MAP_SHARED | MAP_FIXED, 4, 0)`. -/
def mapOver : Round Maps := .alike .mmap (.mapsAt 0x10000) ![0x10000, 0x1000, 1, 0x11, 4, 0]

/-- `munmap(0x10000, 0x2000)`. -/
def release : Round Maps := .alike .munmap (.mapsAt 0x10000) ![0x10000, 0x2000, 0, 0, 0, 0]

theorem mappingStep_alike {c : Syscall} (hc : c = .mmap ∨ c = .munmap) {rax : Word}
    {args : Fin 6 → Word} {w : World Maps}
    (h : (execSyscall (.mapsAt rax) c ((Round.alike c (.mapsAt rax) args).start w)).val? = some 0) :
    mappingRounds.step w (.alike c (.mapsAt rax) args) ((Round.alike c (.mapsAt rax) args).next w) :=
  ⟨step_alike h, hc, mapsAt_mappingKernel rax⟩

/-- The second page of a mapping has no entry; and where a shared mapping was put over a
private one, the entry found is still that of the private one. -/
theorem stale_entry_found :
    (∃ w, mappingRounds.Run noMaps [reserve] w ∧ w.os 0x11000 = some ⟨0x10000, 0x2000, 1, 2⟩ ∧
      findMapping w.mappings 0x11000 = none ∧ ¬ w.Found) ∧
    ∃ w, mappingRounds.Run noMaps [reserve, mapOver] w ∧
      w.os 0x10000 = some ⟨0x10000, 0x1000, 1, 0x11⟩ ∧
      findMapping w.mappings 0x10000 = some ⟨0x10000, 0, 1, 2⟩ ∧ ¬ w.NotStale := by
  have hreserve : mappingRounds.step noMaps reserve (reserve.next noMaps) :=
    mappingStep_alike (.inl rfl) (by decide +kernel)
  have hover : mappingRounds.step (reserve.next noMaps) mapOver (mapOver.next (reserve.next noMaps)) :=
    mappingStep_alike (.inl rfl) (by decide +kernel)
  have hsecond : (reserve.next noMaps).os 0x11000 = some ⟨0x10000, 0x2000, 1, 2⟩ := by decide +kernel
  have hmissing : findMapping (reserve.next noMaps).mappings 0x11000 = none := by decide +kernel
  have hshared : (mapOver.next (reserve.next noMaps)).os 0x10000 =
      some ⟨0x10000, 0x1000, 1, 0x11⟩ := by decide +kernel
  have hstale : findMapping (mapOver.next (reserve.next noMaps)).mappings 0x10000 =
      some ⟨0x10000, 0, 1, 2⟩ := by decide +kernel
  refine ⟨⟨_, .single hreserve, hsecond, hmissing, ?_⟩, _, (Machine.Run.single hreserve).snoc hover,
    hshared, hstale, ?_⟩
  · rintro ⟨-, hfound⟩
    obtain ⟨f, hf, -⟩ := hfound 0x11000 _ hsecond
    rw [hmissing] at hf
    exact absurd hf (by simp)
  · rintro ⟨-, hstays⟩
    exact absurd (hstays 0x10000 _ hshared _ hstale).2.2 (by decide)

/-- Made, released and made again at the same place, a mapping is never stale. -/
theorem one_live_entry_release :
    mappingRounds.Always World.NotStale noMaps [reserve, release, reserve] := by
  have hreserve : mappingRounds.step noMaps reserve (reserve.next noMaps) :=
    mappingStep_alike (.inl rfl) (by decide +kernel)
  have hrelease : mappingRounds.step (reserve.next noMaps) release
      (release.next (reserve.next noMaps)) := mappingStep_alike (.inr rfl) (by decide +kernel)
  have hagain : mappingRounds.step (release.next (reserve.next noMaps)) reserve
      (reserve.next (release.next (reserve.next noMaps))) :=
    mappingStep_alike (.inl rfl) (by decide +kernel)
  have hempty : (release.next (reserve.next noMaps)).mappings = [] := by decide +kernel
  have hfresh : Fresh noMaps reserve ∧ Fresh (reserve.next noMaps) release ∧
      Fresh (release.next (reserve.next noMaps)) reserve := by
    refine ⟨?_, fun hc => absurd hc (by decide), ?_⟩
    · intro _ _ _ _ _ _ f hf
      exact absurd hf (by simp [noMaps, World.standing])
    · intro _ _ _ _ _ _ f hf
      rw [hempty] at hf
      exact absurd hf (by simp)
  have hrun : mappingRounds.Run noMaps [reserve, release, reserve] _ :=
    ((Machine.Run.single hreserve).snoc hrelease).snoc hagain
  have hallowed : (mappingRounds.restrict Fresh).Run noMaps [reserve, release, reserve] _ :=
    ((Machine.Run.single (M := mappingRounds.restrict Fresh) ⟨hreserve, hfresh.1⟩).snoc
      ⟨hrelease, hfresh.2.1⟩).snoc ⟨hagain, hfresh.2.2⟩
  exact (one_live_entry_iff rfl (fun _ => rfl) hrun).1.2 hallowed

end Aurora
