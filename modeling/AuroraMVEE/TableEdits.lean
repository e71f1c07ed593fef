import AuroraMVEE.SharedMemory
import AuroraMVEE.Lib.Cover

/-!
# The mapping table under one call

What one accepted `mmap`, `munmap` or `mprotect` makes of the table, and what it looks at
there, against what the call means.  The table here is any list of entries, with the
lengths it should have.

* `mmap_recorded_iff` — an `mmap` should add one entry, with what was asked for, if it
  succeeds; the length it adds is that of an exit stop, and it adds an entry for an error
  too.
* `munmap_exact_iff` — a `munmap` should take its range out of the table; it takes out the
  entry that starts the range.
* `munmap_removes_looked_up` — the entry a `munmap` finds and the entry it takes out are one.
* `mprotect_checks_range_iff` — an `mprotect` should look at every entry its range meets; it
  looks at the entry its address lies in.
-/

namespace Aurora

variable {ρ : Type} {K : Kernel ρ} {w w' : World ρ}

/-! ## Mapping -/

/-- The entry that an `mmap` placed at `addr` asks for. -/
def World.asked (w : World ρ) (addr : Word) : VariantMMap :=
  ⟨addr, (w.var .master).syscallInfo.arg 1, toInt ((w.var .master).syscallInfo.arg 2),
    toInt ((w.var .master).syscallInfo.arg 3)⟩

/-- An `mmap` that returned `rax` is recorded as requested: a valid address as the old table
with one more entry, which is found wherever no older entry is in the way; an error not at
all. -/
structure World.RecordsMmap (w w' : World ρ) (rax : Word) : Prop where
  added : SyscallInfo.isErr rax = false → w'.mappings = w.mappings ++ [w.asked rax] ∧
    ∀ a, inRange rax ((w.var .master).syscallInfo.arg 1) a →
      (∀ e ∈ w.mappings, e.covers a = false) → findMapping w'.mappings a = some (w.asked rax)
  kept : SyscallInfo.isErr rax = true → w'.mappings = w.mappings

/-- **`mmap` is recorded as requested** only where a request for nothing gets an address. -/
theorem mmap_recorded_iff {rax rcx r11 : Word} {mem : Mem} (hw : ∀ v, (w.ctl v).AtEntry)
    (hrun : execSyscall K .mmap w = .ret 0 w')
    (hans : (K.answer .master w).1 = .ret rax rcx r11 mem) :
    w.RecordsMmap w' rax ↔
      SyscallInfo.isErr rax = false ∧ (w.var .master).syscallInfo.arg 1 = 0 := by
  obtain ⟨-, -, -, -, rax', rcx', r11', mem', hans', htable⟩ := mmap_accepted hw hrun
  obtain ⟨rfl, -⟩ := SysResult.ret.inj (hans.symm.trans hans')
  constructor
  · intro h
    cases herr : SyscallInfo.isErr rax with
    | true =>
      have hkept := h.kept herr
      rw [htable] at hkept
      simp [addMapping] at hkept
    | false =>
      have hadded := (h.added herr).1
      rw [htable] at hadded
      have hentry := List.append_cancel_left hadded
      exact ⟨rfl, (congrArg VariantMMap.len (List.cons.inj hentry).1).symm⟩
  · rintro ⟨hok, hlen⟩
    refine ⟨fun _ => ⟨?_, fun a ha => ?_⟩, fun herr => ?_⟩
    · rw [htable, World.asked, hlen]
      rfl
    · rw [hlen] at ha
      exact absurd ha.2 (by simpa using ha.1)
    · rw [hok] at herr
      exact absurd herr (by decide)

/-- `mmap(0, length, PROT_READ, MAP_PRIVATE, 3, 0)` in both variants. -/
def mapping (length : Word) : World Unit :=
  .standing (fun _ => callRegs Syscall.mmap.nr ![0, length, 1, 2, 3, 0]) (fun _ _ => none) ()

/-- Of two pages the second is not found, and a call that fails for want of memory is in the
table. -/
theorem mmap_misrecorded :
    (∃ w', execSyscall (.returning 0x10000) .mmap (mapping 0x2000) = .ret 0 w' ∧
      ¬ (mapping 0x2000).RecordsMmap w' 0x10000 ∧ findMapping w'.mappings 0x11000 = none) ∧
    ∃ w', execSyscall (.returning (-12)) .mmap (mapping 0x2000) = .ret 0 w' ∧
      ¬ (mapping 0x2000).RecordsMmap w' (-12) ∧ w'.mappings = [⟨-12, 0, 1, 2⟩] := by
  have hlost : findMapping (execSyscall (.returning 0x10000) .mmap (mapping 0x2000)).state.mappings
      0x11000 = none := by decide +kernel
  have herror : (execSyscall (.returning (-12)) .mmap (mapping 0x2000)).state.mappings =
      [⟨-12, 0, 1, 2⟩] := by decide +kernel
  refine ⟨⟨_, Outcome.eq_ret_of_val? (by decide +kernel), fun h => ?_, hlost⟩,
    _, Outcome.eq_ret_of_val? (by decide +kernel), fun h => ?_, herror⟩
  · have hfound := (h.added (by decide)).2 0x11000 (by decide +kernel) (by simp [mapping, World.standing])
    rw [hlost] at hfound
    exact absurd hfound (by simp)
  · have hkept := h.kept (by decide)
    rw [herror] at hkept
    exact absurd hkept (by simp [mapping, World.standing])

/-- A request for nothing that is given an address is recorded as it was made. -/
theorem mmap_recorded_nothing : (mapping 0).RecordsMmap
    (execSyscall (.returning 0x10000) .mmap (mapping 0)).state 0x10000 :=
  (mmap_recorded_iff (atEntry_standing _ _ ()) (Outcome.eq_ret_of_val? (by decide +kernel)) rfl).2
    ⟨by decide, rfl⟩

/-! ## Unmapping -/

/-- An entry of a length, that ends before the address space does. -/
structure VariantMMap.Sized (e : VariantMMap) : Prop where
  pos : 0 < e.len.toNat
  fits : e.addr.toNat + e.len.toNat < 2 ^ 64

/-- Such an entry covers the addresses from its start up to its end. -/
theorem VariantMMap.Sized.covers_iff {e : VariantMMap} (he : e.Sized) (a : Word) :
    e.covers a = true ↔ inRange e.addr e.len a := by
  have hpos := he.pos
  have hfits := he.fits
  have hlen : (e.len == 0) = false := by
    rw [beq_eq_false_iff_ne]
    exact fun h => absurd hpos (by simp [h])
  have hend : (e.addr + e.len).toNat = e.addr.toNat + e.len.toNat := by
    rw [BitVec.toNat_add, Nat.mod_eq_of_lt hfits]
  have hzero : (0 : Word).toNat < e.len.toNat := hpos
  simp only [covers, hlen, Bool.and_false, Bool.false_or, Bool.and_eq_true, decide_eq_true_eq,
    BitVec.lt_def, BitVec.le_def, hend, inRange]
  exact and_congr_left fun _ => and_iff_right hzero

theorem VariantMMap.Sized.covers_addr {e : VariantMMap} (he : e.Sized) : e.covers e.addr = true :=
  (he.covers_iff e.addr).2 ⟨le_refl _, Nat.lt_add_of_pos_right he.pos⟩

/-- It lies in the `len` bytes from its start on if it is not longer. -/
theorem VariantMMap.Sized.len_le_iff {e : VariantMMap} (he : e.Sized) (len : Word) :
    e.len ≤ len ↔ ∀ a, e.covers a = true → inRange e.addr len a := by
  rw [BitVec.le_def]
  constructor
  · intro h a ha
    obtain ⟨h₁, h₂⟩ := (he.covers_iff a).1 ha
    exact ⟨h₁, lt_of_lt_of_le h₂ (Nat.add_le_add_left h _)⟩
  · intro h
    have hpos := he.pos
    have hlast : (e.addr + e.len - 1).toNat = e.addr.toNat + e.len.toNat - 1 := by
      have hfits := he.fits
      bv_omega
    have hcov : e.covers (e.addr + e.len - 1) = true := by
      rw [he.covers_iff, inRange, hlast]
      omega
    have hin := (h _ hcov).2
    rw [hlast] at hin
    omega

/-- What the table says of the memory at an address. -/
def permsAt (ms : List VariantMMap) (a : Word) : Option (BitVec 32 × BitVec 32) :=
  (findMapping ms a).map fun e => (e.prot, e.flags)

/-- From `ms` to `ms'`, exactly the addresses from `addr` up to `addr + len` are taken out. -/
structure MunmapExact (ms ms' : List VariantMMap) (addr len : Word) : Prop where
  inside : ∀ a, inRange addr len a → findMapping ms' a = none
  outside : ∀ a, ¬ inRange addr len a → permsAt ms' a = permsAt ms a

/-- An accepted `munmap` has taken out the one entry that starts at its address. -/
theorem munmap_found (hdisj : Cover.Disjoint VariantMMap.covers w.mappings)
    (hsized : ∀ e ∈ w.mappings, e.Sized) (hrun : execSyscall K .munmap w = .ret 0 w') :
    ∃ map ∈ w.mappings, map.addr = (w.var .master).syscallInfo.arg 0 ∧
      ∀ a, findMapping w'.mappings a = if map.covers a then none else findMapping w.mappings a := by
  obtain ⟨⟨-, map, hmap, haddr⟩, -⟩ := (decides_munmapEq w).accepted hrun
  obtain ⟨hmem, hcovers⟩ := Cover.mem_of_find hmap
  -- no other entry starts there: it would cover the address too
  have hfirst : w.mappings.find? (fun e => e.addr == (w.var .master).syscallInfo.arg 0) = some map := by
    refine Cover.find?_eq_some_of_only hmem (by simpa using haddr) fun f hf hstart => ?_
    have hfaddr : f.addr = (w.var .master).syscallInfo.arg 0 := by simpa using hstart
    exact hdisj.eq_of_covers hf hmem (hsized f hf).covers_addr (by rwa [hfaddr])
  have hany : w.mappings.any (fun e => e.addr == (w.var .master).syscallInfo.arg 0) = true :=
    List.any_eq_true.2 ⟨map, hmem, by simpa using haddr⟩
  refine ⟨map, hmem, haddr, fun a => ?_⟩
  rw [munmap_mappings hrun, removeMapping, if_pos hany]
  exact hdisj.find_eraseP hfirst a

/-- Of an entry that meets a range, the start lies in the range, or the start of the range
lies in the entry. -/
theorem VariantMMap.Sized.start_or_start {e : VariantMMap} (he : e.Sized) {addr len a : Word}
    (ha : inRange addr len a) (hcov : e.covers a = true) :
    inRange addr len e.addr ∨ e.covers addr = true := by
  have hin := (he.covers_iff a).1 hcov
  by_cases hle : addr.toNat ≤ e.addr.toNat
  · left
    exact ⟨hle, lt_of_le_of_lt hin.1 ha.2⟩
  · right
    rw [he.covers_iff]
    exact ⟨le_of_lt (not_le.1 hle), lt_of_le_of_lt ha.1 hin.2⟩

/-- **`munmap` removes exactly its range**, in a table of entries that do not overlap, if and
only if the range reaches to the end of the entry it starts, and no other entry starts in it. -/
theorem munmap_exact_iff (hdisj : Cover.Disjoint VariantMMap.covers w.mappings)
    (hsized : ∀ e ∈ w.mappings, e.Sized) (hrun : execSyscall K .munmap w = .ret 0 w') :
    MunmapExact w.mappings w'.mappings ((w.var .master).syscallInfo.arg 0)
        ((w.var .master).syscallInfo.arg 1) ↔
      ∀ e ∈ w.mappings,
        (e.addr = (w.var .master).syscallInfo.arg 0 → e.len ≤ (w.var .master).syscallInfo.arg 1) ∧
        (inRange ((w.var .master).syscallInfo.arg 0) ((w.var .master).syscallInfo.arg 1) e.addr →
          e.addr = (w.var .master).syscallInfo.arg 0) := by
  obtain ⟨map, hmem, haddr, hfind⟩ := munmap_found hdisj hsized hrun
  rw [← haddr]
  have hmap := hsized map hmem
  have hone : ∀ e ∈ w.mappings, map.covers e.addr = true → e = map := by
    intro e he hcov
    exact hdisj.eq_of_covers he hmem (hsized e he).covers_addr hcov
  have hgone : ∀ a, findMapping w'.mappings a = none ↔
      ∀ e ∈ w.mappings, e.covers a = true → e = map := by
    intro a
    rw [hfind]
    exact hdisj.none_without_iff hmem
  constructor
  · intro h e he
    constructor
    · -- no address of the entry is found any more, so all of them must be in the range
      intro hstart
      obtain rfl := hone e he (by rw [hstart]; exact hmap.covers_addr)
      refine (hmap.len_le_iff _).2 fun a hcov => ?_
      by_contra hout
      have hsame := h.outside a hout
      rw [permsAt, permsAt, hfind, if_pos hcov] at hsame
      have hnone := Cover.find_eq_none_iff.1 (Option.map_eq_none_iff.1 hsame.symm) e he
      rw [hcov] at hnone
      exact absurd hnone (by decide)
    · -- an entry that starts in the range is no longer found there
      intro hin
      rw [(hgone _).1 (h.inside _ hin) e he (hsized e he).covers_addr]
  · intro h
    constructor
    · intro a ha
      refine (hgone a).2 fun e he hcov => ?_
      rcases (hsized e he).start_or_start ha hcov with hin | hstart
      · exact hone e he (by rw [(h e he).2 hin]; exact hmap.covers_addr)
      · exact hdisj.eq_of_covers he hmem hstart hmap.covers_addr
    · intro a ha
      have hcov : ¬ map.covers a = true := fun hcov =>
        ha ((hmap.len_le_iff _).1 ((h map hmem).1 rfl) a hcov)
      rw [permsAt, permsAt, hfind, if_neg hcov]

/-- An entry that ends before another starts has no address in common with it. -/
theorem VariantMMap.Sized.apart {e f : VariantMMap} (he : e.Sized) (hf : f.Sized)
    (h : e.addr.toNat + e.len.toNat ≤ f.addr.toNat) : Cover.Apart VariantMMap.covers e f := by
  intro a ha
  have hend := ((he.covers_iff a).1 ha).2
  rw [← Bool.not_eq_true, hf.covers_iff]
  exact fun hin => absurd hin.1 (by omega)

/-- `munmap(0x10000, length)` in both variants. -/
def unmapping (ms : List VariantMMap) (length : Word) : World Unit :=
  { World.standing (fun _ => callRegs Syscall.munmap.nr ![0x10000, length, 0, 0, 0, 0])
      (fun _ _ => none) () with mappings := ms }

/-- Two mappings next to each other, of two pages and of one. -/
def neighbours : List VariantMMap := [⟨0x10000, 0x2000, 3, 2⟩, ⟨0x12000, 0x1000, 1, 2⟩]

theorem neighbours_sized : ∀ e ∈ neighbours, e.Sized := by
  simp only [neighbours, List.forall_mem_cons, List.not_mem_nil, false_imp_iff, implies_true, and_true]
  exact ⟨⟨by decide, by decide⟩, ⟨by decide, by decide⟩⟩

theorem neighbours_disjoint : Cover.Disjoint VariantMMap.covers neighbours := by
  have hsized := neighbours_sized
  simp only [neighbours, List.forall_mem_cons] at hsized
  exact List.pairwise_pair.2 (hsized.1.apart hsized.2.1 (by decide))

/-- Of the first mapping one page is unmapped, and the other is lost; both mappings are
unmapped, and the second is still found. -/
theorem munmap_inexact :
    (Cover.Disjoint VariantMMap.covers neighbours ∧ ∀ e ∈ neighbours, e.Sized) ∧
    (∃ w', execSyscall (.returning 0) .munmap (unmapping neighbours 0x1000) = .ret 0 w' ∧
      ¬ MunmapExact neighbours w'.mappings 0x10000 0x1000) ∧
    ∃ w', execSyscall (.returning 0) .munmap (unmapping neighbours 0x3000) = .ret 0 w' ∧
      ¬ MunmapExact neighbours w'.mappings 0x10000 0x3000 := by
  refine ⟨⟨neighbours_disjoint, neighbours_sized⟩,
    ⟨_, Outcome.eq_ret_of_val? (by decide +kernel), fun h => ?_⟩,
    _, Outcome.eq_ret_of_val? (by decide +kernel), fun h => ?_⟩
  · exact absurd (h.outside 0x11000 (by decide)) (by decide +kernel)
  · exact absurd (h.inside 0x12000 (by decide)) (by decide +kernel)

/-- The first mapping is unmapped as a whole. -/
theorem munmap_exact_first : MunmapExact neighbours
    (execSyscall (.returning 0) .munmap (unmapping neighbours 0x2000)).state.mappings 0x10000 0x2000 := by
  have hiff := munmap_exact_iff (K := .returning 0) (w := unmapping neighbours 0x2000)
    neighbours_disjoint neighbours_sized (Outcome.eq_ret_of_val? (by decide +kernel))
  exact hiff.2 (by decide +kernel)

/-! ### The entry looked up, and the entry removed -/

/-- An entry that ends before the address space does, of any length. -/
def VariantMMap.Fits (e : VariantMMap) : Prop := e.addr.toNat + e.len.toNat < 2 ^ 64

/-- Such an entry covers the address it starts at: a length of zero is a case of its own. -/
theorem VariantMMap.Fits.covers_addr {e : VariantMMap} (he : e.Fits) : e.covers e.addr = true := by
  by_cases hlen : e.len = 0
  · simp [covers, hlen]
  · have hpos : 0 < e.len.toNat := by
      rw [Nat.pos_iff_ne_zero]
      intro hzero
      exact hlen (BitVec.eq_of_toNat_eq hzero)
    exact VariantMMap.Sized.covers_addr ⟨hpos, he⟩

/-- Of the table `ms`, `e` is the first entry that covers the address and the first that
starts there, and `ms'` is what is left without it. -/
structure TakenOut (ms ms' : List VariantMMap) (target : Word) (e : VariantMMap) : Prop where
  splits : ∃ as bs, ms = as ++ e :: bs ∧ ms' = as ++ bs ∧
    ∀ f ∈ as, f.covers target = false ∧ f.addr ≠ target
  starts : e.addr = target
  found : findMapping ms target = some e

/-- The two scans stop at one entry: what comes before does not cover the address, so it
does not start there either. -/
theorem removeMapping_takes_found {ms : List VariantMMap} {target : Word} {e : VariantMMap}
    (hfits : ∀ f ∈ ms, f.Fits) (hfound : findMapping ms target = some e) (haddr : e.addr = target) :
    ∃ ms', removeMapping ms target = (ms', 0) ∧ TakenOut ms ms' target e := by
  obtain ⟨-, as, bs, rfl, has⟩ := List.find?_eq_some_iff_append.1 hfound
  have hcover : ∀ f ∈ as, f.covers target = false := fun f hf => by simpa using has f hf
  have hstart : ∀ f ∈ as, f.addr ≠ target := by
    rintro f hf rfl
    have hcov := (hfits f (List.mem_append_left _ hf)).covers_addr
    rw [hcover f hf] at hcov
    exact absurd hcov (by decide)
  refine ⟨as ++ bs, ?_, ⟨as, bs, rfl, rfl, fun f hf => ⟨hcover f hf, hstart f hf⟩⟩, haddr, hfound⟩
  unfold removeMapping
  rw [if_pos, List.eraseP_append_right, List.eraseP_cons_of_pos (by simpa using haddr)]
  · intro f hf
    simpa using hstart f hf
  · exact List.any_eq_true.2 ⟨e, List.mem_append_right as List.mem_cons_self, by simpa using haddr⟩

/-- **`munmap` removes the entry it looked up.**  In a table of entries that fit, whatever their
order and however they overlap, an entry that is found where it starts is the one that
`removeMapping` takes out; and so it is in every `munmap` that is let through. -/
theorem munmap_removes_looked_up (hfits : ∀ f ∈ w.mappings, f.Fits) :
    (∀ target e, findMapping w.mappings target = some e → e.addr = target →
      ∃ ms', removeMapping w.mappings target = (ms', 0) ∧ TakenOut w.mappings ms' target e) ∧
    ∀ (K : Kernel ρ) (w' : World ρ), execSyscall K .munmap w = .ret 0 w' →
      ∃ e, TakenOut w.mappings w'.mappings ((w.var .master).syscallInfo.arg 0) e := by
  constructor
  · intro target e hfound haddr
    exact removeMapping_takes_found hfits hfound haddr
  · intro K w' hrun
    obtain ⟨⟨-, e, hfound, haddr⟩, -⟩ := (decides_munmapEq w).accepted hrun
    obtain ⟨ms', hremoved, htaken⟩ := removeMapping_takes_found hfits hfound haddr
    refine ⟨e, ?_⟩
    rw [munmap_mappings hrun, hremoved]
    exact htaken

/-- An entry of no length, and one of a page, that start at the same address. -/
def sameStart : List VariantMMap := [⟨0x10000, 0, 1, 2⟩, ⟨0x10000, 0x1000, 3, 2⟩]

/-- The first of the two is found, and it is removed. -/
theorem munmap_removes_first : ∃ e, TakenOut sameStart
    (execSyscall (.returning 0) .munmap (unmapping sameStart 0x1000)).state.mappings 0x10000 e := by
  have hfits : ∀ f ∈ (unmapping sameStart 0x1000).mappings, f.Fits := by
    unfold VariantMMap.Fits
    decide +kernel
  exact (munmap_removes_looked_up hfits).2 (.returning 0) _ (Outcome.eq_ret_of_val? (by decide +kernel))

/-! ## Changing the protection -/

/-- The range from `addr` up to `addr + len` meets the entry. -/
def VariantMMap.Meets (e : VariantMMap) (addr len : Word) : Prop :=
  ∃ a, inRange addr len a ∧ e.covers a = true

/-- Every entry that the range meets is private. -/
def PrivateIn (ms : List VariantMMap) (addr len : Word) : Prop :=
  ∀ e ∈ ms, e.Meets addr len → e.flags &&& MAP_PRIVATE ≠ 0

/-- The entries other than the one `findMapping` returns. -/
def unchecked (ms : List VariantMMap) (addr : Word) : List VariantMMap :=
  ms.eraseP fun e => e.covers addr

/-- Two tables with entries at the same places. -/
def SameLayout : List VariantMMap → List VariantMMap → Prop :=
  List.Forall₂ fun e f => e.addr = f.addr ∧ e.len = f.len

theorem covers_congr {e f : VariantMMap} (h : e.addr = f.addr ∧ e.len = f.len) (a : Word) :
    e.covers a = f.covers a := by
  unfold VariantMMap.covers
  rw [h.1, h.2]

theorem findMapping_cons (e : VariantMMap) (es : List VariantMMap) (a : Word) :
    findMapping (e :: es) a = if e.covers a then some e else findMapping es a := by
  unfold findMapping
  rw [List.find?_cons]
  cases e.covers a <;> rfl

theorem unchecked_cons (e : VariantMMap) (es : List VariantMMap) (a : Word) :
    unchecked (e :: es) a = if e.covers a then es else e :: unchecked es a := by
  unfold unchecked
  rw [List.eraseP_cons]
  cases e.covers a <;> rfl

theorem SameLayout.unchecked {ms ms' : List VariantMMap} (h : SameLayout ms ms') (addr : Word) :
    SameLayout (unchecked ms addr) (unchecked ms' addr) := by
  induction h with
  | nil => exact .nil
  | cons hef hrest ih =>
    rw [unchecked_cons, unchecked_cons, covers_congr hef]
    split
    · exact hrest
    · exact .cons hef ih

/-- An entry of the table is unchecked, or it is what was found. -/
theorem mem_unchecked_or (ms : List VariantMMap) (addr : Word) {e : VariantMMap} (he : e ∈ ms) :
    e ∈ unchecked ms addr ∨ findMapping ms addr = some e := by
  induction ms with
  | nil => exact absurd he List.not_mem_nil
  | cons f fs ih =>
    rw [unchecked_cons, findMapping_cons]
    by_cases hf : f.covers addr = true
    · rw [if_pos hf, if_pos hf]
      rcases List.mem_cons.1 he with rfl | he
      · exact .inr rfl
      · exact .inl he
    · rw [if_neg hf, if_neg hf]
      rcases List.mem_cons.1 he with rfl | he
      · exact .inl List.mem_cons_self
      · exact (ih he).imp_left (List.mem_cons_of_mem f)

/-- The entry with other flags. -/
def VariantMMap.withFlags (e : VariantMMap) (flags : BitVec 32) : VariantMMap :=
  { e with flags := flags }

theorem sameLayout_withFlags (ms : List VariantMMap) (flags : BitVec 32) :
    SameLayout ms (ms.map fun e => e.withFlags flags) := by
  rw [SameLayout, List.forall₂_map_right_iff]
  exact List.forall₂_same.2 fun _ _ => ⟨rfl, rfl⟩

/-- The same places, with a private mapping where the search ends and shared ones elsewhere. -/
theorem exists_layout (ms : List VariantMMap) (addr : Word) : ∃ ms', SameLayout ms ms' ∧
    (∀ map, findMapping ms' addr = some map → map.flags = MAP_PRIVATE) ∧
    ∀ e ∈ unchecked ms' addr, e.flags = MAP_SHARED := by
  induction ms with
  | nil =>
    exact ⟨[], .nil, fun _ h => absurd h (by simp [findMapping]), fun _ h => absurd h (by simp [unchecked])⟩
  | cons e es ih =>
    have hplace : ∀ flags, e.addr = (e.withFlags flags).addr ∧ e.len = (e.withFlags flags).len :=
      fun _ => ⟨rfl, rfl⟩
    by_cases he : e.covers addr = true
    · have hshared := sameLayout_withFlags es MAP_SHARED
      refine ⟨_ :: _, List.Forall₂.cons (hplace MAP_PRIVATE) hshared, ?_, ?_⟩
      · rw [findMapping_cons, ← covers_congr (hplace _), if_pos he]
        exact fun map hmap => congrArg VariantMMap.flags (Option.some.inj hmap).symm
      · rw [unchecked_cons, ← covers_congr (hplace _), if_pos he]
        exact List.forall_mem_map.2 fun _ _ => rfl
    · obtain ⟨es', hlayout, hfound, hrest⟩ := ih
      refine ⟨e.withFlags MAP_SHARED :: es', List.Forall₂.cons (hplace _) hlayout, ?_, ?_⟩
      · rwa [findMapping_cons, ← covers_congr (hplace _), if_neg he]
      · rw [unchecked_cons, ← covers_congr (hplace _), if_neg he]
        exact List.forall_mem_cons.2 ⟨rfl, hrest⟩

section

variable {ms ms' : List VariantMMap} {addr len : Word} {prot : BitVec 32}

/-- Where the policy allows the found entry to be writable, what is open about the others is
all that is open. -/
theorem privateIn_iff (hprot : prot &&& PROT_WRITE ≠ 0)
    (hpolicy : ∀ map, findMapping ms addr = some map → checkMMapPerms prot map.flags = 0) :
    PrivateIn ms addr len ↔ PrivateIn (unchecked ms addr) addr len := by
  constructor
  · exact fun h e he => h e (List.mem_of_mem_eraseP he)
  · intro h e he hmeets
    rcases mem_unchecked_or ms addr he with he | hfound
    · exact h e he hmeets
    · exact checkMMapPerms_eq_zero_iff.1 (hpolicy e hfound) hprot

/-- A `mprotect` that is accepted with one table is accepted with another, if the policy
allows what it finds there. -/
theorem mprotect_policy {K : Kernel ρ} (hrun : execSyscall K .mprotect w = .ret 0 w') :
    (∃ w'', execSyscall K .mprotect { w with mappings := ms' } = .ret 0 w'') ↔
      ∀ map, findMapping ms' ((w.var .master).syscallInfo.arg 0) = some map →
        checkMMapPerms (toInt ((w.var .master).syscallInfo.arg 2)) map.flags = 0 := by
  obtain ⟨⟨hlen, hprot, -⟩, -⟩ := (decides_mprotectEq w).accepted hrun
  constructor
  · rintro ⟨w'', hrun'⟩
    exact ((decides_mprotectEq _).accepted hrun').1.policy
  · intro hpolicy
    obtain ⟨β, hβ⟩ := (decides_mprotectEq { w with mappings := ms' }).ret_true ⟨hlen, hprot, hpolicy⟩
    exact ⟨_, guarded_true hβ resumeBoth⟩

theorem meets_congr {e f : VariantMMap} (h : e.addr = f.addr ∧ e.len = f.len) :
    e.Meets addr len ↔ f.Meets addr len := by
  unfold VariantMMap.Meets
  simp only [covers_congr h]

theorem SameLayout.meets (h : SameLayout ms ms') {e : VariantMMap} (he : e ∈ ms)
    (hmeets : e.Meets addr len) : ∃ f ∈ ms', f.Meets addr len := by
  induction h with
  | nil => exact absurd he List.not_mem_nil
  | @cons g f gs fs hgf _ ih =>
    rcases List.mem_cons.1 he with rfl | he
    · exact ⟨f, List.mem_cons_self, (meets_congr hgf).1 hmeets⟩
    · obtain ⟨f', hf', hmeets'⟩ := ih he
      exact ⟨f', List.mem_cons_of_mem f hf', hmeets'⟩

end

/-- **`mprotect` checks its whole range**, given that it is accepted and gives write permission,
if and only if the other entries that the range meets are private besides the one its address
lies in.  Of tables with entries at given places all are checked if and only if the range
meets no other entry. -/
theorem mprotect_checks_range_iff (hrun : execSyscall K .mprotect w = .ret 0 w')
    (hprot : toInt ((w.var .master).syscallInfo.arg 2) &&& PROT_WRITE ≠ 0) :
    (PrivateIn w.mappings ((w.var .master).syscallInfo.arg 0) ((w.var .master).syscallInfo.arg 1) ↔
      PrivateIn (unchecked w.mappings ((w.var .master).syscallInfo.arg 0))
        ((w.var .master).syscallInfo.arg 0) ((w.var .master).syscallInfo.arg 1)) ∧
    ((∀ ms', SameLayout w.mappings ms' →
      (∃ w'', execSyscall K .mprotect { w with mappings := ms' } = .ret 0 w'') →
      PrivateIn ms' ((w.var .master).syscallInfo.arg 0) ((w.var .master).syscallInfo.arg 1)) ↔
      ∀ e ∈ unchecked w.mappings ((w.var .master).syscallInfo.arg 0),
        ¬ e.Meets ((w.var .master).syscallInfo.arg 0) ((w.var .master).syscallInfo.arg 1)) := by
  refine ⟨privateIn_iff hprot ((decides_mprotectEq w).accepted hrun).1.policy, fun h e he hmeets => ?_,
    fun h ms' hlayout hrun' => ?_⟩
  · obtain ⟨ms', hlayout, hfound, hshared⟩ := exists_layout w.mappings ((w.var .master).syscallInfo.arg 0)
    have haccepted : ∃ w'', execSyscall K .mprotect { w with mappings := ms' } = .ret 0 w'' :=
      (mprotect_policy hrun).2 fun map hmap => by
        rw [hfound map hmap]
        exact checkMMapPerms_eq_zero_iff.2 fun _ => by decide
    obtain ⟨f, hf, hmeets'⟩ := (hlayout.unchecked _).meets he hmeets
    have hprivate := h ms' hlayout haccepted f (List.mem_of_mem_eraseP hf) hmeets'
    rw [hshared f hf] at hprivate
    exact hprivate (by decide)
  · refine (privateIn_iff hprot ((mprotect_policy hrun).1 hrun')).2 fun e he hmeets => ?_
    have hback : SameLayout ms' w.mappings :=
      List.Forall₂.flip (List.Forall₂.imp (fun _ _ h => ⟨h.1.symm, h.2.symm⟩) hlayout)
    obtain ⟨f, hf, hmeets'⟩ := (hback.unchecked _).meets he hmeets
    exact absurd hmeets' (h f hf)

/-- `mprotect(0x10000, len, PROT_READ | PROT_WRITE)` in both variants. -/
def protecting (ms : List VariantMMap) (len : Word) : World Unit :=
  { World.standing (fun _ => callRegs Syscall.mprotect.nr ![0x10000, len, 3, 0, 0, 0])
      (fun _ _ => none) () with mappings := ms }

/-- A page of a private mapping, and behind it a page of a shared one. -/
def privateThenShared : List VariantMMap := [⟨0x10000, 0x1000, 1, 2⟩, ⟨0x11000, 0x1000, 1, 1⟩]

/-- The shared page is made writable along with the private one, or with a page of which the
table knows nothing. -/
theorem mprotect_unchecked :
    ((∃ w', execSyscall (.returning 0) .mprotect (protecting privateThenShared 0x2000) = .ret 0 w') ∧
      ¬ PrivateIn privateThenShared 0x10000 0x2000) ∧
    (∃ w', execSyscall (.returning 0) .mprotect (protecting privateThenShared.tail 0x2000) = .ret 0 w') ∧
      ¬ PrivateIn privateThenShared.tail 0x10000 0x2000 := by
  have hmeets : (⟨0x11000, 0x1000, 1, 1⟩ : VariantMMap).Meets 0x10000 0x2000 :=
    ⟨0x11000, by decide, by decide⟩
  refine ⟨⟨⟨_, Outcome.eq_ret_of_val? (by decide +kernel)⟩, fun h => ?_⟩,
    ⟨_, Outcome.eq_ret_of_val? (by decide +kernel)⟩, fun h => ?_⟩
  · exact h _ (by simp [privateThenShared]) hmeets (by decide)
  · exact h _ (by simp [privateThenShared]) hmeets (by decide)

/-- A range that ends with the private page is checked as a whole. -/
theorem mprotect_checks_first : PrivateIn privateThenShared 0x10000 0x1000 := by
  refine (mprotect_checks_range_iff (K := .returning 0) (w := protecting privateThenShared 0x1000)
    (Outcome.eq_ret_of_val? (by decide +kernel)) (by decide)).1.2 ?_
  rintro e he ⟨a, ⟨-, hend⟩, hcov⟩
  have hrest : unchecked privateThenShared 0x10000 = [⟨0x11000, 0x1000, 1, 1⟩] := by decide
  obtain rfl : e = ⟨0x11000, 0x1000, 1, 1⟩ := List.mem_singleton.1 (hrest ▸ he)
  have hstart := (((VariantMMap.Sized.covers_iff ⟨by decide, by decide⟩ a).1 hcov).1)
  exact absurd (lt_of_le_of_lt hstart hend) (by decide)

end Aurora
