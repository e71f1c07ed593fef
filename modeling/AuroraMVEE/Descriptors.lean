import AuroraMVEE.SharedMemory

/-!
# Descriptor tables

A descriptor number means the same in both variants only as long as their tables agree.
Here the kernel's state is the table of each variant and the files that exist, allocation
takes the lowest free number, and a run is any sequence of accepted `openat`, `socket`,
`accept4` and `close` calls.

`openat` is made in both variants and the replica is given the master's number; where the
master's call has created the file exclusively, the replica's fails.  `accept4` is made in
the master only.  `tables_agree_iff` says that nothing else parts the tables.
-/

namespace Aurora

variable {Obj : Type}

/-! ## The kernel's side -/

/-- What a process has open, by number. -/
abbrev Table (Obj : Type) := ℕ → Option Obj

/-- The tables of the two variants, and the files that exist.  Objects of the two variants
that correspond to each other are one object here. -/
structure Descriptors (Obj : Type) where
  table : Who → Table Obj
  present : Obj → Bool

/-- The lowest free number below the limit. -/
def lowestFree (limit : ℕ) (τ : Table Obj) : Option ℕ :=
  (List.range limit).find? fun n => (τ n).isNone

theorem lt_of_lowestFree {limit n : ℕ} {τ : Table Obj} (h : lowestFree limit τ = some n) :
    n < limit := List.mem_range.1 (List.mem_of_find?_eq_some h)

theorem free_of_lowestFree {limit n : ℕ} {τ : Table Obj} (h : lowestFree limit τ = some n) :
    τ n = none := by
  simpa using List.find?_some h

/-- What decides a request for a descriptor, besides the tables and the files. -/
structure Grant (Obj : Type) where
  /-- The limit on open descriptors, whose numbers are of type `int`. -/
  limit : ℕ
  limit_le : limit ≤ 2 ^ 31
  /-- The object asked for: by a path from the directory a descriptor is open on, from a
  listening socket, or as a new socket. -/
  object : Option Obj → Obj
  /-- Is the request turned down whatever the tables and the files are? -/
  refused : Bool

/-- `O_CREAT | O_EXCL` -/
def Exclusive (flags : Word) : Prop := flags &&& O_CREAT ≠ 0 ∧ flags &&& O_EXCL ≠ 0

instance (flags : Word) : Decidable (Exclusive flags) := inferInstanceAs (Decidable (_ ∧ _))

/-- Can a file be opened with these flags, where it is present or not? -/
def openable (flags : Word) (present : Bool) : Bool :=
  if Exclusive flags then !present else decide (flags &&& O_CREAT ≠ 0) || present

/-- The descriptor number in the first argument. -/
def fdNum (regs : Regs) : ℕ := (toInt (regs .rdi)).toNat

namespace Grant

/-- The number and the object that the call with these registers gets. -/
def answer (g : Grant Obj) (regs : Regs) (τ : Table Obj) (present : Obj → Bool) : Option (ℕ × Obj) :=
  if g.refused then none
  else match Syscall.ofNr (regs .origRax) with
    | some .openat => if openable (regs .rdx) (present (g.object (τ (fdNum regs)))) then
        (lowestFree g.limit τ).map (·, g.object (τ (fdNum regs))) else none
    | some .socket => (lowestFree g.limit τ).map (·, g.object none)
    | some .accept4 => (lowestFree g.limit τ).map (·, g.object (τ (fdNum regs)))
    | _ => none

/-- The caller's table afterwards. -/
def tableAfter (g : Grant Obj) (regs : Regs) (τ : Table Obj) (present : Obj → Bool) : Table Obj :=
  match g.answer regs τ present with
  | some (n, obj) => Function.update τ n (some obj)
  | none => if Syscall.ofNr (regs .origRax) = some .close then Function.update τ (fdNum regs) none
      else τ

variable [DecidableEq Obj]

/-- The files that exist afterwards. -/
def presentAfter (g : Grant Obj) (regs : Regs) (τ : Table Obj) (present : Obj → Bool) : Obj → Bool :=
  match g.answer regs τ present with
  | some (_, obj) => if Syscall.ofNr (regs .origRax) = some .openat then
      Function.update present obj true else present
  | none => present

/-- What the call of the variant `v` does. -/
def call (g : Grant Obj) (v : Who) (regs : Regs) (σ : Descriptors Obj) : Descriptors Obj where
  table := Function.update σ.table v (g.tableAfter regs (σ.table v) σ.present)
  present := g.presentAfter regs (σ.table v) σ.present

end Grant

/-- The calls that ask for a descriptor. -/
def allocating : List Syscall := [.openat, .socket, .accept4]

variable [DecidableEq Obj]

/-- A kernel that keeps the tables, and answers both variants by the same rules. -/
structure DescriptorKernel (g : Grant Obj) (K : Kernel (Descriptors Obj)) : Prop where
  effect : ∀ v t σ, (K.syscall v t σ).2 = g.call v t.regs σ
  number : ∀ c ∈ allocating, ∀ v t σ, Syscall.ofNr (t.regs .origRax) = some c →
    (K.syscall v t σ).1.success? =
      (g.answer t.regs (σ.table v) σ.present).map fun a => BitVec.ofNat 64 a.1

/-- The calls that change a table. -/
def tableCalls : List Syscall := [.openat, .socket, .accept4, .close]

/-- A round of such a call, under a kernel that keeps the tables. -/
structure DescriptorRound (e : Round (Descriptors Obj)) : Prop where
  call : e.call ∈ tableCalls
  kernel : ∃ g, DescriptorKernel g e.kernel

/-- The machine of accepted calls on descriptors. -/
def descriptorRounds : Machine (World (Descriptors Obj)) (Round (Descriptors Obj)) :=
  (rounds (Descriptors Obj)).restrict fun _ e => DescriptorRound e

/-- The same numbers are open, on corresponding objects. -/
def SameTables (σ : Descriptors Obj) : Prop := σ.table .master = σ.table .replica

/-! ## One call -/

/-- Two requests that the kernel cannot tell apart. -/
structure SameRequest (regs regs' : Regs) : Prop where
  nr : regs' .origRax = regs .origRax
  fd : fdNum regs' = fdNum regs
  flags : Syscall.ofNr (regs .origRax) = some .openat → regs' .rdx = regs .rdx

namespace Grant

variable {g : Grant Obj} {regs regs' : Regs} {τ : Table Obj} {present : Obj → Bool}

omit [DecidableEq Obj] in
theorem answer_congr (h : SameRequest regs regs') : g.answer regs' τ present = g.answer regs τ present := by
  unfold answer
  rw [h.nr, h.fd]
  split
  · rfl
  · split
    · next hc => rw [h.flags hc]
    · rfl
    · rfl
    · rfl

omit [DecidableEq Obj] in
theorem tableAfter_congr (h : SameRequest regs regs') :
    g.tableAfter regs' τ present = g.tableAfter regs τ present := by
  unfold tableAfter
  rw [answer_congr h, h.nr, h.fd]

omit [DecidableEq Obj] in
theorem tableAfter_granted {n : ℕ} {obj : Obj} (h : g.answer regs τ present = some (n, obj)) :
    g.tableAfter regs τ present = Function.update τ n (some obj) := by
  unfold tableAfter
  rw [h]

omit [DecidableEq Obj] in
theorem tableAfter_none (h : g.answer regs τ present = none)
    (hc : Syscall.ofNr (regs .origRax) ≠ some .close) : g.tableAfter regs τ present = τ := by
  unfold tableAfter
  rw [h]
  exact if_neg hc

omit [DecidableEq Obj] in
/-- A number that is handed out was free. -/
theorem answer_spec {n : ℕ} {obj : Obj} (h : g.answer regs τ present = some (n, obj)) :
    n < g.limit ∧ τ n = none := by
  have hfree : ∀ {obj'}, (lowestFree g.limit τ).map (·, obj') = some (n, obj) →
      n < g.limit ∧ τ n = none := by
    intro obj' h
    obtain ⟨m, hm, hpair⟩ := Option.map_eq_some_iff.1 h
    obtain rfl := congrArg Prod.fst hpair
    exact ⟨lt_of_lowestFree hm, free_of_lowestFree hm⟩
  unfold answer at h
  split at h
  · exact absurd h (by simp)
  · split at h
    · split at h
      · exact hfree h
      · exact absurd h (by simp)
    · exact hfree h
    · exact hfree h
    · exact absurd h (by simp)

/-- Once a file is there, it can be opened unless that is to create it. -/
theorem openable_present (flags : Word) : openable flags true = !decide (Exclusive flags) := by
  unfold openable
  by_cases h : Exclusive flags
  · rw [if_pos h, decide_eq_true h]
  · rw [if_neg h, decide_eq_false h, Bool.or_true]
    rfl

/-- An `openat` that was granted, made again. -/
theorem answer_again (hc : Syscall.ofNr (regs .origRax) = some .openat) {n : ℕ} {obj : Obj}
    (h : g.answer regs τ present = some (n, obj)) :
    g.answer regs τ (g.presentAfter regs τ present) =
      if Exclusive (regs .rdx) then none else some (n, obj) := by
  unfold presentAfter
  rw [h]
  dsimp only
  rw [if_pos hc]
  unfold answer at h ⊢
  rw [hc] at h ⊢
  split at h
  · exact absurd h (by simp)
  · next hrefused =>
    rw [if_neg hrefused]
    dsimp only at h ⊢
    split at h
    · have hobj : g.object (τ (fdNum regs)) = obj := by
        obtain ⟨m, -, hpair⟩ := Option.map_eq_some_iff.1 h
        exact congrArg Prod.snd hpair
      rw [hobj] at h ⊢
      rw [Function.update_self, openable_present, h]
      by_cases hexcl : Exclusive (regs .rdx) <;> simp [hexcl]
    · exact absurd h (by simp)

/-- An `openat` made again changes an equal table in the same way, unless it was granted
and exclusive. -/
theorem tableAfter_again (hc : Syscall.ofNr (regs .origRax) = some .openat) :
    g.tableAfter regs τ present = g.tableAfter regs τ (g.presentAfter regs τ present) ↔
      ((g.answer regs τ present).isSome → ¬ Exclusive (regs .rdx)) := by
  cases hans : g.answer regs τ present with
  | none =>
    have hkept : g.presentAfter regs τ present = present := by
      unfold presentAfter
      rw [hans]
    rw [hkept]
    simp
  | some a =>
    obtain ⟨n, obj⟩ := a
    have hagain := answer_again hc hans
    rw [tableAfter_granted hans]
    simp only [Option.isSome_some, forall_const]
    by_cases hexcl : Exclusive (regs .rdx)
    · rw [if_pos hexcl] at hagain
      rw [tableAfter_none hagain (by rw [hc]; decide)]
      refine iff_of_false (fun h => ?_) fun h => h hexcl
      have hfree := congrFun h n
      rw [Function.update_self, (answer_spec hans).2] at hfree
      exact absurd hfree (by simp)
    · rw [if_neg hexcl] at hagain
      rw [tableAfter_granted hagain]
      exact iff_of_true rfl hexcl

omit [DecidableEq Obj] in
/-- Only `openat` looks at the files. -/
theorem answer_files (hc : Syscall.ofNr (regs .origRax) ≠ some .openat) (present' : Obj → Bool) :
    g.answer regs τ present = g.answer regs τ present' := by
  unfold answer
  split
  · rfl
  · split
    · next h => exact absurd h hc
    · rfl
    · rfl
    · rfl

omit [DecidableEq Obj] in
theorem tableAfter_files (hc : Syscall.ofNr (regs .origRax) ≠ some .openat) (present' : Obj → Bool) :
    g.tableAfter regs τ present = g.tableAfter regs τ present' := by
  unfold tableAfter
  rw [answer_files hc present']

omit [DecidableEq Obj] in
/-- A call that asks for nothing and closes nothing. -/
theorem tableAfter_of_ne (hc : ∀ c ∈ tableCalls, Syscall.ofNr (regs .origRax) ≠ some c) :
    g.tableAfter regs τ present = τ := by
  have hans : g.answer regs τ present = none := by
    unfold answer
    split
    · rfl
    · split
      · next h => exact absurd h (hc .openat (by decide))
      · next h => exact absurd h (hc .socket (by decide))
      · next h => exact absurd h (hc .accept4 (by decide))
      · rfl
  exact tableAfter_none hans (hc .close (by decide))

omit [DecidableEq Obj] in
/-- A call that closes nothing changes the table exactly if it gets a descriptor. -/
theorem tableAfter_eq_self_iff (hc : Syscall.ofNr (regs .origRax) ≠ some .close) :
    g.tableAfter regs τ present = τ ↔ g.answer regs τ present = none := by
  cases hans : g.answer regs τ present with
  | none => exact iff_of_true (tableAfter_none hans hc) rfl
  | some a =>
    obtain ⟨n, obj⟩ := a
    rw [tableAfter_granted hans]
    refine iff_of_false (fun h => ?_) (by simp)
    have hfree := congrFun h n
    rw [Function.update_self, (answer_spec hans).2] at hfree
    exact absurd hfree (by simp)

end Grant

/-! ## What a round does to the tables -/

section

variable {g : Grant Obj} {w w' : World (Descriptors Obj)} {e : Round (Descriptors Obj)}

/-- A call of each variant, one after the other: the second finds the files of the first. -/
theorem DescriptorKernel.both {K : Kernel (Descriptors Obj)} (hK : DescriptorKernel g K) (v : Who)
    (t t' : Tracee) (σ : Descriptors Obj) :
    (K.syscall v.other t' (K.syscall v t σ).2).2.table v =
        g.tableAfter t.regs (σ.table v) σ.present ∧
      (K.syscall v.other t' (K.syscall v t σ).2).2.table v.other =
        g.tableAfter t'.regs (σ.table v.other) (g.presentAfter t.regs (σ.table v) σ.present) := by
  rw [hK.effect v.other, hK.effect v]
  unfold Grant.call
  constructor
  · simp
  · simp

/-- A call that is seen through. -/
theorem descriptorRound_seen (hK : DescriptorKernel g e.kernel) (hc : e.call ∈ seenThrough)
    (hne : e.call ≠ .access) (hstep : (rounds (Descriptors Obj)).step w e w') :
    ∃ m rm rr, Served e.kernel e.call (e.start w) w' m rm rr ∧
      w'.os.table .master = g.tableAfter (e.regs .master) (w.os.table .master) w.os.present ∧
      w'.os.table .replica = g.tableAfter ((e.start w).released e.call rm m).regs
        (w.os.table .replica) (g.presentAfter (e.regs .master) (w.os.table .master) w.os.present) := by
  obtain ⟨m, rm, rr, hs⟩ := seenThrough_round hc hne hstep
  obtain ⟨hm, hr⟩ := hK.both .master ((e.start w).proc .master).resume
    ((e.start w).released e.call rm m).resume w.os
  simp only [resume_regs, start_regs] at hm hr
  exact ⟨m, rm, rr, hs, (congrArg (·.table .master) hs.os).trans hm,
    (congrArg (·.table .replica) hs.os).trans hr⟩

/-- What the master is answered. -/
theorem answer_success (hK : DescriptorKernel g e.kernel) (hc : e.call ∈ allocating)
    (hstep : (rounds (Descriptors Obj)).step w e w') :
    (e.answer w).success? = (g.answer (e.regs .master) (w.os.table .master) w.os.present).map
      fun a => BitVec.ofNat 64 a.1 := by
  have hregs : ((e.start w).proc .master).resume.regs = e.regs .master := resume_regs _
  have hnr : Syscall.ofNr (((e.start w).proc .master).resume.regs .origRax) = some e.call := by
    rw [hregs, hstep.1 .master, Syscall.ofNr_nr]
  have hans := hK.number e.call hc .master ((e.start w).proc .master).resume w.os hnr
  rw [hregs] at hans
  exact hans

/-- A call that gets a descriptor is not an `accept4`, nor an exclusive `openat`. -/
def KeepsTables (w : World (Descriptors Obj)) (e : Round (Descriptors Obj)) : Prop :=
  (e.answer w).success?.isSome →
    e.call ≠ .accept4 ∧ (e.call = .openat → ¬ Exclusive (e.regs .master .rdx))

theorem sameTables_openat (hK : DescriptorKernel g e.kernel) (hc : e.call = .openat)
    (hstep : (rounds (Descriptors Obj)).step w e w') (hw : SameTables w.os) :
    SameTables w'.os ↔ ((e.answer w).success?.isSome → ¬ Exclusive (e.regs .master .rdx)) := by
  obtain ⟨m, rm, rr, hs, hm, hr⟩ :=
    descriptorRound_seen hK (by rw [hc]; decide) (by rw [hc]; decide) hstep
  have hans := answer_success hK (by rw [hc]; decide) hstep
  have hnr := hstep.1
  obtain ⟨-, w₁, hrun, -⟩ := hstep
  rw [hc] at hr hnr hrun
  have hsame := ((decides_openatEq (e.start w)).accepted hrun).1.scalars
  have hrequest : SameRequest (e.regs .master) (e.regs .replica) :=
    ⟨(hnr .replica).trans (hnr .master).symm,
      congrArg (fun x => (toInt x).toNat) (hsame 0 (by simp)).symm,
      fun _ => (hsame 2 (by simp)).symm⟩
  have hregs : ((e.start w).released .openat rm m).regs = e.regs .replica := rfl
  have hopenat : Syscall.ofNr (e.regs .master .origRax) = some .openat := by
    rw [hnr .master, Syscall.ofNr_nr]
  rw [hregs, Grant.tableAfter_congr hrequest, ← show w.os.table .master = _ from hw] at hr
  rw [SameTables, hm, hr, Grant.tableAfter_again hopenat, hans, Option.isSome_map]

theorem sameTables_accept4 (hK : DescriptorKernel g e.kernel) (hc : e.call = .accept4)
    (hstep : (rounds (Descriptors Obj)).step w e w') (hw : SameTables w.os) :
    SameTables w'.os ↔ (e.answer w).success? = none := by
  obtain ⟨m, rm, rr, hs, hm, hr⟩ :=
    descriptorRound_seen hK (by rw [hc]; decide) (by rw [hc]; decide) hstep
  have hans := answer_success hK (by rw [hc]; decide) hstep
  have hnr := hstep.1 .master
  rw [hc] at hr hnr
  have hclose : Syscall.ofNr (e.regs .master .origRax) ≠ some .close := by
    rw [hnr, Syscall.ofNr_nr]
    decide
  -- the replica makes a `getpid` instead
  have hgetpid : Syscall.ofNr (((e.start w).released .accept4 rm m).regs .origRax) = some .getpid :=
    Syscall.ofNr_nr .getpid
  rw [Grant.tableAfter_of_ne (by rw [hgetpid]; decide), ← show w.os.table .master = _ from hw] at hr
  rw [SameTables, hm, hr, Grant.tableAfter_eq_self_iff hclose, hans, Option.map_eq_none_iff]

theorem sameTables_close (hK : DescriptorKernel g e.kernel) (hc : e.call = .close)
    (hstep : (rounds (Descriptors Obj)).step w e w') (hw : SameTables w.os) : SameTables w'.os := by
  obtain ⟨m, rm, rr, hs, hm, hr⟩ :=
    descriptorRound_seen hK (by rw [hc]; decide) (by rw [hc]; decide) hstep
  have hnr := hstep.1
  obtain ⟨-, w₁, hrun, -⟩ := hstep
  rw [hc] at hr hnr hrun
  have hsame := ((decides_argsEq [0] (e.start w)).accepted hrun).1
  have hclose : Syscall.ofNr (e.regs .master .origRax) = some .close := by
    rw [hnr .master, Syscall.ofNr_nr]
  have hrequest : SameRequest (e.regs .master) (e.regs .replica) :=
    ⟨(hnr .replica).trans (hnr .master).symm,
      congrArg (fun x => (toInt x).toNat) (hsame 0 (by simp)).symm,
      fun h => absurd (hclose.symm.trans h) (by decide)⟩
  have hregs : ((e.start w).released .close rm m).regs = e.regs .replica := rfl
  rw [hregs, Grant.tableAfter_congr hrequest, ← show w.os.table .master = _ from hw,
    Grant.tableAfter_files (by rw [hclose]; decide) w.os.present] at hr
  exact hm.trans hr.symm

/-- `socket`: both variants make the same request, in either order. -/
theorem descriptorRound_socket (hK : DescriptorKernel g e.kernel) (hc : e.call = .socket)
    (hstep : (rounds (Descriptors Obj)).step w e w') :
    SameRequest (e.regs .master) (e.regs .replica) ∧ ∀ v,
      w'.os.table v = g.tableAfter (e.regs v) (w.os.table v) w.os.present ∧
        ∃ σ : Descriptors Obj, σ.table v = w.os.table v ∧ w'.proc v =
          ((e.start w).proc v).resume.finish (e.kernel.syscall v ((e.start w).proc v).resume σ).1 := by
  have hnr := hstep.1
  obtain ⟨-, w₁, hrun, rfl⟩ := hstep
  rw [hc] at hnr hrun
  obtain ⟨hsame, β, hbody⟩ := (decides_argsEq [0, 1, 2] (e.start w)).accepted hrun
  have hos : (w₁.settle e.kernel e.first).os = _ :=
    os_resumeBoth (w := (e.start w).withBufs β) e.kernel e.first (start_atEntry w e) hbody
  obtain ⟨hproc, hproc'⟩ :=
    proc_resumeBoth (w := (e.start w).withBufs β) e.kernel e.first (start_atEntry w e) hbody
  have hsocket : ∀ v, Syscall.ofNr (e.regs v .origRax) ≠ some .openat := by
    intro v
    rw [hnr v, Syscall.ofNr_nr]
    decide
  obtain ⟨hfirst, hother⟩ := hK.both e.first ((e.start w).proc e.first).resume
    ((e.start w).proc e.first.other).resume w.os
  simp only [resume_regs, start_regs] at hfirst hother
  rw [Grant.tableAfter_files (hsocket _) w.os.present] at hother
  have hkept : (e.kernel.syscall e.first ((e.start w).proc e.first).resume w.os).2.table e.first.other =
      w.os.table e.first.other := by
    rw [hK.effect]
    exact Function.update_of_ne (Who.other_ne e.first) _ _
  refine ⟨⟨(hnr .replica).trans (hnr .master).symm,
    congrArg (fun x => (toInt x).toNat) (hsame 0 (by simp)).symm,
    fun h => absurd h (hsocket .master)⟩, fun v => ?_⟩
  by_cases hv : v = e.first
  · subst hv
    exact ⟨(congrArg (·.table e.first) hos).trans hfirst, w.os, rfl, hproc⟩
  · obtain rfl := Who.eq_other_of_ne hv
    exact ⟨(congrArg (·.table e.first.other) hos).trans hother, _, hkept, hproc'⟩

theorem sameTables_socket (hK : DescriptorKernel g e.kernel) (hc : e.call = .socket)
    (hstep : (rounds (Descriptors Obj)).step w e w') (hw : SameTables w.os) : SameTables w'.os := by
  obtain ⟨hrequest, heach⟩ := descriptorRound_socket hK hc hstep
  rw [SameTables, (heach .master).1, (heach .replica).1, Grant.tableAfter_congr hrequest,
    show w.os.table .master = _ from hw]

/-- Equal tables stay equal in an accepted call exactly if it is none of the two. -/
theorem sameTables_step_iff (he : DescriptorRound e) (hstep : (rounds (Descriptors Obj)).step w e w')
    (hw : SameTables w.os) : SameTables w'.os ↔ KeepsTables w e := by
  obtain ⟨g, hK⟩ := he.kernel
  have hcall := he.call
  simp only [tableCalls, List.mem_cons, List.not_mem_nil, or_false] at hcall
  unfold KeepsTables
  rcases hcall with hc | hc | hc | hc
  · rw [sameTables_openat hK hc hstep hw, hc]
    simp
  · refine iff_of_true (sameTables_socket hK hc hstep hw) fun _ => ?_
    rw [hc]
    exact ⟨by decide, fun h => absurd h (by decide)⟩
  · rw [sameTables_accept4 hK hc hstep hw, hc]
    simp
  · refine iff_of_true (sameTables_close hK hc hstep hw) fun _ => ?_
    rw [hc]
    exact ⟨by decide, fun h => absurd h (by decide)⟩

/-! ## What the replica is told -/

theorem ofInt_toInt_of_lt {x : Word} (h : x.toNat < 2 ^ 31) : ofInt (toInt x) = x := by
  have hmsb : (toInt x).msb = false := by
    rw [BitVec.msb_eq_false_iff_two_mul_lt, toInt, BitVec.toNat_setWidth]
    omega
  refine BitVec.eq_of_toNat_eq ?_
  rw [ofInt, BitVec.signExtend_eq_setWidth_of_msb_false hmsb, toInt, BitVec.toNat_setWidth,
    BitVec.toNat_setWidth]
  omega

/-- In a call that got the master a descriptor, the replica was told the same number, and
under it both have the same object open. -/
def Told (w w' : World (Descriptors Obj)) (e : Round (Descriptors Obj)) : Prop :=
  e.call ∈ allocating → ∀ x, (e.answer w).success? = some x →
    (w'.proc .replica).regs .rax = x ∧ ∃ obj, w'.os.table .replica x.toNat = some obj ∧
      w'.os.table .master x.toNat = some obj

/-- In a `socket` that gets the master a number, the replica gets the same. -/
theorem socket_number (hK : DescriptorKernel g e.kernel) (hc : e.call = .socket)
    (hstep : (rounds (Descriptors Obj)).step w e w') (hw : SameTables w.os) {n : ℕ} {obj : Obj}
    (h : g.answer (e.regs .master) (w.os.table .master) w.os.present = some (n, obj)) :
    (w'.proc .replica).regs .rax = BitVec.ofNat 64 n := by
  obtain ⟨hrequest, heach⟩ := descriptorRound_socket hK hc hstep
  obtain ⟨-, σ, hσ, hproc⟩ := heach .replica
  have hsocket : Syscall.ofNr (e.regs .replica .origRax) = some .socket := by
    rw [hstep.1 .replica, hc, Syscall.ofNr_nr]
  have hown := hK.number .socket (by decide) .replica ((e.start w).proc .replica).resume σ
    (by rw [resume_regs]; exact hsocket)
  rw [resume_regs, start_regs, hσ, Grant.answer_files (by rw [hsocket]; decide) w.os.present,
    Grant.answer_congr hrequest, ← show w.os.table .master = _ from hw, h] at hown
  obtain ⟨rcx, r11, mem, hret⟩ := ret_of_success hown
  rw [hproc, hret]
  exact retRegs_rax ((e.start w).proc .replica).resume.regs _ rcx r11

/-- In any call that gets the master a number: its table afterwards, and what the replica is told. -/
theorem granted_round (hK : DescriptorKernel g e.kernel) (hc : e.call ∈ allocating)
    (hstep : (rounds (Descriptors Obj)).step w e w') (hw : SameTables w.os) {n : ℕ} {obj : Obj}
    (h : g.answer (e.regs .master) (w.os.table .master) w.os.present = some (n, obj)) :
    w'.os.table .master = Function.update (w.os.table .master) n (some obj) ∧
      (w'.proc .replica).regs .rax = BitVec.ofNat 64 n := by
  have hans := answer_success hK hc hstep
  rw [h, Option.map_some] at hans
  obtain ⟨rcx, r11, mem, hret⟩ := ret_of_success hans
  have hlt : (BitVec.ofNat 64 n).toNat < 2 ^ 31 := by
    have hn := (Grant.answer_spec h).1.trans_le g.limit_le
    rw [BitVec.toNat_ofNat]
    omega
  rw [← Grant.tableAfter_granted h]
  simp only [allocating, List.mem_cons, List.not_mem_nil, or_false] at hc
  rcases hc with hc | hc | hc
  · obtain ⟨m, rm, rr, hs, hm, -⟩ :=
      descriptorRound_seen hK (by rw [hc]; decide) (by rw [hc]; decide) hstep
    obtain ⟨_, _, _, hret'⟩ := hs.master
    obtain ⟨rfl, -⟩ := SysResult.ret.inj (hret.symm.trans hret')
    refine ⟨hm, hs.replicaRax.trans ?_⟩
    rw [hc]
    exact ofInt_toInt_of_lt hlt
  · exact ⟨((descriptorRound_socket hK hc hstep).2 .master).1, socket_number hK hc hstep hw h⟩
  · obtain ⟨m, rm, rr, hs, hm, -⟩ :=
      descriptorRound_seen hK (by rw [hc]; decide) (by rw [hc]; decide) hstep
    obtain ⟨_, _, _, hret'⟩ := hs.master
    obtain ⟨rfl, -⟩ := SysResult.ret.inj (hret.symm.trans hret')
    refine ⟨hm, hs.replicaRax.trans ?_⟩
    rw [hc]
    rfl

theorem told_of_sameTables (he : DescriptorRound e) (hstep : (rounds (Descriptors Obj)).step w e w')
    (hw : SameTables w.os) (hw' : SameTables w'.os) : Told w w' e := by
  intro hc x hx
  obtain ⟨g, hK⟩ := he.kernel
  have hans := answer_success hK hc hstep
  rw [hx] at hans
  obtain ⟨⟨n, obj⟩, hgrant, rfl⟩ := Option.map_eq_some_iff.1 hans.symm
  obtain ⟨htable, hrax⟩ := granted_round hK hc hstep hw hgrant
  have hn : (BitVec.ofNat 64 n).toNat = n := by
    have hlimit := (Grant.answer_spec hgrant).1.trans_le g.limit_le
    rw [BitVec.toNat_ofNat]
    exact Nat.mod_eq_of_lt (by omega)
  refine ⟨hrax, obj, ?_, ?_⟩
  · rw [← show w'.os.table .master = _ from hw', htable, hn, Function.update_self]
  · rw [htable, hn, Function.update_self]

/-- **Descriptor tables agree.**  All along a run of accepted `openat`, `socket`, `accept4` and
`close` calls from equal tables, the tables are equal if and only if no call of the run that
gets a descriptor is an `accept4` or an exclusive `openat`; and as long as they are, each
number that the replica is told is open in its own table, on the object that the master has
there. -/
theorem tables_agree_iff {es : List (Round (Descriptors Obj))} (hw : SameTables w.os)
    (hrun : descriptorRounds.Run w es w') :
    (descriptorRounds.Always (fun t => SameTables t.os) w es ↔
      (descriptorRounds.restrict KeepsTables).Run w es w') ∧
    (descriptorRounds.Always (fun t => SameTables t.os) w es → ∀ fs e t t', fs ++ [e] <+: es →
      descriptorRounds.Run w fs t → descriptorRounds.step t e t' → Told t t' e) := by
  refine ⟨hrun.always_iff (rounds_deterministic.restrict _) hw fun _ _ _ ht hstep =>
    sameTables_step_iff hstep.2 hstep.1 ht, fun h fs e t t' hfs hinit hlast => ?_⟩
  have hbefore := h fs t ((List.prefix_append fs [e]).trans hfs) hinit
  have hafter := h (fs ++ [e]) t' hfs (.snoc hinit hlast)
  exact told_of_sameTables hlast.2 hlast.1 hbefore hafter

end

/-! ## Two calls that part the tables -/

/-- What a kernel with the rules `g` returns. -/
def Grant.result (g : Grant Obj) (regs : Regs) (τ : Table Obj) (present : Obj → Bool) : Word :=
  match g.answer regs τ present, Syscall.ofNr (regs .origRax) with
  | some (n, _), _ => BitVec.ofNat 64 n
  | none, some .close => if (τ (fdNum regs)).isSome then 0 else -9
  | none, some .getpid => 1000
  | none, _ => -17

/-- A kernel with the rules `g`. -/
def Kernel.granting (g : Grant Obj) : Kernel (Descriptors Obj) where
  syscall v t σ := (.ret (g.result t.regs (σ.table v) σ.present) 0 0 t.mem, g.call v t.regs σ)
  user _ _ _ := .died
  killed _ := false
  junk := .stopped

theorem descriptorKernel_granting (g : Grant Obj) : DescriptorKernel g (.granting g) where
  effect _ _ _ := rfl
  number c hc v t σ hnr := by
    show (SysResult.ret (g.result t.regs (σ.table v) σ.present) 0 0 t.mem).success? = _
    cases hans : g.answer t.regs (σ.table v) σ.present with
    | none =>
      simp only [allocating, List.mem_cons, List.not_mem_nil, or_false] at hc
      unfold Grant.result
      rw [hans, hnr]
      rcases hc with rfl | rfl | rfl <;> rfl
    | some a =>
      obtain ⟨n, obj⟩ := a
      have hlt := (Grant.answer_spec hans).1.trans_le g.limit_le
      have hok : SyscallInfo.isErr (BitVec.ofNat 64 n) = false := by
        have hmax : (-4095 : Word).toNat = 2 ^ 64 - 4095 := by decide
        rw [SyscallInfo.isErr, decide_eq_false_iff_not, BitVec.le_def, BitVec.toNat_ofNat, hmax]
        omega
      unfold Grant.result
      rw [hans, SysResult.success?, Option.map_some]
      dsimp only
      rw [hok]
      rfl

/-- Up to 1024 descriptors; a path leads to object 7, and a socket is an object of its own. -/
def plainRules : Grant ℕ := ⟨1024, by decide, fun o => o.elim 7 (· + 100), false⟩

/-- The first four descriptors are open in both variants, and the path leads nowhere. -/
def fourOpen : World (Descriptors ℕ) :=
  .standing (fun _ => callRegs 0 fun _ => 0) (fun _ _ => none)
    ⟨fun _ n => if n ≤ 3 then some n else none, fun _ => false⟩

theorem sameTables_fourOpen : SameTables fourOpen.os := rfl

/-- A call with the arguments `args`, in variants whose memory is full of the letter `a`. -/
def descriptorRound (c : Syscall) (args : Fin 6 → Word) : Round (Descriptors ℕ) :=
  { Round.alike c (.granting plainRules) args with mem := fun _ _ => some 0x61 }

theorem descriptorRound_ok {c : Syscall} (hc : c ∈ tableCalls) (args : Fin 6 → Word) :
    DescriptorRound (descriptorRound c args) := ⟨hc, plainRules, descriptorKernel_granting plainRules⟩

/-- `accept4(3, NULL, NULL, 0)` -/
def acceptOne : Round (Descriptors ℕ) := descriptorRound .accept4 ![3, 0, 0, 0, 0, 0]

/-- `openat(AT_FDCWD, 0x1000, O_WRONLY | O_CREAT | O_EXCL, 0644)` -/
def createOne : Round (Descriptors ℕ) := descriptorRound .openat ![-100, 0x1000, 0xc1, 0x1a4, 0, 0]

theorem byteAt_full {t : Tracee} (hs : t.stopped = true) (hmem : t.mem = fun _ => some 0x61)
    (p : Word) (i : ℕ) : t.byteAt p i = 0x61 := by
  have hmapped : t.wordMapped (p + BitVec.ofNat 64 (8 * (i / 8))) = true := by
    simp [Tracee.wordMapped, hmem]
  have hbyte := mem_of_wordMapped hs hmapped
  rw [hmem] at hbyte
  exact (Option.some.inj hbyte).symm

/-- The path has no end, as the comparison wants it. -/
theorem step_createOne (w : World (Descriptors ℕ)) :
    descriptorRounds.step w createOne (createOne.next w) := by
  have hbyte : ∀ v p i, ((createOne.start w).proc v).byteAt p i = 0x61 := fun v =>
    byteAt_full rfl rfl
  have hsame : (createOne.start w).SameOpenat := by
    refine ⟨fun _ _ => rfl, fun _ _ _ => rfl, fun i _ => ?_, fun i _ => ?_⟩
    · rw [hbyte]
      decide
    · rw [hbyte, hbyte]
  obtain ⟨β, hβ⟩ := (decides_openatEq (createOne.start w)).ret_true hsame
  have hexec : execSyscall createOne.kernel .openat (createOne.start w) =
      runBothCopyMasterRet createOne.kernel ((createOne.start w).withBufs β) := guarded_true hβ _
  have hreturns : createOne.kernel.Returns := fun _ _ _ => nofun
  have hat := start_atEntry w createOne
  have hvia := via_runBothCopyMasterRet (K := createOne.kernel)
    (P := ⟨fun r _ => r = 0, fun _ => False, fun _ _ => False⟩) (hat .master) (hat .replica)
    (fun h => absurd hreturns h) (fun h => absurd hreturns h) rfl
  have hret := Prog.val?_of_wp (hvia ((createOne.start w).withBufs β) (pair_eta _).symm)
  rw [← hexec] at hret
  exact ⟨rounds_step_iff.2 ⟨fun _ => rfl, hret, rfl⟩, descriptorRound_ok (by decide) _⟩

theorem step_acceptOne : descriptorRounds.step fourOpen acceptOne (acceptOne.next fourOpen) :=
  ⟨rounds_step_iff.2 ⟨fun _ => rfl, by decide +kernel, rfl⟩, descriptorRound_ok (by decide) _⟩

/-- After the `accept4` the replica was told 4, and has nothing open there; after the `openat`
the tables differ too. -/
theorem tables_part :
    (∃ w, descriptorRounds.Run fourOpen [acceptOne] w ∧ (w.proc .replica).regs .rax = 4 ∧
      w.os.table .master 4 = some 103 ∧ w.os.table .replica 4 = none) ∧
    ∃ w, descriptorRounds.Run fourOpen [createOne] w ∧ ¬ SameTables w.os := by
  refine ⟨⟨_, .single step_acceptOne, by decide +kernel, by decide +kernel, by decide +kernel⟩,
    _, .single (step_createOne fourOpen), fun h => ?_⟩
  obtain ⟨hstep, he⟩ := step_createOne fourOpen
  have hkept := (sameTables_step_iff he hstep sameTables_fourOpen).1 h
  exact (hkept (by decide +kernel)).2 rfl (by decide)

/-- `socket(AF_INET, SOCK_STREAM, 0)` -/
def socketOne : Round (Descriptors ℕ) := descriptorRound .socket ![2, 1, 0, 0, 0, 0]

/-- A `socket` keeps the tables equal, and the replica is told what it has. -/
theorem tables_agree_socket :
    descriptorRounds.Always (fun t => SameTables t.os) fourOpen [socketOne] ∧
      Told fourOpen (socketOne.next fourOpen) socketOne := by
  have hstep : descriptorRounds.step fourOpen socketOne (socketOne.next fourOpen) :=
    ⟨rounds_step_iff.2 ⟨fun _ => rfl, by decide +kernel, rfl⟩, descriptorRound_ok (by decide) _⟩
  obtain ⟨hiff, htold⟩ := tables_agree_iff sameTables_fourOpen (.single hstep)
  have hkept : KeepsTables fourOpen socketOne := fun _ => ⟨by decide, fun h => absurd h (by decide)⟩
  have halways := hiff.2 (.single ⟨hstep, hkept⟩)
  exact ⟨halways, htold halways [] _ _ _ (List.prefix_refl _) .nil hstep⟩

end Aurora
