import AuroraMVEE.Requests
import AuroraMVEE.Channel

/-!
# The path of `newfstatat`

`newfstatat` has a string comparison of its own.  It finds the length of the master's path,
reads as many bytes of the replica's, and compares those: so it accepts a replica's path
that begins with the master's (`releases_newfstatat_iff`), and decides equality only where
the master's path is not a proper prefix (`newfstatat_path_iff`).
-/

namespace Aurora

variable {ρ : Type}

/-! ## Paths -/

/-- The path `s` stands at `p`, with its terminator behind it, in words that can be read. -/
structure Tracee.HoldsPath (t : Tracee) (p : Word) (s : List Byte) : Prop where
  chars : ∀ (i : ℕ) (h : i < s.length), t.mem (p + BitVec.ofNat 64 i) = some s[i]
  nonzero : 0 ∉ s
  terminator : t.mem (p + BitVec.ofNat 64 s.length) = some 0
  readable : t.Readable p (s.length + 1)
  short : s.length < BUF_SIZE - 50

namespace Tracee.HoldsPath

variable {t : Tracee} {p : Word} {s : List Byte}

/-- What is delivered of a path: its characters, and then the terminator. -/
theorem byteAt (hs : t.stopped = true) (h : t.HoldsPath p s) {i : ℕ} (hi : i ≤ s.length) :
    t.byteAt p i = s.getD i 0 := by
  have hmem := mem_of_wordMapped hs (h.readable i (Nat.lt_succ_of_le hi))
  rcases Nat.lt_or_eq_of_le hi with hlt | rfl
  · rw [h.chars i hlt] at hmem
    rw [List.getD_eq_getElem _ _ hlt]
    exact (Option.some.inj hmem).symm
  · rw [h.terminator] at hmem
    rw [List.getD_eq_default _ _ (le_refl _)]
    exact (Option.some.inj hmem).symm

theorem byteAt_ne_zero (hs : t.stopped = true) (h : t.HoldsPath p s) {i : ℕ} (hi : i < s.length) :
    t.byteAt p i ≠ 0 := by
  rw [h.byteAt hs hi.le, List.getD_eq_getElem _ _ hi]
  exact fun hzero => h.nonzero (hzero ▸ List.getElem_mem hi)

theorem byteAt_end (hs : t.stopped = true) (h : t.HoldsPath p s) : t.byteAt p s.length = 0 := by
  rw [h.byteAt hs (le_refl _), List.getD_eq_default _ _ (le_refl _)]

end Tracee.HoldsPath

/-- The loop finds the first terminator that is delivered, whatever chunks it reads in. -/
theorem pathScan_finds {t : Tracee} {p : Word} {n : ℕ} (hn : n < BUF_SIZE - 50)
    (hchars : ∀ i < n, t.byteAt p i ≠ 0) (hend : t.byteAt p n = 0) (curSize stringLen : ℕ) (buf : Buf)
    (hcur : curSize ≤ n + 50) :
    ∃ buf', pathScan t p curSize stringLen buf = (buf', some n) ∧ ∀ i < n, buf' i = t.byteAt p i := by
  induction curSize, stringLen, buf using pathScan.induct t p with
  | case1 curSize stringLen buf hsize hfull =>
    have hle := CBuffer.strnlen_le (readVariantMem t buf p curSize).1 curSize
    omega
  | case2 curSize stringLen buf hsize hfull hmore ih =>
    rw [pathScan, if_pos hsize, if_neg hfull, if_pos hmore]
    refine ih ?_
    -- the terminator was not among the bytes read so far
    have hpast : curSize ≤ n := by
      by_contra hlt
      refine CBuffer.strnlen_eq_iff.1 hmore n (by omega) ?_
      rw [readVariantMem_byte t buf p hsize.le (by omega), hend]
    omega
  | case3 curSize stringLen buf hsize hfull hmore =>
    have hbyte : ∀ i < curSize, (readVariantMem t buf p curSize).1 i = t.byteAt p i :=
      fun i hi => readVariantMem_byte t buf p hsize.le hi
    have hshort : n < curSize := by
      by_contra hle
      refine hmore (CBuffer.strnlen_eq_iff.2 fun i hi => ?_)
      rw [hbyte i hi]
      exact hchars i (by omega)
    have hlen : CBuffer.strnlen (readVariantMem t buf p curSize).1 curSize = n := by
      refine CBuffer.strnlen_eq_of_end hshort (fun i hi => ?_) ?_
      · rw [hbyte i (by omega)]
        exact hchars i hi
      · rw [hbyte n hshort, hend]
    rw [pathScan, if_pos hsize, if_neg hfull, if_neg hmore, hlen]
    exact ⟨_, rfl, fun i hi => hbyte i (by omega)⟩
  | case4 curSize stringLen buf hsize =>
    omega

/-! ## The comparison -/

/-- What the path comparison returns, once the loop has found a length. -/
theorem newfstatatPathEq_apply {w : World ρ} {bufA : Buf} {n : ℕ}
    (h : pathScan (w.proc .master) ((w.var .master).syscallInfo.arg 1) 1 0 (w.bufs .newfstatat_bufA) =
      (bufA, some n)) :
    ∃ β, newfstatatPathEq w = .ret (CBuffer.strncmpEq bufA
      (readVariantMem (w.proc .replica) (w.bufs .newfstatat_bufB)
        ((w.var .replica).syscallInfo.arg 1) n).1 n) (w.withBufs β) := by
  unfold newfstatatPathEq
  have hpath : argOf .master 1 w = .ret ((w.var .master).syscallInfo.arg 1) w := rfl
  have hloop : Prog.gets (fun w' : World ρ => pathScan (w'.proc .master)
      ((w.var .master).syscallInfo.arg 1) 1 0 (w'.bufs .newfstatat_bufA)) w =
        .ret (bufA, some n) w := congrArg (Outcome.ret · w) h
  rw [Prog.bind_of_ret hpath, Prog.bind_of_ret hloop]
  exact ⟨_, rfl⟩

section

variable {w : World ρ} {s₁ s₂ : List Byte} (hs : ∀ v, (w.proc v).stopped = true)
  (h₁ : (w.proc .master).HoldsPath ((w.var .master).syscallInfo.arg 1) s₁)

include hs h₁

/-- The path comparison looks at as many bytes as the master's path has. -/
theorem decides_newfstatatPathEq : Decides newfstatatPathEq w (w.SameBytes 1 s₁.length) := by
  have hchars : ∀ i < s₁.length, (w.proc .master).byteAt ((w.var .master).syscallInfo.arg 1) i ≠ 0 :=
    fun i hi => h₁.byteAt_ne_zero (hs .master) hi
  obtain ⟨bufA, hscan, hbytes⟩ := pathScan_finds h₁.short hchars (h₁.byteAt_end (hs .master)) 1 0
    (w.bufs .newfstatat_bufA) (by omega)
  obtain ⟨β, hrun⟩ := newfstatatPathEq_apply hscan
  have hsize : s₁.length ≤ BUF_SIZE := h₁.short.le.trans (Nat.sub_le _ _)
  refine ⟨_, β, hrun, (CBuffer.strncmpEq_iff_of_chars fun i hi => ?_).trans (forall₂_congr fun i hi => ?_)⟩
  · rw [hbytes i hi]
    exact hchars i hi
  · rw [hbytes i hi, readVariantMem_byte _ _ _ hsize hi]

/-- Directory, flags, and the bytes of the master's path. -/
theorem decides_newfstatatEq (hargs : w.SameArgs [0, 3]) :
    Decides newfstatatEq w (w.SameBytes 1 s₁.length) := by
  have hdirfd : w.SameArgs [0] := fun k hk => hargs k (by simp_all)
  have hflags : w.SameArgs [3] := fun k hk => hargs k (by simp_all)
  refine (decides_argsEq [0] w).bind fun b β hb => (Decides.andIf hb
    (decides_newfstatatPathEq (w := w.withBufs β) hs h₁)).bind fun b' γ hb' =>
      (decides_argsEq [3] _).bind fun b'' δ hb'' => .pure ?_
  rw [Bool.and_eq_true, hb', hb'']
  exact ⟨fun h => h.1.2, fun h => ⟨⟨hdirfd, h⟩, hflags⟩⟩

variable (h₂ : (w.proc .replica).HoldsPath ((w.var .replica).syscallInfo.arg 1) s₂)

include h₂

/-- The replica's path begins with those bytes exactly if it begins with the master's path:
a path holds no terminator. -/
theorem sameBytes_iff_prefix : w.SameBytes 1 s₁.length ↔ s₁ <+: s₂ := by
  have hm : ∀ i, ∀ h : i < s₁.length,
      (w.proc .master).byteAt ((w.var .master).syscallInfo.arg 1) i = s₁[i] := fun i h => by
    rw [h₁.byteAt (hs .master) h.le, List.getD_eq_getElem _ _ h]
  constructor
  · intro h
    have hlen : s₁.length ≤ s₂.length := by
      by_contra hshort
      have hend := h s₂.length (by omega)
      rw [h₂.byteAt_end (hs .replica)] at hend
      exact h₁.byteAt_ne_zero (hs .master) (by omega) hend
    refine List.prefix_iff_getElem.2 ⟨hlen, fun i hi => ?_⟩
    have hsame := h i hi
    rwa [hm i hi, h₂.byteAt (hs .replica) (by omega), List.getD_eq_getElem _ _ (by omega)] at hsame
  · intro h i hi
    have hi₂ : i < s₂.length := hi.trans_le h.length_le
    rw [hm i hi, h₂.byteAt (hs .replica) hi₂.le, List.getD_eq_getElem _ _ hi₂]
    exact h.getElem hi

end

/-! ## Who is released -/

/-- Once past its comparison, `newfstatat` begins by releasing the master. -/
theorem releasesFirst_newfstatat {K : Kernel ρ} {x y : Ctl} (hx : x.AtEntry) (hy : y.AtEntry)
    (masterBuf replicaBuf : Word) : ReleasesFirst x y (do
      if (← resumeAndWait K .master) ≠ 0 then return -1
      requestSyscallInfo .master
      let masterRet := ofInt (toInt (← syscallInfoOf .master).rval)
      let ret ← transferVariantMem .master masterBuf .replica replicaBuf sizeofStat
      if ret ≠ 0 then return -1
      setNopSyscall .replica
      if (← resumeAndWait K .replica) ≠ 0 then return -1
      setSyscallReturnValue .replica masterRet
      resumeVariantFromExit .master
      resumeVariantFromExit .replica
      return 0) := by
  refine via_masterHalf hx rfl (fun _ => rfl) ?_
  refine .keeps (silent_requestSyscallInfo _) fun _ => .keeps (silent_syscallInfoOf _) fun _ =>
    .keeps (silent_transferVariantMem _ _ _ _ (by decide)) fun _ => .ite (fun _ => .pure rfl) fun _ => ?_
  refine via_substitute hy (via_replicaHalf (hy.with_origRax _) rfl (fun _ => rfl) ?_)
  refine .keeps (silent_setSyscallReturnValue _ _) fun _ => ?_
  exact via_leaveBoth hx.finished (hy.with_origRax _).finished rfl

section

variable {K : Kernel ρ} {w : World ρ} {s₁ s₂ : List Byte} (hw : ∀ v, (w.ctl v).AtEntry)
  (hargs : w.SameArgs [0, 3])
  (h₁ : (w.proc .master).HoldsPath ((w.var .master).syscallInfo.arg 1) s₁)
  (h₂ : (w.proc .replica).HoldsPath ((w.var .replica).syscallInfo.arg 1) s₂)

include hw hargs h₁ h₂

/-- With equal directories and flags, the master is released if its path is a prefix of the
replica's. -/
theorem releases_newfstatat_iff : Releases K .newfstatat w ↔ s₁ <+: s₂ := by
  have hs : ∀ v, (w.proc v).stopped = true := fun v =>
    stopped_of_atEntry (hw v)
  rw [← sameBytes_iff_prefix hs h₁ h₂]
  refine releases_iff rfl (decides_newfstatatEq hs h₁ hargs) ?_
  exact .keeps (silent_argOf _ _) fun _ => .keeps (silent_argOf _ _) fun _ =>
    releasesFirst_newfstatat (hw .master) (hw .replica) _ _

/-- **The path check decides equality** if and only if the master's path is not a proper
prefix of the replica's. -/
theorem newfstatat_path_iff : (Releases K .newfstatat w ↔ s₁ = s₂) ↔ ¬ (s₁ <+: s₂ ∧ s₁ ≠ s₂) := by
  rw [releases_newfstatat_iff hw hargs h₁ h₂]
  constructor
  · exact fun h ⟨hpre, hne⟩ => hne (h.1 hpre)
  · intro h
    refine ⟨fun hpre => ?_, fun heq => heq ▸ List.prefix_refl _⟩
    by_contra hne
    exact h ⟨hpre, hne⟩

end

/-! ### Short paths -/

/-- A word at `0x1000` with the path `s` in it, filled up with zeros. -/
def pathWord (s : List Byte) : Mem := fun a =>
  if 0x1000 ≤ a.toNat ∧ a.toNat < 0x1008 then some (s.getD (a.toNat - 0x1000) 0) else none

/-- `newfstatat(0, path, NULL, 0)`, with the path `s₁` in the master and `s₂` in the replica. -/
def statPaths (s₁ s₂ : List Byte) : World Unit :=
  .standing (fun _ => callRegs Syscall.newfstatat.nr ![0, 0x1000, 0, 0, 0, 0])
    (fun | .master => pathWord s₁ | .replica => pathWord s₂) ()

theorem holdsPath_pathWord {t : Tracee} {s : List Byte} (hmem : t.mem = pathWord s)
    (hlen : s.length < 8) (hs : 0 ∉ s) : t.HoldsPath 0x1000 s := by
  have hcell : ∀ i < 8, t.mem (0x1000 + BitVec.ofNat 64 i) = some (s.getD i 0) := by
    intro i hi
    have haddr : (0x1000 + BitVec.ofNat 64 i : Word).toNat = 0x1000 + i := by
      have : (0x1000 : Word).toNat = 0x1000 := rfl
      rw [BitVec.toNat_add, BitVec.toNat_ofNat]
      omega
    rw [hmem, pathWord, haddr, if_pos (by omega), Nat.add_sub_cancel_left]
  refine ⟨fun i h => ?_, hs, ?_, fun i hi => ?_, ?_⟩
  · rw [hcell i (by omega), List.getD_eq_getElem _ _ h]
  · rw [hcell _ hlen, List.getD_eq_default _ _ (le_refl _)]
  · refine Tracee.Mapped.wordMapped (n := 8) (fun j hj => ?_) (by omega)
    rw [hcell j hj]
    rfl
  · unfold BUF_SIZE
    omega

/-- The replica's path `ab` begins with the master's path `a`, and the master is released. -/
theorem newfstatat_prefix_accepted :
    (((statPaths [97] [97, 98]).proc .master).HoldsPath 0x1000 [97] ∧
      ((statPaths [97] [97, 98]).proc .replica).HoldsPath 0x1000 [97, 98]) ∧
    ¬ (Releases (.returning 0) .newfstatat (statPaths [97] [97, 98]) ↔ ([97] : List Byte) = [97, 98]) := by
  have h₁ := holdsPath_pathWord (t := (statPaths [97] [97, 98]).proc .master) rfl (by decide) (by decide)
  have h₂ := holdsPath_pathWord (t := (statPaths [97] [97, 98]).proc .replica) rfl (by decide) (by decide)
  have hreleased := (releases_newfstatat_iff (K := .returning 0) (atEntry_standing _ _ ()) (by decide) h₁ h₂).2
    (by decide)
  exact ⟨⟨h₁, h₂⟩, fun h => absurd (h.1 hreleased) (by decide)⟩

/-- Two equal paths are accepted. -/
theorem newfstatat_path_equal : Releases (.returning 0) .newfstatat (statPaths [97] [97]) ↔
    ([97] : List Byte) = [97] :=
  (newfstatat_path_iff (atEntry_standing _ _ ()) (by decide)
    (holdsPath_pathWord rfl (by decide) (by decide))
    (holdsPath_pathWord rfl (by decide) (by decide))).2 (by decide)

end Aurora
