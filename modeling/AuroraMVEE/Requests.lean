import AuroraMVEE.Effects

/-!
# Accepted means equal

When an executor releases the master, the two calls should be one and the same request:
equal scalars, and equal bytes behind pointers that are given in both calls or in neither.
For five executors `accepted_means_equal_iff` says what is missing from their checks: some
scalars, whether a pointer is given at all, and the bytes that the monitor never saw,
because they lie past what it compares or in a word it could not read.
-/

namespace Aurora

variable {ρ : Type}

/-! ## What the kernel reads, and what the monitor sees of it -/

/-- What is at offset `i` behind the pointer at position `k`, if anything is mapped there. -/
def World.cell (w : World ρ) (v : Who) (k : Fin 6) (i : ℕ) : Option Byte :=
  (w.proc v).mem ((w.var v).syscallInfo.arg k + BitVec.ofNat 64 i)

/-- The word that `readVariantMem` fetches for offset `i` can be read. -/
def World.Peeked (w : World ρ) (v : Who) (k : Fin 6) (i : ℕ) : Prop :=
  (w.proc v).wordMapped ((w.var v).syscallInfo.arg k + BitVec.ofNat 64 (8 * (i / 8))) = true

/-- What is delivered for such an offset is what is there. -/
theorem cell_of_peeked {w : World ρ} {v : Who} {k : Fin 6} {i : ℕ} (hs : (w.proc v).stopped = true)
    (h : w.Peeked v k i) :
    w.cell v k i = some ((w.proc v).byteAt ((w.var v).syscallInfo.arg k) i) :=
  mem_of_wordMapped hs h

/-- The pointer at position `k` is given in both calls or in neither. -/
def World.GivenAlike (w : World ρ) (k : Fin 6) : Prop :=
  (w.var .master).syscallInfo.arg k = 0 ↔ (w.var .replica).syscallInfo.arg k = 0

/-- A pointer argument whose input is the same: where it is given, the offsets `input` hold
the same in both variants. -/
structure World.SameInput (w : World ρ) (k : Fin 6) (input : ℕ → Prop) : Prop where
  given : w.GivenAlike k
  cells : (w.var .master).syscallInfo.arg k ≠ 0 →
    ∀ i, input i → w.cell .master k i = w.cell .replica k i

/-- Offset `i` is among the first `n`, and the monitor could read its word in both variants. -/
def World.Seen (w : World ρ) (k : Fin 6) (n i : ℕ) : Prop := i < n ∧ ∀ v, w.Peeked v k i

/-- What a comparison of `n` bytes leaves open about a pointer argument. -/
structure World.SameUnseen (w : World ρ) (k : Fin 6) (n : ℕ) (input : ℕ → Prop) : Prop where
  given : w.GivenAlike k
  cells : (w.var .master).syscallInfo.arg k ≠ 0 →
    ∀ i, input i → ¬ w.Seen k n i → w.cell .master k i = w.cell .replica k i

/-- After a comparison of `n` bytes that found no difference, that is all that is open. -/
theorem sameInput_iff {w : World ρ} {k : Fin 6} {n : ℕ} {input : ℕ → Prop}
    (hs : ∀ v, (w.proc v).stopped = true) (h : w.SameBytes k n) :
    w.SameInput k input ↔ w.SameUnseen k n input := by
  refine ⟨fun hin => ⟨hin.given, fun hk i hi _ => hin.cells hk i hi⟩,
    fun hun => ⟨hun.given, fun hk i hi => ?_⟩⟩
  by_cases hseen : w.Seen k n i
  · rw [cell_of_peeked (hs .master) (hseen.2 .master), cell_of_peeked (hs .replica) (hseen.2 .replica),
      h i hseen.1]
  · exact hun.cells hk i hi hseen

/-! ## The requests -/

/-- The offsets of a buffer of `n` bytes. -/
def buffer (n : ℕ) (i : ℕ) : Prop := i < n

/-- The offsets of the master's string at position `k`, its terminator included. -/
def World.string (w : World ρ) (k : Fin 6) (i : ℕ) : Prop :=
  ∀ j < i, (w.cell .master k j).isSome ∧ w.cell .master k j ≠ some 0

/-- Does `openat` look at its mode? -/
def creates (flags : Word) : Prop := flags &&& (O_CREAT ||| O_TMPFILE) ≠ 0

/-- How many bytes of each set `pselect6` reads. -/
def fdsBytes (nfds : BitVec 32) : ℕ := if nfds.slt 0 then 0 else 8 * ((nfds.toNat + 63) / 64)

/-- The word at offset `i` behind the pointer at position `k`. -/
def World.wordAt (w : World ρ) (v : Who) (k : Fin 6) (i : ℕ) : Word :=
  CBuffer.word fun j => (w.cell v k (i + j)).getD 0

/-- The mask of `pselect6`: its sixth argument points to a pointer and a length. -/
def World.SameMask (w : World ρ) : Prop :=
  (w.var .master).syscallInfo.arg 5 ≠ 0 → w.wordAt .master 5 0 ≠ 0 →
    ∀ i < (w.wordAt .master 5 8).toNat,
      (w.proc .master).mem (w.wordAt .master 5 0 + BitVec.ofNat 64 i) =
        (w.proc .replica).mem (w.wordAt .replica 5 0 + BitVec.ofNat 64 i)

/-- The executors in question. -/
def requestsChecked : List Syscall := [.rt_sigprocmask, .openat, .setsockopt, .bind, .pselect6]

/-- The two calls are the same request. -/
def World.SameRequest (w : World ρ) : Syscall → Prop
  | .rt_sigprocmask => w.SameArgs [3] ∧
      ((∃ v, (w.var v).syscallInfo.arg 1 ≠ 0) → w.SameArgs [0]) ∧
      w.SameInput 1 (buffer ((w.var .master).syscallInfo.arg 3).toNat)
  | .openat => w.SameArgs [0, 2] ∧
      (creates ((w.var .master).syscallInfo.arg 2) →
        toMode ((w.var .master).syscallInfo.arg 3) = toMode ((w.var .replica).syscallInfo.arg 3)) ∧
      w.SameInput 1 (w.string 1)
  | .setsockopt => w.SameArgs [0, 1, 2] ∧
      toSocklen ((w.var .master).syscallInfo.arg 4) = toSocklen ((w.var .replica).syscallInfo.arg 4) ∧
      w.SameInput 3 (buffer (toSocklen ((w.var .master).syscallInfo.arg 4)).toNat)
  | .bind => w.SameArgs [0] ∧
      toSocklen ((w.var .master).syscallInfo.arg 2) = toSocklen ((w.var .replica).syscallInfo.arg 2) ∧
      w.SameInput 1 (buffer (toSocklen ((w.var .master).syscallInfo.arg 2)).toNat)
  | .pselect6 =>
      toInt ((w.var .master).syscallInfo.arg 0) = toInt ((w.var .replica).syscallInfo.arg 0) ∧
      (∀ k ∈ ([1, 2, 3] : List (Fin 6)),
        w.SameInput k (buffer (fdsBytes (toInt ((w.var .master).syscallInfo.arg 0))))) ∧
      w.SameInput 4 (buffer sizeofTimespec) ∧ w.SameInput 5 (buffer 16) ∧ w.SameMask
  | _ => True

/-- What the executor compares is the same. -/
def World.Passes (w : World ρ) : Syscall → Prop
  | .rt_sigprocmask => w.SameRtSigprocmask
  | .openat => w.SameOpenat
  | .setsockopt => w.SameSetsockopt
  | .bind => w.SameBind
  | .pselect6 => w.SamePselect6
  | _ => True

/-- What it does not compare is the same too. -/
def World.SameUnchecked (w : World ρ) : Syscall → Prop
  | .rt_sigprocmask => w.SameArgs [3] ∧
      w.SameUnseen 1 ((w.var .master).syscallInfo.arg 3).toNat
        (buffer ((w.var .master).syscallInfo.arg 3).toNat)
  | .openat =>
      (creates ((w.var .master).syscallInfo.arg 2) → (w.var .master).syscallInfo.arg 3 = 0 →
        toMode ((w.var .replica).syscallInfo.arg 3) = 0) ∧
      w.SameUnseen 1 strCmpSize (w.string 1)
  | .setsockopt => w.SameUnseen 3 (toSocklen ((w.var .master).syscallInfo.arg 4)).toNat
      (buffer (toSocklen ((w.var .master).syscallInfo.arg 4)).toNat)
  | .bind => w.SameUnseen 1 (toSocklen ((w.var .master).syscallInfo.arg 2)).toNat
      (buffer (toSocklen ((w.var .master).syscallInfo.arg 2)).toNat)
  | .pselect6 =>
      (∀ k ∈ ([1, 2, 3] : List (Fin 6)), w.SameUnseen k sizeofFdSet
        (buffer (fdsBytes (toInt ((w.var .master).syscallInfo.arg 0))))) ∧
      w.SameUnseen 4 sizeofTimespec (buffer sizeofTimespec) ∧
      w.SameUnseen 5 sizeofFdSet (buffer 16) ∧ w.SameMask
  | _ => True

/-- A `socklen_t` that survives the comparison is the same length in both calls. -/
theorem toSocklen_eq {a b : Word} (h : ofSocklen (toSocklen a) = b) : toSocklen a = toSocklen b := by
  rw [← h]
  simp [ofSocklen, toSocklen]

/-- A request that passes is the same request exactly if what was not compared is the same. -/
theorem sameRequest_iff {w : World ρ} {c : Syscall} (hc : c ∈ requestsChecked)
    (hs : ∀ v, (w.proc v).stopped = true) (h : w.Passes c) :
    w.SameRequest c ↔ w.SameUnchecked c := by
  simp only [requestsChecked, List.mem_cons, List.not_mem_nil, or_false] at hc
  rcases hc with rfl | rfl | rfl | rfl | rfl
  · have h : w.SameRtSigprocmask := h
    refine and_congr_right fun _ => ?_
    rw [← sameInput_iff hs h.set, and_iff_right_iff_imp]
    rintro hin ⟨v, hv⟩
    refine h.how fun hnull => ?_
    cases v
    · exact hv hnull
    · exact hv (hin.given.1 hnull)
  · have h : w.SameOpenat := h
    refine (and_iff_right h.scalars).trans (and_congr (imp_congr_right fun _ => ?_)
      (sameInput_iff hs h.pathname.2))
    constructor
    · intro hmode hzero
      rw [← hmode, hzero]
      rfl
    · intro hmode
      by_cases hzero : (w.var .master).syscallInfo.arg 3 = 0
      · rw [hmode hzero, hzero]
        rfl
      · rw [h.mode hzero 3 (by simp)]
  · have h : w.SameSetsockopt := h
    exact (and_iff_right h.scalars).trans ((and_iff_right (toSocklen_eq h.option_len)).trans
      (sameInput_iff hs h.option_value))
  · have h : w.SameBind := h
    exact (and_iff_right h.sockfd).trans ((and_iff_right (toSocklen_eq h.addrlen)).trans
      (sameInput_iff hs h.addr))
  · have h : w.SamePselect6 := h
    refine (and_iff_right h.nfds).trans (and_congr ?_ (and_congr (sameInput_iff hs h.timeout)
      (and_congr_left fun _ => sameInput_iff hs h.sigmask)))
    simp only [List.forall_mem_cons, List.not_mem_nil, false_imp_iff, implies_true, and_true]
    exact and_congr (sameInput_iff hs h.readfds) (and_congr (sameInput_iff hs h.writefds)
      (sameInput_iff hs h.exceptfds))

/-! ## Who is released -/

/-- The executor resumes the master from its entry stop. -/
def Releases (K : Kernel ρ) (c : Syscall) (w : World ρ) : Prop :=
  ((execSyscall K c w).state.proc .master).ran ≠ (w.proc .master).ran

/-- At every ending the master, `x` at the start, has run its call. -/
def Ctl.MasterRan (x : Ctl) (C : Who → Ctl) : Prop := (C .master).ran = x.ran ++ [x.origRax]

/-- Whatever becomes of the body, it begins by releasing the master. -/
abbrev ReleasesFirst (x y : Ctl) (body : Mon ρ Int) : Prop :=
  Prog.Via World.ctl (pair x y) body ⟨fun _ => x.MasterRan, x.MasterRan, fun _ => x.MasterRan⟩

section Bodies

variable {K : Kernel ρ} {x y : Ctl} (hx : x.AtEntry) (hy : y.AtEntry)

include hx hy

theorem releasesFirst_resumeBoth : ReleasesFirst x y (resumeBoth : Mon ρ Int) := by
  refine via_resumeFromWait_entry (by simpa using hx) ?_
  rw [update_pair_master]
  refine via_resumeFromWait_entry (by simpa using hy) ?_
  rw [update_pair_replica]
  exact .pure rfl

theorem releasesFirst_masterOnly : ReleasesFirst x y (runMasterReplicateRet K) :=
  via_runMasterReplicateRet hx hy (fun _ => rfl) (fun _ => rfl) rfl

theorem releasesFirst_both : ReleasesFirst x y (runBothCopyMasterRet K) :=
  via_runBothCopyMasterRet hx hy (fun _ => rfl) (fun _ => rfl) rfl

/-- `pselect6` comes no further than the wait for the replica. -/
theorem releasesFirst_pselect6 {ms rs : Fin 3 → Word} : ReleasesFirst x y (do
    if (← resumeAndWait K .master) ≠ 0 then return -1
    pselect6Rest K ms rs) := by
  refine via_masterHalf hx rfl (fun _ => rfl) ?_
  refine .keeps (silent_requestSyscallInfo _) fun _ => .keeps (silent_syscallInfoOf _) fun _ => ?_
  refine via_substitute hy (.bind (R := ⟨fun a C => a = -1 ∧ x.MasterRan C, x.MasterRan,
    fun _ _ => False⟩) ?_ ?_ (fun _ h => h) (fun _ _ h => h.elim))
  · refine via_waitVariant_seen (by simpa using hy.with_origRax _) (fun _ => ⟨rfl, ?_⟩) rfl
    rw [update_pair_replica]
    rfl
  · rintro a C ⟨rfl, hran⟩
    exact .pure hran

end Bodies

/-- An executor whose body begins so releases the master exactly if its comparison passes. -/
theorem releases_iff {K : Kernel ρ} {c : Syscall} {w : World ρ} {eq : Mon ρ Bool} {body : Mon ρ Int}
    {p : Prop} (hexec : execSyscall K c = guarded eq body) (hd : Decides eq w p)
    (hbody : ReleasesFirst (w.ctl .master) (w.ctl .replica) body) : Releases K c w ↔ p := by
  unfold Releases
  by_cases hp : p
  · obtain ⟨β, hβ⟩ := hd.ret_true hp
    refine iff_of_true ?_ hp
    have hran : ((body (w.withBufs β)).state.proc .master).ran =
        (w.proc .master).ran ++ [(w.proc .master).regs .origRax] :=
      hbody.state (s := w.withBufs β) (pair_eta w.ctl).symm
    rw [hexec, guarded_true hβ, hran]
    simp
  · obtain ⟨β, hβ⟩ := hd.ret_false hp
    refine iff_of_false (not_not.2 ?_) hp
    rw [hexec, guarded_false hβ]
    rfl

/-- Each of the five releases the master exactly if its comparison passes. -/
theorem releases_iff_passes (K : Kernel ρ) {c : Syscall} (hc : c ∈ requestsChecked) {w : World ρ}
    (hw : ∀ v, (w.ctl v).AtEntry) : Releases K c w ↔ w.Passes c := by
  have hx : (w.ctl .master).AtEntry := hw .master
  have hy : (w.ctl .replica).AtEntry := hw .replica
  simp only [requestsChecked, List.mem_cons, List.not_mem_nil, or_false] at hc
  rcases hc with rfl | rfl | rfl | rfl | rfl
  · exact releases_iff rfl (decides_rt_sigprocmaskEq w) (releasesFirst_resumeBoth hx hy)
  · exact releases_iff rfl (decides_openatEq w) (releasesFirst_both hx hy)
  · exact releases_iff rfl (decides_setsockoptEq w) (releasesFirst_resumeBoth hx hy)
  · exact releases_iff rfl (decides_bindEq w) (releasesFirst_masterOnly hx hy)
  · refine releases_iff rfl (decides_pselect6Eq w) ?_
    refine .keeps (silent_argOf _ _) fun _ => .keeps (silent_argOf _ _) fun _ =>
      .keeps (silent_argOf _ _) fun _ => .keeps (silent_argOf _ _) fun _ =>
        .keeps (silent_argOf _ _) fun _ => .keeps (silent_argOf _ _) fun _ => ?_
    exact releasesFirst_pselect6 hx hy

/-- **Accepted means equal.**  With both variants at their entry stops, one of the five
executors releases the master only for one and the same request, if and only if its
comparison does not pass or what it leaves out is the same. -/
theorem accepted_means_equal_iff (K : Kernel ρ) {c : Syscall} (hc : c ∈ requestsChecked)
    {w : World ρ} (hw : ∀ v, (w.ctl v).AtEntry) :
    (Releases K c w → w.SameRequest c) ↔ (w.Passes c → w.SameUnchecked c) := by
  rw [releases_iff_passes K hc hw]
  refine forall_congr' fun hpasses => sameRequest_iff hc (fun v => ?_) hpasses
  exact stopped_of_atEntry (hw v)

/-! ### A set in one variant only -/

/-- `rt_sigprocmask(0, NULL, NULL, 8)` in the master, and a set of all signals in the
replica, in `rt_sigprocmask(2, 0x1000, NULL, 8)`. -/
def sigprocmaskDiffers : World Unit :=
  .standing (fun v => callRegs Syscall.rt_sigprocmask.nr
      (if v = .master then ![0, 0, 0, 8, 0, 0] else ![2, 0x1000, 0, 8, 0, 0]))
    (fun _ a => if 0x1000 ≤ a.toNat ∧ a.toNat < 0x1008 then some 0xff else none) ()

/-- The master only asks for its mask, the replica blocks every signal, and both go on. -/
theorem sigprocmask_accepted : Releases (.returning 0) .rt_sigprocmask sigprocmaskDiffers ∧
    ¬ sigprocmaskDiffers.SameRequest .rt_sigprocmask := by
  refine ⟨by unfold Releases; decide +kernel, fun h => ?_⟩
  exact absurd (h.2.2.given.1 (by decide)) (by decide)

/-- `bind(3, addr, 16)` in both variants, each with the same sixteen bytes at an address of its own. -/
def bindAlike : World Unit :=
  .standing (fun v => callRegs Syscall.bind.nr ![3, if v = .master then 0x1000 else 0x2000, 16, 0, 0, 0])
    (fun v a => if (a - if v = .master then 0x1000 else 0x2000).toNat < 16 then some 2 else none) ()

/-- Two calls of `bind` with the same address go on, and are the same request. -/
theorem accepted_means_equal_bind :
    Releases (.returning 0) .bind bindAlike ∧ bindAlike.SameRequest .bind := by
  have hreleased : Releases (.returning 0) .bind bindAlike := by
    unfold Releases
    decide +kernel
  have hiff : (Releases (.returning 0) .bind bindAlike → bindAlike.SameRequest .bind) ↔
      (bindAlike.Passes .bind → bindAlike.SameUnchecked .bind) :=
    accepted_means_equal_iff (.returning 0) (by decide) (atEntry_standing _ _ ())
  have hpeeked : ∀ v, ∀ i < 16, bindAlike.Peeked v 1 i := by
    unfold World.Peeked
    refine Who.forall_iff.2 ⟨?_, ?_⟩ <;> decide +kernel
  exact ⟨hreleased, hiff.2 (fun _ => ⟨iff_of_false (by decide) (by decide),
    fun _ i hi hseen => absurd ⟨hi, fun v => hpeeked v i hi⟩ hseen⟩) hreleased⟩

end Aurora
