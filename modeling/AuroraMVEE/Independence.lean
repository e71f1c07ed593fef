import AuroraMVEE.Situations

/-!
# What the verdict depends on

Two situations that differ only in what the kernel does not read (an output buffer, bytes
past the end of a set, the addresses at which buffers live) should get the same verdict.
Five executors compare more than the kernel reads.  `verdict_independent_iff` says of a
situation whether the verdict is the same in all those that the kernel cannot tell from it.

The comparison goes word by word, and what is delivered for one word does not restrict what
may be delivered for another.  So the verdict is the same in all of them in three cases only:
the scalars differ; one word never comes out equal; or every word always does.
-/

namespace Aurora

variable {ρ : Type}

/-! ## The comparison, word by word -/

/-- The comparison of the scalars passes. -/
def World.ScalarsPass (w : World ρ) : Syscall → Prop
  | .pselect6 => toInt ((w.var .master).syscallInfo.arg 0) = toInt ((w.var .replica).syscallInfo.arg 0)
  | .poll => w.SameArgs [1, 2] ∧ ((w.var .master).syscallInfo.arg 1 * sizeofPollfd).toNat ≤ BUF_SIZE
  -- in a build where the flag is overwritten its value is lost
  | .getsockname => w.image.neighbour .masterLen ≠ .eq → w.SameArgs [0]
  | c => w.SameArgs (scalarArgs c)

/-- The word number `j` behind position `k` passes, if `d` is delivered from the master and `e` from
the replica: the bytes compared are equal, and of a string none is its end; and where the flag of
`getsockname` is overwritten, it stays set. -/
structure World.Match (w : World ρ) (c : Syscall) (k : Fin 6) (j : ℕ) (d e : Long) : Prop where
  bytes : ∀ b : Fin 8, 8 * j + b < compares c k (w.var .master).syscallInfo.arg → d b = e b
  noEnd : c = .getcwd → ∀ b : Fin 8, 8 * j + b < strCmpSize → d b ≠ 0
  flag : c = .getsockname → w.image.neighbour .masterLen = .eq → (d 4).getLsbD 0 = true

/-- What holds of the first `n` offsets, word by word. -/
theorem forall_words {n : ℕ} {p : ℕ → Prop} :
    (∀ i < n, p i) ↔ ∀ j, 8 * j < n → ∀ b : Fin 8, 8 * j + b < n → p (8 * j + b) := by
  constructor
  · intro h j _ b hb
    exact h _ hb
  · intro h i hi
    have := h (i / 8) (by omega) ⟨i % 8, CBuffer.mod_eight_lt i⟩ (by simp only; omega)
    rwa [show 8 * (i / 8) + i % 8 = i by omega] at this

theorem byteAt_word (w : World ρ) (v : Who) (k : Fin 6) (j : ℕ) (b : Fin 8) :
    (w.proc v).byteAt ((w.var v).syscallInfo.arg k) (8 * j + b) = w.long v k j b := by
  have hdiv : (8 * j + b) / 8 = j := by omega
  have hmod : (⟨(8 * j + b) % 8, CBuffer.mod_eight_lt _⟩ : Fin 8) = b := Fin.ext (by simp)
  unfold Tracee.byteAt World.long
  rw [hdiv, hmod]

theorem sameBytes_iff (w : World ρ) (k : Fin 6) (n : ℕ) : w.SameBytes k n ↔
    ∀ j, 8 * j < n → ∀ b : Fin 8, 8 * j + b < n → w.long .master k j b = w.long .replica k j b := by
  simp only [World.SameBytes, forall_words, byteAt_word]

theorem noNul_iff (w : World ρ) (k : Fin 6) :
    (w.proc .master).NoNul ((w.var .master).syscallInfo.arg k) ↔
      ∀ j, 8 * j < strCmpSize → ∀ b : Fin 8, 8 * j + b < strCmpSize → w.long .master k j b ≠ 0 := by
  simp only [Tracee.NoNul, forall_words, byteAt_word]

theorem highHalf_getLsbD_zero (b : Buf) : (highHalf b).getLsbD 0 = (b 4).getLsbD 0 := by
  unfold highHalf
  rw [BitVec.getLsbD_append, if_pos (by decide)]

/-- When the flag of `getsockname` is still set where it is tested. -/
theorem flag_iff (w : World ρ) : w.image.flagAfter .masterLen
      ((w.proc .master).socklenWord ((w.var .master).syscallInfo.arg 2)) (decide (w.SameArgs [0])) = true ↔
    (w.image.neighbour .masterLen ≠ .eq → w.SameArgs [0]) ∧
      (w.image.neighbour .masterLen = .eq → (w.long .master 2 0 4).getLsbD 0 = true) := by
  have hbyte : ((w.proc .master).socklenWord ((w.var .master).syscallInfo.arg 2)) 4 =
      w.long .master 2 0 4 := byteAt_word w .master 2 0 4
  unfold Image.flagAfter
  by_cases heq : w.image.neighbour .masterLen = .eq
  · rw [if_pos heq, highHalf_getLsbD_zero, hbyte]
    exact ⟨fun h => ⟨fun hne => absurd heq hne, fun _ => h⟩, fun h => h.2 heq⟩
  · rw [if_neg heq, decide_eq_true_iff]
    exact ⟨fun h => ⟨fun _ => h, fun h' => absurd h' heq⟩, fun h => h.1 heq⟩

/-- What the five comparisons decide, all alike. -/
theorem decides_independent {c : Syscall} (hc : c ∈ independentCalls) (w : World ρ) :
    Decides (verdict c) w (w.ScalarsPass c ∧
      (c = .getcwd → (w.proc .master).NoNul ((w.var .master).syscallInfo.arg 0)) ∧
      (c = .getsockname → w.image.neighbour .masterLen = .eq → (w.long .master 2 0 4).getLsbD 0 = true) ∧
      ∀ k ∈ comparedArgs c, w.SameBytes k (compares c k (w.var .master).syscallInfo.arg)) := by
  simp only [independentCalls, List.mem_cons, List.not_mem_nil, or_false] at hc
  rcases hc with rfl | rfl | rfl | rfl | rfl
  · exact (decides_getcwdEq w).mono
      ⟨fun h => ⟨h.size, fun _ => h.buf.1, by simp, List.forall_mem_singleton.2 h.buf.2⟩,
        fun h => ⟨⟨h.2.1 rfl, h.2.2.2 0 (by decide)⟩, h.1⟩⟩
  · exact (decides_pollEq w).mono
      ⟨fun h => ⟨⟨h.scalars, h.size⟩, by simp, by simp, List.forall_mem_singleton.2 h.fds⟩,
        fun h => ⟨h.1.1, h.1.2, h.2.2.2 0 (by decide)⟩⟩
  · refine (decides_pselect6Eq w).mono ⟨fun h => ⟨h.nfds, by simp, by simp, ?_⟩, fun h => ⟨h.1,
      h.2.2.2 1 (by decide), h.2.2.2 2 (by decide), h.2.2.2 3 (by decide), h.2.2.2 4 (by decide),
      h.2.2.2 5 (by decide)⟩⟩
    exact List.forall_mem_cons.2 ⟨h.readfds, List.forall_mem_cons.2 ⟨h.writefds,
      List.forall_mem_cons.2 ⟨h.exceptfds, List.forall_mem_cons.2 ⟨h.timeout,
        List.forall_mem_singleton.2 h.sigmask⟩⟩⟩⟩
  · exact (decides_accept4Eq w).mono
      ⟨fun h => ⟨h.scalars, by simp, by simp, List.forall_mem_singleton.2 h.addrlen⟩,
        fun h => ⟨h.1, h.2.2.2 2 (by decide)⟩⟩
  · exact (decides_getsocknameEq w).mono
      ⟨fun h => ⟨((flag_iff w).1 h.sockfd).1, by simp, fun _ => ((flag_iff w).1 h.sockfd).2,
          List.forall_mem_singleton.2 h.addrlen⟩,
        fun h => ⟨(flag_iff w).2 ⟨h.1, h.2.2.1 rfl⟩, h.2.2.2 2 (by decide)⟩⟩

/-- The same, word by word. -/
theorem accepts_iff_words {c : Syscall} (hc : c ∈ independentCalls) (w : World ρ) :
    w.Accepts c ↔ w.ScalarsPass c ∧ ∀ k j, w.Compared c k j →
      w.Match c k j (w.long .master k j) (w.long .replica k j) := by
  rw [accepts_iff (decides_independent hc w)]
  refine and_congr_right fun _ => ?_
  constructor
  · rintro ⟨hnul, hflag, hbytes⟩ k j hkj
    refine ⟨(sameBytes_iff w k _).1 (hbytes k hkj.1) j hkj.2, ?_, ?_⟩
    · rintro rfl
      obtain rfl : k = 0 := by simpa [comparedArgs] using hkj.1
      exact (noNul_iff w 0).1 (hnul rfl) j hkj.2
    · rintro rfl heq
      obtain rfl : k = 2 := by simpa [comparedArgs] using hkj.1
      have hj : 8 * j < 4 := hkj.2
      obtain rfl : j = 0 := by omega
      exact hflag rfl heq
  · intro h
    refine ⟨?_, ?_, fun k hk => (sameBytes_iff w k _).2 fun j hj => (h k j ⟨hk, hj⟩).bytes⟩
    · rintro rfl
      exact (noNul_iff w 0).2 fun j hj => (h 0 j ⟨by decide, hj⟩).noEnd rfl
    · rintro rfl
      exact (h 2 0 ⟨by decide, show 8 * 0 < sizeofSocklen by decide⟩).flag rfl

/-! ## Two situations -/

section

variable {c : Syscall} {w w' : World ρ}

theorem KernelAgrees.refl (hw : w.Arrived c) : KernelAgrees c w w where
  arrived := hw
  image := rfl
  scalars _ _ _ := rfl
  given _ _ _ := Iff.rfl
  zero _ _ _ := rfl
  bytes _ _ _ _ _ := rfl
  there _ _ _ _ _ := Iff.rfl
  masks _ _ _ := ⟨fun _ => Iff.rfl, fun _ _ _ => rfl⟩

namespace KernelAgrees

/-- The comparison of the scalars comes out the same. -/
theorem scalarsPass_iff (h : KernelAgrees c w w') : w'.ScalarsPass c ↔ w.ScalarsPass c := by
  have hsame : ∀ ks, (∀ k ∈ ks, k ∈ scalarArgs c) → (w'.SameArgs ks ↔ w.SameArgs ks) := fun ks hks =>
    forall₂_congr fun k hk => by rw [h.scalars .master k (hks k hk), h.scalars .replica k (hks k hk)]
  cases c
  case pselect6 =>
    show toInt _ = toInt _ ↔ toInt _ = toInt _
    rw [h.scalars .master 0 (by decide), h.scalars .replica 0 (by decide)]
  case poll =>
    show _ ∧ _ ↔ _ ∧ _
    rw [h.scalars .master 1 (by decide), hsame [1, 2] (by decide)]
  case getsockname =>
    show (_ → _) ↔ (_ → _)
    rw [h.image, hsame [0] (by decide)]
  all_goals exact hsame _ fun _ hk => hk

theorem compares_eq (h : KernelAgrees c w w') (k : Fin 6) :
    compares c k (w'.var .master).syscallInfo.arg = compares c k (w.var .master).syscallInfo.arg := by
  cases c
  case poll =>
    unfold compares
    rw [h.scalars .master 1 (by decide)]
  all_goals rfl

/-- The same words are compared, and in the same way. -/
theorem accepts_iff (h : KernelAgrees c w w') (hc : c ∈ independentCalls) :
    w'.Accepts c ↔ w.ScalarsPass c ∧ ∀ k j, w.Compared c k j →
      w.Match c k j (w'.long .master k j) (w'.long .replica k j) := by
  have hmatch : ∀ k j d e, w'.Match c k j d e ↔ w.Match c k j d e := fun k j d e => by
    constructor
    · exact fun hm => ⟨h.compares_eq k ▸ hm.bytes, hm.noEnd, h.image ▸ hm.flag⟩
    · exact fun hm => ⟨(h.compares_eq k).symm ▸ hm.bytes, hm.noEnd, h.image.symm ▸ hm.flag⟩
  rw [accepts_iff_words hc, h.scalarsPass_iff]
  simp only [World.Compared, h.compares_eq, hmatch]

end KernelAgrees

/-- One of the compared words never comes out equal. -/
def World.NeverEqual (w : World ρ) (c : Syscall) : Prop := ∃ k j, w.Compared c k j ∧
  ∀ d e, w.MayGet c .master k j d → w.MayGet c .replica k j e → ¬ w.Match c k j d e

/-- Each of them always comes out equal. -/
def World.AlwaysEqual (w : World ρ) (c : Syscall) : Prop := ∀ k j, w.Compared c k j →
  ∀ d e, w.MayGet c .master k j d → w.MayGet c .replica k j e → w.Match c k j d e

/-- Of a word of which the kernel finds out whether it is there, a byte that the kernel reads is
delivered as it is. -/
theorem eq_long_of_reads {v : Who} {k : Fin 6} {j : ℕ} (hs : (w.proc v).stopped = true)
    (htouches : ∀ b : Fin 8, w.touches c v k (8 * j + b)) {b : Fin 8} (hreads : w.reads c v k (8 * j + b))
    {d : Long} (hd : w.MayGet c v k j d) : d b = w.long v k j b := by
  rcases hd with ⟨hfits, -⟩ | ⟨rfl, b', hmiss⟩
  · have hlong := long_of_mapped hs (fun b' => (hfits b').1 (htouches b')) b
    rw [(hfits b).2 hreads] at hlong
    exact (Option.some.inj hlong).symm
  · rw [long_of_hole (hmiss (htouches b'))]

/-- A byte that the kernel reads in both variants settles the matter if it differs. -/
theorem neverEqual_of_differs {k : Fin 6} {j : ℕ} (hw : w.Arrived c) (hkj : w.Compared c k j)
    (htouches : ∀ v, ∀ b : Fin 8, w.touches c v k (8 * j + b)) {b : Fin 8}
    (hb : 8 * j + b < compares c k (w.var .master).syscallInfo.arg)
    (hreads : ∀ v, w.reads c v k (8 * j + b))
    (hne : w.long .master k j b ≠ w.long .replica k j b) : w.NeverEqual c := by
  refine ⟨k, j, hkj, fun d e hd he hm => hne ?_⟩
  rw [← eq_long_of_reads (hw.stopped .master) (htouches .master) (hreads .master) hd,
    ← eq_long_of_reads (hw.stopped .replica) (htouches .replica) (hreads .replica) he, hm.bytes b hb]

/-- Where the scalars pass, no more is compared than the buffers hold. -/
theorem compares_le (hc : c ∈ independentCalls) (h : w.ScalarsPass c) (k : Fin 6) :
    compares c k (w.var .master).syscallInfo.arg ≤ BUF_SIZE := by
  simp only [independentCalls, List.mem_cons, List.not_mem_nil, or_false] at hc
  rcases hc with rfl | rfl | rfl | rfl | rfl
  · exact Nat.sub_le _ _
  · exact h.2
  · show (if k = 4 then sizeofTimespec else sizeofFdSet) ≤ BUF_SIZE
    split <;> decide
  · show sizeofSocklen ≤ BUF_SIZE
    decide
  · show sizeofSocklen ≤ BUF_SIZE
    decide

/-- Any choice of words decides the verdict of some situation. -/
theorem exists_deciding (hc : c ∈ independentCalls) (hscalars : w.ScalarsPass c)
    {f : Fin 6 → ℕ → Long × Long} (hf : ∀ k j, w.Compared c k j →
      w.MayGet c .master k j (f k j).1 ∧ w.MayGet c .replica k j (f k j).2) :
    ∃ w', KernelAgrees c w w' ∧
      (w'.Accepts c ↔ ∀ k j, w.Compared c k j → w.Match c k j (f k j).1 (f k j).2) := by
  obtain ⟨w', hagrees, hlong⟩ := exists_agreeing (c := c) (d := fun v k j => pair (f k j).1 (f k j).2 v)
    (compares_le hc hscalars) (by
      intro v k j hkj
      cases v
      · exact (hf k j hkj).1
      · exact (hf k j hkj).2)
  refine ⟨w', hagrees, ?_⟩
  rw [hagrees.accepts_iff hc, and_iff_right hscalars]
  refine forall_congr' fun k => forall_congr' fun j => forall_congr' fun hkj => ?_
  rw [hlong .master k j hkj, hlong .replica k j hkj]
  rfl

/-- **What the verdict depends on.**  The verdict of an executor is the same in all situations that
the kernel cannot tell from `w` if and only if the scalars differ, one of the compared words never
comes out equal, or each of them always does. -/
theorem verdict_independent_iff (hc : c ∈ independentCalls) (hw : w.Arrived c) :
    (∀ w', KernelAgrees c w w' → (w'.Accepts c ↔ w.Accepts c)) ↔
      ¬ w.ScalarsPass c ∨ w.NeverEqual c ∨ w.AlwaysEqual c := by
  constructor
  · intro h
    by_contra hno
    obtain ⟨hscalars, hsome, hnot⟩ : w.ScalarsPass c ∧ ¬ w.NeverEqual c ∧ ¬ w.AlwaysEqual c := by
      simpa [not_or] using hno
    -- a pair of words for each place that passes there
    have hpair : ∀ k j, ∃ x : Long × Long, w.Compared c k j →
        (w.MayGet c .master k j x.1 ∧ w.MayGet c .replica k j x.2) ∧ w.Match c k j x.1 x.2 := by
      intro k j
      by_cases hkj : w.Compared c k j
      · by_contra hnone
        refine hsome ⟨k, j, hkj, fun d e hd he hm => hnone ⟨(d, e), fun _ => ⟨⟨hd, he⟩, hm⟩⟩⟩
      · exact ⟨(minusOne, minusOne), fun h => absurd h hkj⟩
    choose f hf using hpair
    obtain ⟨w₁, hagrees₁, haccepts₁⟩ := exists_deciding hc hscalars fun k j hkj => (hf k j hkj).1
    -- and for one place a pair that does not
    obtain ⟨k₀, j₀, hkj₀, d, e, hd, he, hm⟩ : ∃ k j, w.Compared c k j ∧ ∃ d e,
        w.MayGet c .master k j d ∧ w.MayGet c .replica k j e ∧ ¬ w.Match c k j d e := by
      simpa [World.AlwaysEqual] using hnot
    obtain ⟨w₂, hagrees₂, haccepts₂⟩ := exists_deciding hc hscalars
      (f := fun k j => if k = k₀ ∧ j = j₀ then (d, e) else f k j) (by
        intro k j hkj
        by_cases h₀ : k = k₀ ∧ j = j₀
        · obtain ⟨rfl, rfl⟩ := h₀
          simpa using ⟨hd, he⟩
        · simpa [h₀] using (hf k j hkj).1)
    have hyes : w.Accepts c := (h w₁ hagrees₁).1 (haccepts₁.2 fun k j hkj => (hf k j hkj).2)
    have hbad := haccepts₂.1 ((h w₂ hagrees₂).2 hyes) k₀ j₀ hkj₀
    simp only [and_self, if_true] at hbad
    exact hm hbad
  · intro h w' hagrees
    rw [hagrees.accepts_iff hc, (KernelAgrees.refl hw).accepts_iff hc]
    refine and_congr_right fun hscalars => ?_
    rcases h with hno | ⟨k, j, hkj, hnever⟩ | halways
    · exact absurd hscalars hno
    · have hrefused : ∀ {u : World ρ}, KernelAgrees c w u → ¬ ∀ k j, w.Compared c k j →
          w.Match c k j (u.long .master k j) (u.long .replica k j) := fun hu hall =>
        hnever _ _ (hu.mayGet .master hkj.1 j) (hu.mayGet .replica hkj.1 j) (hall k j hkj)
      exact iff_of_false (hrefused hagrees) (hrefused (.refl hw))
    · have haccepted : ∀ {u : World ρ}, KernelAgrees c w u → ∀ k j, w.Compared c k j →
          w.Match c k j (u.long .master k j) (u.long .replica k j) := fun hu k j hkj =>
        halways k j hkj _ _ (hu.mayGet .master hkj.1 j) (hu.mayGet .replica hkj.1 j)
      exact iff_of_true (haccepted hagrees) (haccepted (.refl hw))

end

/-! ### One `revents` that differs -/

/-- One `pollfd` at `0x1000`, all zero in the master; in the replica the descriptor is `fd`, and `x` is
left in `revents`. -/
def pollMem (fd x : Byte) (v : Who) : Mem := fun a =>
  if a = 0x1006 ∧ v = .replica then some x
  else if a = 0x1000 ∧ v = .replica then some fd
  else if 0x1000 ≤ a.toNat ∧ a.toNat < 0x1008 then some 0 else none

theorem pollMem_of_ne {a : Word} (h : a ≠ 0x1006) (fd x y : Byte) (v : Who) :
    pollMem fd x v a = pollMem fd y v a := by
  simp only [pollMem, h, false_and, if_false]

theorem pollMem_isSome (fd x y : Byte) (v : Who) (a : Word) :
    (pollMem fd x v a).isSome ↔ (pollMem fd y v a).isSome := by
  unfold pollMem
  split <;> rfl

/-- Both variants poll one descriptor. -/
def pollOne (fd x : Byte) : World Unit :=
  .standing (fun _ => callRegs Syscall.poll.nr ![0x1000, 1, 0, 0, 0, 0]) (pollMem fd x) ()

theorem pollOne_arrived (fd x : Byte) : (pollOne fd x).Arrived .poll :=
  ⟨rendezvous_standing .poll (fun _ => ![0x1000, 1, 0, 0, 0, 0]) (pollMem fd x) (), fun _ => rfl⟩

/-- What is left in `revents` is nothing to the kernel. -/
theorem pollOne_agrees (fd x y : Byte) : KernelAgrees .poll (pollOne fd x) (pollOne fd y) where
  arrived := pollOne_arrived _ _
  image := rfl
  scalars _ _ _ := rfl
  given _ _ _ := Iff.rfl
  zero v a ha := pollMem_of_ne (by rintro rfl; exact absurd ha (by decide)) fd y x v
  bytes v k hk i hi := by
    obtain rfl : k = 0 := by simpa [comparedArgs] using hk
    obtain ⟨hlt, hmod⟩ : i < 8 ∧ i % 8 < 6 := hi
    refine pollMem_of_ne (fun he => ?_) fd y x v
    have haddr := congrArg BitVec.toNat he
    rw [BitVec.toNat_add, BitVec.toNat_ofNat] at haddr
    have h0 : (((pollOne fd y).var v).syscallInfo.arg 0).toNat = 0x1000 := rfl
    have h6 : (0x1006 : Word).toNat = 0x1006 := rfl
    omega
  there v k _ i _ := pollMem_isSome fd y x v _
  masks h := absurd h (by decide)

/-- A leftover in `revents` turns the verdict. -/
theorem revents_turns_verdict : KernelAgrees .poll (pollOne 0 0) (pollOne 0 1) ∧
    (pollOne 0 0).Accepts .poll ∧ ¬ (pollOne 0 1).Accepts .poll :=
  ⟨pollOne_agrees 0 0 1, by decide +kernel, by decide +kernel⟩

/-- Two different descriptors are refused, whatever is left in `revents`. -/
theorem verdict_independent_poll : (pollOne 1 0).Accepts .poll ↔ (pollOne 1 2).Accepts .poll := by
  have htouches : ∀ v, ∀ b : Fin 8, (pollOne 1 2).touches .poll v 0 (8 * 0 + b) := by
    refine fun v b => .inr ?_
    show 8 * 0 + (b : ℕ) < 8
    omega
  have hreads : ∀ v, (pollOne 1 2).reads .poll v 0 (8 * 0 + (0 : Fin 8)) := fun v => by
    cases v <;> exact ⟨by decide +kernel, by decide⟩
  have hnever : (pollOne 1 2).NeverEqual .poll :=
    neverEqual_of_differs (pollOne_arrived 1 2) ⟨by decide, by decide +kernel⟩ htouches (by decide +kernel)
      hreads (by decide +kernel)
  exact (verdict_independent_iff (by decide) (pollOne_arrived 1 2)).2 (.inr (.inl hnever)) _
    (pollOne_agrees 1 2 0)

end Aurora
