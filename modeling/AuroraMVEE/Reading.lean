import AuroraMVEE.Holes

/-!
# What a read delivers, and where it puts it

`readVariantMem` moves whole words.  For a size that is no whole number of words it looks at
up to seven bytes behind the range it was asked for, and stores as many behind the end of
the buffer it was given.

* `memory_comparison_decides` — `variantMemCmp` sees none of this: over words that can be
  read it decides equality, whatever the static buffers held before.
* `back_ends_agree_iff` — the `process_vm_readv` build looks at the range alone, and the two
  builds agree if and only if the word at the end of the range can be read, too.
* `reads_stay_inside_iff` — in the monitor's memory as a whole, a read keeps to a buffer of its
  own size if and only if that is a number of whole words.
-/

namespace Aurora

variable {ρ : Type}

/-! ## The static buffers -/

/-- Behind the words a read fills, the buffer is what it was. -/
theorem readVariantMem_behind (t : Tracee) (buf : Buf) (p : Word) {size j : ℕ}
    (hj : 8 * ((size + 7) / 8) ≤ j) : (readVariantMem t buf p size).1 j = buf j := by
  unfold readVariantMem
  split
  · rfl
  · show (readLoop t p size 0 buf).1 j = _
    rw [readLoop_byte t p size 0 buf rfl, if_neg (by omega)]

/-- The static buffers hold a whole number of words. -/
theorem words_le_BUF_SIZE {size : ℕ} (hsize : size ≤ BUF_SIZE) : 8 * ((size + 7) / 8) ≤ BUF_SIZE := by
  unfold BUF_SIZE at *
  omega

/-! ## Comparisons -/

/-- Both processes stand at a stop, and the words that hold the two ranges can be read. -/
structure World.CanCompare (w : World ρ) (v₁ : Who) (p : Word) (v₂ : Who) (q : Word) (size : ℕ) :
    Prop where
  stopped₁ : (w.proc v₁).stopped = true
  stopped₂ : (w.proc v₂).stopped = true
  readable₁ : (w.proc v₁).Readable p size
  readable₂ : (w.proc v₂).Readable q size

/-- What a comparison of two ranges should say: `-1` of a size that does not fit, `0` of
equal bytes and `1` of different ones. -/
def World.comparison (w : World ρ) (v₁ : Who) (p : Word) (v₂ : Who) (q : Word) (size : ℕ) : Int :=
  if BUF_SIZE < size then -1
  else if ∀ i < size, (w.proc v₁).mem (p + BitVec.ofNat 64 i) = (w.proc v₂).mem (q + BitVec.ofNat 64 i)
    then 0 else 1

variable {w : World ρ} {v₁ v₂ : Who} {p q : Word} {size : ℕ}

/-- Where the words can be read, equal bytes are delivered exactly of equal bytes. -/
theorem World.CanCompare.delivered_iff (h : w.CanCompare v₁ p v₂ q size) :
    w.DeliveredAlike v₁ p v₂ q size ↔
      ∀ i < size, (w.proc v₁).mem (p + BitVec.ofNat 64 i) = (w.proc v₂).mem (q + BitVec.ofNat 64 i) := by
  apply forall₂_congr
  intro i hi
  rw [mem_of_wordMapped h.stopped₁ (h.readable₁ i hi), mem_of_wordMapped h.stopped₂ (h.readable₂ i hi),
    Option.some.injEq]

/-- What `variantMemCmp` leaves in the static buffers. -/
def World.compared (w : World ρ) (v₁ : Who) (p : Word) (v₂ : Who) (q : Word) (size : ℕ) :
    StaticBuf → Buf :=
  Function.update (Function.update w.bufs .bufA (readVariantMem (w.proc v₁) (w.bufs .bufA) p size).1)
    .bufB (readVariantMem (w.proc v₂) (w.bufs .bufB) q size).1

theorem variantMemCmp_compared (hsize : size ≤ BUF_SIZE) : variantMemCmp v₁ p v₂ q size w =
    .ret (if CBuffer.memEq (readVariantMem (w.proc v₁) (w.bufs .bufA) p size).1
      (readVariantMem (w.proc v₂) (w.bufs .bufB) q size).1 size then 0 else 1)
      (w.withBufs (w.compared v₁ p v₂ q size)) := by
  unfold variantMemCmp
  rw [if_neg (by omega)]
  rfl

/-- A comparison stores nothing behind the static buffers. -/
theorem compared_behind (hsize : size ≤ BUF_SIZE) (b : StaticBuf) {i : ℕ} (hi : BUF_SIZE ≤ i) :
    w.compared v₁ p v₂ q size b i = w.bufs b i := by
  have hwords := (words_le_BUF_SIZE hsize).trans hi
  unfold World.compared
  by_cases hB : b = .bufB
  · subst hB
    rw [Function.update_self, readVariantMem_behind _ _ _ hwords]
  · rw [Function.update_of_ne hB]
    by_cases hA : b = .bufA
    · subst hA
      rw [Function.update_self, readVariantMem_behind _ _ _ hwords]
    · rw [Function.update_of_ne hA]

theorem variantMemCmp_of_canCompare (h : w.CanCompare v₁ p v₂ q size) :
    ∃ β, variantMemCmp v₁ p v₂ q size w = .ret (w.comparison v₁ p v₂ q size) (w.withBufs β) ∧
      ∀ b i, BUF_SIZE ≤ i → β b i = w.bufs b i := by
  by_cases hsize : size ≤ BUF_SIZE
  · refine ⟨w.compared v₁ p v₂ q size, ?_, fun b i hi => compared_behind hsize b hi⟩
    have hequal := (memEq_read_iff (w.proc v₁) (w.proc v₂) (w.bufs .bufA) (w.bufs .bufB) p q
      hsize).trans h.delivered_iff
    rw [variantMemCmp_compared hsize, World.comparison, if_neg (not_lt.2 hsize),
      if_congr hequal rfl rfl]
  · refine ⟨w.bufs, ?_, fun _ _ _ => rfl⟩
    unfold variantMemCmp World.comparison
    rw [if_pos (by omega), if_pos (by omega)]
    rfl

/-- **Memory comparison decides equality.**  Over words that can be read, `variantMemCmp`
says `-1` of a size that does not fit the static buffers, `0` of equal bytes and `1` of
different ones.  It stores nothing but what lies in these buffers, and neither what they
held before nor a byte beside the two ranges makes a difference to the answer. -/
theorem memory_comparison_decides (h : w.CanCompare v₁ p v₂ q size) :
    (∃ β, variantMemCmp v₁ p v₂ q size w = .ret (w.comparison v₁ p v₂ q size) (w.withBufs β) ∧
      ∀ b i, BUF_SIZE ≤ i → β b i = w.bufs b i) ∧
    ∀ u : World ρ, u.CanCompare v₁ p v₂ q size →
      (∀ i < size, (u.proc v₁).mem (p + BitVec.ofNat 64 i) = (w.proc v₁).mem (p + BitVec.ofNat 64 i)) →
      (∀ i < size, (u.proc v₂).mem (q + BitVec.ofNat 64 i) = (w.proc v₂).mem (q + BitVec.ofNat 64 i)) →
      (variantMemCmp v₁ p v₂ q size u).val? = (variantMemCmp v₁ p v₂ q size w).val? := by
  constructor
  · exact variantMemCmp_of_canCompare h
  · intro u hu h₁ h₂
    obtain ⟨β, hw, -⟩ := variantMemCmp_of_canCompare h
    obtain ⟨γ, hu', -⟩ := variantMemCmp_of_canCompare hu
    have hsame : u.comparison v₁ p v₂ q size = w.comparison v₁ p v₂ q size := by
      unfold World.comparison
      have hrange : (∀ i < size, (u.proc v₁).mem (p + BitVec.ofNat 64 i) =
          (u.proc v₂).mem (q + BitVec.ofNat 64 i)) ↔ ∀ i < size,
            (w.proc v₁).mem (p + BitVec.ofNat 64 i) = (w.proc v₂).mem (q + BitVec.ofNat 64 i) := by
        apply forall₂_congr
        intro i hi
        rw [h₁ i hi, h₂ i hi]
      simp only [hrange]
    rw [hw, hu', hsame]
    rfl

/-! ### Three bytes of eight -/

/-- Both variants have the word `1, 1, .., 1` at `0x1000`. -/
def alike : World Unit := .standing (fun _ => callRegs Syscall.write.nr ![1, 0x1000, 3, 0, 0, 0])
  (fun _ a => if 0x1000 ≤ a.toNat ∧ a.toNat < 0x1008 then some 1 else none) ()

/-- Only the first three bytes of it are the same, and the buffers hold something else. -/
def alikeInThree : World Unit :=
  (World.standing (fun _ => callRegs Syscall.write.nr ![1, 0x1000, 3, 0, 0, 0])
    (fun | .master => fun a => if 0x1000 ≤ a.toNat ∧ a.toNat < 0x1008 then some 1 else none
         | .replica => fun a => if 0x1000 ≤ a.toNat ∧ a.toNat < 0x1003 then some 1
             else if a.toNat < 0x1008 then some 2 else none) ()).withBufs fun _ i => BitVec.ofNat 8 i

theorem alike_canCompare : alike.CanCompare .master 0x1000 .replica 0x1000 3 :=
  ⟨rfl, rfl, by unfold Tracee.Readable; decide +kernel, by unfold Tracee.Readable; decide +kernel⟩

theorem alikeInThree_canCompare : alikeInThree.CanCompare .master 0x1000 .replica 0x1000 3 :=
  ⟨rfl, rfl, by unfold Tracee.Readable; decide +kernel, by unfold Tracee.Readable; decide +kernel⟩

/-- Bytes four to eight and the buffers are different, and three bytes are equal. -/
theorem memory_comparison_alike :
    (∃ β, variantMemCmp .master 0x1000 .replica 0x1000 3 alike = .ret 0 (alike.withBufs β)) ∧
      (variantMemCmp .master 0x1000 .replica 0x1000 3 alikeInThree).val? =
        (variantMemCmp .master 0x1000 .replica 0x1000 3 alike).val? := by
  obtain ⟨⟨β, hrun, -⟩, hsame⟩ := memory_comparison_decides alike_canCompare
  have hzero : alike.comparison .master 0x1000 .replica 0x1000 3 = 0 := by decide +kernel
  rw [hzero] at hrun
  exact ⟨⟨β, hrun⟩, hsame alikeInThree alikeInThree_canCompare (by decide +kernel) (by decide +kernel)⟩

/-! ## The other back end -/

section

variable {t : Tracee}

instance (t : Tracee) (p : Word) (n : ℕ) : Decidable (t.Mapped p n) :=
  inferInstanceAs (Decidable (∀ i < n, (t.mem (p + BitVec.ofNat 64 i)).isSome))

/-- `process_vm_readv` with one range on either side: all the bytes of the range, or none. -/
def processVmReadv (t : Tracee) (localBuf : Buf) (remoteBuf : Word) (size : ℕ) : Buf × Int :=
  if t.alive = true ∧ t.Mapped remoteBuf size then
    (fun i => if i < size then (t.mem (remoteBuf + BitVec.ofNat 64 i)).getD 0 else localBuf i, size)
  else (localBuf, -1)

/-- `readVariantMem`, built without `USE_PTRACE_TRANSFER`. -/
def readVariantMemVm (t : Tracee) (localBuf : Buf) (remoteBuf : Word) (size : ℕ) : Buf × Int :=
  if BUF_SIZE < size then (localBuf, -1) else processVmReadv t localBuf remoteBuf size

/-- The two builds return the size, and both fill the range with the bytes that are there. -/
structure BackEndsAgree (t : Tracee) (localBuf : Buf) (p : Word) (size : ℕ) : Prop where
  returns : (readVariantMem t localBuf p size).2 = (readVariantMemVm t localBuf p size).2
  whole : (readVariantMem t localBuf p size).2 = size
  bytes : ∀ i < size, (readVariantMem t localBuf p size).1 i = (readVariantMemVm t localBuf p size).1 i
  remote : ∀ i < size, t.mem (p + BitVec.ofNat 64 i) = some ((readVariantMem t localBuf p size).1 i)

/-- The end of the range lies where a word ends, in a word that can be read, or the bytes of
the range in that word are the ones the failing request answers with. -/
def Tracee.EndReadable (t : Tracee) (p : Word) (size : ℕ) : Prop :=
  size % 8 = 0 ∨ t.wordMapped (p + BitVec.ofNat 64 (8 * (size / 8))) = true ∨
    ∀ i < size, 8 * (size / 8) ≤ i → t.mem (p + BitVec.ofNat 64 i) = some 0xff

theorem Tracee.stopped_alive (h : t.stopped = true) : t.alive = true := by
  by_contra hdead
  exact not_stopped_of_dead (Bool.eq_false_iff.2 hdead) h

theorem readVariantMemVm_of_mapped (hs : t.stopped = true) (hsize : size ≤ BUF_SIZE)
    (hmap : t.Mapped p size) (localBuf : Buf) : readVariantMemVm t localBuf p size =
      ((fun i => if i < size then (t.mem (p + BitVec.ofNat 64 i)).getD 0 else localBuf i : Buf),
        (size : Int)) := by
  unfold readVariantMemVm processVmReadv
  rw [if_neg (by omega), if_pos ⟨t.stopped_alive hs, hmap⟩]

/-- The byte delivered is the one that is there, if the word is whole or `0xff` is there. -/
theorem byteAt_of_endReadable (hs : t.stopped = true) (hmap : t.Mapped p size)
    (hend : t.EndReadable p size) {i : ℕ} (hi : i < size) :
    t.mem (p + BitVec.ofNat 64 i) = some (t.byteAt p i) := by
  by_cases hlast : 8 * (i / 8) + 8 ≤ size
  · exact mem_of_wordMapped hs (hmap.wordMapped hlast)
  · -- a byte of the last word
    have hword : 8 * (i / 8) = 8 * (size / 8) := by omega
    rcases hend with hwhole | hread | hones
    · omega
    · exact mem_of_wordMapped hs (by rw [hword]; exact hread)
    · cases hw : t.wordMapped (p + BitVec.ofNat 64 (8 * (i / 8))) with
      | true => exact mem_of_wordMapped hs hw
      | false => rw [byteAt_of_hole hw, hones i hi (by omega)]

theorem endReadable_of_byteAt (h : ∀ i < size, t.mem (p + BitVec.ofNat 64 i) = some (t.byteAt p i)) :
    t.EndReadable p size := by
  cases hw : t.wordMapped (p + BitVec.ofNat 64 (8 * (size / 8))) with
  | true => exact .inr (.inl hw)
  | false =>
    apply Or.inr ∘ Or.inr
    intro i hi hlast
    have hword : 8 * (i / 8) = 8 * (size / 8) := by omega
    rw [h i hi, byteAt_of_hole (by rw [hword]; exact hw)]

/-- **The two read back ends.**  Of a mapped range that fits the buffer, the build that peeks
words delivers what `process_vm_readv` does if and only if the word at its end can be read. -/
theorem back_ends_agree_iff (hs : t.stopped = true) (hsize : size ≤ BUF_SIZE)
    (hmap : t.Mapped p size) (localBuf : Buf) :
    BackEndsAgree t localBuf p size ↔ t.EndReadable p size := by
  have hbyte : ∀ i < size, (readVariantMem t localBuf p size).1 i = t.byteAt p i :=
    fun i hi => readVariantMem_byte t localBuf p hsize hi
  have hcount := readVariantMem_count t localBuf p hsize
  have hvm := readVariantMemVm_of_mapped hs hsize hmap localBuf
  constructor
  · intro h
    apply endReadable_of_byteAt
    intro i hi
    rw [h.remote i hi, hbyte i hi]
  · intro h
    have hremote : ∀ i < size, t.mem (p + BitVec.ofNat 64 i) =
        some ((readVariantMem t localBuf p size).1 i) := by
      intro i hi
      rw [hbyte i hi]
      exact byteAt_of_endReadable hs hmap h hi
    refine ⟨by rw [hcount, hvm], hcount, fun i hi => ?_, hremote⟩
    rw [hvm]
    show _ = if i < size then _ else _
    rw [if_pos hi, hremote i hi]
    rfl

end

/-! ### The end of a page -/

/-- A process with the last three bytes of a page, and nothing behind it. -/
def threeBytes : Tracee :=
  ⟨.exit, true, true, true, 0, fun _ => 0,
    fun a => if 0x1ffd ≤ a.toNat ∧ a.toNat < 0x2000 then some 7 else none, 1, []⟩

/-- The three bytes are mapped; one build delivers them, the other delivers ones. -/
theorem back_ends_differ : threeBytes.Mapped 0x1ffd 3 ∧
    (readVariantMem threeBytes (fun _ => 0) 0x1ffd 3).1 0 = 0xff ∧
      (readVariantMemVm threeBytes (fun _ => 0) 0x1ffd 3).1 0 = 7 ∧
        ¬ BackEndsAgree threeBytes (fun _ => 0) 0x1ffd 3 := by
  have hpeek : (readVariantMem threeBytes (fun _ => 0) 0x1ffd 3).1 0 = 0xff := by decide +kernel
  have hvm : (readVariantMemVm threeBytes (fun _ => 0) 0x1ffd 3).1 0 = 7 := by decide +kernel
  refine ⟨by decide +kernel, hpeek, hvm, fun h => ?_⟩
  have hsame := h.bytes 0 (by decide)
  rw [hpeek, hvm] at hsame
  exact absurd hsame (by decide)

/-- Three bytes of a word that is mapped are read alike. -/
theorem back_ends_agree_three : BackEndsAgree sixteenBytes (fun _ => 0) 0x1000 3 :=
  (back_ends_agree_iff rfl (by decide) (sixteenBytes_mapped 3 (by decide)) _).2
    (.inr (.inl (by decide +kernel)))

/-! ## The monitor's memory -/

/-- The monitor's own memory, of which a local buffer is a part. -/
abbrev MonitorMem := Word → Byte

/-- `((long *) localBuf)[i] = d`, wherever `localBuf` lies. -/
def storeLongAt (m : MonitorMem) (localBuf : Word) (i : ℕ) (d : Long) : MonitorMem := fun a =>
  if h : (a - (localBuf + BitVec.ofNat 64 (8 * i))).toNat < 8 then
    d ⟨(a - (localBuf + BitVec.ofNat 64 (8 * i))).toNat, h⟩
  else m a

/-- The loop of `readVariantMem`: the monitor's memory and `bytesTransferred` at its end. -/
def readLoopAt (t : Tracee) (localBuf remoteBuf : Word) (bytesRemaining bytesTransferred : ℕ)
    (m : MonitorMem) : MonitorMem × ℕ :=
  if 0 < bytesRemaining then
    readLoopAt t localBuf remoteBuf (bytesRemaining - min 8 bytesRemaining)
      (bytesTransferred + min 8 bytesRemaining)
      (storeLongAt m localBuf (bytesTransferred / 8)
        (t.peek (remoteBuf + BitVec.ofNat 64 bytesTransferred)))
  else (m, bytesTransferred)
termination_by bytesRemaining
decreasing_by omega

/-- `readVariantMem` into a buffer at `localBuf`: the monitor's memory afterwards, and the
return value. -/
def readVariantMemAt (t : Tracee) (m : MonitorMem) (localBuf remoteBuf : Word) (size : ℕ) :
    MonitorMem × Int :=
  if BUF_SIZE < size then (m, -1)
  else ((readLoopAt t localBuf remoteBuf size 0 m).1, (readLoopAt t localBuf remoteBuf size 0 m).2)

/-! ### A buffer is a window -/

/-- Seen from `a` on, the monitor's memory holds the bytes of `buf`. -/
def MonitorMem.Window (m : MonitorMem) (a : Word) (buf : Buf) : Prop :=
  ∀ j < 2 ^ 64, m (a + BitVec.ofNat 64 j) = buf j

section

variable {t : Tracee} {m : MonitorMem} {a : Word} {buf : Buf}

theorem MonitorMem.Window.storeLong (h : m.Window a buf) {i : ℕ} (hi : 8 * i + 8 ≤ 2 ^ 64) (d : Long) :
    (storeLongAt m a i d).Window a (CBuffer.storeLong buf i d) := by
  intro j hj
  have hoff : (a + BitVec.ofNat 64 j - (a + BitVec.ofNat 64 (8 * i))).toNat =
      (j + (2 ^ 64 - 8 * i)) % 2 ^ 64 := by
    rw [offset_sub _ _ (by omega), offset_add a hj]
  unfold storeLongAt CBuffer.storeLong
  by_cases hin : j / 8 = i
  · have hk : (a + BitVec.ofNat 64 j - (a + BitVec.ofNat 64 (8 * i))).toNat = j % 8 := by omega
    rw [dif_pos (by omega), if_pos hin]
    exact congrArg d (Fin.ext hk)
  · rw [dif_neg (by omega), if_neg hin]
    exact h j hj

/-- The loop does to the monitor's memory what it does to the buffer. -/
theorem readLoopAt_window (p : Word) : ∀ (bytesRemaining bytesTransferred : ℕ) (m : MonitorMem)
    (buf : Buf), bytesTransferred % 8 = 0 → bytesTransferred + bytesRemaining ≤ BUF_SIZE →
      m.Window a buf →
        (readLoopAt t a p bytesRemaining bytesTransferred m).1.Window a
          (readLoop t p bytesRemaining bytesTransferred buf).1 ∧
        (readLoopAt t a p bytesRemaining bytesTransferred m).2 =
          (readLoop t p bytesRemaining bytesTransferred buf).2 := by
  intro n
  induction n using Nat.strongRecOn with
  | ind n ih =>
    intro k m buf hk hsum h
    rw [readLoopAt, readLoop]
    by_cases hn : 0 < n
    · rw [if_pos hn, if_pos hn]
      have hword : 8 * (k / 8) + 8 ≤ 2 ^ 64 := by
        unfold BUF_SIZE at hsum
        omega
      have hstored := h.storeLong hword (t.peek (p + BitVec.ofNat 64 k))
      by_cases hlast : n < 8
      · -- after a part of a word the loop ends
        have hmin : min 8 n = n := by omega
        rw [hmin, Nat.sub_self, readLoopAt, readLoop, if_neg (lt_irrefl 0), if_neg (lt_irrefl 0)]
        exact ⟨hstored, rfl⟩
      · have hmin : min 8 n = 8 := by omega
        rw [hmin]
        exact ih (n - 8) (by omega) (k + 8) _ _ (by omega) (by omega) hstored
    · rw [if_neg hn, if_neg hn]
      exact ⟨h, rfl⟩

/-- A read into the monitor's memory is the read into the buffer, seen from its address. -/
theorem readVariantMemAt_window (h : m.Window a buf) (p : Word) (size : ℕ) :
    (readVariantMemAt t m a p size).1.Window a (readVariantMem t buf p size).1 ∧
      (readVariantMemAt t m a p size).2 = (readVariantMem t buf p size).2 := by
  unfold readVariantMemAt readVariantMem
  by_cases hsize : BUF_SIZE < size
  · rw [if_pos hsize, if_pos hsize]
    exact ⟨h, rfl⟩
  · rw [if_neg hsize, if_neg hsize]
    obtain ⟨hwindow, hcount⟩ := readLoopAt_window p size 0 m buf rfl (by omega) h
    exact ⟨hwindow, congrArg (fun n : ℕ => (n : Int)) hcount⟩

/-- A read changes whole words, from its buffer on. -/
theorem readVariantMemAt_apply (m : MonitorMem) (a p : Word) {size : ℕ} (hsize : size ≤ BUF_SIZE)
    (b : Word) : (readVariantMemAt t m a p size).1 b =
      if (b - a).toNat < 8 * ((size + 7) / 8) then t.byteAt p (b - a).toNat else m b := by
  have hself : m.Window a fun j => m (a + BitVec.ofNat 64 j) := fun _ _ => rfl
  have hbyte := (readVariantMemAt_window (t := t) hself p size).1 (b - a).toNat (b - a).isLt
  rw [add_offset] at hbyte
  rw [hbyte]
  by_cases hin : (b - a).toNat < 8 * ((size + 7) / 8)
  · unfold readVariantMem
    rw [if_neg (by omega), if_pos hin]
    show (readLoop t p size 0 _).1 _ = _
    rw [readLoop_byte t p size 0 _ rfl, if_pos (by omega)]
  · rw [readVariantMem_behind _ _ _ (by omega), if_neg hin, add_offset]

end

/-! ### Beside the buffer -/

/-- The read changes no byte outside the `size` bytes of its buffer. -/
def StaysInside (t : Tracee) (m : MonitorMem) (localBuf remoteBuf : Word) (size : ℕ) : Prop :=
  ∀ b, size ≤ (b - localBuf).toNat → (readVariantMemAt t m localBuf remoteBuf size).1 b = m b

/-- The bytes behind the buffer are those of the last word already. -/
def OvershootHarmless (t : Tracee) (m : MonitorMem) (localBuf remoteBuf : Word) (size : ℕ) : Prop :=
  ∀ i, size ≤ i → i < 8 * ((size + 7) / 8) → t.byteAt remoteBuf i = m (localBuf + BitVec.ofNat 64 i)

section

variable {size : ℕ} (hsize : size ≤ BUF_SIZE) (t : Tracee) (localBuf remoteBuf : Word)

include hsize

theorem staysInside_iff (m : MonitorMem) :
    StaysInside t m localBuf remoteBuf size ↔ OvershootHarmless t m localBuf remoteBuf size := by
  have hwords := words_le_BUF_SIZE hsize
  constructor
  · intro h i hi hword
    have hoff : (localBuf + BitVec.ofNat 64 i - localBuf).toNat = i :=
      offset_add localBuf (by unfold BUF_SIZE at hwords; omega)
    have hsame := h (localBuf + BitVec.ofNat 64 i) (by omega)
    rw [readVariantMemAt_apply _ _ _ hsize, hoff, if_pos hword] at hsame
    exact hsame
  · intro h b hb
    rw [readVariantMemAt_apply _ _ _ hsize]
    by_cases hin : (b - localBuf).toNat < 8 * ((size + 7) / 8)
    · rw [if_pos hin, h _ hb hin, add_offset]
    · rw [if_neg hin]

/-- **Reads and the buffer.**  For a size within the limit, a read changes nothing beside its
buffer if and only if the bytes up to the end of the last word were there already; and it
does so for every memory of the monitor if and only if the size is a number of whole words. -/
theorem reads_stay_inside_iff :
    (∀ m, StaysInside t m localBuf remoteBuf size ↔ OvershootHarmless t m localBuf remoteBuf size) ∧
    ((∀ m, StaysInside t m localBuf remoteBuf size) ↔ size % 8 = 0) := by
  constructor
  · exact staysInside_iff hsize t localBuf remoteBuf
  · constructor
    · intro h
      by_contra hpart
      -- a memory that differs from the last word everywhere
      have hharmless := (staysInside_iff hsize t localBuf remoteBuf
        fun b => t.byteAt remoteBuf (b - localBuf).toNat + 1).1 (h _) size le_rfl (by omega)
      have hoff : (localBuf + BitVec.ofNat 64 size - localBuf).toNat = size :=
        offset_add localBuf (by unfold BUF_SIZE at hsize; omega)
      have hbyte : t.byteAt remoteBuf size = t.byteAt remoteBuf size + 1 :=
        hharmless.trans (congrArg (fun n => t.byteAt remoteBuf n + 1) hoff)
      bv_omega
    · intro hwhole m
      apply (staysInside_iff hsize t localBuf remoteBuf m).2
      intro i hi hword
      omega

end

/-! ### An `int` on the stack -/

/-- Four bytes are read into an `int` at `0x7000`, and the byte behind it is lost. -/
theorem read_overwrites_neighbour :
    (readVariantMemAt sixteenBytes (fun _ => 1) 0x7000 0x1000 4).1 0x7004 = 0 ∧
      ¬ StaysInside sixteenBytes (fun _ => 1) 0x7000 0x1000 4 := by
  have hlost : (readVariantMemAt sixteenBytes (fun _ => 1) 0x7000 0x1000 4).1 0x7004 = 0 := by
    decide +kernel
  refine ⟨hlost, fun h => ?_⟩
  have hkept := h 0x7004 (by decide)
  rw [hlost] at hkept
  exact absurd hkept (by decide)

/-- Sixteen bytes stay inside. -/
theorem reads_stay_inside_sixteen : StaysInside sixteenBytes (fun _ => 1) 0x7000 0x1000 16 :=
  (reads_stay_inside_iff (by decide) sixteenBytes 0x7000 0x1000).2.2 (by decide) fun _ => 1

end Aurora
