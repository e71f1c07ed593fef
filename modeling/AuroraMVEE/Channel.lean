import AuroraMVEE.Service
import AuroraMVEE.Compare

/-!
# The memory channel

What `writeVariantMem`, `transferVariantMem` and `variantStrCmp` do, byte for byte.

* `exact_write_iff` — a write is exact for sizes below a word and for whole words; for any
  other size the last word is taken from the wrong place in the buffer.
* `string_comparison_never` — a string that ends is never compared: the branch for a
  terminator returns the error.
-/

namespace Aurora

variable {ρ : Type}

/-! ## One word -/

/-- The `n` bytes from `p` on are mapped. -/
def Tracee.Mapped (t : Tracee) (p : Word) (n : ℕ) : Prop :=
  ∀ i < n, (t.mem (p + BitVec.ofNat 64 i)).isSome

theorem Tracee.Mapped.wordMapped {t : Tracee} {p : Word} {n m : ℕ} (h : t.Mapped p n)
    (hm : m + 8 ≤ n) : t.wordMapped (p + BitVec.ofNat 64 m) = true := by
  refine decide_eq_true fun k => ?_
  rw [BitVec.add_assoc, ← BitVec.ofNat_add]
  exact h (m + k) (by omega)

/-- How far an address lies behind `p + m`, from how far it lies behind `p`. -/
theorem offset_sub (b p : Word) {m : ℕ} (hm : m < 2 ^ 64) :
    (b - (p + BitVec.ofNat 64 m)).toNat = ((b - p).toNat + (2 ^ 64 - m)) % 2 ^ 64 := by
  have hsub : b - (p + BitVec.ofNat 64 m) = (b - p) - BitVec.ofNat 64 m := by
    simp only [BitVec.sub_eq_add_neg, BitVec.neg_add, BitVec.add_assoc]
  rw [hsub, BitVec.toNat_sub, BitVec.toNat_ofNat, Nat.mod_eq_of_lt hm, Nat.add_comm]

/-- `PTRACE_POKEDATA` at offset `m` from `p`, seen from `p`. -/
theorem poke_mem {t : Tracee} (hs : t.stopped = true) {p : Word} {m : ℕ} (hm : m + 8 ≤ 2 ^ 64)
    (h : t.wordMapped (p + BitVec.ofNat 64 m) = true) (buf : Buf) (b : Word) :
    (t.poke (p + BitVec.ofNat 64 m) fun k => buf k).mem b =
      if m ≤ (b - p).toNat ∧ (b - p).toNat < m + 8 then some (buf ((b - p).toNat - m))
      else t.mem b := by
  have hoff := offset_sub b p (m := m) (by omega)
  have hlt := (b - p).isLt
  unfold Tracee.poke
  rw [if_pos (by rw [hs, h]; rfl)]
  by_cases hin : m ≤ (b - p).toNat ∧ (b - p).toNat < m + 8
  · have hk : (b - (p + BitVec.ofNat 64 m)).toNat = (b - p).toNat - m := by omega
    rw [if_pos hin]
    show (if hd : _ then some (buf _) else _) = _
    rw [dif_pos (by omega)]
    exact congrArg (fun j => some (buf j)) hk
  · rw [if_neg hin]
    show (if hd : _ then some (buf _) else _) = _
    rw [dif_neg (by omega)]

theorem poke_stopped (t : Tracee) (a : Word) (d : Long) : (t.poke a d).stopped = t.stopped := by
  unfold Tracee.poke
  split <;> rfl

/-- A word that was stored leaves mapped what was mapped. -/
theorem poke_mapped {t : Tracee} (hs : t.stopped = true) {p : Word} {m n : ℕ} (hm : m + 8 ≤ 2 ^ 64)
    (h : t.Mapped p n) (hw : t.wordMapped (p + BitVec.ofNat 64 m) = true) (buf : Buf) :
    (t.poke (p + BitVec.ofNat 64 m) fun k => buf k).Mapped p n := by
  intro i hi
  rw [poke_mem hs hm hw]
  split
  · rfl
  · exact h i hi

/-! ## The loop -/

/-- The bytes the loop of `writeVariantMem` stores: whole words from where they belong,
and a last word from the word index that its byte offset happens to be. -/
def stored (localBuf : Buf) (size bytesTransferred bytesRemaining o : ℕ) : Option Byte :=
  if bytesRemaining % 8 ≠ 0 ∧ size - 8 ≤ o ∧ o < size then
    some (localBuf (8 * (size - 8) + (o - (size - 8))))
  else if bytesTransferred ≤ o ∧ o < bytesTransferred + 8 * (bytesRemaining / 8) then
    some (localBuf o)
  else none

theorem writeLoop_mem (localBuf : Buf) (p : Word) {size : ℕ} (hsize : size ≤ 2 ^ 64) (h8 : 8 ≤ size)
    (b : Word) : ∀ (bytesRemaining bytesTransferred : ℕ) (t : Tracee), t.stopped = true →
      t.Mapped p size → bytesTransferred % 8 = 0 → bytesTransferred + bytesRemaining = size →
      (writeLoop localBuf p size bytesRemaining bytesTransferred t).1.mem b =
        (stored localBuf size bytesTransferred bytesRemaining (b - p).toNat).or (t.mem b) := by
  intro n
  induction n using Nat.strongRecOn with
  | ind n ih =>
    intro m t hs hmap hm8 hsum
    rw [writeLoop]
    by_cases hn : 0 < n
    · rw [if_pos hn]
      by_cases hword : 8 ≤ n
      · -- a whole word, and then the rest
        have hw := hmap.wordMapped (m := m) (by omega)
        have hload : CBuffer.loadLong localBuf (m / 8) = fun k : Fin 8 => localBuf (m + k) :=
          funext fun k => congrArg localBuf (by omega)
        have hrest := ih (n - 8) (by omega) (m + 8)
          (t.poke (p + BitVec.ofNat 64 m) fun k => localBuf (m + k))
          ((poke_stopped _ _ _).trans hs)
          (poke_mapped hs (by omega) hmap hw fun k => localBuf (m + k)) (by omega) (by omega)
        have hpoke := poke_mem hs (by omega) hw (fun k => localBuf (m + k)) b
        have hmod : (n - 8) % 8 = n % 8 := by omega
        rw [if_pos hword, hload, hrest, hpoke]
        unfold stored
        rw [hmod]
        by_cases hlast : n % 8 ≠ 0 ∧ size - 8 ≤ (b - p).toNat ∧ (b - p).toNat < size
        · rw [if_pos hlast, if_pos hlast]
          rfl
        · rw [if_neg hlast, if_neg hlast]
          by_cases hin : m ≤ (b - p).toNat ∧ (b - p).toNat < m + 8
          · rw [if_neg (by omega), if_pos hin, if_pos (by omega), Nat.add_sub_cancel' hin.1]
            rfl
          · rw [if_neg hin]
            by_cases hlater : m + 8 ≤ (b - p).toNat ∧ (b - p).toNat < m + 8 + 8 * ((n - 8) / 8)
            · rw [if_pos hlater, if_pos (by omega)]
            · rw [if_neg hlater, if_neg (by omega)]
      · -- the last word, counted from the end
        have hw := hmap.wordMapped (m := size - 8) (by omega)
        have haddr : p + BitVec.ofNat 64 size - 8 = p + BitVec.ofNat 64 (size - 8) := by
          rw [BitVec.sub_eq_iff_eq_add, BitVec.add_assoc]
          congr 1
          rw [show (8 : Word) = BitVec.ofNat 64 8 from rfl, ← BitVec.ofNat_add, Nat.sub_add_cancel h8]
        have hload : CBuffer.loadLong localBuf (size - 8) =
            fun k : Fin 8 => localBuf (8 * (size - 8) + k) := rfl
        rw [if_neg hword, haddr, hload]
        show (t.poke (p + BitVec.ofNat 64 (size - 8)) fun k : Fin 8 =>
          localBuf (8 * (size - 8) + k)).mem b = _
        rw [poke_mem hs (by omega) hw (fun k => localBuf (8 * (size - 8) + k))]
        unfold stored
        by_cases hlast : size - 8 ≤ (b - p).toNat ∧ (b - p).toNat < size
        · rw [if_pos (by omega), if_pos ⟨by omega, hlast⟩]
          rfl
        · rw [if_neg (by omega), if_neg (by omega), if_neg (by omega)]
          rfl
    · rw [if_neg hn]
      unfold stored
      rw [if_neg (by omega), if_neg (by omega)]
      rfl

theorem writeLoop_count (localBuf : Buf) (p : Word) (size : ℕ) :
    ∀ (bytesRemaining bytesTransferred : ℕ) (t : Tracee),
      (writeLoop localBuf p size bytesRemaining bytesTransferred t).2 =
        bytesTransferred + bytesRemaining := by
  intro n
  induction n using Nat.strongRecOn with
  | ind n ih =>
    intro m t
    rw [writeLoop]
    by_cases hn : 0 < n
    · rw [if_pos hn]
      by_cases hword : 8 ≤ n
      · rw [if_pos hword, ih (n - 8) (by omega)]
        omega
      · rw [if_neg hword]
    · rw [if_neg hn]
      omega

/-! ## The whole write -/

theorem ofNat_toNat_word (x : Word) : BitVec.ofNat 64 x.toNat = x := by
  rw [BitVec.ofNat_toNat, BitVec.setWidth_eq]

theorem add_offset (b p : Word) : p + BitVec.ofNat 64 (b - p).toNat = b := by
  rw [ofNat_toNat_word, add_sub_cancel]

theorem offset_add (p : Word) {i : ℕ} (hi : i < 2 ^ 64) : (p + BitVec.ofNat 64 i - p).toNat = i := by
  rw [add_sub_cancel_left, BitVec.toNat_ofNat, Nat.mod_eq_of_lt hi]

/-- A write below a word keeps what lies behind it. -/
theorem writeVariantMem_small {t : Tracee} (hs : t.stopped = true) {p : Word} (hmap : t.Mapped p 8)
    (localBuf : Buf) {size : ℕ} (hsize : size < 8) (b : Word) :
    (writeVariantMem t localBuf p size).1.mem b =
      if (b - p).toNat < size then some (localBuf (b - p).toNat) else t.mem b := by
  have hw := hmap.wordMapped (m := 0) (by omega)
  have hp : p + BitVec.ofNat 64 0 = p := BitVec.add_zero p
  have hover : CBuffer.overlay (t.peek p) localBuf size = fun k : Fin 8 =>
      (fun j : ℕ => if j < size then localBuf j else (t.mem (p + BitVec.ofNat 64 j)).getD 0) k := by
    funext k
    rw [hp] at hw
    unfold CBuffer.overlay Tracee.peek
    rw [hs, hw]
    rfl
  have hpoke := poke_mem hs (p := p) (m := 0) (by norm_num) hw
    (fun j => if j < size then localBuf j else (t.mem (p + BitVec.ofNat 64 j)).getD 0) b
  unfold writeVariantMem
  rw [if_pos hsize, hover]
  rw [hp] at hpoke
  rw [hpoke]
  by_cases hin : (b - p).toNat < size
  · rw [if_pos (by omega), if_pos hin]
    exact congrArg some (if_pos hin)
  · rw [if_neg hin]
    by_cases h8 : 0 ≤ (b - p).toNat ∧ (b - p).toNat < 0 + 8
    · have hmapped := hmap (b - p).toNat (by omega)
      rw [add_offset] at hmapped
      obtain ⟨x, hx⟩ := Option.isSome_iff_exists.1 hmapped
      rw [if_pos h8, Nat.sub_zero, if_neg hin, add_offset, hx]
      rfl
    · rw [if_neg h8]

/-- A write of a word or more. -/
theorem writeVariantMem_large {t : Tracee} (hs : t.stopped = true) {p : Word} {size : ℕ}
    (hmap : t.Mapped p size) (hsize : size < 2 ^ 63) (h8 : 8 ≤ size) (localBuf : Buf) (b : Word) :
    (writeVariantMem t localBuf p size).1.mem b =
      (stored localBuf size 0 size (b - p).toNat).or (t.mem b) := by
  unfold writeVariantMem
  rw [if_neg (by omega)]
  exact writeLoop_mem localBuf p (by omega) h8 b size 0 t hs hmap rfl (by omega)

theorem writeVariantMem_count (t : Tracee) (localBuf : Buf) (p : Word) (size : ℕ) :
    (writeVariantMem t localBuf p size).2 = size := by
  unfold writeVariantMem
  split
  · rfl
  · show ((writeLoop localBuf p size size 0 t).2 : Int) = size
    rw [writeLoop_count, Nat.zero_add]

/-- `writeVariantMem` stores the buffer, the whole buffer and nothing but the buffer. -/
structure ExactWrite (t : Tracee) (localBuf : Buf) (p : Word) (size : ℕ) : Prop where
  stores : ∀ i < size, (writeVariantMem t localBuf p size).1.mem (p + BitVec.ofNat 64 i) =
    some (localBuf i)
  frame : ∀ b, size ≤ (b - p).toNat → (writeVariantMem t localBuf p size).1.mem b = t.mem b
  uses : ∀ buf' : Buf, (∀ i < size, buf' i = localBuf i) →
    (writeVariantMem t buf' p size).1.mem = (writeVariantMem t localBuf p size).1.mem
  returns : (writeVariantMem t localBuf p size).2 = size

/-- One equation for the memory afterwards is all of it. -/
theorem exactWrite_of_mem {t : Tracee} {p : Word} {size : ℕ} (hsize : size < 2 ^ 63)
    (h : ∀ (buf : Buf) (b : Word), (writeVariantMem t buf p size).1.mem b =
      if (b - p).toNat < size then some (buf (b - p).toNat) else t.mem b) (localBuf : Buf) :
    ExactWrite t localBuf p size where
  stores i hi := by
    rw [h, offset_add p (by omega), if_pos hi]
  frame b hb := by
    rw [h, if_neg (by omega)]
  uses buf' hbuf := by
    funext b
    rw [h, h]
    by_cases hin : (b - p).toNat < size
    · rw [if_pos hin, if_pos hin, hbuf _ hin]
    · rw [if_neg hin, if_neg hin]
  returns := writeVariantMem_count t localBuf p size

/-- The sizes of which no last word is left over. -/
def WholeWords (size : ℕ) : Prop := size < 8 ∨ size % 8 = 0

theorem exactWrite_iff {t : Tracee} (hs : t.stopped = true) {p : Word} {size : ℕ}
    (hmap : t.Mapped p (max size 8)) (hsize : size < 2 ^ 63) :
    (∀ localBuf, ExactWrite t localBuf p size) ↔ WholeWords size := by
  constructor
  · intro h
    by_contra hpart
    obtain ⟨h8, hmod⟩ : 8 ≤ size ∧ size % 8 ≠ 0 := by
      unfold WholeWords at hpart
      omega
    -- the last byte of the range comes from behind the end of the buffer
    have hlast := (h fun i => if i < size then 0 else 1).stores (size - 1) (by omega)
    rw [writeVariantMem_large hs (fun i hi => hmap i (by omega)) hsize h8,
      offset_add p (by omega)] at hlast
    unfold stored at hlast
    have hbehind : ¬ 8 * (size - 8) + (size - 1 - (size - 8)) < size := by omega
    have hend : size - 1 < size := by omega
    rw [if_pos (by omega), Option.some_or] at hlast
    simp only [hbehind, hend, if_true, if_false] at hlast
    exact absurd hlast (by decide)
  · intro hwhole
    refine exactWrite_of_mem hsize fun buf b => ?_
    by_cases h8 : size < 8
    · exact writeVariantMem_small hs (fun i hi => hmap i (by omega)) buf h8 b
    · have hmod : size % 8 = 0 := hwhole.resolve_left h8
      have hwords : 0 + 8 * (size / 8) = size := by omega
      rw [writeVariantMem_large hs (fun i hi => hmap i (by omega)) hsize (by omega)]
      unfold stored
      rw [if_neg (by omega), hwords]
      by_cases hin : (b - p).toNat < size
      · rw [if_pos (by omega), if_pos hin]
        rfl
      · rw [if_neg (by omega), if_neg hin]
        rfl

/-! ## From one variant to the other -/

theorem readLoop_count (t : Tracee) (p : Word) : ∀ (bytesRemaining bytesTransferred : ℕ) (buf : Buf),
    (readLoop t p bytesRemaining bytesTransferred buf).2 = bytesTransferred + bytesRemaining := by
  intro n
  induction n using Nat.strongRecOn with
  | ind n ih =>
    intro m buf
    rw [readLoop]
    by_cases hn : 0 < n
    · rw [if_pos hn, ih (n - min 8 n) (by omega)]
      omega
    · rw [if_neg hn]
      omega

theorem readVariantMem_count (t : Tracee) (localBuf : Buf) (p : Word) {size : ℕ}
    (hsize : size ≤ BUF_SIZE) : (readVariantMem t localBuf p size).2 = size := by
  unfold readVariantMem
  rw [if_neg (by omega)]
  show ((readLoop t p size 0 localBuf).2 : Int) = size
  rw [readLoop_count, Nat.zero_add]

/-- What a transfer leaves in the static buffers. -/
def World.fetched (w : World ρ) (s : Who) (p : Word) (size : ℕ) : StaticBuf → Buf :=
  Function.update w.bufs .bufA (readVariantMem (w.proc s) (w.bufs .bufA) p size).1

theorem fetched_byte (w : World ρ) (s : Who) (p : Word) {size i : ℕ} (hsize : size ≤ BUF_SIZE)
    (hi : i < size) : w.fetched s p size .bufA i = (w.proc s).byteAt p i := by
  unfold World.fetched
  rw [Function.update_self]
  exact readVariantMem_byte _ _ _ hsize hi

/-- Up to the store into the other process. -/
theorem transferVariantMem_fetched (s : Who) (p : Word) (d : Who) (q : Word) {size : ℕ}
    (hsize : size ≤ BUF_SIZE) (w : World ρ) : transferVariantMem s p d q size w =
      (writeFrom d (w.fetched s p size .bufA) q size >>= fun n =>
        if n ≠ size then pure (-1) else pure 0 : Mon ρ Int) (w.withBufs (w.fetched s p size)) := by
  have hread := readVariantMem_count (w.proc s) (w.bufs .bufA) p hsize
  unfold transferVariantMem
  rw [if_neg (by omega), Prog.bind_of_ret (show readStatic s .bufA p size w = .ret _ _ from rfl),
    hread, if_neg (by simp), Prog.bind_of_ret (Prog.gets_apply _ _)]
  rfl

/-- A transfer within the buffer size succeeds, unless a load faults: it writes what the source
delivers. -/
theorem transferVariantMem_apply (s : Who) (p : Word) (d : Who) (q : Word) {size : ℕ}
    (hsize : size ≤ BUF_SIZE) (w : World ρ) (hload : ¬ w.image.Faults size) :
    ∃ β, transferVariantMem s p d q size w = .ret 0
        ((w.withBufs β).setProc d (writeVariantMem (w.proc d) (β .bufA) q size).1) ∧
      ∀ i < size, β .bufA i = (w.proc s).byteAt p i := by
  have hstore : writeFrom d (w.fetched s p size .bufA) q size (w.withBufs (w.fetched s p size)) =
      .ret _ _ := if_neg hload
  refine ⟨w.fetched s p size, ?_, fun i hi => fetched_byte w s p hsize hi⟩
  rw [transferVariantMem_fetched s p d q hsize w, Prog.bind_of_ret hstore, writeVariantMem_count,
    if_neg (by simp)]
  rfl

/-- One whose last load faults ends the monitor. -/
theorem transferVariantMem_faults (s : Who) (p : Word) (d : Who) (q : Word) {size : ℕ}
    (hsize : size ≤ BUF_SIZE) (w : World ρ) (hload : w.image.Faults size) :
    ∃ w', transferVariantMem s p d q size w = .exited SIGSEGV_STATUS w' ∧
      ∀ u ≠ d, w'.proc u = w.proc u := by
  have hstore : writeFrom d (w.fetched s p size .bufA) q size (w.withBufs (w.fetched s p size)) =
      .exited SIGSEGV_STATUS _ := if_pos hload
  rw [transferVariantMem_fetched s p d q hsize w, Prog.bind_apply, hstore]
  exact ⟨_, rfl, fun u hu => World.setProc_proc_of_ne _ hu _⟩

theorem transferVariantMem_large (s : Who) (p : Word) (d : Who) (q : Word) {size : ℕ}
    (hsize : BUF_SIZE < size) (w : World ρ) : transferVariantMem s p d q size w = .ret (-1) w := by
  unfold transferVariantMem
  rw [if_pos hsize]
  rfl

/-- The words that hold the `n` bytes from `p` on can be read. -/
def Tracee.Readable (t : Tracee) (p : Word) (n : ℕ) : Prop :=
  ∀ i < n, t.wordMapped (p + BitVec.ofNat 64 (8 * (i / 8))) = true

/-- A transfer to `q` in the process `t` of the variant `d` that returns 0 has made the two
ranges equal. -/
def ExactTransfer (ρ : Type) (d : Who) (t : Tracee) (q : Word) (size : ℕ) : Prop :=
  ∀ (w w' : World ρ) (s : Who) (p : Word), w.proc d = t → (w.proc s).stopped = true →
    (w.proc s).Readable p size → transferVariantMem s p d q size w = .ret 0 w' →
      ∀ i < size, (w'.proc d).mem (q + BitVec.ofNat 64 i) = (w.proc s).mem (p + BitVec.ofNat 64 i)

/-- Exact writes make exact transfers. -/
theorem exactTransfer_of_exactWrite {d : Who} {t : Tracee} {q : Word} {size : ℕ}
    (h : ∀ localBuf, ExactWrite t localBuf q size) : ExactTransfer ρ d t q size := by
  rintro w w' s p rfl hs hread hrun i hi
  by_cases hsize : size ≤ BUF_SIZE
  · by_cases hload : w.image.Faults size
    · obtain ⟨_, hfault, -⟩ := transferVariantMem_faults s p d q hsize w hload
      rw [hfault] at hrun
      exact absurd hrun nofun
    · obtain ⟨β, happly, hβ⟩ := transferVariantMem_apply s p d q hsize w hload
      rw [happly] at hrun
      obtain ⟨-, rfl⟩ := Outcome.ret.inj hrun
      rw [World.setProc_proc_self, (h _).stores i hi, hβ i hi, mem_of_wordMapped hs (hread i hi)]
  · rw [transferVariantMem_large s p d q (by omega)] at hrun
    exact absurd (Outcome.ret.inj hrun).1 (by decide)

/-- **Exact word-wise writes.**  Into mapped memory of a stopped process, every write of
`size` bytes is exact, and with it every transfer that returns 0, if and only if the size
is below a word or a whole number of words. -/
theorem exact_write_iff {d : Who} {t : Tracee} (hs : t.stopped = true) {q : Word} {size : ℕ}
    (hmap : t.Mapped q (max size 8)) (hsize : size < 2 ^ 63) :
    ((∀ localBuf, ExactWrite t localBuf q size) ∧ ExactTransfer ρ d t q size) ↔ WholeWords size :=
  ⟨fun h => (exactWrite_iff hs hmap hsize).1 h.1, fun h =>
    have hexact := (exactWrite_iff hs hmap hsize).2 h
    ⟨hexact, exactTransfer_of_exactWrite hexact⟩⟩

/-! ### Nine bytes -/

/-- A process with sixteen bytes at `0x1000`. -/
def sixteenBytes : Tracee :=
  ⟨.exit, true, true, true, 0, fun _ => 0,
    fun a => if 0x1000 ≤ a.toNat ∧ a.toNat < 0x1010 then some 0 else none, 1, []⟩

theorem sixteenBytes_mapped (n : ℕ) (hn : n ≤ 16) : sixteenBytes.Mapped 0x1000 n := fun i hi => by
  have : (0x1000 + BitVec.ofNat 64 i : Word).toNat = 0x1000 + i := by
    rw [BitVec.toNat_add, BitVec.toNat_ofNat]
    have : (0x1000 : Word).toNat = 0x1000 := rfl
    omega
  show (if _ then some (0 : Byte) else none).isSome
  rw [this, if_pos (by omega)]
  rfl

/-- Of the nine bytes `1, 2, .., 9` the last eight are lost: what follows them in the buffer
is stored instead. -/
theorem write_nine_bytes :
    (writeVariantMem sixteenBytes (fun i => BitVec.ofNat 8 (i + 1)) 0x1000 9).1.mem 0x1008 =
        some 16 ∧
      ¬ ExactWrite sixteenBytes (fun i => BitVec.ofNat 8 (i + 1)) 0x1000 9 :=
  ⟨by decide +kernel, fun h => absurd (h.stores 8 (by decide)) (by decide +kernel)⟩

/-- Sixteen bytes are two words. -/
theorem exact_write_sixteen : (∀ localBuf, ExactWrite sixteenBytes localBuf 0x1000 16) ∧
    ExactTransfer Unit .replica sixteenBytes 0x1000 16 :=
  (exact_write_iff rfl (sixteenBytes_mapped 16 (by decide)) (by decide)).2 (.inr rfl)

/-! ## Strings -/

/-- The string `s` stands at `p`, with its terminator behind it, in words that can be read. -/
structure Tracee.HoldsString (t : Tracee) (p : Word) (s : List Byte) : Prop where
  chars : ∀ (i : ℕ) (h : i < s.length), t.mem (p + BitVec.ofNat 64 i) = some s[i]
  nonzero : 0 ∉ s
  terminator : t.mem (p + BitVec.ofNat 64 s.length) = some 0
  readable : t.Readable p (s.length + 1)
  short : s.length < BUF_SIZE - 100

/-- A string that ends is not one `variantStrCmp` compares. -/
theorem Tracee.HoldsString.not_noNul {t : Tracee} {p : Word} {s : List Byte} (hs : t.stopped = true)
    (h : t.HoldsString p s) : ¬ t.NoNul p := fun hnul => by
  refine hnul s.length h.short (Option.some.inj ?_)
  rw [← mem_of_wordMapped hs (h.readable _ (Nat.lt_succ_self _)), h.terminator]

/-- `variantStrCmp` says 0 of equal strings and 1 of different ones. -/
def StrCmpDecides (w : World ρ) (v₁ : Who) (p : Word) (v₂ : Who) (q : Word) (s₁ s₂ : List Byte) :
    Prop := ∃ w', variantStrCmp v₁ p v₂ q w = .ret (if s₁ = s₂ then 0 else 1) w'

/-- **The string comparison never decides equality.**  For no two terminated strings that
fit the buffer does `variantStrCmp` say whether they are equal: it returns the error. -/
theorem string_comparison_never {w : World ρ} {v₁ v₂ : Who} {p q : Word} {s₁ s₂ : List Byte}
    (hs : ∀ v, (w.proc v).stopped = true) (h₁ : (w.proc v₁).HoldsString p s₁)
    (_h₂ : (w.proc v₂).HoldsString q s₂) : ¬ StrCmpDecides w v₁ p v₂ q s₁ s₂ := by
  rintro ⟨w', hrun⟩
  obtain ⟨β, hcmp⟩ := variantStrCmp_apply (w := w) (p := p) v₂ q
    (show strScan (w.proc v₁) p 100 0 (fun _ => 0) = _ from rfl)
  rcases strScan_scanned (w.proc v₁) p 99999 0 (fun _ => 0) rfl (by simp) (by simp) with
    ⟨hnone, -⟩ | ⟨-, hnul, -⟩
  · rw [hnone, hrun] at hcmp
    have hvalue := (Outcome.ret.inj hcmp).1
    split at hvalue <;> simp at hvalue
  · exact h₁.not_noNul (hs v₁) hnul

/-! ### The string `a`, compared with itself -/

/-- Both variants hold the string `a` at `0x1000`. -/
def stringA : World Unit := .standing (fun _ => callRegs Syscall.chdir.nr ![0x1000, 0, 0, 0, 0, 0])
  (fun _ a => if a = 0x1000 then some 97 else if 0x1000 ≤ a.toNat ∧ a.toNat < 0x1008 then some 0
    else none) ()

theorem stringA_holds (v : Who) : (stringA.proc v).HoldsString 0x1000 [97] where
  chars i h := by
    obtain rfl : i = 0 := by simpa using h
    rfl
  nonzero := by decide
  terminator := by cases v <;> decide +kernel
  readable i hi := by
    obtain rfl | rfl : i = 0 ∨ i = 1 := by
      have : i < 2 := hi
      omega
    all_goals cases v <;> decide +kernel
  short := by decide

/-- The comparison of `a` with `a` is an error. -/
theorem strCmp_of_equal_strings :
    (variantStrCmp .master 0x1000 .replica 0x1000 stringA).val? = some (-1) ∧
      ∀ v, (stringA.proc v).HoldsString 0x1000 [97] :=
  ⟨by decide +kernel, stringA_holds⟩

theorem string_comparison_never_a : ¬ StrCmpDecides stringA .master 0x1000 .replica 0x1000 [97] [97] :=
  string_comparison_never (fun _ => rfl) (stringA_holds .master) (stringA_holds .replica)

end Aurora
