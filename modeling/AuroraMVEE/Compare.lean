import AuroraMVEE.Control

/-!
# What a comparison decides

A verdict is monitor code, but it only reads; so each one decides a proposition about
the state it starts in.  `Decides m w p` says so, and the rules below compute `p` for
every comparison of `sys/*.c` from what its parts decide.

* `Tracee.byteAt` — the byte that `readVariantMem` delivers for an offset.  It comes
  with the aligned word it lies in, so a word that cannot be read delivers `0xff`.
* `World.SameBytes`, `World.SameArgs` — equality of what was delivered, and of scalars.
* `decides_memArgEq`, `decides_strArgEq` — the memory and string comparisons.
-/

namespace Aurora

variable {ρ : Type}

/-! ## Reading a variant's memory -/

/-- The byte `readVariantMem` delivers at offset `i` from `p`. -/
def Tracee.byteAt (t : Tracee) (p : Word) (i : ℕ) : Byte :=
  t.peek (p + BitVec.ofNat 64 (8 * (i / 8))) ⟨i % 8, CBuffer.mod_eight_lt i⟩

/-- The byte delivered from a word that can be read is the one that is there. -/
theorem mem_of_wordMapped {t : Tracee} (hs : t.stopped = true) {p : Word} {i : ℕ}
    (hw : t.wordMapped (p + BitVec.ofNat 64 (8 * (i / 8))) = true) :
    t.mem (p + BitVec.ofNat 64 i) = some (t.byteAt p i) := by
  have haddr : p + BitVec.ofNat 64 i =
      p + BitVec.ofNat 64 (8 * (i / 8)) + BitVec.ofNat 64 (i % 8) := by
    rw [BitVec.add_assoc, ← BitVec.ofNat_add, Nat.div_add_mod]
  have hmapped : ∀ k : Fin 8, (t.mem (p + BitVec.ofNat 64 (8 * (i / 8)) + BitVec.ofNat 64 k)).isSome :=
    of_decide_eq_true hw
  obtain ⟨b, hb⟩ := Option.isSome_iff_exists.1 (hmapped ⟨i % 8, CBuffer.mod_eight_lt i⟩)
  unfold Tracee.byteAt Tracee.peek
  rw [haddr, hb, if_pos (by rw [hs, hw]; rfl), hb]
  rfl

theorem storeLong_peek (t : Tracee) (p : Word) (buf : Buf) {n : ℕ} (hn : n % 8 = 0) (j : ℕ) :
    CBuffer.storeLong buf (n / 8) (t.peek (p + BitVec.ofNat 64 n)) j =
      if n ≤ j ∧ j < n + 8 then t.byteAt p j else buf j := by
  unfold CBuffer.storeLong Tracee.byteAt
  by_cases hj : j / 8 = n / 8
  · have hrange : n ≤ j ∧ j < n + 8 := by omega
    have hword : 8 * (j / 8) = n := by omega
    rw [if_pos hj, if_pos hrange, hword]
  · have hrange : ¬ (n ≤ j ∧ j < n + 8) := by omega
    rw [if_neg hj, if_neg hrange]

/-- The loop of `readVariantMem` fills whole words, from the offset it is at. -/
theorem readLoop_byte (t : Tracee) (p : Word) : ∀ (bytesRemaining bytesTransferred : ℕ) (buf : Buf),
    bytesTransferred % 8 = 0 → ∀ j,
      (readLoop t p bytesRemaining bytesTransferred buf).1 j =
        if bytesTransferred ≤ j ∧ j < bytesTransferred + 8 * ((bytesRemaining + 7) / 8) then
          t.byteAt p j else buf j := by
  intro n
  induction n using Nat.strongRecOn with
  | ind n ih =>
    intro m buf hm j
    rw [readLoop]
    by_cases hn : 0 < n
    · rw [if_pos hn]
      by_cases hlast : n ≤ 8
      · -- the last word
        have hmin : min 8 n = n := by omega
        have hwords : (n + 7) / 8 = 1 := by omega
        rw [hmin, Nat.sub_self, readLoop, if_neg (by omega), hwords]
        exact storeLong_peek t p buf hm j
      · have hmin : min 8 n = 8 := by omega
        rw [hmin, ih (n - 8) (by omega) (m + 8) _ (by omega), storeLong_peek t p buf hm]
        have hwords : (n + 7) / 8 = (n - 8 + 7) / 8 + 1 := by omega
        by_cases h8 : m ≤ j ∧ j < m + 8
        · rw [if_neg (by omega), if_pos h8, if_pos (by omega)]
        · rw [if_neg h8]
          by_cases hrest : m + 8 ≤ j ∧ j < m + 8 + 8 * ((n - 8 + 7) / 8)
          · rw [if_pos hrest, if_pos (by omega)]
          · rw [if_neg hrest, if_neg (by omega)]
    · rw [if_neg hn, if_neg (by omega)]

/-- What `readVariantMem` leaves in its buffer. -/
theorem readVariantMem_byte (t : Tracee) (buf : Buf) (p : Word) {size i : ℕ}
    (hsize : size ≤ BUF_SIZE) (hi : i < size) : (readVariantMem t buf p size).1 i = t.byteAt p i := by
  unfold readVariantMem
  rw [if_neg (by omega)]
  show (readLoop t p size 0 buf).1 i = _
  rw [readLoop_byte t p size 0 buf rfl, if_pos (by omega)]

/-- The bytes the monitor reads depend on the memory alone, where both processes stand still. -/
theorem Tracee.byteAt_congr {s t : Tracee} (hs : s.stopped = t.stopped) (hm : s.mem = t.mem) :
    s.byteAt = t.byteAt := by
  have hpeek : s.peek = t.peek := by
    funext a
    unfold Tracee.peek Tracee.wordMapped
    rw [hs, hm]
  unfold Tracee.byteAt
  rw [hpeek]

/-- The word that is stored where the `socklen_t` at `a` is read: its four bytes, and four more. -/
def Tracee.socklenWord (t : Tracee) (a : Word) : Buf := fun j => if j < 8 then t.byteAt a j else 0

theorem readShort_word (t : Tracee) (a : Word) :
    (readVariantMem t (fun _ => 0) a 4).1 = t.socklenWord a := by
  funext j
  unfold readVariantMem
  rw [if_neg (by decide)]
  show (readLoop t a 4 0 fun _ => 0).1 j = _
  rw [readLoop_byte t a 4 0 _ rfl]
  unfold Tracee.socklenWord
  simp

theorem Tracee.socklenWord_congr {s t : Tracee} (hs : s.stopped = t.stopped) (hm : s.mem = t.mem)
    (a : Word) : s.socklenWord a = t.socklenWord a := by
  unfold Tracee.socklenWord
  rw [Tracee.byteAt_congr hs hm]

/-! ## Decisions -/

/-- Run in `w`, the comparison `m` returns, changes no more than the static buffers, and
says whether `p`. -/
def Decides (m : Mon ρ Bool) (w : World ρ) (p : Prop) : Prop :=
  ∃ b β, m w = .ret b (w.withBufs β) ∧ (b = true ↔ p)

/-- The scalars at the positions `ks` are the same in both calls. -/
def World.SameArgs (w : World ρ) (ks : List (Fin 6)) : Prop :=
  ∀ k ∈ ks, (w.var .master).syscallInfo.arg k = (w.var .replica).syscallInfo.arg k

instance (w : World ρ) (ks : List (Fin 6)) : Decidable (w.SameArgs ks) :=
  inferInstanceAs (Decidable (∀ k ∈ ks, _))

/-- The first `n` bytes delivered from the pointers at position `k` are the same. -/
def World.SameBytes (w : World ρ) (k : Fin 6) (n : ℕ) : Prop :=
  ∀ i < n, (w.proc .master).byteAt ((w.var .master).syscallInfo.arg k) i =
    (w.proc .replica).byteAt ((w.var .replica).syscallInfo.arg k) i

namespace Decides

variable {m : Mon ρ Bool} {w : World ρ} {p q : Prop}

theorem mono (h : Decides m w p) (hpq : p ↔ q) : Decides m w q := by
  obtain ⟨b, β, hm, hb⟩ := h
  exact ⟨b, β, hm, hb.trans hpq⟩

protected theorem pure {b : Bool} (h : b = true ↔ p) : Decides (pure b) w p :=
  ⟨b, w.bufs, rfl, h⟩

theorem gets {f : World ρ → Bool} (h : f w = true ↔ p) : Decides (Prog.gets f) w p :=
  ⟨f w, w.bufs, rfl, h⟩

/-- A look at the state, and then a comparison that depends on it. -/
theorem look {α : Type} {f : World ρ → α} {g : α → Mon ρ Bool} (h : Decides (g (f w)) w p) :
    Decides (Prog.gets f >>= g) w p := h

/-- One comparison, and then another that may depend on its outcome. -/
protected theorem bind {f : Bool → Mon ρ Bool} (hm : Decides m w p)
    (hf : ∀ b β, (b = true ↔ p) → Decides (f b) (w.withBufs β) q) : Decides (m >>= f) w q := by
  obtain ⟨b, β, h, hb⟩ := hm
  obtain ⟨b', γ, h', hb'⟩ := hf b β hb
  exact ⟨b', γ, by rw [Prog.bind_of_ret h, h', World.withBufs_withBufs], hb'⟩

theorem andIf {b : Bool} (hb : b = true ↔ p) (hm : Decides m w q) :
    Decides (andIf b m) w (p ∧ q) := by
  unfold Aurora.andIf
  cases b with
  | false => exact .pure ⟨fun h => absurd h (by decide), fun h => absurd (hb.2 h.1) (by decide)⟩
  | true => exact hm.mono (by simp [hb.1 rfl])

theorem unlessZero {x : Word} (hm : Decides m w p) : Decides (unlessZero x m) w (x ≠ 0 → p) := by
  unfold Aurora.unlessZero
  by_cases hx : x ≠ 0
  · rw [if_pos hx]
    exact hm.mono ⟨fun h _ => h, fun h => h hx⟩
  · rw [if_neg hx]
    exact .pure (by simp [not_not.1 hx])

/-- Two comparisons, both made. -/
theorem both {m' : Mon ρ Bool} (hm : Decides m w p) (hm' : ∀ β, Decides m' (w.withBufs β) q) :
    Decides (do let a ← m; let b ← m'; return a && b) w (p ∧ q) :=
  hm.bind fun a β ha => (hm' β).bind fun b γ hb => .pure (by rw [Bool.and_eq_true, ha, hb])

/-- What is decided is what the run returns. -/
theorem iff_of_ret {b : Bool} {w' : World ρ} (h : Decides m w p) (hm : m w = .ret b w') :
    b = true ↔ p := by
  obtain ⟨b', β, h', hb⟩ := h
  obtain ⟨rfl, -⟩ : b = b' ∧ w' = w.withBufs β := by simpa using hm.symm.trans h'
  exact hb

theorem returns_true_iff (h : Decides m w p) : (∃ w', m w = .ret true w') ↔ p := by
  obtain ⟨b, β, h', hb⟩ := h
  rw [h']
  simpa using hb

theorem ret_true (h : Decides m w p) (hp : p) : ∃ β, m w = .ret true (w.withBufs β) := by
  obtain ⟨b, β, h', hb⟩ := h
  exact ⟨β, by rw [h', hb.2 hp]⟩

theorem ret_false (h : Decides m w p) (hp : ¬ p) : ∃ β, m w = .ret false (w.withBufs β) := by
  obtain ⟨b, β, h', hb⟩ := h
  have hfalse : b = false := Bool.eq_false_iff.2 fun hb' => hp (hb.1 hb')
  exact ⟨β, by rw [h', hfalse]⟩

end Decides

/-! ## Guards -/

theorem guarded_false {eq : Mon ρ Bool} {w w' : World ρ} (h : eq w = .ret false w')
    (body : Mon ρ Int) : guarded eq body w = .ret (-1) w' := by
  unfold guarded
  rw [Prog.bind_of_ret h]
  rfl

theorem guarded_true {eq : Mon ρ Bool} {w w' : World ρ} (h : eq w = .ret true w')
    (body : Mon ρ Int) : guarded eq body w = body w' := by
  unfold guarded
  rw [Prog.bind_of_ret h]
  rfl

/-- An executor that succeeds has found what it compares equal, and has gone on from there. -/
theorem Decides.accepted {eq : Mon ρ Bool} {w w' : World ρ} {p : Prop} {body : Mon ρ Int}
    (h : Decides eq w p) (hrun : guarded eq body w = .ret 0 w') :
    p ∧ ∃ β, body (w.withBufs β) = .ret 0 w' := by
  by_cases hp : p
  · obtain ⟨β, hβ⟩ := h.ret_true hp
    exact ⟨hp, β, by rw [← hrun, guarded_true hβ]⟩
  · obtain ⟨β, hβ⟩ := h.ret_false hp
    rw [guarded_false hβ] at hrun
    exact absurd (Outcome.ret.inj hrun).1 (by decide)

/-! ## Scalars -/

theorem decides_argsEq (ks : List (Fin 6)) (w : World ρ) : Decides (argsEq ks) w (w.SameArgs ks) :=
  .gets (by simp [World.SameArgs])

theorem decides_intArgEq (k : Fin 6) (w : World ρ) : Decides (intArgEq k) w
    (ofInt (toInt ((w.var .master).syscallInfo.arg k)) = (w.var .replica).syscallInfo.arg k) :=
  .gets (by simp)

theorem decides_socklenArgEq (k : Fin 6) (w : World ρ) : Decides (socklenArgEq k) w
    (ofSocklen (toSocklen ((w.var .master).syscallInfo.arg k)) =
      (w.var .replica).syscallInfo.arg k) :=
  .gets (by simp)

/-! ## Memory -/

/-- `memcmp` of what was read finds the bytes that were delivered. -/
theorem memEq_read_iff (t u : Tracee) (a b : Buf) (p q : Word) {n : ℕ} (hn : n ≤ BUF_SIZE) :
    CBuffer.memEq (readVariantMem t a p n).1 (readVariantMem u b q n).1 n = true ↔
      ∀ i < n, t.byteAt p i = u.byteAt q i := by
  rw [CBuffer.memEq_iff]
  refine forall₂_congr fun i hi => ?_
  rw [readVariantMem_byte _ _ _ hn hi, readVariantMem_byte _ _ _ hn hi]

/-- What `variantMemCmp` returns, in terms of its two buffers. -/
theorem variantMemCmp_apply (v₁ : Who) (p : Word) (v₂ : Who) (q : Word) {n : ℕ} (hn : n ≤ BUF_SIZE)
    (w : World ρ) : ∃ β, variantMemCmp v₁ p v₂ q n w =
      .ret (if CBuffer.memEq (readVariantMem (w.proc v₁) (w.bufs .bufA) p n).1
        (readVariantMem (w.proc v₂) (w.bufs .bufB) q n).1 n then 0 else 1) (w.withBufs β) := by
  unfold variantMemCmp
  rw [if_neg (by omega)]
  exact ⟨_, rfl⟩

/-- `variantMemCmp` is zero for equal bytes within the buffer size. -/
theorem decides_memArgEq (k : Fin 6) (n : ℕ) (w : World ρ) :
    Decides (memArgEq k n) w (n ≤ BUF_SIZE ∧ w.SameBytes k n) := by
  unfold memArgEq
  refine .look (.look ?_)
  by_cases hn : BUF_SIZE < n
  · unfold variantMemCmp
    rw [if_pos hn]
    exact ⟨false, w.bufs, rfl, by simp; omega⟩
  · have hle : n ≤ BUF_SIZE := by omega
    obtain ⟨β, hcmp⟩ := variantMemCmp_apply .master ((w.var .master).syscallInfo.arg k) .replica
      ((w.var .replica).syscallInfo.arg k) hle w
    refine ⟨_, β, Prog.bind_of_ret hcmp _, ?_⟩
    rw [and_iff_right hle, World.SameBytes, ← memEq_read_iff _ _ (w.bufs .bufA) (w.bufs .bufB) _ _ hle]
    split <;> simp [*]

/-- A comparison of a size within the buffer decides equality of the bytes. -/
theorem decides_memArgEq_of_le (k : Fin 6) {n : ℕ} (hn : n ≤ BUF_SIZE) (w : World ρ) :
    Decides (memArgEq k n) w (w.SameBytes k n) :=
  (decides_memArgEq k n w).mono (and_iff_right hn)

/-! ## Strings -/

/-- How many bytes `variantStrCmp` compares, if it compares. -/
def strCmpSize : ℕ := BUF_SIZE - 100

/-- There is no terminator among them. -/
def Tracee.NoNul (t : Tracee) (p : Word) : Prop := ∀ i < strCmpSize, t.byteAt p i ≠ 0

/-- What the loop of `variantStrCmp` comes to: `-1` once it sees a terminator; and without
one, the whole buffer and the length of the last read but one. -/
def Tracee.Scanned (t : Tracee) (p : Word) (r : Buf × Option (ℕ × ℕ)) : Prop :=
  (r.2 = none ∧ ¬ t.NoNul p) ∨
    (r.2 = some (BUF_SIZE, strCmpSize) ∧ t.NoNul p ∧ ∀ i < strCmpSize, r.1 i = t.byteAt p i)

/-- The loop, from its `k`-th pass on: so far there was no terminator. -/
theorem strScan_scanned (t : Tracee) (p : Word) : ∀ (j k : ℕ) (buf : Buf), k + j = 99999 →
    (∀ i < 100 * k, t.byteAt p i ≠ 0) → (∀ i < 100 * k, buf i = t.byteAt p i) →
    t.Scanned p (strScan t p (100 * (k + 1)) (100 * k) buf) := by
  intro j
  induction j with
  | zero =>
    intro k buf hk hnul hbuf
    obtain rfl : k = 99999 := by omega
    rw [strScan, if_neg (by decide)]
    exact .inr ⟨rfl, hnul, hbuf⟩
  | succ j ih =>
    intro k buf hk hnul hbuf
    have hsize : 100 * (k + 1) < BUF_SIZE := by unfold BUF_SIZE; omega
    have hbyte : ∀ i < 100 * (k + 1), (readVariantMem t buf p (100 * (k + 1))).1 i = t.byteAt p i :=
      fun i hi => readVariantMem_byte t buf p hsize.le hi
    have hlen := CBuffer.strnlen_le (readVariantMem t buf p (100 * (k + 1))).1 (100 * (k + 1))
    rw [strScan, if_pos hsize, if_neg (by omega)]
    by_cases hfull : CBuffer.strnlen (readVariantMem t buf p (100 * (k + 1))).1 (100 * (k + 1)) =
        100 * (k + 1)
    · rw [if_pos hfull, hfull]
      refine ih (k + 1) _ (by omega) (fun i hi => ?_) hbyte
      rw [← hbyte i hi]
      exact CBuffer.strnlen_eq_iff.1 hfull i hi
    · rw [if_neg hfull]
      have hlt := lt_of_le_of_ne hlen hfull
      refine .inl ⟨rfl, fun h => h _ ?_ ((hbyte _ hlt).symm.trans (CBuffer.eq_zero_of_strnlen_lt hlt))⟩
      unfold strCmpSize BUF_SIZE
      omega

/-- What `variantStrCmp` accepts: no terminator in the first strings' bytes, and the same
bytes in both. -/
def World.SameString (w : World ρ) (k : Fin 6) : Prop :=
  (w.proc .master).NoNul ((w.var .master).syscallInfo.arg k) ∧ w.SameBytes k strCmpSize

/-- What `variantStrCmp` returns, in terms of what its loop comes to. -/
theorem variantStrCmp_apply {v₁ : Who} {p : Word} (v₂ : Who) (q : Word) {w : World ρ} {bufA : Buf}
    {scanned : Option (ℕ × ℕ)} (h : strScan (w.proc v₁) p 100 0 (fun _ => 0) = (bufA, scanned)) :
    ∃ β, variantStrCmp v₁ p v₂ q w = .ret (match scanned with
      | none => -1
      | some (curSize, stringLen) => if CBuffer.strncmpEq bufA
          (readVariantMem (w.proc v₂) (fun _ => 0) q curSize).1 stringLen then 0 else 1)
      (w.withBufs β) := by
  unfold variantStrCmp
  have hloop : Prog.gets (fun w' : World ρ => strScan (w'.proc v₁) p 100 0 (w'.bufs .bufA))
      (w.withBufs (Function.update (Function.update w.bufs .bufA fun _ => 0) .bufB fun _ => 0)) =
        .ret (bufA, scanned) _ := congrArg (Outcome.ret · _) h
  rw [Prog.bind_of_ret (Prog.modify_apply _ w), Prog.bind_of_ret hloop]
  cases scanned with
  | none => exact ⟨_, rfl⟩
  | some lengths => exact ⟨_, rfl⟩

/-- `variantStrCmp` is zero for strings without an end that are equal as far as it looks. -/
theorem decides_strArgEq (k : Fin 6) (w : World ρ) : Decides (strArgEq k) w (w.SameString k) := by
  unfold strArgEq
  refine .look (.look ?_)
  have hscan := strScan_scanned (w.proc .master) ((w.var .master).syscallInfo.arg k) 99999 0
    (fun _ => 0) rfl (by simp) (by simp)
  obtain ⟨β, hcmp⟩ := variantStrCmp_apply .replica ((w.var .replica).syscallInfo.arg k)
    (w := w) rfl
  refine ⟨_, β, Prog.bind_of_ret hcmp _, ?_⟩
  rcases hscan with ⟨hnone, hnul⟩ | ⟨hsome, hnul, hbytes⟩
  · rw [hnone]
    exact iff_of_false (by simp) fun h => hnul h.1
  · have hsize : strCmpSize < BUF_SIZE := by decide
    have hread : ∀ i < strCmpSize, (readVariantMem (w.proc .replica) (fun _ => 0)
        ((w.var .replica).syscallInfo.arg k) BUF_SIZE).1 i = _ :=
      fun i hi => readVariantMem_byte _ _ _ (le_refl _) (hi.trans hsize)
    have hsame : CBuffer.strncmpEq
        (strScan (w.proc .master) ((w.var .master).syscallInfo.arg k) 100 0 fun _ => 0).1
        (readVariantMem (w.proc .replica) (fun _ => 0) ((w.var .replica).syscallInfo.arg k) BUF_SIZE).1
        strCmpSize = true ↔ w.SameString k := by
      rw [CBuffer.strncmpEq_iff_of_chars fun i hi => by rw [hbytes i hi]; exact hnul i hi]
      refine (forall₂_congr fun i hi => ?_).trans (and_iff_right hnul).symm
      rw [hbytes i hi, hread i hi]
    have hzero : ∀ b : Bool, ((if b then (0 : Int) else 1) == 0) = true ↔ b = true := by decide
    rw [hsome, ← hsame]
    exact hzero _

end Aurora
