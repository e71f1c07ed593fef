import Mathlib

/-!
# C buffers, and moving them a machine word at a time

A buffer is a map from offsets to bytes; what lies past its end is simply not
looked at.  The file gives the string and memory functions of the C library
their meaning over such buffers, and the two ways a word-granular channel fills
one: `storeLong` puts one eight-byte word at a word index, as the assignment
`((long *) buf)[i] = x` does.

* `memEq`, `strnlen`, `strncmpEq` — `memcmp(..) == 0`, `strnlen` and
  `strncmp(..) == 0`, each with the facts that say what it decides.
* `Long` — the eight bytes of a `long`, least significant first.
-/

/-- An eight-bit byte. -/
abbrev Byte := BitVec 8

/-- A buffer, as the bytes found at each offset from its start. -/
abbrev Buf := ℕ → Byte

/-- A `long`, as its eight bytes in memory order. -/
abbrev Long := Fin 8 → Byte

namespace CBuffer

theorem mod_eight_lt (i : ℕ) : i % 8 < 8 := Nat.mod_lt i (by norm_num)

/-- `((long *) buf)[i] = d`. -/
def storeLong (buf : Buf) (i : ℕ) (d : Long) : Buf := fun j =>
  if j / 8 = i then d ⟨j % 8, mod_eight_lt j⟩ else buf j

/-- The `long` at word index `i`. -/
def loadLong (buf : Buf) (i : ℕ) : Long := fun k => buf (8 * i + k)

/-- The number a `long` stands for. -/
def word (d : Long) : BitVec 64 :=
  BitVec.ofNat 64 ((List.ofFn d).foldr (fun b n => b.toNat + 256 * n) 0)

/-- `memcpy(&data, buf, n)` for a `long data` and `n` below eight. -/
def overlay (data : Long) (buf : Buf) (n : ℕ) : Long := fun k =>
  if (k : ℕ) < n then buf k else data k

/-! ## Memory and string comparison -/

/-- `memcmp(a, b, n) == 0`. -/
def memEq (a b : Buf) (n : ℕ) : Bool := decide (∀ i < n, a i = b i)

theorem memEq_iff {a b : Buf} {n : ℕ} : memEq a b n = true ↔ ∀ i < n, a i = b i := by
  simp [memEq]

/-- `strnlen(a, n)`: the offset of the first NUL byte among the first `n`, or `n`. -/
def strnlen (a : Buf) : ℕ → ℕ
  | 0 => 0
  | n + 1 => if strnlen a n < n then strnlen a n else if a n = 0 then n else n + 1

theorem strnlen_le (a : Buf) (n : ℕ) : strnlen a n ≤ n := by
  induction n with
  | zero => simp [strnlen]
  | succ n ih =>
    rw [strnlen]
    split
    · omega
    · split <;> omega

/-- `strncmp(a, b, n) == 0`: equal at every offset before `n` that no NUL precedes. -/
def strncmpEq (a b : Buf) (n : ℕ) : Bool :=
  decide (∀ i < n, (∀ j < i, a j ≠ 0) → a i = b i)

theorem strncmpEq_iff {a b : Buf} {n : ℕ} :
    strncmpEq a b n = true ↔ ∀ i < n, (∀ j < i, a j ≠ 0) → a i = b i := by
  simp [strncmpEq]

/-- Without a NUL in the first buffer it compares all the bytes. -/
theorem strncmpEq_iff_of_chars {a b : Buf} {n : ℕ} (h : ∀ i < n, a i ≠ 0) :
    strncmpEq a b n = true ↔ ∀ i < n, a i = b i := by
  rw [strncmpEq_iff]
  exact ⟨fun hsame i hi => hsame i hi fun j hj => h j (hj.trans hi), fun hsame i hi _ => hsame i hi⟩

/-- No NUL is met before the length `strnlen` reports. -/
theorem ne_zero_of_lt_strnlen {a : Buf} {n i : ℕ} (h : i < strnlen a n) : a i ≠ 0 := by
  induction n with
  | zero => simp [strnlen] at h
  | succ n ih =>
    rw [strnlen] at h
    split at h
    · exact ih h
    · rename_i hfull
      have hn : strnlen a n = n := le_antisymm (strnlen_le a n) (not_lt.1 hfull)
      split at h
      · exact ih (by omega)
      · rename_i hne
        by_cases hi : i < n
        · exact ih (by omega)
        · rwa [show i = n by omega]

/-- A length below the bound means the NUL was found there. -/
theorem eq_zero_of_strnlen_lt {a : Buf} {n : ℕ} (h : strnlen a n < n) : a (strnlen a n) = 0 := by
  induction n with
  | zero => exact absurd h (Nat.not_lt_zero _)
  | succ n ih =>
    rw [strnlen] at h ⊢
    split
    · rename_i hlt
      exact ih hlt
    · rename_i hfull
      rw [if_neg hfull] at h
      split
      · assumption
      · rename_i hne
        rw [if_neg hne] at h
        omega

/-- Where the first NUL lies before the bound, that is the length. -/
theorem strnlen_eq_of_end {a : Buf} {n m : ℕ} (hm : n < m) (hchars : ∀ i < n, a i ≠ 0)
    (hend : a n = 0) : strnlen a m = n := by
  rcases lt_trichotomy (strnlen a m) n with hlt | heq | hgt
  · exact absurd (eq_zero_of_strnlen_lt (hlt.trans hm)) (hchars _ hlt)
  · exact heq
  · exact absurd hend (ne_zero_of_lt_strnlen hgt)

/-- The length is the bound exactly if there is no NUL before it. -/
theorem strnlen_eq_iff {a : Buf} {n : ℕ} : strnlen a n = n ↔ ∀ i < n, a i ≠ 0 := by
  constructor
  · intro h i hi
    exact ne_zero_of_lt_strnlen (n := n) (by omega)
  · intro h
    by_contra hne
    have hlt : strnlen a n < n := lt_of_le_of_ne (strnlen_le a n) hne
    exact h _ hlt (eq_zero_of_strnlen_lt hlt)

end CBuffer
