import AuroraMVEE.Replication
import AuroraMVEE.Requests

/-!
# Situations the kernel cannot tell apart

Two variants come to the entry of a call.  What the kernel will make of it depends on the
scalars, on which pointers are given, and on the bytes it reads behind them.  The monitor may
look at more: at bytes the kernel only writes, at bytes past what it reads, and at whether these
are mapped.

* `KernelAgrees` — two such situations are the same to the kernel.
* `World.MayGet` — a word that the monitor may be delivered in some situation of the kind.
* `KernelAgrees.mayGet` — it is delivered no other.
* `exists_agreeing` — and all of them, in any combination: the buffers may lie anywhere, so a
  situation can be laid out anew around any choice of words.
-/

namespace Aurora

variable {ρ : Type}

/-- The executors in question. -/
def independentCalls : List Syscall := [.getcwd, .poll, .pselect6, .accept4, .getsockname]

/-! ## What the kernel reads -/

/-- The scalar arguments. -/
def scalarArgs : Syscall → List (Fin 6)
  | .getcwd => [1]
  | .poll => [1, 2]
  | .accept4 => [0, 3]
  | _ => [0]

/-- The pointer arguments. -/
def pointerArgs : Syscall → List (Fin 6)
  | .getcwd | .poll => [0]
  | .pselect6 => [1, 2, 3, 4, 5]
  | _ => [1, 2]

/-- The pointer arguments behind which the executor compares bytes. -/
def comparedArgs : Syscall → List (Fin 6)
  | .getcwd | .poll => [0]
  | .pselect6 => [1, 2, 3, 4, 5]
  | _ => [2]

/-- The offsets that the kernel reads behind a pointer: of a `pollfd` the descriptor and the
events; of a set what `nfds` asks for; of the sixth argument of `pselect6` the length. -/
def readOffset (c : Syscall) (k : Fin 6) (scalar : Fin 6 → Word) (i : ℕ) : Prop :=
  match c with
  | .poll => i < 8 * ((scalar 1).setWidth 32).toNat ∧ i % 8 < 6
  | .pselect6 => if k = 4 then i < sizeofTimespec else if k = 5 then 8 ≤ i ∧ i < 16
      else i < fdsBytes (toInt (scalar 0))
  | .accept4 | .getsockname => i < sizeofSocklen
  | _ => False

/-- The offsets of which the kernel finds out whether they are mapped: besides those it reads, the
`revents` that it writes, and the pointer to the mask. -/
def touchOffset (c : Syscall) (k : Fin 6) (scalar : Fin 6 → Word) (i : ℕ) : Prop :=
  readOffset c k scalar i ∨ match c with
    | .poll => i < 8 * ((scalar 1).setWidth 32).toNat
    | .pselect6 => k = 5 ∧ i < 16
    | _ => False

/-- No buffer lies in the first page. -/
def zeroPage : ℕ := 4096

/-- What is at offset `i` behind position `k` is what the kernel reads there; behind a `NULL`,
what is in the first page. -/
def World.reads (w : World ρ) (c : Syscall) (v : Who) (k : Fin 6) (i : ℕ) : Prop :=
  if (w.var v).syscallInfo.arg k = 0 then i < zeroPage else readOffset c k (w.var v).syscallInfo.arg i

/-- Whether something is there the kernel finds out. -/
def World.touches (w : World ρ) (c : Syscall) (v : Who) (k : Fin 6) (i : ℕ) : Prop :=
  if (w.var v).syscallInfo.arg k = 0 then i < zeroPage else touchOffset c k (w.var v).syscallInfo.arg i

/-- The sixth argument of `pselect6` leads the kernel to a mask: the pair is there, its pointer is
given, and its length is that of the kernel's masks. -/
def World.ReadsMask (w : World ρ) (v : Who) : Prop :=
  (∀ i < 16, (w.cell v 5 i).isSome) ∧ w.wordAt v 5 0 ≠ 0 ∧ w.wordAt v 5 8 = 8

/-- The masks of `pselect6` are the same to the kernel. -/
structure SameMasks (w w' : World ρ) (v : Who) : Prop where
  null : (∀ i < 8, (w.cell v 5 i).isSome) → (w'.wordAt v 5 0 = 0 ↔ w.wordAt v 5 0 = 0)
  bytes : w.ReadsMask v → ∀ i < 8, (w'.proc v).mem (w'.wordAt v 5 0 + BitVec.ofNat 64 i) =
    (w.proc v).mem (w.wordAt v 5 0 + BitVec.ofNat 64 i)

/-- `w'` is another situation at the entry of `c`, with the same monitor, that the kernel cannot tell
from `w`, in either variant. -/
structure KernelAgrees (c : Syscall) (w w' : World ρ) : Prop where
  arrived : w'.Arrived c
  image : w'.image = w.image
  scalars : ∀ v, ∀ k ∈ scalarArgs c, (w'.var v).syscallInfo.arg k = (w.var v).syscallInfo.arg k
  given : ∀ v, ∀ k ∈ pointerArgs c,
    ((w'.var v).syscallInfo.arg k = 0 ↔ (w.var v).syscallInfo.arg k = 0)
  zero : ∀ v (a : Word), a.toNat < zeroPage → (w'.proc v).mem a = (w.proc v).mem a
  bytes : ∀ v, ∀ k ∈ comparedArgs c, ∀ i, w.reads c v k i → w'.cell v k i = w.cell v k i
  there : ∀ v, ∀ k ∈ comparedArgs c, ∀ i, w.touches c v k i →
    ((w'.cell v k i).isSome ↔ (w.cell v k i).isSome)
  masks : c = .pselect6 → ∀ v, (w.var v).syscallInfo.arg 5 ≠ 0 → SameMasks w w' v

theorem World.Arrived.stopped {w : World ρ} {c : Syscall} (h : w.Arrived c) (v : Who) :
    (w.proc v).stopped = true := stopped_of_atEntry (h.rendezvous.atEntry v)

theorem reads_touches {w : World ρ} {c : Syscall} {v : Who} {k : Fin 6} {i : ℕ}
    (h : w.reads c v k i) : w.touches c v k i := by
  unfold World.reads at h
  unfold World.touches
  split
  · next h0 => rwa [if_pos h0] at h
  · next h0 =>
    rw [if_neg h0] at h
    exact .inl h

/-! ## What the monitor is delivered -/

/-- What `PTRACE_PEEKDATA` answers for the word number `j` behind position `k`. -/
def World.long (w : World ρ) (v : Who) (k : Fin 6) (j : ℕ) : Long :=
  (w.proc v).peek ((w.var v).syscallInfo.arg k + BitVec.ofNat 64 (8 * j))

/-- The answer for a word that cannot be read. -/
def minusOne : Long := fun _ => 0xff

section

variable {w w' : World ρ} {c : Syscall} {v : Who} {k : Fin 6} {j : ℕ}

theorem wordMapped_iff : (w.proc v).wordMapped ((w.var v).syscallInfo.arg k + BitVec.ofNat 64 (8 * j)) =
    true ↔ ∀ b : Fin 8, (w.cell v k (8 * j + b)).isSome := by
  unfold Tracee.wordMapped World.cell
  simp only [BitVec.ofNat_add, BitVec.add_assoc, decide_eq_true_eq]

theorem long_of_mapped (hs : (w.proc v).stopped = true)
    (h : ∀ b : Fin 8, (w.cell v k (8 * j + b)).isSome) (b : Fin 8) :
    some (w.long v k j b) = w.cell v k (8 * j + b) := by
  have hmapped := wordMapped_iff.2 h
  obtain ⟨x, hx⟩ := Option.isSome_iff_exists.1 (h b)
  unfold World.long Tracee.peek
  rw [if_pos (by rw [hs, hmapped]; rfl), BitVec.add_assoc, ← BitVec.ofNat_add, hx]
  unfold World.cell at hx
  rw [hx]
  rfl

theorem wordAt_of_mapped (hs : (w.proc v).stopped = true)
    (h : ∀ b : Fin 8, (w.cell v k (8 * 0 + b)).isSome) : w.wordAt v k 0 = CBuffer.word (w.long v k 0) := by
  unfold World.wordAt
  congr 1
  funext b
  rw [show 0 + (b : ℕ) = 8 * 0 + b by omega, ← long_of_mapped hs h b, Option.getD_some]

theorem long_of_hole {b : Fin 8} (h : w.cell v k (8 * j + b) = none) : w.long v k j = minusOne := by
  have hmapped : (w.proc v).wordMapped ((w.var v).syscallInfo.arg k + BitVec.ofNat 64 (8 * j)) = false := by
    rw [← Bool.not_eq_true, wordMapped_iff]
    intro hall
    have := hall b
    rw [h] at this
    exact absurd this (by decide)
  unfold World.long Tracee.peek
  rw [hmapped, Bool.and_false]
  rfl

/-- The bytes of `d` are there, as far as the kernel can tell. -/
def World.FitsWord (w : World ρ) (c : Syscall) (v : Who) (k : Fin 6) (j : ℕ) (d : Long) : Prop :=
  ∀ b : Fin 8, (w.touches c v k (8 * j + b) → (w.cell v k (8 * j + b)).isSome) ∧
    (w.reads c v k (8 * j + b) → w.cell v k (8 * j + b) = some (d b))

/-- Some byte of the word is not there, or the kernel cannot tell. -/
def World.MayMiss (w : World ρ) (c : Syscall) (v : Who) (k : Fin 6) (j : ℕ) : Prop :=
  ∃ b : Fin 8, w.touches c v k (8 * j + b) → w.cell v k (8 * j + b) = none

/-- The pointer to the mask may be `d`: it is `NULL` or not as before, and where it leads into the
first page, the mask is there. -/
structure World.MayPoint (w : World ρ) (v : Who) (d : Long) : Prop where
  null : CBuffer.word d = 0 ↔ w.wordAt v 5 0 = 0
  bytes : w.ReadsMask v → ∀ i < 8, (CBuffer.word d + BitVec.ofNat 64 i).toNat < zeroPage →
    (w.proc v).mem (CBuffer.word d + BitVec.ofNat 64 i) =
      (w.proc v).mem (w.wordAt v 5 0 + BitVec.ofNat 64 i)

/-- The word that holds the pointer to the mask. -/
def World.PointsToMask (w : World ρ) (c : Syscall) (v : Who) (k : Fin 6) (j : ℕ) : Prop :=
  c = .pselect6 ∧ k = 5 ∧ j = 0 ∧ (w.var v).syscallInfo.arg 5 ≠ 0

/-- For the word number `j` behind position `k` the monitor may be delivered `d`: its bytes, with
anything in the place of those that the kernel does not read; or `-1`. -/
def World.MayGet (w : World ρ) (c : Syscall) (v : Who) (k : Fin 6) (j : ℕ) (d : Long) : Prop :=
  (w.FitsWord c v k j d ∧ (w.PointsToMask c v k j → w.MayPoint v d)) ∨
    (d = minusOne ∧ w.MayMiss c v k j)

end

namespace KernelAgrees

variable {w w' : World ρ} {c : Syscall} (h : KernelAgrees c w w')

include h

/-- What may be delivered in some situation like `w` is all that is delivered. -/
theorem mayGet (v : Who) {k : Fin 6} (hk : k ∈ comparedArgs c) (j : ℕ) :
    w.MayGet c v k j (w'.long v k j) := by
  by_cases hall : ∀ b : Fin 8, (w'.cell v k (8 * j + b)).isSome
  · have hlong := long_of_mapped (h.arrived.stopped v) hall
    refine .inl ⟨fun b => ⟨fun ht => (h.there v k hk _ ht).1 (hall b), fun hr => ?_⟩, ?_⟩
    · rw [← h.bytes v k hk _ hr, hlong b]
    · rintro ⟨rfl, rfl, rfl, hgiven⟩
      have hmasks := h.masks rfl v hgiven
      have hword := wordAt_of_mapped (h.arrived.stopped v) hall
      have hthere : ∀ i < 8, (w.cell v 5 i).isSome := fun i hi => by
        have hmapped := hall ⟨i, hi⟩
        rw [show 8 * 0 + i = i by omega] at hmapped
        refine (h.there v 5 hk i ?_).1 hmapped
        unfold World.touches
        rw [if_neg hgiven]
        exact .inr ⟨rfl, by omega⟩
      refine ⟨by rw [← hword]; exact hmasks.null hthere, fun hreads i hi hlow => ?_⟩
      rw [← h.zero v _ hlow, ← hword]
      exact hmasks.bytes hreads i hi
  · obtain ⟨b, hb⟩ := not_forall.1 hall
    have hhole : w'.cell v k (8 * j + b) = none := Option.not_isSome_iff_eq_none.1 hb
    refine .inr ⟨long_of_hole hhole, b, fun ht => ?_⟩
    rw [← Option.not_isSome_iff_eq_none, ← h.there v k hk _ ht]
    exact hb

end KernelAgrees

/-! ## What the executor compares -/

/-- How many bytes are compared behind position `k`. -/
def compares (c : Syscall) (k : Fin 6) (scalar : Fin 6 → Word) : ℕ :=
  match c with
  | .getcwd => strCmpSize
  | .poll => (scalar 1 * sizeofPollfd).toNat
  | .pselect6 => if k = 4 then sizeofTimespec else sizeofFdSet
  | _ => sizeofSocklen

/-- Some of the word number `j` behind position `k` is compared. -/
def World.Compared (w : World ρ) (c : Syscall) (k : Fin 6) (j : ℕ) : Prop :=
  k ∈ comparedArgs c ∧ 8 * j < compares c k (w.var .master).syscallInfo.arg

/-! ## Laid out anew -/

/-- The buffers are put into regions of this size. -/
def regionSize : ℕ := 2 ^ 36

/-- Where the region number `n` starts. -/
def region (n : ℕ) : Word := BitVec.ofNat 64 (n * regionSize)

/-- The first region in use, such that none of those in use comes near the mask at `p`. -/
def firstRegion (p : Word) : ℕ := if p.toNat < 8 * regionSize then 9 else 1

/-- The buffer that lies at the address `a`; at the start of the memory, the one behind a `NULL`. -/
def bufferAt (c : Syscall) (p a : Word) : Fin 6 :=
  if a.toNat < regionSize then (comparedArgs c).headD 0
  else Fin.ofNat 6 (a.toNat / regionSize - firstRegion p)

theorem region_add {n i : ℕ} (hn : n < 16) (hi : i < regionSize) :
    (region n + BitVec.ofNat 64 i).toNat = n * regionSize + i := by
  unfold region regionSize at *
  rw [BitVec.toNat_add, BitVec.toNat_ofNat, BitVec.toNat_ofNat]
  omega

section

variable (p : Word) (k : Fin 6)

theorem firstRegion_add_lt : firstRegion p + k < 16 ∧ 0 < firstRegion p := by
  unfold firstRegion
  split <;> omega

/-- No buffer comes near the mask. -/
theorem region_apart {i : ℕ} (hi : i < regionSize) :
    8 ≤ (region (firstRegion p + k) + BitVec.ofNat 64 i - p).toNat := by
  have haddr := region_add (firstRegion_add_lt p k).1 hi
  rw [BitVec.toNat_sub, haddr]
  have hp := p.isLt
  have hk := k.isLt
  unfold firstRegion regionSize at *
  split <;> omega

theorem bufferAt_region (c : Syscall) {i : ℕ} (hi : i < regionSize) :
    bufferAt c p (region (firstRegion p + k) + BitVec.ofNat 64 i) = k ∧
      (region (firstRegion p + k) + BitVec.ofNat 64 i).toNat % regionSize = i ∧
      regionSize ≤ (region (firstRegion p + k) + BitVec.ofNat 64 i).toNat := by
  obtain ⟨hlt, hpos⟩ := firstRegion_add_lt p k
  have haddr := region_add hlt hi
  have hle : regionSize ≤ (firstRegion p + k) * regionSize + i :=
    (Nat.le_mul_of_pos_left _ (by omega)).trans (Nat.le_add_right _ _)
  have hdiv : ((firstRegion p + k) * regionSize + i) / regionSize = firstRegion p + k := by
    rw [Nat.mul_comm, Nat.mul_add_div (by decide), Nat.div_eq_of_lt hi, Nat.add_zero]
  refine ⟨?_, ?_, by rwa [haddr]⟩
  · unfold bufferAt
    rw [haddr, if_neg (not_lt.2 hle), hdiv, Nat.add_sub_cancel_left]
    exact Fin.ofNat_val_eq_self k
  · rw [haddr, Nat.mul_comm, Nat.mul_add_mod, Nat.mod_eq_of_lt hi]

end

section Layout

open Classical in
/-- What is put at offset `i` behind position `k`, so that the words `d` are delivered. -/
noncomputable def World.content (w : World ρ) (c : Syscall) (v : Who) (d : Fin 6 → ℕ → Long) (k : Fin 6)
    (i : ℕ) : Option Byte :=
  if w.Compared c k (i / 8) then
    if w.FitsWord c v k (i / 8) (d k (i / 8)) then some (d k (i / 8) ⟨i % 8, CBuffer.mod_eight_lt i⟩)
    else if w.touches c v k i then w.cell v k i else none
  else w.cell v k i

open Classical in
/-- The memory of `v`, laid out anew: the first page as it is, the mask where the pointer in `d` says,
and the buffers in regions of their own. -/
noncomputable def World.laidOut (w : World ρ) (c : Syscall) (v : Who) (d : Fin 6 → ℕ → Long) : Mem :=
  fun a =>
    if a.toNat < zeroPage then (w.proc v).mem a
    else if c = .pselect6 ∧ w.ReadsMask v ∧ (a - CBuffer.word (d 5 0)).toNat < 8 then
      (w.proc v).mem (w.wordAt v 5 0 + (a - CBuffer.word (d 5 0)))
    else w.content c v d (bufferAt c (CBuffer.word (d 5 0)) a) (a.toNat % regionSize)

/-- The arguments that go with it. -/
def World.newArg (w : World ρ) (c : Syscall) (v : Who) (d : Fin 6 → ℕ → Long) (k : Fin 6) : Word :=
  if k ∈ comparedArgs c ∧ (w.var v).syscallInfo.arg k ≠ 0 then
    region (firstRegion (CBuffer.word (d 5 0)) + k)
  else (w.var v).syscallInfo.arg k

/-- The situation `w` laid out anew, so that the words `d` are delivered. -/
noncomputable def World.relaid (w : World ρ) (c : Syscall) (d : Who → Fin 6 → ℕ → Long) : World ρ :=
  { World.standing (fun v => callRegs c.nr (w.newArg c v (d v))) (fun v => w.laidOut c v (d v)) w.os with
    image := w.image }

variable {w : World ρ} {c : Syscall} {v : Who} {k : Fin 6} {j : ℕ}

section Content

variable {d : Fin 6 → ℕ → Long}

open Classical in
theorem content_word (b : Fin 8) : w.content c v d k (8 * j + b) =
    if w.Compared c k j then
      if w.FitsWord c v k j (d k j) then some (d k j b)
      else if w.touches c v k (8 * j + b) then w.cell v k (8 * j + b) else none
    else w.cell v k (8 * j + b) := by
  have hdiv : (8 * j + b) / 8 = j := by omega
  have hmod : (⟨(8 * j + b) % 8, CBuffer.mod_eight_lt _⟩ : Fin 8) = b := Fin.ext (by simp)
  unfold World.content
  rw [hdiv, hmod]

theorem content_of_fits (hc : w.Compared c k j) (hf : w.FitsWord c v k j (d k j)) (b : Fin 8) :
    w.content c v d k (8 * j + b) = some (d k j b) := by
  rw [content_word, if_pos hc, if_pos hf]

theorem content_of_miss (hc : w.Compared c k j) (hf : ¬ w.FitsWord c v k j (d k j))
    (hm : w.MayMiss c v k j) : ∃ b : Fin 8, w.content c v d k (8 * j + b) = none := by
  obtain ⟨b, hb⟩ := hm
  refine ⟨b, ?_⟩
  rw [content_word, if_pos hc, if_neg hf]
  split
  · next ht => exact hb ht
  · rfl

theorem content_of_reads {i : ℕ} (h : w.reads c v k i) : w.content c v d k i = w.cell v k i := by
  obtain ⟨j, b, rfl⟩ : ∃ j, ∃ b : Fin 8, i = 8 * j + b :=
    ⟨i / 8, ⟨i % 8, CBuffer.mod_eight_lt i⟩, (Nat.div_add_mod i 8).symm⟩
  rw [content_word, if_pos (reads_touches h)]
  split
  · split
    · next hf => exact ((hf b).2 h).symm
    · rfl
  · rfl

theorem content_isSome {i : ℕ} (h : w.touches c v k i) :
    (w.content c v d k i).isSome ↔ (w.cell v k i).isSome := by
  obtain ⟨j, b, rfl⟩ : ∃ j, ∃ b : Fin 8, i = 8 * j + b :=
    ⟨i / 8, ⟨i % 8, CBuffer.mod_eight_lt i⟩, (Nat.div_add_mod i 8).symm⟩
  rw [content_word, if_pos h]
  split
  · split
    · next hf => exact iff_of_true rfl ((hf b).1 h)
    · rfl
  · rfl

end Content

variable {d : Who → Fin 6 → ℕ → Long}

theorem relaid_arg (v : Who) (k : Fin 6) :
    ((w.relaid c d).var v).syscallInfo.arg k = w.newArg c v (d v) k := by
  fin_cases k <;> rfl

theorem relaid_arrived : (w.relaid c d).Arrived c :=
  ⟨rendezvous_standing c (fun v => w.newArg c v (d v)) (fun v => w.laidOut c v (d v)) w.os, fun _ => rfl⟩

/-- The only buffer of its call may be one behind a `NULL`. -/
theorem comparedArgs_only (hc : c ≠ .pselect6) (hk : k ∈ comparedArgs c) :
    (comparedArgs c).headD 0 = k := by
  cases c <;> simp_all [comparedArgs]

/-- The buffers have the contents they were given. -/
theorem relaid_cell (hk : k ∈ comparedArgs c) {i : ℕ} (hi : i < regionSize)
    (hnull : (w.var v).syscallInfo.arg k = 0 → i < zeroPage ∨ c ≠ .pselect6) :
    (w.relaid c d).cell v k i = w.content c v (d v) k i := by
  have hcell : (w.relaid c d).cell v k i =
      w.laidOut c v (d v) (w.newArg c v (d v) k + BitVec.ofNat 64 i) := by
    unfold World.cell
    rw [relaid_arg]
    rfl
  rw [hcell]
  by_cases h0 : (w.var v).syscallInfo.arg k = 0
  · have harg : w.newArg c v (d v) k = 0 := by
      unfold World.newArg
      rw [if_neg fun h => h.2 h0, h0]
    have haddr : (0 + BitVec.ofNat 64 i : Word).toNat = i := by
      unfold regionSize at hi
      rw [zero_add, BitVec.toNat_ofNat]
      omega
    unfold World.laidOut
    rw [harg, haddr]
    by_cases hlow : i < zeroPage
    · have hreads : w.reads c v k i := by
        unfold World.reads
        rwa [if_pos h0]
      rw [if_pos hlow, content_of_reads hreads]
      unfold World.cell
      rw [h0]
    · have hc : c ≠ .pselect6 := (hnull h0).resolve_left hlow
      rw [if_neg hlow, if_neg fun h => hc h.1, Nat.mod_eq_of_lt hi]
      unfold bufferAt
      rw [haddr, if_pos hi, comparedArgs_only hc hk]
  · have harg : w.newArg c v (d v) k = region (firstRegion (CBuffer.word (d v 5 0)) + k) := if_pos ⟨hk, h0⟩
    obtain ⟨hbuffer, hoff, hhigh⟩ := bufferAt_region (CBuffer.word (d v 5 0)) k c hi
    have hapart := region_apart (CBuffer.word (d v 5 0)) k hi
    have hpage : zeroPage ≤ regionSize := by decide
    unfold World.laidOut
    rw [harg, hbuffer, hoff, if_neg (by omega), if_neg (by omega)]

/-- What the kernel looks at lies in the region of its buffer. -/
theorem touchOffset_lt {scalar : Fin 6 → Word} {i : ℕ} (h : touchOffset c k scalar i) : i < regionSize := by
  have hfds : fdsBytes (toInt (scalar 0)) < regionSize := by
    have hlt := (toInt (scalar 0)).isLt
    unfold fdsBytes regionSize
    split <;> omega
  have hpoll := ((scalar 1).setWidth 32).isLt
  have hsmall : sizeofTimespec < regionSize ∧ sizeofSocklen < regionSize := by decide
  unfold regionSize at *
  unfold touchOffset readOffset at h
  cases c
  case pselect6 =>
    rcases h with h | ⟨-, h⟩
    · simp only at h
      split at h
      · omega
      · split at h <;> omega
    · omega
  case poll => omega
  case accept4 | getsockname =>
    have h : i < sizeofSocklen ∨ False := h
    exact (h.resolve_right id).trans hsmall.2
  all_goals simp at h

theorem touches_lt {i : ℕ} (h : w.touches c v k i) :
    i < regionSize ∧ ((w.var v).syscallInfo.arg k = 0 → i < zeroPage) := by
  unfold World.touches at h
  split at h
  · exact ⟨h.trans (by decide), fun _ => h⟩
  · next h0 => exact ⟨touchOffset_lt h, fun h0' => absurd h0' h0⟩

theorem relaid_cell_of_touches (hk : k ∈ comparedArgs c) {i : ℕ} (h : w.touches c v k i) :
    (w.relaid c d).cell v k i = w.content c v (d v) k i :=
  relaid_cell hk (touches_lt h).1 fun h0 => .inl ((touches_lt h).2 h0)

/-- The words are delivered. -/
theorem relaid_long (hsize : compares c k (w.var .master).syscallInfo.arg ≤ BUF_SIZE)
    (hc : w.Compared c k j) (hget : w.MayGet c v k j (d v k j)) : (w.relaid c d).long v k j = d v k j := by
  have hlt : 8 * j < BUF_SIZE := hc.2.trans_le hsize
  have hset : c = .pselect6 → 8 * j < 128 := by
    rintro rfl
    refine hc.2.trans_le ?_
    show (if k = 4 then sizeofTimespec else sizeofFdSet) ≤ 128
    split <;> decide
  have hcell : ∀ b : Fin 8, (w.relaid c d).cell v k (8 * j + b) = w.content c v (d v) k (8 * j + b) := by
    intro b
    refine relaid_cell hc.1 ?_ fun _ => ?_
    · unfold BUF_SIZE at hlt
      unfold regionSize
      omega
    · by_cases hpselect : c = .pselect6
      · have := hset hpselect
        unfold zeroPage
        exact .inl (by omega)
      · exact .inr hpselect
  by_cases hfits : w.FitsWord c v k j (d v k j)
  · have hall : ∀ b : Fin 8, (w.relaid c d).cell v k (8 * j + b) = some (d v k j b) := fun b =>
      (hcell b).trans (content_of_fits hc hfits b)
    have hlong := long_of_mapped (relaid_arrived.stopped v) fun b => by
      rw [hall b]
      rfl
    funext b
    exact Option.some.inj ((hlong b).trans (hall b))
  · obtain ⟨hones, hmiss⟩ := hget.resolve_left fun h => hfits h.1
    obtain ⟨b, hb⟩ := content_of_miss hc hfits hmiss
    rw [hones]
    exact long_of_hole ((hcell b).trans hb)

theorem compared_mask : w.Compared .pselect6 5 0 :=
  ⟨by decide, show 8 * 0 < (if (5 : Fin 6) = 4 then sizeofTimespec else sizeofFdSet) by decide⟩

/-- The mask is where the new pointer leads. -/
theorem relaid_masks {d : Who → Fin 6 → ℕ → Long}
    (hd : w.MayGet .pselect6 v 5 0 (d v 5 0)) (hgiven : (w.var v).syscallInfo.arg 5 ≠ 0) :
    SameMasks w (w.relaid .pselect6 d) v := by
  have htouch : ∀ i < 8, w.touches .pselect6 v 5 i := fun i hi => by
    unfold World.touches
    rw [if_neg hgiven]
    exact .inr ⟨rfl, by omega⟩
  -- where the pointer is there, it is the one in `d`, and allowed
  have hpoint : (∀ i < 8, (w.cell v 5 i).isSome) →
      (w.relaid .pselect6 d).wordAt v 5 0 = CBuffer.word (d v 5 0) ∧ w.MayPoint v (d v 5 0) := by
    intro hthere
    have hmay : w.MayPoint v (d v 5 0) := by
      rcases hd with ⟨-, hmay⟩ | ⟨-, b, hb⟩
      · exact hmay ⟨rfl, rfl, rfl, hgiven⟩
      · have hsome := hthere b b.isLt
        have hnone := hb (by simpa using htouch b b.isLt)
        simp only [Nat.mul_zero, Nat.zero_add] at hnone
        rw [hnone] at hsome
        exact absurd hsome (by decide)
    refine ⟨?_, hmay⟩
    have hsize : compares .pselect6 5 (w.var .master).syscallInfo.arg ≤ BUF_SIZE :=
      show (if (5 : Fin 6) = 4 then sizeofTimespec else sizeofFdSet) ≤ BUF_SIZE by decide
    rw [wordAt_of_mapped (relaid_arrived.stopped v),
      relaid_long hsize compared_mask hd]
    intro b
    rw [show 8 * 0 + (b : ℕ) = b by omega, relaid_cell_of_touches (by decide) (htouch b b.isLt),
      content_isSome (htouch b b.isLt)]
    exact hthere b b.isLt
  refine ⟨fun hthere => ?_, fun hreads i hi => ?_⟩
  · rw [(hpoint hthere).1]
    exact (hpoint hthere).2.null
  · obtain ⟨hword, hmay⟩ := hpoint fun i hi => hreads.1 i (by omega)
    rw [hword]
    show w.laidOut .pselect6 v (d v) (CBuffer.word (d v 5 0) + BitVec.ofNat 64 i) = _
    have hoff : (CBuffer.word (d v 5 0) + BitVec.ofNat 64 i - CBuffer.word (d v 5 0)).toNat = i :=
      offset_add _ (by omega)
    have hback : CBuffer.word (d v 5 0) + BitVec.ofNat 64 i - CBuffer.word (d v 5 0) = BitVec.ofNat 64 i :=
      add_sub_cancel_left _ _
    unfold World.laidOut
    by_cases hlow : (CBuffer.word (d v 5 0) + BitVec.ofNat 64 i).toNat < zeroPage
    · rw [if_pos hlow]
      exact hmay.bytes hreads i hi hlow
    · rw [if_neg hlow, if_pos ⟨rfl, hreads, by omega⟩, hback]

theorem notMem_scalarArgs (hk : k ∈ comparedArgs c) : k ∉ scalarArgs c := by
  cases c <;> revert k <;> decide

/-- **Any choice of words is delivered in some situation**, if each of them may be. -/
theorem exists_agreeing (hsize : ∀ k, compares c k (w.var .master).syscallInfo.arg ≤ BUF_SIZE)
    (hd : ∀ v k j, w.Compared c k j → w.MayGet c v k j (d v k j)) :
    ∃ w', KernelAgrees c w w' ∧ ∀ v k j, w.Compared c k j → w'.long v k j = d v k j := by
  refine ⟨w.relaid c d, ?_, fun v k j hc => relaid_long (hsize k) hc (hd v k j hc)⟩
  exact
    { arrived := relaid_arrived
      image := rfl
      scalars := fun v k hk => by
        rw [relaid_arg]
        exact if_neg fun h => notMem_scalarArgs h.1 hk
      given := fun v k _ => by
        rw [relaid_arg]
        unfold World.newArg
        split
        · next h =>
          refine iff_of_false (fun hzero => ?_) h.2
          have haddr := region_add (firstRegion_add_lt (CBuffer.word (d v 5 0)) k).1
            (show 0 < regionSize by decide)
          have hpos := (firstRegion_add_lt (CBuffer.word (d v 5 0)) k).2
          rw [hzero] at haddr
          unfold regionSize at haddr
          simp at haddr
          omega
        · rfl
      zero := fun v a ha => if_pos ha
      bytes := fun v k hk i hi => by
        rw [relaid_cell_of_touches hk (reads_touches hi), content_of_reads hi]
      there := fun v k hk i hi => by
        rw [relaid_cell_of_touches hk hi, content_isSome hi]
      masks := fun hc v hgiven => by
        subst hc
        exact relaid_masks (hd v 5 0 compared_mask) hgiven }

end Layout

end Aurora
