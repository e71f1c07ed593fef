import AuroraMVEE.Requests

/-!
# Identical variants

Two variants that make the same call, with the same registers and the same bytes behind
them, should never be told apart.  Several comparisons narrow the master's register to an
`int` or a `socklen_t` and leave the replica's as it is: there a register that does not
survive the narrowing is refused although it is the same in both
(`identical_accepted_iff`).
-/

namespace Aurora

variable {ρ : Type}

/-- The executors in question. -/
def reflexiveCalls : List Syscall :=
  [.read, .write, .pread64, .getrandom, .lseek, .close, .mmap, .mprotect, .setsockopt, .bind]

/-- The first `n` bytes behind position `k` can be read in both variants, and are the same. -/
def World.SameReadable (w : World ρ) (k : Fin 6) (n : ℕ) : Prop :=
  ∀ i < n, (∀ v, w.Peeked v k i) ∧ w.cell .master k i = w.cell .replica k i

theorem World.SameReadable.sameBytes {w : World ρ} {k : Fin 6} {n : ℕ}
    (hs : ∀ v, (w.proc v).stopped = true) (h : w.SameReadable k n) : w.SameBytes k n := fun i hi => by
  have hcell := (h i hi).2
  rw [cell_of_peeked (hs .master) ((h i hi).1 .master),
    cell_of_peeked (hs .replica) ((h i hi).1 .replica)] at hcell
  exact Option.some.inj hcell

/-- The bytes an executor compares: where they are, and how many. -/
def World.comparedBytes (w : World ρ) : Syscall → Option (Fin 6 × ℕ)
  | .write => some (1, ((w.var .master).syscallInfo.arg 2).toNat)
  | .setsockopt => some (3, (toSocklen ((w.var .master).syscallInfo.arg 4)).toNat)
  | .bind => some (1, (toSocklen ((w.var .master).syscallInfo.arg 2)).toNat)
  | _ => none

/-- The mapping policy has nothing against the master's call. -/
def World.PolicyAllows (w : World ρ) : Syscall → Prop
  | .mmap => checkMMapPerms (toInt ((w.var .master).syscallInfo.arg 2))
      (toInt ((w.var .master).syscallInfo.arg 3)) = 0
  | .mprotect => ∀ map, findMapping w.mappings ((w.var .master).syscallInfo.arg 0) = some map →
      checkMMapPerms (toInt ((w.var .master).syscallInfo.arg 2)) map.flags = 0
  | _ => True

/-- Both variants make the same call `c`. -/
structure World.Identical (w : World ρ) (c : Syscall) : Prop where
  stopped : ∀ v, (w.proc v).stopped = true
  args : ∀ k, (w.var .master).syscallInfo.arg k = (w.var .replica).syscallInfo.arg k
  bytes : ∀ k n, w.comparedBytes c = some (k, n) → n ≤ BUF_SIZE ∧ w.SameReadable k n
  policy : w.PolicyAllows c

/-- The positions whose register is narrowed on the master's side. -/
def narrowed : Syscall → List (Fin 6)
  | .read | .write => [0]
  | .mmap => [2, 3]
  | .mprotect | .bind => [2]
  | .setsockopt => [4]
  | _ => []

/-- The register survives the narrowing: to a `socklen_t` for a length, to an `int` else. -/
def Survives (c : Syscall) (x : Word) : Prop :=
  match c with
  | .setsockopt | .bind => ofSocklen (toSocklen x) = x
  | _ => ofInt (toInt x) = x

section

variable {w : World ρ} {c : Syscall}

theorem World.Identical.sameArgs (h : w.Identical c) (ks : List (Fin 6)) : w.SameArgs ks :=
  fun k _ => h.args k

theorem World.Identical.sameBytes (h : w.Identical c) {k : Fin 6} {n : ℕ}
    (hk : w.comparedBytes c = some (k, n)) : n ≤ BUF_SIZE ∧ w.SameBytes k n :=
  ⟨(h.bytes k n hk).1, (h.bytes k n hk).2.sameBytes h.stopped⟩

/-- What is decided when both calls are the same. -/
theorem decides_identical (hc : c ∈ reflexiveCalls) (h : w.Identical c) :
    Decides (verdict c) w (∀ k ∈ narrowed c, Survives c ((w.var .master).syscallInfo.arg k)) := by
  simp only [reflexiveCalls, List.mem_cons, List.not_mem_nil, or_false] at hc
  rcases hc with rfl | rfl | rfl | rfl | rfl | rfl | rfl | rfl | rfl | rfl
  all_goals simp only [narrowed, Survives, List.forall_mem_cons, List.not_mem_nil, false_imp_iff,
    implies_true, and_true]
  · refine (decides_readEq w).mono ⟨fun hr => by rw [hr.fd, h.args], fun hr => ⟨?_, h.sameArgs _⟩⟩
    rw [hr, h.args]
  · have hbytes := h.sameBytes rfl
    refine (decides_writeEq w).mono ⟨fun hr => by rw [hr.fd, h.args], fun hr =>
      ⟨?_, h.sameArgs _, hbytes.1, hbytes.2⟩⟩
    rw [hr, h.args]
  · exact (decides_argsEq _ w).mono (iff_of_true (h.sameArgs _) trivial)
  · exact (decides_argsEq _ w).mono (iff_of_true (h.sameArgs _) trivial)
  · exact (decides_argsEq _ w).mono (iff_of_true (h.sameArgs _) trivial)
  · exact (decides_argsEq _ w).mono (iff_of_true (h.sameArgs _) trivial)
  · refine (decides_mmapEq w).mono ⟨fun hr => ⟨by rw [hr.prot, h.args], by rw [hr.flags, h.args]⟩,
      fun hr => ⟨h.sameArgs _, ?_, ?_, h.policy⟩⟩
    · rw [hr.1, h.args]
    · rw [hr.2, h.args]
  · refine (decides_mprotectEq w).mono ⟨fun hr => by rw [hr.prot, h.args],
      fun hr => ⟨h.sameArgs _, ?_, h.policy⟩⟩
    rw [hr, h.args]
  · have hbytes := h.sameBytes rfl
    refine (decides_setsockoptEq w).mono ⟨fun hr => by rw [hr.option_len, h.args],
      fun hr => ⟨h.sameArgs _, ?_, hbytes.1, hbytes.2⟩⟩
    rw [hr, h.args]
  · have hbytes := h.sameBytes rfl
    refine (decides_bindEq w).mono ⟨fun hr => by rw [hr.addrlen, h.args],
      fun hr => ⟨h.sameArgs _, ?_, hbytes.1, hbytes.2⟩⟩
    rw [hr, h.args]

end

/-- **Identical variants are accepted.**  When both variants make the same call, the
comparison finds no mismatch if and only if every register that is narrowed on the master's
side survives it. -/
theorem identical_accepted_iff {w : World ρ} {c : Syscall} (hc : c ∈ reflexiveCalls)
    (h : w.Identical c) : (∃ w', verdict c w = .ret true w') ↔
      ∀ k ∈ narrowed c, Survives c ((w.var .master).syscallInfo.arg k) :=
  (decides_identical hc h).returns_true_iff

/-! ### The descriptor `-1`, passed zero-extended -/

/-- Both variants call `read(0xffffffff, 0, 0)`. -/
def readMinusOne : World Unit :=
  .standing (fun _ => callRegs Syscall.read.nr ![0xffffffff, 0, 0, 0, 0, 0]) (fun _ _ => none) ()

theorem identical_readMinusOne : readMinusOne.Identical .read :=
  ⟨fun _ => rfl, fun _ => rfl, fun _ _ h => absurd h (by simp [World.comparedBytes]), trivial⟩

/-- The two calls are the same, and a mismatch is reported. -/
theorem identical_refused : readMinusOne.Identical .read ∧
    (verdict .read readMinusOne).val? = some false ∧
      (execSyscall (.returning 0) .read readMinusOne).val? = some (-1) :=
  ⟨identical_readMinusOne, by decide +kernel, by decide +kernel⟩

/-- With a descriptor the register does not survive, the equivalence says so. -/
theorem identical_accepted_minusOne : ¬ ∃ w', verdict .read readMinusOne = .ret true w' := fun h =>
  absurd ((identical_accepted_iff (by decide) identical_readMinusOne).1 h 0 (by decide))
    (show ¬ ofInt (toInt (0xffffffff : Word)) = 0xffffffff by decide)

end Aurora
