import AuroraMVEE.Replication
import AuroraMVEE.Verdicts

/-!
# Socket addresses

The length of a socket address is a value and a result: the program says how large its
buffer is, and the kernel says how long the address was.  `accept4` copies the address over
to the replica with the second length, `getsockname` with the first; neither copies the
length itself.  `socket_address_replicated_iff` says when all the same both arrive.
-/

namespace Aurora

variable {ρ : Type}

/-! ## Four bytes -/

/-- Two lengths are equal if their bytes are. -/
theorem socklenIn_eq_iff {m m' : Mem} {a a' : Word} (h : ∀ k < 4, (m (a + BitVec.ofNat 64 k)).isSome)
    (h' : ∀ k < 4, (m' (a' + BitVec.ofNat 64 k)).isSome) :
    socklenIn m a = socklenIn m' a' ↔
      ∀ k < 4, m (a + BitVec.ofNat 64 k) = m' (a' + BitVec.ofNat 64 k) := by
  have hcell : ∀ k < 4, (m (a + BitVec.ofNat 64 k) = m' (a' + BitVec.ofNat 64 k) ↔
      ((m (a + BitVec.ofNat 64 k)).getD 0).toNat = ((m' (a' + BitVec.ofNat 64 k)).getD 0).toNat) := by
    intro k hk
    obtain ⟨x, hx⟩ := Option.isSome_iff_exists.1 (h k hk)
    obtain ⟨y, hy⟩ := Option.isSome_iff_exists.1 (h' k hk)
    rw [hx, hy, Option.some_inj, Option.getD_some, Option.getD_some, BitVec.toNat_inj]
  have hbyte : ∀ (m : Mem) (b : Word), ((m b).getD 0).toNat < 256 := fun m b => ((m b).getD 0).isLt
  have hfour : ∀ {p : ℕ → Prop}, (∀ k < 4, p k) ↔ p 0 ∧ p 1 ∧ p 2 ∧ p 3 := by
    intro p
    refine ⟨fun h => ⟨h 0 (by decide), h 1 (by decide), h 2 (by decide), h 3 (by decide)⟩,
      fun ⟨h₀, h₁, h₂, h₃⟩ k hk => ?_⟩
    interval_cases k <;> assumption
  rw [forall₂_congr hcell, hfour]
  have b₀ := hbyte m (a + 0)
  have b₁ := hbyte m (a + 1)
  have b₂ := hbyte m (a + 2)
  have b₃ := hbyte m (a + 3)
  have c₀ := hbyte m' (a' + 0)
  have c₁ := hbyte m' (a' + 1)
  have c₂ := hbyte m' (a' + 2)
  have c₃ := hbyte m' (a' + 3)
  show _ + _ + _ + _ = _ + _ + _ + _ ↔ ((m (a + 0)).getD 0).toNat = ((m' (a' + 0)).getD 0).toNat ∧
    ((m (a + 1)).getD 0).toNat = ((m' (a' + 1)).getD 0).toNat ∧
    ((m (a + 2)).getD 0).toNat = ((m' (a' + 2)).getD 0).toNat ∧
    ((m (a + 3)).getD 0).toNat = ((m' (a' + 3)).getD 0).toNat
  omega

theorem socklenIn_lt (m : Mem) (a : Word) : socklenIn m a < 2 ^ 32 := by
  have b₀ := ((m (a + 0)).getD 0).isLt
  have b₁ := ((m (a + 1)).getD 0).isLt
  have b₂ := ((m (a + 2)).getD 0).isLt
  have b₃ := ((m (a + 3)).getD 0).isLt
  unfold socklenIn
  omega

/-- What the monitor reads of a length is the length. -/
theorem socklenAt_eq {t : Tracee} (hs : t.stopped = true) {a : Word} (h : t.wordMapped a = true) :
    t.socklenAt a = socklenIn t.mem a := by
  have hcell : ∀ k < 4, (t.mem (a + BitVec.ofNat 64 k)).getD 0 = t.byteAt a k := by
    intro k hk
    have hword : t.wordMapped (a + BitVec.ofNat 64 (8 * (k / 8))) = true := by
      rw [show 8 * (k / 8) = 0 by omega]
      exact (congrArg t.wordMapped (BitVec.add_zero a)).trans h
    rw [mem_of_wordMapped hs hword]
    rfl
  unfold Tracee.socklenAt
  rw [← hcell 0 (by decide), ← hcell 1 (by decide), ← hcell 2 (by decide), ← hcell 3 (by decide)]
  rfl

/-! ## What has to arrive -/

/-- `addrlen` -/
def World.addrlen (w : World ρ) (v : Who) : Word := (w.var v).syscallInfo.arg 2

/-- Both variants supply a length, and the same. -/
structure World.SameAddrlen (w : World ρ) : Prop where
  mapped : ∀ v, (w.proc v).Mapped (w.addrlen v) sizeofSocklen
  bytes : ∀ k < sizeofSocklen, (w.proc .replica).mem (w.addrlen .replica + BitVec.ofNat 64 k) =
    (w.proc .master).mem (w.addrlen .master + BitVec.ofNat 64 k)

/-- Where the master's call has left the memory `mm`, the replica's memory `m` holds the same
length, and the same in as much of the buffer as an address was stored in. -/
structure World.AddressReplicated (w : World ρ) (c : Syscall) (mm m : Mem) : Prop where
  length : socklenIn m (w.addrlen .replica) = socklenIn mm (w.addrlen .master)
  address : ∀ i < addressBytes (w.proc .master).mem mm (w.addrlen .master),
    ∀ x y, mm (w.output c .master + BitVec.ofNat 64 i) = some x →
      m (w.output c .replica + BitVec.ofNat 64 i) = some y → x = y

/-- Byte `k` of the replica's length, seen from its address buffer. -/
def World.lengthOffset (w : World ρ) (c : Syscall) (k : ℕ) : Word :=
  w.addrlen .replica + BitVec.ofNat 64 k - w.output c .replica

/-- The copy of the address runs over byte `k` of the replica's length. -/
def World.RunsOver (w : World ρ) (c : Syscall) (rm : Word) (mm : Mem) (k : ℕ) : Prop :=
  (w.lengthOffset c k).toNat < copySize (w.requested c rm mm) ∧
    (mm (w.output c .master + w.lengthOffset c k)).isSome

/-- The master's call has returned `rm` and left the memory `mm`: of the length it has
changed nothing but what the copy of the address happens to run over; and what is not copied
of the address is the same in both. -/
structure World.AddressArrives (w : World ρ) (c : Syscall) (rm : Word) (mm : Mem) : Prop where
  unchanged : ∀ k < sizeofSocklen, ¬ w.RunsOver c rm mm k →
    mm (w.addrlen .master + BitVec.ofNat 64 k) =
      (w.proc .master).mem (w.addrlen .master + BitVec.ofNat 64 k)
  overwritten : ∀ k < sizeofSocklen, w.RunsOver c rm mm k →
    mm (w.addrlen .master + BitVec.ofNat 64 k) = mm (w.output c .master + w.lengthOffset c k)
  uncopied : ∀ i < addressBytes (w.proc .master).mem mm (w.addrlen .master),
    copySize (w.requested c rm mm) ≤ i →
      ∀ x y, mm (w.output c .master + BitVec.ofNat 64 i) = some x →
        (w.proc .replica).mem (w.output c .replica + BitVec.ofNat 64 i) = some y → x = y

/-- A byte of the replica's length after the copy. -/
theorem copied_length {w : World ρ} {c : Syscall} {rm : Word} {mm : Mem} (hlen : w.SameAddrlen)
    {k : ℕ} (hk : k < sizeofSocklen) :
    copied mm (w.proc .replica).mem (w.output c .master) (w.output c .replica)
        (copySize (w.requested c rm mm)) (w.addrlen .replica + BitVec.ofNat 64 k) =
      mm (w.addrlen .master + BitVec.ofNat 64 k) ↔
    (¬ w.RunsOver c rm mm k → mm (w.addrlen .master + BitVec.ofNat 64 k) =
      (w.proc .master).mem (w.addrlen .master + BitVec.ofNat 64 k)) ∧
    (w.RunsOver c rm mm k → mm (w.addrlen .master + BitVec.ofNat 64 k) =
      mm (w.output c .master + w.lengthOffset c k)) := by
  have hthere : ((w.proc .replica).mem (w.addrlen .replica + BitVec.ofNat 64 k)).isSome :=
    hlen.mapped .replica k hk
  by_cases hover : w.RunsOver c rm mm k
  · have hcopy : copied mm (w.proc .replica).mem (w.output c .master) (w.output c .replica)
        (copySize (w.requested c rm mm)) (w.addrlen .replica + BitVec.ofNat 64 k) =
          mm (w.output c .master + w.lengthOffset c k) := if_pos ⟨hover.1, hover.2, hthere⟩
    rw [hcopy]
    exact ⟨fun h => ⟨fun hn => absurd hover hn, fun _ => h.symm⟩, fun h => (h.2 hover).symm⟩
  · have hkept : copied mm (w.proc .replica).mem (w.output c .master) (w.output c .replica)
        (copySize (w.requested c rm mm)) (w.addrlen .replica + BitVec.ofNat 64 k) =
          (w.proc .master).mem (w.addrlen .master + BitVec.ofNat 64 k) := by
      rw [← hlen.bytes k hk]
      exact if_neg fun h => hover ⟨h.1, h.2.1⟩
    rw [hkept]
    exact ⟨fun h => ⟨fun _ => h.symm, fun hy => absurd hy hover⟩, fun h => (h.1 hover).symm⟩

/-- A byte of the replica's address after the copy: what was copied is the same. -/
theorem copied_address {src dst : Mem} {p q : Word} {size i : ℕ} (hi : i < 2 ^ 64) :
    (∀ x y, src (p + BitVec.ofNat 64 i) = some x →
      copied src dst p q size (q + BitVec.ofNat 64 i) = some y → x = y) ↔
    (size ≤ i → ∀ x y, src (p + BitVec.ofNat 64 i) = some x →
      dst (q + BitVec.ofNat 64 i) = some y → x = y) := by
  have hoff : (q + BitVec.ofNat 64 i - q).toNat = i := offset_add q hi
  have hback : q + BitVec.ofNat 64 i - q = BitVec.ofNat 64 i := add_sub_cancel_left _ _
  by_cases hin : i < size
  · refine iff_of_true (fun x y hx hy => ?_) fun h => absurd hin (by omega)
    unfold copied at hy
    rw [hback] at hy
    split at hy
    · exact Option.some.inj (hx.symm.trans hy)
    · next hmiss =>
      exact absurd ⟨by rw [← hback, hoff]; exact hin, by rw [hx]; rfl, by rw [hy]; rfl⟩ hmiss
  · rw [copied_outside (by omega)]
    exact ⟨fun h _ => h, fun h => h (by omega)⟩

/-! ### The usual case -/

section

variable {w : World ρ} {c : Syscall} {rm : Word} {mm : Mem}

/-- An address that fits the transfer buffer is copied as a whole: by `accept4` with the length
that the kernel reports, by a successful `getsockname` with the one that was supplied. -/
theorem addressBytes_le_copied (hw : w.Arrived c)
    (hcall : c = .accept4 ∧ (w.var .master).syscallInfo.arg 1 ≠ 0 ∨ c = .getsockname ∧ rm = 0)
    (hword : (w.proc .master).wordMapped (w.addrlen .master) = true)
    (hword' : { w.proc .master with mem := mm }.wordMapped (w.addrlen .master) = true)
    (hfits : socklenIn (w.proc .master).mem (w.addrlen .master) ≤ BUF_SIZE)
    (hfits' : socklenIn mm (w.addrlen .master) ≤ BUF_SIZE) :
    addressBytes (w.proc .master).mem mm (w.addrlen .master) ≤ copySize (w.requested c rm mm) := by
  have hx := hw.rendezvous.atEntry .master
  have hs := stopped_of_atEntry hx
  rcases hcall with ⟨rfl, haddr⟩ | ⟨rfl, hzero⟩
  · have hsize : w.requested .accept4 rm mm = socklenIn mm (w.addrlen .master) :=
      (if_pos haddr).trans (socklenAt_eq (t := { w.proc .master with mem := mm }) hs hword')
    rw [hsize, copySize, if_pos hfits']
    exact min_le_right _ _
  · have hsize : w.requested .getsockname rm mm = socklenIn (w.proc .master).mem (w.addrlen .master) :=
      (if_pos hzero).trans (socklenAt_eq hs hword)
    rw [hsize, copySize, if_pos hfits]
    exact min_le_left _ _

/-- If the length lies apart from what is copied, and the address is copied as a whole, then all
arrives exactly if the kernel reports the length that was supplied. -/
theorem addressArrives_iff_of_apart (hlen : w.SameAddrlen)
    (hthere : ∀ k < sizeofSocklen, (mm (w.addrlen .master + BitVec.ofNat 64 k)).isSome)
    (hapart : ∀ k < sizeofSocklen, copySize (w.requested c rm mm) ≤ (w.lengthOffset c k).toNat)
    (hwhole : addressBytes (w.proc .master).mem mm (w.addrlen .master) ≤
      copySize (w.requested c rm mm)) :
    w.AddressArrives c rm mm ↔
      socklenIn mm (w.addrlen .master) = socklenIn (w.proc .master).mem (w.addrlen .master) := by
  have hnone : ∀ k < sizeofSocklen, ¬ w.RunsOver c rm mm k := fun k hk h =>
    absurd h.1 (not_lt.2 (hapart k hk))
  rw [socklenIn_eq_iff hthere (hlen.mapped .master)]
  exact ⟨fun h k hk => h.unchanged k hk (hnone k hk),
    fun h => ⟨fun k hk _ => h k hk, fun k hk hover => absurd hover (hnone k hk),
      fun i hi hbeyond => absurd hi (by omega)⟩⟩

end

/-! ## When it arrives -/

/-- **Socket addresses are replicated.**  `accept4` or `getsockname` succeeds, the variants had
supplied the same length, and reading it has changed nothing else.  Then length and address are
the master's if and only if the length did not have to be copied, and all of the address was. -/
theorem socket_address_replicated_iff {K : Kernel ρ} {w w' : World ρ} {c : Syscall}
    {rm rcx r11 : Word} {mm : Mem} (hc : c = .accept4 ∨ c = .getsockname)
    (hK : K.SubstitutesQuiet) (hw : w.Arrived c) (hread : w.ReadsExactly) (hlen : w.SameAddrlen)
    (hthere : ∀ k < sizeofSocklen, (mm (w.addrlen .master + BitVec.ofNat 64 k)).isSome)
    (hans : (K.answer .master w).1 = .ret rm rcx r11 mm)
    (hrun : execSyscallWith transferExactly K c w = .ret 0 w') :
    w.AddressReplicated c mm (w'.proc .replica).mem ↔ w.AddressArrives c rm mm := by
  have hmem : c ∈ replicatingCalls := by rcases hc with rfl | rfl <;> decide
  have hspec : w.ReplicatedOr K c 0 (w'.proc .replica).mem := Prog.ret_of_wp
    (execSyscallWith_replicated hK (hw.rendezvous.atEntry .master) (hw.rendezvous.atEntry .replica)
      hmem) hrun
  obtain ⟨rm', rcx', r11', mm', hans', hm⟩ := hspec.1 rfl
  obtain ⟨rfl, -, -, rfl⟩ := SysResult.ret.inj (hans.symm.trans hans')
  rw [hm, World.copiedFrom, World.copiedTo, hread.pointer c mm (by decide), hread.pointer c mm (by decide)]
  have hlength : socklenIn (copied mm (w.proc .replica).mem (w.output c .master)
      (w.output c .replica) (copySize (w.requested c rm mm))) (w.addrlen .replica) =
        socklenIn mm (w.addrlen .master) ↔ _ :=
    (socklenIn_eq_iff (fun k hk => copied_isSome.trans (hlen.mapped .replica k hk)) hthere).trans
      (forall₂_congr fun k hk => copied_length hlen hk)
  have haddress : ∀ i < addressBytes (w.proc .master).mem mm (w.addrlen .master), i < 2 ^ 64 :=
    fun i hi => lt_of_lt_of_le hi ((min_le_left _ _).trans
      ((socklenIn_lt _ _).le.trans (by decide)))
  constructor
  · intro h
    have hbytes := hlength.1 h.length
    exact ⟨fun k hk => (hbytes k hk).1, fun k hk => (hbytes k hk).2,
      fun i hi => (copied_address (haddress i hi)).1 (h.address i hi)⟩
  · intro h
    exact ⟨hlength.2 fun k hk => ⟨h.unchanged k hk, h.overwritten k hk⟩,
      fun i hi => (copied_address (haddress i hi)).2 (h.uncopied i hi)⟩

/-! ### A peer's address -/

/-- The length 16 that both programs supply to `accept4`. -/
theorem shortAccept_sameAddrlen : shortAccept.SameAddrlen where
  mapped v := by
    unfold Tracee.Mapped
    cases v <;> decide +kernel
  bytes := by decide +kernel

/-- The peer's address has 32 bytes, and the buffer 16: the master is told so, the replica is
not. -/
theorem address_length_lost : shortAccept.SameAddrlen ∧
    shortAccept.output .accept4 .master ≠ 0 ∧
    ((Kernel.accepting 32).answer .master shortAccept).1 =
      .ret 5 0 0 (acceptedMem (shortAccept.proc .master).resume 32) ∧
    ∃ w', execSyscallWith transferExactly (.accepting 32) .accept4 shortAccept = .ret 0 w' ∧
      socklenIn (w'.proc .master).mem (shortAccept.addrlen .master) = 32 ∧
      socklenIn (w'.proc .replica).mem (shortAccept.addrlen .replica) = 16 ∧
      ¬ shortAccept.AddressReplicated .accept4 (acceptedMem (shortAccept.proc .master).resume 32)
        (w'.proc .replica).mem := by
  have hold : socklenIn ((execSyscallWith transferExactly (.accepting 32) .accept4
      shortAccept).state.proc .replica).mem (shortAccept.addrlen .replica) = 16 := by decide +kernel
  have hnew : socklenIn (acceptedMem (shortAccept.proc .master).resume 32)
      (shortAccept.addrlen .master) = 32 := by decide +kernel
  refine ⟨shortAccept_sameAddrlen, by decide +kernel, shortAccept_answer 32, _,
    Outcome.eq_ret_of_val? (by decide +kernel), by decide +kernel, hold, fun h => ?_⟩
  have hlength := h.length
  rw [hold, hnew] at hlength
  exact absurd hlength (by decide)

/-- A peer's address of the length supplied arrives. -/
theorem socket_address_replicated_fits : ∃ w',
    execSyscallWith transferExactly (.accepting 16) .accept4 shortAccept = .ret 0 w' ∧
      shortAccept.AddressReplicated .accept4 (acceptedMem (shortAccept.proc .master).resume 16)
        (w'.proc .replica).mem := by
  have hrun : execSyscallWith transferExactly (.accepting 16) .accept4 shortAccept = .ret 0 _ :=
    Outcome.eq_ret_of_val? (by decide +kernel)
  have hthere : ∀ k < sizeofSocklen, (acceptedMem (shortAccept.proc .master).resume 16
      (shortAccept.addrlen .master + BitVec.ofNat 64 k)).isSome := by decide +kernel
  refine ⟨_, hrun, (socket_address_replicated_iff (.inl rfl) (accepting_documented 16).substitutes
    (onStack_arrived _ _ _) (fun _ => rfl) shortAccept_sameAddrlen hthere (shortAccept_answer 16)
    hrun).2 ?_⟩
  exact (addressArrives_iff_of_apart shortAccept_sameAddrlen hthere (by decide +kernel)
    (by decide +kernel)).2 (by decide +kernel)

end Aurora
