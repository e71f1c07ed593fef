import AuroraMVEE.Compare

/-!
# What each executor accepts

For each comparison of `sys/*.c` that the theorems look into: the conditions it puts on
the two calls, as a structure, and the proof that this is what it decides.
-/

namespace Aurora

variable {ρ : Type}

/-- The comparison of `c` finds no difference. -/
def World.Accepts (w : World ρ) (c : Syscall) : Prop := (verdict c w).val? = some true

instance (w : World ρ) (c : Syscall) : Decidable (w.Accepts c) := inferInstanceAs (Decidable (_ = _))

/-- What a comparison decides, it says. -/
theorem accepts_iff {c : Syscall} {w : World ρ} {p : Prop} (h : Decides (verdict c) w p) :
    w.Accepts c ↔ p := by
  obtain ⟨b, β, hrun, hb⟩ := h
  unfold World.Accepts
  rw [hrun, ← hb]
  exact Option.some_inj

/-! ## Files and sockets -/

/-- `read`: the same descriptor and count. -/
structure World.SameRead (w : World ρ) : Prop where
  fd : ofInt (toInt ((w.var .master).syscallInfo.arg 0)) = (w.var .replica).syscallInfo.arg 0
  count : w.SameArgs [2]

theorem decides_readEq (w : World ρ) : Decides readEq w w.SameRead :=
  ((decides_intArgEq 0 w).both fun _ => decides_argsEq [2] _).mono
    ⟨fun ⟨h₁, h₂⟩ => ⟨h₁, h₂⟩, fun h => ⟨h.fd, h.count⟩⟩

/-- `write`: the same descriptor, count and bytes. -/
structure World.SameWrite (w : World ρ) : Prop where
  fd : ofInt (toInt ((w.var .master).syscallInfo.arg 0)) = (w.var .replica).syscallInfo.arg 0
  count : w.SameArgs [2]
  size : ((w.var .master).syscallInfo.arg 2).toNat ≤ BUF_SIZE
  bytes : w.SameBytes 1 ((w.var .master).syscallInfo.arg 2).toNat

theorem decides_writeEq (w : World ρ) : Decides writeEq w w.SameWrite := by
  refine (decides_intArgEq 0 w).bind fun b β hb => (decides_argsEq [2] _).bind fun b' γ hb' => ?_
  refine .look (.mono (.andIf (by rw [Bool.and_eq_true, hb, hb']) (decides_memArgEq 1 _ _)) ?_)
  exact ⟨fun ⟨⟨h₁, h₂⟩, h₃, h₄⟩ => ⟨h₁, h₂, h₃, h₄⟩, fun h => ⟨⟨h.fd, h.count⟩, h.size, h.bytes⟩⟩

/-- `pselect6`: the same `nfds`, and the same bytes behind all five pointers. -/
structure World.SamePselect6 (w : World ρ) : Prop where
  nfds : toInt ((w.var .master).syscallInfo.arg 0) = toInt ((w.var .replica).syscallInfo.arg 0)
  readfds : w.SameBytes 1 sizeofFdSet
  writefds : w.SameBytes 2 sizeofFdSet
  exceptfds : w.SameBytes 3 sizeofFdSet
  timeout : w.SameBytes 4 sizeofTimespec
  sigmask : w.SameBytes 5 sizeofFdSet

theorem decides_pselect6Eq (w : World ρ) : Decides pselect6Eq w w.SamePselect6 := by
  have hset : sizeofFdSet ≤ BUF_SIZE := by decide
  have htime : sizeofTimespec ≤ BUF_SIZE := by decide
  refine (Decides.gets (p := toInt ((w.var .master).syscallInfo.arg 0) =
    toInt ((w.var .replica).syscallInfo.arg 0)) (by simp)).bind fun b₀ β₀ h₀ => ?_
  refine (decides_memArgEq_of_le 1 hset _).bind fun b₁ β₁ h₁ => ?_
  refine (decides_memArgEq_of_le 2 hset _).bind fun b₂ β₂ h₂ => ?_
  refine (decides_memArgEq_of_le 3 hset _).bind fun b₃ β₃ h₃ => ?_
  refine (decides_memArgEq_of_le 4 htime _).bind fun b₄ β₄ h₄ => ?_
  refine (decides_memArgEq_of_le 5 hset _).bind fun b₅ β₅ h₅ => .pure ?_
  simp only [Bool.and_eq_true, h₀, h₁, h₂, h₃, h₄, h₅]
  exact ⟨fun ⟨⟨⟨⟨⟨h₀, h₁⟩, h₂⟩, h₃⟩, h₄⟩, h₅⟩ => ⟨h₀, h₁, h₂, h₃, h₄, h₅⟩,
    fun h => ⟨⟨⟨⟨⟨h.nfds, h.readfds⟩, h.writefds⟩, h.exceptfds⟩, h.timeout⟩, h.sigmask⟩⟩

/-- `bind`: the same socket, length and address. -/
structure World.SameBind (w : World ρ) : Prop where
  sockfd : w.SameArgs [0]
  addrlen : ofSocklen (toSocklen ((w.var .master).syscallInfo.arg 2)) =
    (w.var .replica).syscallInfo.arg 2
  size : (toSocklen ((w.var .master).syscallInfo.arg 2)).toNat ≤ BUF_SIZE
  addr : w.SameBytes 1 (toSocklen ((w.var .master).syscallInfo.arg 2)).toNat

theorem decides_bindEq (w : World ρ) : Decides bindEq w w.SameBind := by
  refine (decides_argsEq [0] w).bind fun b₁ β₁ h₁ => (decides_socklenArgEq 2 _).bind
    fun b₂ β₂ h₂ => .look ((decides_memArgEq 1 _ _).bind fun b₃ β₃ h₃ => .pure ?_)
  rw [Bool.and_eq_true, Bool.and_eq_true, h₁, h₂, h₃]
  exact ⟨fun ⟨⟨h₁, h₂⟩, h₃, h₄⟩ => ⟨h₁, h₂, h₃, h₄⟩, fun h => ⟨⟨h.sockfd, h.addrlen⟩, h.size, h.addr⟩⟩

/-- `setsockopt`: the same socket, level, name, length and option. -/
structure World.SameSetsockopt (w : World ρ) : Prop where
  scalars : w.SameArgs [0, 1, 2]
  option_len : ofSocklen (toSocklen ((w.var .master).syscallInfo.arg 4)) =
    (w.var .replica).syscallInfo.arg 4
  size : (toSocklen ((w.var .master).syscallInfo.arg 4)).toNat ≤ BUF_SIZE
  option_value : w.SameBytes 3 (toSocklen ((w.var .master).syscallInfo.arg 4)).toNat

theorem decides_setsockoptEq (w : World ρ) : Decides setsockoptEq w w.SameSetsockopt := by
  refine (decides_argsEq [0, 1, 2] w).bind fun b₁ β₁ h₁ => (decides_socklenArgEq 4 _).bind
    fun b₂ β₂ h₂ => .look (.mono (.andIf (by rw [Bool.and_eq_true, h₁, h₂])
      (decides_memArgEq 3 _ _)) ?_)
  exact ⟨fun ⟨⟨h₁, h₂⟩, h₃, h₄⟩ => ⟨h₁, h₂, h₃, h₄⟩,
    fun h => ⟨⟨h.scalars, h.option_len⟩, h.size, h.option_value⟩⟩

/-- `accept4`: the same socket and flags, and the same input length. -/
structure World.SameAccept4 (w : World ρ) : Prop where
  scalars : w.SameArgs [0, 3]
  addrlen : w.SameBytes 2 sizeofSocklen

theorem decides_accept4Eq (w : World ρ) : Decides accept4Eq w w.SameAccept4 :=
  ((decides_argsEq [0, 3] w).both fun _ => decides_memArgEq_of_le 2 (by decide) _).mono
    ⟨fun ⟨h₁, h₂⟩ => ⟨h₁, h₂⟩, fun h => ⟨h.scalars, h.addrlen⟩⟩

/-- `getsockname`: the flag says that the sockets are the same, unless the read of the length has
overwritten it; and the same input length. -/
structure World.SameGetsockname (w : World ρ) : Prop where
  sockfd : w.image.flagAfter .masterLen
    ((w.proc .master).socklenWord ((w.var .master).syscallInfo.arg 2)) (decide (w.SameArgs [0])) = true
  addrlen : w.SameBytes 2 sizeofSocklen

theorem decides_getsocknameEq (w : World ρ) : Decides getsocknameEq w w.SameGetsockname := by
  refine (decides_argsEq [0] w).bind fun b β hb => .look (.look (.look ?_))
  rw [readShort_word, show b = decide (w.SameArgs [0]) from Bool.eq_iff_iff.2 (by simp [hb])]
  refine (decides_memArgEq_of_le 2 (by decide) _).bind fun b' γ hb' => .pure ?_
  rw [Bool.and_eq_true, hb']
  exact ⟨fun ⟨h₁, h₂⟩ => ⟨h₁, h₂⟩, fun h => ⟨h.sockfd, h.addrlen⟩⟩

/-- `poll`: the same count and timeout, and the same bytes in the whole array. -/
structure World.SamePoll (w : World ρ) : Prop where
  scalars : w.SameArgs [1, 2]
  size : ((w.var .master).syscallInfo.arg 1 * sizeofPollfd).toNat ≤ BUF_SIZE
  fds : w.SameBytes 0 ((w.var .master).syscallInfo.arg 1 * sizeofPollfd).toNat

theorem decides_pollEq (w : World ρ) : Decides pollEq w w.SamePoll := by
  refine (decides_argsEq [1, 2] w).bind fun b β hb =>
    .look (.mono (.andIf hb (decides_memArgEq 0 _ _)) ?_)
  exact ⟨fun ⟨h₁, h₂, h₃⟩ => ⟨h₁, h₂, h₃⟩, fun h => ⟨h.scalars, h.size, h.fds⟩⟩

/-! ## Signals -/

/-- `rt_sigprocmask`: the same `how` where the master gives a set, and the same bytes, as
many as the master's size says. -/
structure World.SameRtSigprocmask (w : World ρ) : Prop where
  how : (w.var .master).syscallInfo.arg 1 ≠ 0 → w.SameArgs [0]
  size : ((w.var .master).syscallInfo.arg 3).toNat ≤ BUF_SIZE
  set : w.SameBytes 1 ((w.var .master).syscallInfo.arg 3).toNat

theorem decides_rt_sigprocmaskEq (w : World ρ) :
    Decides rt_sigprocmaskEq w w.SameRtSigprocmask := by
  refine .look ((Decides.unlessZero (decides_argsEq [0] w)).bind fun b β hb =>
    .look (.mono (.andIf hb (decides_memArgEq 1 _ _)) ?_))
  exact ⟨fun ⟨h₁, h₂, h₃⟩ => ⟨h₁, h₂, h₃⟩, fun h => ⟨h.how, h.size, h.set⟩⟩

/-! ## Paths -/

/-- `openat`: the same directory and flags, the same mode unless the master's is zero, and
the same path. -/
structure World.SameOpenat (w : World ρ) : Prop where
  scalars : w.SameArgs [0, 2]
  mode : (w.var .master).syscallInfo.arg 3 ≠ 0 → w.SameArgs [3]
  pathname : w.SameString 1

theorem decides_openatEq (w : World ρ) : Decides openatEq w w.SameOpenat := by
  refine (decides_argsEq [0, 2] w).bind fun b₁ β₁ h₁ => .look ((Decides.unlessZero
    (decides_argsEq [3] _)).bind fun b₂ β₂ h₂ => .mono (.andIf (by rw [Bool.and_eq_true, h₁, h₂])
      (decides_strArgEq 1 _)) ?_)
  exact ⟨fun ⟨⟨h₁, h₂⟩, h₃⟩ => ⟨h₁, h₂, h₃⟩, fun h => ⟨⟨h.scalars, h.mode⟩, h.pathname⟩⟩

/-- `access`: the same mode and path. -/
structure World.SameAccess (w : World ρ) : Prop where
  mode : w.SameArgs [1]
  pathname : w.SameString 0

theorem decides_accessEq (w : World ρ) : Decides accessEq w w.SameAccess := by
  refine (decides_argsEq [1] w).bind fun b β hb => .mono (.andIf hb (decides_strArgEq 0 _)) ?_
  exact ⟨fun ⟨h₁, h₂⟩ => ⟨h₁, h₂⟩, fun h => ⟨h.mode, h.pathname⟩⟩

/-- `getcwd`: the same size, and the same string in the output buffer. -/
structure World.SameGetcwd (w : World ρ) : Prop where
  buf : w.SameString 0
  size : w.SameArgs [1]

theorem decides_getcwdEq (w : World ρ) : Decides getcwdEq w w.SameGetcwd :=
  ((decides_strArgEq 0 w).both fun _ => decides_argsEq [1] _).mono
    ⟨fun ⟨h₁, h₂⟩ => ⟨h₁, h₂⟩, fun h => ⟨h.buf, h.size⟩⟩

/-! ## Memory calls -/

/-- `mmap`: the scalars agree, and the policy allows the master's `prot` and `flags`. -/
structure World.MmapAllowed (w : World ρ) : Prop where
  scalars : w.SameArgs [1, 4, 5]
  prot : ofInt (toInt ((w.var .master).syscallInfo.arg 2)) = (w.var .replica).syscallInfo.arg 2
  flags : ofInt (toInt ((w.var .master).syscallInfo.arg 3)) = (w.var .replica).syscallInfo.arg 3
  policy : checkMMapPerms (toInt ((w.var .master).syscallInfo.arg 2))
    (toInt ((w.var .master).syscallInfo.arg 3)) = 0

theorem decides_mmapEq (w : World ρ) : Decides mmapEq w w.MmapAllowed := by
  refine (decides_argsEq [1, 4, 5] w).bind fun b₁ β₁ h₁ => (decides_intArgEq 2 _).bind
    fun b₂ β₂ h₂ => (decides_intArgEq 3 _).bind fun b₃ β₃ h₃ => .look (.look (.pure ?_))
  simp only [Bool.and_eq_true, h₁, h₂, h₃, beq_iff_eq]
  exact ⟨fun ⟨⟨⟨h₁, h₂⟩, h₃⟩, h₄⟩ => ⟨h₁, h₂, h₃, h₄⟩,
    fun h => ⟨⟨⟨h.scalars, h.prot⟩, h.flags⟩, h.policy⟩⟩

/-- `mprotect`: the scalars agree, and the policy allows the new protection for the flags
of the entry that covers the master's address, if there is one. -/
structure World.MprotectAllowed (w : World ρ) : Prop where
  len : w.SameArgs [1]
  prot : ofInt (toInt ((w.var .master).syscallInfo.arg 2)) = (w.var .replica).syscallInfo.arg 2
  policy : ∀ map, findMapping w.mappings ((w.var .master).syscallInfo.arg 0) = some map →
    checkMMapPerms (toInt ((w.var .master).syscallInfo.arg 2)) map.flags = 0

theorem decides_mprotectEq (w : World ρ) :
    Decides mprotectEq w w.MprotectAllowed := by
  refine (decides_argsEq [1] w).bind fun b₁ β₁ h₁ => (decides_intArgEq 2 _).bind
    fun b₂ β₂ h₂ => .look (.look (.look (.pure ?_)))
  rw [Bool.and_eq_true, Bool.and_eq_true, h₁, h₂]
  simp only [World.withBufs_var, World.withBufs_mappings]
  constructor
  · rintro ⟨⟨h₁, h₂⟩, h₃⟩
    refine ⟨h₁, h₂, fun map hmap => ?_⟩
    rw [hmap] at h₃
    simpa using h₃
  · intro h
    refine ⟨⟨h.len, h.prot⟩, ?_⟩
    cases hmap : findMapping w.mappings ((w.var .master).syscallInfo.arg 0) with
    | none => rfl
    | some map => simpa using h.policy map hmap

/-- `munmap`: the same length, and an entry that starts at the master's address is found. -/
structure World.MunmapAllowed (w : World ρ) : Prop where
  length : w.SameArgs [1]
  starts : ∃ map, findMapping w.mappings ((w.var .master).syscallInfo.arg 0) = some map ∧
    map.addr = (w.var .master).syscallInfo.arg 0

theorem decides_munmapEq (w : World ρ) : Decides munmapEq w w.MunmapAllowed := by
  refine (decides_argsEq [1] w).bind fun b β h => .look (.look (.pure ?_))
  rw [Bool.and_eq_true, h]
  simp only [World.withBufs_var, World.withBufs_mappings]
  constructor
  · rintro ⟨h₁, h₂⟩
    refine ⟨h₁, ?_⟩
    cases hmap : findMapping w.mappings ((w.var .master).syscallInfo.arg 0) with
    | none =>
      rw [hmap] at h₂
      exact absurd h₂ Bool.false_ne_true
    | some map =>
      rw [hmap] at h₂
      exact ⟨map, rfl, by simpa using h₂⟩
  · rintro ⟨h₁, map, hmap, haddr⟩
    refine ⟨h₁, ?_⟩
    rw [hmap]
    simpa using haddr

end Aurora
