import AuroraMVEE.ReadySets
import AuroraMVEE.Identical

/-!
# What a call hands the replica

The executors that make a call in the master, or make it in both and give both the master's result,
are followed here to their end, and the replica with them: `World.handed` is the process it is then,
register by register and byte by byte.  Unlike in `Served`, that the executor succeeds is part of
what is proved.

* `surely Q` — an executor succeeds, in a state of which `Q` holds.
* `handed_told` — the calls of which only the result is handed over.
* `handed_filled` — those that fill a buffer as well.
-/

namespace Aurora

variable {ρ : Type}

/-! ## Transfers of every whole size -/

/-- The words that `n` bytes lie in, if they start with a word. -/
def wordBytes (n : ℕ) : ℕ := 8 * ((n + 7) / 8)

/-- Between buffers that are there, word for word, a transfer of a whole size is exact. -/
theorem transferVariantMem_whole {s d : Who} {w : World ρ} {p q : Word} {n : ℕ}
    (hs : (w.proc s).stopped = true) (hd : (w.proc d).stopped = true)
    (hsrc : (w.proc s).Mapped p (wordBytes n)) (hdst : (w.proc d).Mapped q (wordBytes n))
    (hwhole : WholeWords n) (hsize : n ≤ BUF_SIZE) :
    ∃ β, transferVariantMem s p d q n w = .ret 0 ((w.withBufs β).setProc d
      { w.proc d with mem := copied (w.proc s).mem (w.proc d).mem p q n }) := by
  by_cases hzero : n = 0
  · subst hzero
    exact transferVariantMem_words (n := 0) hs hd hsrc hdst hsize
  · have hread : (w.proc s).Readable p n := fun i hi =>
      hsrc.wordMapped (by unfold wordBytes; omega)
    have hmap : (w.proc d).Mapped q (max n 8) := fun i hi => hdst i (by
      unfold wordBytes WholeWords at *
      omega)
    obtain ⟨β, happly, -⟩ := transferVariantMem_apply s p d q hsize w (w.image.not_faults hwhole)
    obtain ⟨m, hm⟩ := writeVariantMem_onlyMem (w.proc d) (β .bufA) q n
    have hmem : m = copied (w.proc s).mem (w.proc d).mem p q n := by
      funext b
      have hexact := transferVariantMem_exact hs hd hread hmap hwhole hsize b
      rw [happly, hm] at hexact
      unfold transferExactly at hexact
      rw [if_neg (by omega)] at hexact
      have hleft : (Outcome.state (.ret (0 : Int) ((w.withBufs β).setProc d
          { w.proc d with mem := m }))).proc d = { w.proc d with mem := m } :=
        World.setProc_proc_self _ _ _
      rw [hleft] at hexact
      exact hexact.trans (congrFun (congrArg Tracee.mem (World.setProc_proc_self w d _)) b)
    rw [hm, hmem] at happly
    exact ⟨β, happly⟩

/-! ## Success -/

/-- The executor succeeds, in a state of which `Q` holds. -/
def surely (Q : World ρ → Prop) : Prog.Post (World ρ) Int :=
  ⟨fun r w' => r = 0 ∧ Q w', fun _ => False, fun _ _ => False⟩

theorem ret_of_surely {Q : World ρ → Prop} {m : Mon ρ Int} {w : World ρ}
    (h : Prog.wp m (surely Q) w) : ∃ w', m w = .ret 0 w' ∧ Q w' := by
  unfold Prog.wp at h
  cases hm : m w with
  | ret r w' =>
    rw [hm] at h
    obtain ⟨rfl, hQ⟩ : r = 0 ∧ Q w' := h
    exact ⟨w', rfl, hQ⟩
  | hung w' =>
    rw [hm] at h
    exact False.elim h
  | exited code w' =>
    rw [hm] at h
    exact False.elim h

/-! ## Transfers in the middle of an executor -/

section

variable {v b : World ρ} {l : Loc} {rm : Word} {mm : Mem} {t : Tracee} {o : ρ}
  {P : Prog.Post (World ρ) Int} {g : Int → Mon ρ Int}

namespace Midway

/-- A transfer of a whole size between buffers that are there. -/
theorem wp_whole (hb : Midway v b l rm mm t o) (hl : l = .entry ∨ l = .exit) {p q : Word} {n : ℕ}
    (hsrc : ∀ i < wordBytes n, (mm (p + BitVec.ofNat 64 i)).isSome) (hdst : t.Mapped q (wordBytes n))
    (hwhole : WholeWords n) (hsize : n ≤ BUF_SIZE)
    (h : ∀ b', Midway v b' l rm mm { t with mem := copied mm t.mem p q n } o → Prog.wp (g 0) P b') :
    Prog.wp (transferVariantMem .master p .replica q n >>= g) P b := by
  obtain ⟨β, happly⟩ := transferVariantMem_whole (p := p) (q := q) hb.stopped
    (by rw [hb.proc]; exact hb.replica_stopped hl) (by unfold Tracee.Mapped; rw [hb.mem]; exact hsrc)
    (by rw [hb.proc]; exact hdst) hwhole hsize
  rw [Prog.wp_bind]
  refine Prog.wp_of_eq_ret happly (h _ ?_)
  rw [hb.mem, hb.proc]
  exact hb.change β t.regs _

end Midway

end

/-! ## The executors -/

/-- The calls of which the result alone is handed over, as an `int`. -/
def resultCalls : List Syscall := [.getpid, .fchown, .fchmod, .listen, .close]

/-- Calls that fill a buffer as well, which is handed over with the result. -/
def fillCalls : List Syscall := [.pread64, .getrandom, .poll]

/-- The buffer's address. -/
def fillArg : Syscall → Fin 6
  | .pread64 => 1
  | _ => 0

/-- How many of its bytes are handed over, where the call returned `rm`. -/
def fillSize (c : Syscall) (args : Fin 6 → Word) (rm : Word) : ℕ :=
  match c with
  | .poll => (args 1 * sizeofPollfd).toNat
  | _ => rm.toNat

/-- The process `t`, released at its entry stop, back in its own code and told the result `x`. -/
def Tracee.cameBack (t : Tracee) (x rcx r11 : Word) : Tracee :=
  { t with
    loc := .user, reported := false
    ran := t.ran ++ [t.regs .origRax]
    regs := Tracee.retRegs t.regs x rcx r11 }

/-- The two make the same call, from the same memory. -/
structure World.Alike (w : World ρ) : Prop where
  args : ∀ k, (w.var .master).syscallInfo.arg k = (w.var .replica).syscallInfo.arg k
  mem : (w.proc .master).mem = (w.proc .replica).mem

theorem retRegs_told (regs : Regs) (rr rcx r11 x : Word) :
    Function.update (Tracee.retRegs regs rr rcx r11) .rax x = Tracee.retRegs regs x rcx r11 := by
  funext r
  cases r <;> simp [Tracee.retRegs, Function.update]

section

variable {K : Kernel ρ} {w : World ρ} {c : Syscall} {rm rr rcx r11 rcx' r11' : Word} {mm : Mem} {o : ρ}

/-- A comparison that finds no difference. -/
theorem wp_accepted {eq : Mon ρ Bool} {body : Mon ρ Int} {q : Prop} {Q : World ρ → Prop}
    (hd : Decides eq w q) (hq : q) (h : ∀ β, Prog.wp body (surely Q) (w.withBufs β)) :
    Prog.wp (guarded eq body) (surely Q) w := by
  obtain ⟨β, hβ⟩ := hd.ret_true hq
  unfold Prog.wp
  rw [guarded_true hβ]
  exact h β

variable (hx : (w.ctl .master).AtEntry) (hy : (w.ctl .replica).AtEntry)
include hx hy

theorem handed_masterOnly
    (hm : (K.answer .master w).1 = .ret rm rcx' r11' mm)
    (hr : K.syscall .replica { w.proc .replica with
        regs := Function.update (w.proc .replica).regs .origRax Syscall.getpid.nr }.resume
      (K.answer .master w).2 = (.ret rr rcx r11 (w.proc .replica).mem, o)) :
    Prog.wp (runMasterReplicateRet K) (surely fun w' => w'.os = o ∧
      w'.proc .replica = { w.proc .replica with
          regs := Function.update (w.proc .replica).regs .origRax Syscall.getpid.nr }.cameBack
        (ofInt (toInt rm)) rcx r11) w := by
  refine wp_answered hx hy hm rfl fun b hb => hb.wp_rval ?_
  rintro i rfl
  refine hb.wp_setSyscall _ fun b₁ hb₁ => hb₁.wp_answered hr fun b₂ hb₂ => ?_
  refine hb₂.wp_setReturn _ fun b₃ hb₃ => hb₃.wp_leave fun b₄ hb₄ => ⟨rfl, hb₄.os, ?_⟩
  rw [hb₄.proc]
  simp only [Tracee.cameBack, Tracee.returned, retRegs_told]

theorem handed_both
    (hm : (K.answer .master w).1 = .ret rm rcx' r11' mm)
    (hr : K.syscall .replica (w.proc .replica).resume (K.answer .master w).2 =
      (.ret rr rcx r11 (w.proc .replica).mem, o)) :
    Prog.wp (runBothCopyMasterRet K) (surely fun w' => w'.os = o ∧
      w'.proc .replica = (w.proc .replica).cameBack (ofInt (toInt rm)) rcx r11) w := by
  refine wp_answered hx hy hm rfl fun b hb => hb.wp_rval ?_
  rintro i rfl
  refine hb.wp_answered hr fun b₂ hb₂ => ?_
  refine hb₂.wp_setReturn _ fun b₃ hb₃ => hb₃.wp_leave fun b₄ hb₄ => ⟨rfl, hb₄.os, ?_⟩
  rw [hb₄.proc]
  simp only [Tracee.cameBack, Tracee.returned, retRegs_told]

/-- **The result alone.** -/
theorem handed_told (hc : c ∈ resultCalls) (ha : w.Alike)
    (hm : (K.answer .master w).1 = .ret rm rcx' r11' mm)
    (hr : K.syscall .replica (w.released c rm (w.proc .replica).mem).resume (K.answer .master w).2 =
      (.ret rr rcx r11 (w.proc .replica).mem, o)) :
    Prog.wp (execSyscall K c) (surely fun w' => w'.os = o ∧ w'.proc .replica =
      (w.released c rm (w.proc .replica).mem).cameBack (ofInt (toInt rm)) rcx r11) w := by
  simp only [resultCalls, List.mem_cons, List.not_mem_nil, or_false] at hc
  rcases hc with rfl | rfl | rfl | rfl | rfl
  · exact handed_masterOnly hx hy hm hr
  · exact wp_accepted (decides_argsEq _ w) (fun k _ => ha.args k) fun β =>
      handed_masterOnly (w := w.withBufs β) hx hy hm hr
  · exact wp_accepted (decides_argsEq _ w) (fun k _ => ha.args k) fun β =>
      handed_masterOnly (w := w.withBufs β) hx hy hm hr
  · exact wp_accepted (decides_argsEq _ w) (fun k _ => ha.args k) fun β =>
      handed_masterOnly (w := w.withBufs β) hx hy hm hr
  · exact wp_accepted (decides_argsEq _ w) (fun k _ => ha.args k) fun β =>
      handed_both (w := w.withBufs β) hx hy hm hr

/-- The replica's memory with the buffer of `c` handed over. -/
def World.filledMem (w : World ρ) (c : Syscall) (rm : Word) (mm : Mem) : Mem :=
  copied mm (w.proc .replica).mem ((w.var .master).syscallInfo.arg (fillArg c))
    ((w.var .master).syscallInfo.arg (fillArg c)) (fillSize c (w.var .master).syscallInfo.arg rm)

/-- The memory with which the replica is released. -/
def World.releasedMem (w : World ρ) (c : Syscall) (rm : Word) (mm : Mem) : Mem :=
  if c.transfersFirst then w.filledMem c rm mm else (w.proc .replica).mem

/-- The buffer of `c` is there, word for word, before the call and after it, and its size is one that
is transferred as it should be. -/
structure World.Fits (w : World ρ) (c : Syscall) (rm : Word) (mm : Mem) : Prop where
  size : fillSize c (w.var .master).syscallInfo.arg rm ≤ BUF_SIZE
  whole : WholeWords (fillSize c (w.var .master).syscallInfo.arg rm)
  before : (w.proc .replica).Mapped ((w.var .master).syscallInfo.arg (fillArg c))
    (wordBytes (fillSize c (w.var .master).syscallInfo.arg rm))
  after : ∀ i < wordBytes (fillSize c (w.var .master).syscallInfo.arg rm),
    (mm ((w.var .master).syscallInfo.arg (fillArg c) + BitVec.ofNat 64 i)).isSome

theorem handed_pread64 (ha : w.Alike) (hfits : w.Fits .pread64 rm mm)
    (hm : (K.answer .master w).1 = .ret rm rcx' r11' mm)
    (hr : K.syscall .replica (w.released .pread64 rm (w.filledMem .pread64 rm mm)).resume
      (K.answer .master w).2 = (.ret rr rcx r11 (w.filledMem .pread64 rm mm), o)) :
    Prog.wp (execSyscallPread64 K) (surely fun w' => w'.os = o ∧ w'.proc .replica =
      (w.released .pread64 rm (w.filledMem .pread64 rm mm)).cameBack rm rcx r11) w := by
  refine wp_accepted (decides_argsEq _ w) (fun k _ => ha.args k) fun β => ?_
  refine wp_argOf_eq (wp_argOf_eq ?_)
  refine wp_answered (w := w.withBufs β) hx hy hm rfl fun b hb => hb.wp_rval ?_
  rintro i rfl
  rw [World.withBufs_var, ← ha.args 1]
  refine hb.wp_whole (.inl rfl) hfits.after hfits.before hfits.whole hfits.size fun b₁ hb₁ => ?_
  refine hb₁.wp_setSyscall _ fun b₂ hb₂ => hb₂.wp_answered hr fun b₃ hb₃ => ?_
  refine hb₃.wp_setReturn _ fun b₄ hb₄ => hb₄.wp_leave fun b₅ hb₅ => ⟨rfl, hb₅.os, ?_⟩
  rw [hb₅.proc]
  simp only [Tracee.cameBack, Tracee.returned, retRegs_told]
  rfl

theorem handed_getrandom (ha : w.Alike) (hfits : w.Fits .getrandom rm mm)
    (hm : (K.answer .master w).1 = .ret rm rcx' r11' mm)
    (hr : K.syscall .replica (w.released .getrandom rm (w.filledMem .getrandom rm mm)).resume
      (K.answer .master w).2 = (.ret rr rcx r11 (w.filledMem .getrandom rm mm), o)) :
    Prog.wp (execSyscallGetrandom K) (surely fun w' => w'.os = o ∧ w'.proc .replica =
      (w.released .getrandom rm (w.filledMem .getrandom rm mm)).cameBack rm rcx r11) w := by
  refine wp_accepted (decides_argsEq _ w) (fun k _ => ha.args k) fun β => ?_
  refine wp_argOf_eq (wp_argOf_eq ?_)
  refine wp_answered (w := w.withBufs β) hx hy hm rfl fun b hb => hb.wp_rval ?_
  rintro i rfl
  -- a size within the buffer is not `-1`
  have hsize : i.rval.toNat ≤ BUF_SIZE := hfits.size
  have hok : i.rval ≠ -1 := by
    intro hno
    rw [hno] at hsize
    exact absurd hsize (by decide)
  rw [World.withBufs_var, ← ha.args 0]
  refine wp_doIf (fun _ => ?_) fun hno => absurd hok hno
  refine hb.wp_whole (.inl rfl) hfits.after hfits.before hfits.whole hfits.size fun b₁ hb₁ => ?_
  refine hb₁.wp_setSyscall _ fun b₂ hb₂ => hb₂.wp_answered hr fun b₃ hb₃ => ?_
  refine hb₃.wp_setReturn _ fun b₄ hb₄ => hb₄.wp_release fun b₅ hb₅ => ⟨rfl, hb₅.os, ?_⟩
  rw [hb₅.proc]
  simp only [Tracee.cameBack, Tracee.returned, retRegs_told]
  rfl

/-- `poll` hands the whole array over, once the replica is back. -/
theorem handed_poll (ha : w.Alike) (hfits : w.Fits .poll rm mm)
    (hm : (K.answer .master w).1 = .ret rm rcx' r11' mm)
    (hr : K.syscall .replica (w.released .poll rm (w.proc .replica).mem).resume
      (K.answer .master w).2 = (.ret rr rcx r11 (w.proc .replica).mem, o)) :
    Prog.wp (execSyscallPoll K) (surely fun w' => w'.os = o ∧ w'.proc .replica =
      { (w.released .poll rm (w.proc .replica).mem).cameBack rm rcx r11 with
        mem := w.filledMem .poll rm mm }) w := by
  have hbytes : w.SameBytes 0 ((w.var .master).syscallInfo.arg 1 * sizeofPollfd).toNat := by
    intro i _
    have hs := (stopped_of_atEntry hx).trans (stopped_of_atEntry hy).symm
    rw [Tracee.byteAt_congr hs ha.mem, ha.args 0]
  refine wp_accepted (decides_pollEq w) ⟨fun k _ => ha.args k, hfits.size, hbytes⟩ fun β => ?_
  refine wp_argOf_eq (wp_argOf_eq (wp_argOf_eq ?_))
  refine wp_answered (w := w.withBufs β) hx hy hm rfl fun b hb => ?_
  refine hb.wp_setSyscall _ fun b₁ hb₁ => hb₁.wp_answered hr fun b₂ hb₂ => ?_
  rw [World.withBufs_var, ← ha.args 0]
  refine hb₂.wp_whole (.inr rfl) hfits.after hfits.before hfits.whole hfits.size fun b₃ hb₃ => ?_
  refine hb₃.wp_rval ?_
  rintro i rfl
  refine hb₃.wp_setReturn _ fun b₄ hb₄ => hb₄.wp_leave fun b₅ hb₅ => ⟨rfl, hb₅.os, ?_⟩
  rw [hb₅.proc]
  simp only [Tracee.cameBack, Tracee.returned, retRegs_told]
  rfl

/-- **The result and a buffer.** -/
theorem handed_filled (hc : c ∈ fillCalls) (ha : w.Alike) (hfits : w.Fits c rm mm)
    (hm : (K.answer .master w).1 = .ret rm rcx' r11' mm)
    (hr : K.syscall .replica (w.released c rm (w.releasedMem c rm mm)).resume
      (K.answer .master w).2 = (.ret rr rcx r11 (w.releasedMem c rm mm), o)) :
    Prog.wp (execSyscall K c) (surely fun w' => w'.os = o ∧ w'.proc .replica =
      { (w.released c rm (w.releasedMem c rm mm)).cameBack rm rcx r11 with
        mem := w.filledMem c rm mm }) w := by
  simp only [fillCalls, List.mem_cons, List.not_mem_nil, or_false] at hc
  rcases hc with rfl | rfl | rfl
  · exact handed_pread64 hx hy ha hfits hm hr
  · exact handed_getrandom hx hy ha hfits hm hr
  · exact handed_poll hx hy ha hfits hm hr

end

end Aurora
