import AuroraMVEE.Mediation
import AuroraMVEE.Untouched
import AuroraMVEE.Faults

/-!
# Containment

When the monitor is gone, a variant lives on exactly if nobody killed it:
`configureChildProc` asks for `PTRACE_O_EXITKILL`, and its second request replaces the
first.  So it depends on the way the monitor ends.  A failed rendezvous kills both variants;
the other ways do not.  `contained_iff` says which runs leave a variant alive and
untraced: those in which one variant's death is reported while the other lives, a
stop is reported that is neither an entry nor an exit, an entry stop finds its
variant behind its partner, or a copy in an executor kills the monitor itself (`World.FaultsIn`).

* `Frees`, `World.Held` — a variant that is marked as waiting at a call that copies stands there,
  or has died there; so `execSyscall_exited_iff` tells when the last of these happens.
-/

namespace Aurora

variable {ρ : Type}

/-- Some variant is alive, and nobody traces it. -/
def World.Escaped (w : World ρ) : Prop := ∃ v, (w.proc v).alive = true ∧ (w.proc v).traced = false

/-- Both variants are traced, and neither would be killed with its tracer. -/
structure World.Leashed (w : World ρ) : Prop where
  traced : ∀ v, (w.proc v).traced = true
  noExitKill : ∀ v, (w.proc v).options &&& PTRACE_O_EXITKILL = 0

/-- The event does not end the monitor before the variants. -/
def Event.Contains (s : Sys ρ) : Event ρ → Prop
  | .wake v K =>
      if (s.world.proc v).alive then
        ((s.world.woken v).proc v).syscallInfo.op ≠ .none ∧
          (((s.world.woken v).proc v).syscallInfo.op = .entry →
            (s.world.var v.other).syscallNum ≤ (s.world.var v).syscallNum) ∧
          ¬ s.world.FaultsIn K v
      else (s.world.proc v.other).alive = false
  | _ => True

/-! ## The leash is never touched -/

/-- What the kernel looks at when the tracer goes. -/
def World.leash (w : World ρ) (v : Who) : Bool × BitVec 32 := ((w.proc v).traced, (w.proc v).options)

theorem leash_setProc {w : World ρ} {v : Who} {t : Tracee} (ht : t.traced = (w.proc v).traced)
    (ho : t.options = (w.proc v).options) : (w.setProc v t).leash = w.leash := by
  funext u
  by_cases hu : u = v
  · subst hu; simp [World.leash, ht, ho]
  · simp [World.leash, hu]

theorem leash_report (w : World ρ) (v : Who) : (w.report v).leash = w.leash := leash_setProc rfl rfl

theorem leash_kill (w : World ρ) (v : Who) : (w.kill v).leash = w.leash := by
  unfold World.kill Tracee.die
  split <;> exact leash_setProc rfl rfl

theorem leash_advance (w : World ρ) (K : Kernel ρ) (v : Who) : (w.advance K v).leash = w.leash := by
  unfold World.advance
  split
  · split
    · refine (show _ = (w.setProc v ((w.proc v).finish (K.syscall v (w.proc v) w.os).1)).leash
        from rfl).trans ?_
      cases (K.syscall v (w.proc v) w.os).1 with
      | died => exact leash_kill w v
      | ret rax rcx r11 mem => exact leash_setProc rfl rfl
    · cases K.user v (w.proc v) w.os with
      | died => exact leash_kill w v
      | entry regs mem => exact leash_setProc rfl rfl
      | signal regs mem => exact leash_setProc rfl rfl
    · rfl
  · rfl

theorem leash_resume (w : World ρ) (v : Who) : (w.setProc v (w.proc v).resume).leash = w.leash := by
  unfold Tracee.resume
  split
  · split <;> exact leash_setProc rfl rfl
  · exact leash_setProc rfl rfl

theorem untouched_leash (K : Kernel ρ) : Untouched K (World.leash (ρ := ρ)) where
  bufs _ _ := rfl
  struct _ _ _ := rfl
  resume := leash_resume
  pokeUser w v r x := by unfold Tracee.pokeUser; split <;> exact leash_setProc rfl rfl
  setRegs w v regs := by unfold Tracee.setRegs; split <;> exact leash_setProc rfl rfl
  poke w v a d := by unfold Tracee.poke; split <;> exact leash_setProc rfl rfl
  table _ _ := rfl
  wait v w := by
    unfold Prog.wp waitVariant
    split
    · exact (leash_report _ v).trans (leash_advance w K v)
    split
    · exact leash_report w v
    split
    · split
      · exact (leash_report _ v).trans (leash_kill w v)
      · rfl
    · rfl

namespace World.Leashed

variable {w w' : World ρ}

theorem of_leash (h : w.Leashed) (hw : w'.leash = w.leash) : w'.Leashed :=
  ⟨fun v => (congrArg Prod.fst (congrFun hw v)).trans (h.traced v), fun v => by
    rw [show (w'.proc v).options = (w.proc v).options from congrArg Prod.snd (congrFun hw v)]
    exact h.noExitKill v⟩

theorem not_escaped (h : w.Leashed) : ¬ w.Escaped := by
  rintro ⟨v, -, ht⟩
  exact absurd ((h.traced v).symm.trans ht) (by decide)

/-- A leashed variant survives its tracer. -/
theorem escaped_tracerGone (h : w.Leashed) : w.tracerGone.Escaped ↔ ∃ v, (w.proc v).alive = true := by
  have hgone : ∀ v, w.tracerGone.proc v = { w.proc v with traced := false } := fun v => by
    have hk := h.noExitKill v
    simp [World.tracerGone, Tracee.tracerGone, hk]
  refine exists_congr fun v => ?_
  rw [hgone v]
  simp

/-- Nothing escapes that is dead. -/
theorem not_escaped_tracerGone (h : w.Leashed) (hdead : ∀ v, (w.proc v).alive = false) :
    ¬ w.tracerGone.Escaped := by
  rw [h.escaped_tracerGone]
  rintro ⟨v, hv⟩
  exact absurd ((hdead v).symm.trans hv) (by decide)

/-- A living variant escapes when the monitor leaves. -/
theorem escaped_of_alive (h : w.Leashed) {v : Who} (ha : (w.proc v).alive = true) :
    w.tracerGone.Escaped := h.escaped_tracerGone.2 ⟨v, ha⟩

end World.Leashed

theorem Tracee.not_alive_of_reaped {t : Tracee} (h : t.reaped = true) : t.alive = false := by
  simp only [Tracee.reaped, Bool.and_eq_true, Bool.not_eq_true'] at h
  exact h.1

/-! ## Who is held -/

section Frees

variable {K : Kernel ρ} {w : World ρ} {S : Who → Prop} {m f : Mon ρ Int}

/-- What no executor undoes: who is marked as running stays so, and only of such a variant is
another stop looked at. -/
def Unmarks (w w' : World ρ) : Prop := ∀ v, ((w.var v).state = .running → (w'.var v).state = .running) ∧
  ((w'.var v).state = .running ∨ (w'.var v).syscallInfo = (w.var v).syscallInfo)

instance : IsPreorder (World ρ) Unmarks where
  refl _ _ := ⟨id, .inr rfl⟩
  trans _ _ _ h h' v := ⟨fun hv => (h' v).1 ((h v).1 hv), (h' v).2.elim .inl fun hinfo =>
    (h v).2.elim (fun hrun => .inl ((h' v).1 hrun)) fun hinfo' => .inr (hinfo.trans hinfo')⟩

theorem Unmarks.of_var {w w' : World ρ} (h : w'.var = w.var) : Unmarks w w' := fun v => by
  rw [h]
  exact ⟨id, .inr rfl⟩

theorem Unmarks.setVar {w : World ρ} {v : Who} {x : Variant}
    (hrun : (w.var v).state = .running → x.state = .running)
    (hinfo : x.state = .running ∨ x.syscallInfo = (w.var v).syscallInfo) : Unmarks w (w.setVar v x) := by
  intro u
  by_cases hu : u = v
  · subst hu
    simpa using ⟨hrun, hinfo⟩
  · simp [hu]

theorem tame_unmarks (K : Kernel ρ) : Tame K Unmarks where
  bufs _ _ := .of_var rfl
  mark _ _ := .setVar (fun _ => rfl) (.inl rfl)
  count _ _ := .setVar id (.inr rfl)
  note _ _ _ h := .setVar id (.inl h)
  resume _ _ := .of_var rfl
  pokeUser _ _ _ _ := .of_var rfl
  setRegs _ _ _ := .of_var rfl
  poke _ _ _ _ := .of_var rfl
  table _ _ := .of_var rfl
  wait v w := Prog.wp_mono (P := .kept World.var w) (fun _ _ h => .of_var h) (fun _ h => .of_var h)
    (fun _ _ h => .of_var h) (var_waitVariant K v w)

/-- Everything an executor does leaves a variant that is marked as running so. -/
def StayMarked (w w' : World ρ) : Prop := ∀ v, (w.var v).state = .running → (w'.var v).state = .running

theorem Unmarks.stayMarked {w w' : World ρ} (h : Unmarks w w') : StayMarked w w' := fun v => (h v).1

theorem stayMarked_note (v : Who) : Prog.Within StayMarked (requestSyscallInfo v : Mon ρ Unit) := by
  refine .modify fun w u hu => ?_
  by_cases huv : u = v
  · subst huv
    simpa using hu
  · simpa [huv] using hu

/-- If `m` succeeds, where the variants in `S` are marked as running, both are. -/
def Frees (S : Who → Prop) (m : Mon ρ Int) : Prop :=
  ∀ w, (∀ v, S v → (w.var v).state = .running) → ∀ w', m w = .ret 0 w' →
    ∀ v, (w'.var v).state = .running

namespace Frees

theorem fail : Frees S (pure (-1) : Mon ρ Int) := fun _ _ _ h => by simp at h

theorem ite {c : Prop} [Decidable c] (hm : Frees S m) (hf : Frees S f) :
    Frees S (if c then m else f) := by
  by_cases hc : c
  · rwa [if_pos hc]
  · rwa [if_neg hc]

theorem bind {α : Type} {m : Mon ρ α} {g : α → Mon ρ Int} (hm : Prog.Within StayMarked m)
    (hg : ∀ a, Frees S (g a)) : Frees S (m >>= g) := by
  intro w hS w' hrun
  rw [Prog.bind_apply] at hrun
  cases hmid : m w with
  | ret a b =>
    rw [hmid] at hrun
    exact hg a b (fun v hv => hm.of_ret hmid v (hS v hv)) w' hrun
  | hung b => simp [hmid] at hrun
  | exited code b => simp [hmid] at hrun

/-- What is left once both are marked. -/
theorem rest (hm : Prog.Within Unmarks m) (hS : ∀ v, S v) : Frees S m :=
  fun _ hw _ hrun v => (hm.of_ret hrun v).1 (hw v (hS v))

/-- `if (waitVariant(v) fails) return -1`, after the resume. -/
theorem wait {v : Who} {c : Int → Prop} [DecidablePred c] (hf : Frees (fun u => u = v ∨ S u) f) :
    Frees S (resumeAndWait K v >>= fun r => if c r then pure (-1) else f) := by
  intro w hS w' hrun
  rw [Prog.bind_apply] at hrun
  cases hmid : resumeAndWait K v w with
  | ret a b =>
    have hstate := Prog.ret_of_wp (state_resumeAndWait K v w) hmid
    have hkept := (((tame_unmarks K).resumeAndWait v).of_ret hmid).stayMarked
    rw [hmid] at hrun
    change (if c a then pure (-1) else f : Mon ρ Int) b = _ at hrun
    by_cases ha : c a
    · rw [if_pos ha] at hrun
      simp at hrun
    · rw [if_neg ha] at hrun
      refine hf b (fun u hu => ?_) w' hrun
      rcases hu with rfl | hu
      · exact hstate
      · exact hkept u (hS u hu)
  | hung b => simp [hmid] at hrun
  | exited code b => simp [hmid] at hrun

end Frees

/-- An executor that copies as it is told succeeds only with both marked as running. -/
theorem frees_execSyscall (K : Kernel ρ) {c : Syscall} (hc : c ∈ sizedCalls) :
    Frees (fun _ => False) (execSyscall K c) := by
  have h := tame_unmarks K
  have hlook {α : Type} (f : World ρ → α) : Prog.Within StayMarked (Prog.gets f) :=
    (Prog.Within.gets (R := Unmarks) f).mono fun _ _ => Unmarks.stayMarked
  have hmove {s sBuf d dBuf size} :
      Prog.Within StayMarked (transferVariantMem s sBuf d dBuf size : Mon ρ Int) :=
    (h.transferVariantMem _ _ _ _ _).mono fun _ _ => Unmarks.stayMarked
  have hset (v : Who) (call : Word) : Prog.Within StayMarked (setSyscall v call : Mon ρ Unit) :=
    (h.setSyscall _ _).mono fun _ _ => Unmarks.stayMarked
  have hguard {body : Mon ρ Int} (hbody : Frees (fun _ => False) body) :
      Frees (fun _ => False) (guarded (verdict c) body) :=
    .bind ((h.ofReadOnly (readOnly_verdict c)).mono fun _ _ => Unmarks.stayMarked) fun _ =>
      .ite hbody .fail
  have hboth : ∀ v : Who, v = .replica ∨ v = .master ∨ False := Who.forall_iff.2 (by decide)
  -- the end of every one of them but `getrandom`
  have hleave (x : Word) : Frees (fun v => v = .replica ∨ v = .master ∨ False) (do
      setSyscallReturnValue .replica x
      resumeVariantFromExit .master
      resumeVariantFromExit .replica
      return 0 : Mon ρ Int) := .rest (.bind (h.setSyscallReturnValue _ _) fun _ => h.leaveBoth) hboth
  simp only [sizedCalls, List.mem_cons, List.not_mem_nil, or_false] at hc
  rcases hc with rfl | rfl | rfl | rfl | rfl
  · refine hguard (.bind (hlook _) fun _ => .bind (hlook _) fun _ => .bind (hlook _) fun _ =>
      .wait (.bind (stayMarked_note _) fun _ => .bind (hlook _) fun _ =>
        .bind (.ite hmove fun _ _ => id) fun _ => .ite .fail ?_))
    refine .bind ((h.setLseekRegs _ _ _).mono fun _ _ => Unmarks.stayMarked) fun _ => ?_
    exact .bind (hset _ _) fun _ => .wait (hleave _)
  · refine hguard (.bind (hlook _) fun _ => .bind (hlook _) fun _ => .wait (.bind (stayMarked_note _)
      fun _ => .bind (hlook _) fun _ => .bind hmove fun _ => .ite .fail ?_))
    exact .bind (hset _ _) fun _ => .wait (hleave _)
  · refine hguard (.bind (hlook _) fun _ => .bind (hlook _) fun _ => .wait (.bind (stayMarked_note _)
      fun _ => .bind (hlook _) fun _ => .bind (.ite hmove fun _ _ => id) fun _ => .ite .fail ?_))
    refine .bind (hset _ _) fun _ => .wait (.rest ?_ hboth)
    exact .bind (h.setSyscallReturnValue _ _) fun _ => .bind (h.resumeFromWait _) fun _ =>
      .bind (h.resumeFromWait _) fun _ => .pure _
  · refine hguard (.bind (hlook _) fun _ => .bind (hlook _) fun _ => .bind (hlook _) fun _ =>
      .wait (.bind (stayMarked_note _) fun _ => .bind (hset _ _) fun _ => .wait ?_))
    refine .bind (.ite ?_ fun _ _ => id) fun _ => .bind (hlook _) fun _ => hleave _
    exact (Prog.Within.bind (.gets _) fun _ => .bind (.gets _) fun _ =>
      h.transferVariantMem _ _ _ _ _).mono fun _ _ => Unmarks.stayMarked
  · refine hguard (.bind (hlook _) fun _ => .bind (hlook _) fun _ => .bind (hlook _) fun _ =>
      .bind (hlook _) fun _ => .bind (hlook _) fun _ => .wait (.bind (stayMarked_note _) fun _ =>
        .bind (hset _ _) fun _ => .wait (.bind (hlook _) fun _ => .rest ?_ hboth)))
    exact .bind (h.setSyscallReturnValue _ _) fun _ => .bind (.gets _) fun _ =>
      .bind (.ite (h.transferVariantMem _ _ _ _ _) (.pure _)) fun _ => h.leaveBoth

end Frees

/-! ### The variants that are held -/

/-- A variant is marked as waiting at the entry of a call that copies as it is told. -/
structure Variant.AtSized (x : Variant) : Prop where
  state : x.state = .wait
  op : x.syscallInfo.op = .entry
  call : ∃ c ∈ sizedCalls, x.syscallInfo.nr = c.nr

/-- Then it stands there, or has died there. -/
def World.Held (w : World ρ) : Prop :=
  ∀ v, (w.var v).AtSized → (w.ctl v).AtEntry ∨ (w.proc v).Dead

section Held

variable {w w' : World ρ} {v : Who} {K : Kernel ρ}

theorem atEntry_of_proc (h : (w.ctl v).AtEntry) (hp : w'.proc v = w.proc v) : (w'.ctl v).AtEntry where
  loc := (congrArg Tracee.loc hp).trans h.loc
  alive := (congrArg Tracee.alive hp).trans h.alive
  reported := (congrArg Tracee.reported hp).trans h.reported
  traced := (congrArg Tracee.traced hp).trans h.traced

/-- It is enough to look at one variant, where the other is left alone. -/
theorem World.Held.of_other (h : w.Held) (hvar : ∀ u ≠ v, w'.var u = w.var u)
    (hproc : ∀ u ≠ v, w'.proc u = w.proc u)
    (hv : (w'.var v).AtSized → (w'.ctl v).AtEntry ∨ (w'.proc v).Dead) : w'.Held := by
  intro u hu
  by_cases huv : u = v
  · exact huv ▸ hv (huv ▸ hu)
  · rw [hvar u huv] at hu
    rcases h u hu with hat | hdead
    · exact .inl (atEntry_of_proc hat (hproc u huv))
    · exact .inr (by rw [hproc u huv]; exact hdead)

theorem World.Held.of_running (h : ∀ u, (w.var u).state = .running) : w.Held := fun u hu =>
  absurd (hu.state.symm.trans (h u)) (by decide)

/-- Nobody that is held is running. -/
theorem World.Held.advance (h : w.Held) (hrun : (w.proc v).running = true) :
    (w.advance K v).Held := by
  refine h.of_other (v := v) (fun u _ => by rw [World.advance_var])
    (fun u hu => World.advance_proc_of_ne w K hu) fun hsized => ?_
  rw [World.advance_var] at hsized
  rcases h v hsized with hat | hdead
  · have hloc : (w.proc v).loc = .entry := hat.loc
    simp [Tracee.running, hloc] at hrun
  · simp [Tracee.running, hdead.1] at hrun

/-- Who is killed where he is held has died there. -/
theorem World.Held.kill (h : w.Held) (ha : (w.proc v).alive = true) : (w.kill v).Held := by
  refine h.of_other (v := v) (fun _ _ => rfl) (fun u hu => World.setProc_proc_of_ne w hu _) fun _ => ?_
  refine .inr ?_
  rw [World.kill, World.setProc_proc_self, Tracee.die, if_pos ha]
  exact ⟨rfl, rfl⟩

/-- Only at an entry stop there is a call to be seen. -/
theorem Tracee.loc_of_op {t : Tracee} (h : t.syscallInfo.op = .entry) : t.loc = .entry := by
  unfold Tracee.syscallInfo at h
  split at h
  · cases hl : t.loc <;> simp [hl, SyscallInfo.ofExit, SyscallInfo.zero] at h ⊢
  · exact absurd h (by decide)

theorem atEntry_of_op (htraced : (w.proc v).traced = true) (ha : (w.proc v).alive = true)
    (hop : ((w.woken v).proc v).syscallInfo.op = .entry) : (((w.woken v).noted v).ctl v).AtEntry := by
  have hloc := Tracee.loc_of_op hop
  rw [World.woken_proc_self] at hloc
  refine ⟨?_, ?_, ?_, ?_⟩ <;> simp [World.ctl, hloc, ha, htraced]

/-- Nobody is held at a call that copies once a rendezvous has succeeded. -/
theorem held_of_serviced {x : World ρ} (hrun : processSyscallSync K x = .ret 0 w) : w.Held := by
  rcases processSyscallSync_cases K x with hno | ⟨c, -, hnr, hexec⟩
  · exact absurd (hno.symm.trans hrun) (by simp)
  rw [hexec] at hrun
  by_cases hc : c ∈ sizedCalls
  · exact .of_running (frees_execSyscall K hc x (fun _ h => h.elim) w hrun)
  · intro u hu
    exfalso
    rcases ((within_execSyscall (tame_unmarks K) c).of_ret hrun u).2 with hrunning | hinfo
    · exact absurd (hu.state.symm.trans hrunning) (by decide)
    · obtain ⟨d, hd, hnr'⟩ := hu.call
      rw [hinfo, hnr u] at hnr'
      exact hc (Syscall.nr_injective hnr' ▸ hd)

end Held

/-! ## One event -/

section Step

variable {s s' : Sys ρ} {e : Event ρ}

theorem leash_woken (w : World ρ) (v : Who) : (w.woken v).leash = w.leash := leash_report w v

theorem leash_passed (w : World ρ) (v : Who) : (w.passed v).leash = w.leash := leash_resume w v

theorem leash_bothKilled (w : World ρ) : w.bothKilled.leash = w.leash :=
  (leash_kill _ _).trans (leash_kill _ _)

theorem not_alive_bothKilled (w : World ρ) (v : Who) : (w.bothKilled.proc v).alive = false := by
  cases v <;> simp [World.bothKilled, World.kill, Tracee.die_dead]

theorem woken_alive (w : World ρ) (u v : Who) : ((w.woken v).proc u).alive = (w.proc u).alive := by
  by_cases hu : u = v
  · subst hu; simp
  · simp [World.woken_proc, hu]

/-- At a meeting for a call that copies, each of the two stands at its entry stop or has died
there. -/
theorem standing_met {w : World ρ} {v : Who} (h : w.Leashed) (hheld : w.Held)
    (ha : (w.proc v).alive = true) (hsync : (w.woken v).callsSync v) {c : Syscall} (hc : c ∈ sizedCalls)
    (hcall : ∀ u, (((w.woken v).noted v).var u).syscallInfo.op = .entry ∧
      (((w.woken v).noted v).var u).syscallInfo.nr = c.nr) : ((w.woken v).noted v).Standing := by
  intro u
  by_cases hu : u = v
  · subst hu
    exact .inl (atEntry_of_op (h.traced u) ha hsync.1)
  · obtain rfl : u = v.other := Who.eq_other_of_ne hu
    have hproc : ((w.woken v).noted v).proc v.other = w.proc v.other := by
      rw [World.noted_proc, World.woken_proc, Function.update_of_ne hu]
    have hinfo := hcall v.other
    rw [World.noted_var_other, World.woken_var] at hinfo
    rcases hheld v.other ⟨hsync.2.2, hinfo.1, c, hc, hinfo.2⟩ with hat | hdead
    · exact .inl (atEntry_of_proc hat hproc)
    · exact .inr (by rw [hproc]; exact hdead)

/-- A rendezvous leaves the process just where its copy faults. -/
theorem exited_iff_faultsIn {w : World ρ} {v : Who} {K : Kernel ρ} (h : w.Leashed) (hheld : w.Held)
    (ha : (w.proc v).alive = true) (hsync : (w.woken v).callsSync v) :
    (∃ code w', processSyscallSync K ((w.woken v).noted v) = .exited code w') ↔ w.FaultsIn K v := by
  constructor
  · rintro ⟨code, w', hrun⟩
    rcases processSyscallSync_cases K ((w.woken v).noted v) with hno | ⟨c, hops, hnr, hexec⟩
    · exact absurd (hno.symm.trans hrun) (by simp)
    rw [hexec] at hrun
    have hc : c ∈ sizedCalls := by
      by_contra hc
      exact stays_execSyscall K hc _ _ _ hrun
    have hself : (((w.woken v).noted v).var v).syscallInfo.op = .entry := by
      rw [World.noted_var_self]
      exact hsync.1
    have hcall := fun u => And.intro ((hops u v).trans hself) (hnr u)
    exact ⟨hsync, c, hcall, ((execSyscall_exited_iff (standing_met h hheld ha hsync hc hcall)).1
      ⟨w', hrun⟩).1⟩
  · rintro ⟨-, c, hcall, hcrash⟩
    have hstanding := standing_met h hheld ha hsync hcrash.1 hcall
    obtain ⟨w', hrun⟩ := (execSyscall_exited_iff hstanding).2 ⟨hcrash, rfl⟩
    exact ⟨SIGSEGV_STATUS, w', (processSyscallSync_call K hcall).trans hrun⟩

/-- It leaves the master alive. -/
theorem master_alive_of_exited {w w' : World ρ} {v : Who} {K : Kernel ρ} {code : Int} (h : w.Leashed)
    (hheld : w.Held) (ha : (w.proc v).alive = true) (hsync : (w.woken v).callsSync v)
    (hrun : processSyscallSync K ((w.woken v).noted v) = .exited code w') :
    (w'.proc .master).alive = true := by
  obtain ⟨-, c, hcall, hcrash⟩ := (exited_iff_faultsIn h hheld ha hsync).1 ⟨code, w', hrun⟩
  rw [processSyscallSync_call K hcall] at hrun
  exact alive_of_exited (standing_met h hheld ha hsync hcrash.1 hcall) hrun

/-- A rendezvous that does not leave the process contains the variants. -/
theorem contains_of_sync (h : s.world.Leashed) (hheld : s.world.Held) {v : Who} {K : Kernel ρ}
    (hstat : ((s.world.woken v).proc v).waitStatus = .stopped) (hsync : (s.world.woken v).callsSync v)
    (hstays : ∀ code w', processSyscallSync K ((s.world.woken v).noted v) ≠ .exited code w') :
    (Event.wake v K).Contains s := by
  have ha := alive_of_stopped hstat
  have hnum : (s.world.var v).syscallNum = (s.world.var v.other).syscallNum := hsync.2.1
  rw [Event.Contains, if_pos ha]
  refine ⟨by rw [hsync.1]; decide, fun _ => by rw [hnum]; exact BitVec.le_refl _, fun hfaults => ?_⟩
  obtain ⟨code, w', hrun⟩ := (exited_iff_faultsIn h hheld ha hsync).2 hfaults
  exact hstays code w' hrun

/-- The monitor leaves for a death: the partner is what may escape. -/
theorem contains_ended_iff (h : s.world.Leashed) {v : Who} {K : Kernel ρ}
    (hdead : (s.world.proc v).alive = false) :
    ¬ (s.world.woken v).tracerGone.Escaped ↔ (Event.wake v K).Contains s := by
  have hwoken : (s.world.woken v).Leashed := h.of_leash (leash_woken _ v)
  rw [Event.Contains, if_neg (by simp [hdead])]
  constructor
  · intro hno
    by_contra ha
    refine hno (hwoken.escaped_of_alive (v := v.other) ?_)
    rw [woken_alive]
    exact Bool.eq_true_of_not_eq_false ha
  · intro ho
    refine hwoken.not_escaped_tracerGone fun u => ?_
    rw [woken_alive]
    by_cases hu : u = v
    · exact hu ▸ hdead
    · exact Who.eq_other_of_ne hu ▸ ho

/-- While the monitor goes on, the variants that are held stay where they are, or die. -/
theorem held_step (h : s.world.Leashed) (hheld : s.world.Held) (hstep : (system ρ).step s e s')
    (hmode : s'.mode = .waiting) : s'.world.Held := by
  obtain ⟨-, hcase⟩ := step_cases hstep
  cases hcase with
  | run v K hrun => exact hheld.advance hrun
  | kill v ha => exact hheld.kill ha
  | noChild hm hr => exact absurd hmode (by simp)
  | wake v K hp hbody =>
    have hwoken : ∀ u ≠ v, (s.world.woken v).proc u = s.world.proc u := fun u hu => by
      rw [World.woken_proc, Function.update_of_ne hu]
    cases hbody with
    | ended hstat => exact absurd hmode (by simp)
    | serviced hstat hsync hrun => exact held_of_serviced hrun
    | blocked hstat hsync hrun => exact absurd hmode (by simp)
    | left hstat hsync hrun => exact absurd hmode (by simp)
    | refused hstat hsync hr hrun => exact absurd hmode (by simp)
    | held hstat hop hnum hwait =>
      refine hheld.of_other (v := v) (fun u hu => ?_) hwoken fun _ => ?_
      · simp [World.held, World.noted, hu]
      · exact .inl (atEntry_of_proc (atEntry_of_op (h.traced v) (alive_of_stopped hstat) hop) rfl)
    | passed hstat hop =>
      refine hheld.of_other (v := v) (fun u hu => ?_) (fun u hu => ?_) fun hsized => ?_
      · simp [World.passed, World.noted, hu]
      · rw [← hwoken u hu]
        simp [World.passed, hu]
      · have hentry := hsized.op
        simp only [World.passed, World.setVar_var_self, World.noted_var_self] at hentry
        exact absurd (hop.symm.trans hentry) (by decide)
    | behind hstat hop hnum => exact absurd hmode (by simp)
    | odd hstat hop => exact absurd hmode (by simp)

/-- **One event.**  While the monitor goes on, both variants stay on the leash; an event
lets a variant escape exactly if it does not contain the variants. -/
theorem contained_step (h : s.world.Leashed) (hheld : s.world.Held) (hstep : (system ρ).step s e s') :
    (s'.world.Leashed ∨ ∃ code, s'.mode = .gone code) ∧ (¬ s'.world.Escaped ↔ e.Contains s) := by
  have hstay : ∀ {t : Sys ρ}, t.world.leash = s.world.leash → e.Contains s →
      (t.world.Leashed ∨ ∃ code, t.mode = .gone code) ∧ (¬ t.world.Escaped ↔ e.Contains s) :=
    fun ht hc => ⟨.inl (h.of_leash ht), fun _ => hc, fun _ => (h.of_leash ht).not_escaped⟩
  obtain ⟨-, hcase⟩ := step_cases hstep
  cases hcase with
  | run v K hrun => exact hstay (leash_advance _ _ _) trivial
  | kill v ha => exact hstay (leash_kill _ _) trivial
  | noChild hm hr =>
    refine ⟨.inr ⟨1, rfl⟩, fun _ => trivial, fun _ => ?_⟩
    exact h.not_escaped_tracerGone
      (Who.forall_iff.2 ⟨Tracee.not_alive_of_reaped hm, Tracee.not_alive_of_reaped hr⟩)
  | wake v K hp hbody =>
    have hnoted : ((s.world.woken v).noted v).Leashed := h.of_leash (leash_woken _ v)
    have hescapes : (s.world.proc v).alive = true → ((s.world.woken v).noted v).tracerGone.Escaped := by
      intro ha
      refine hnoted.escaped_of_alive (v := v) ?_
      rw [World.noted_proc, woken_alive]
      exact ha
    have hframe := Prog.frame_iff_within.1 (frame_processSyscallSync (untouched_leash K))
    cases hbody with
    | ended hstat => exact ⟨.inr ⟨0, rfl⟩, contains_ended_iff h (dead_of_terminated hstat)⟩
    | serviced hstat hsync hrun =>
      exact hstay ((hframe.of_ret hrun).trans (leash_woken _ v))
        (contains_of_sync h hheld hstat hsync (by simp [hrun]))
    | blocked hstat hsync hrun =>
      exact hstay ((hframe.of_hung hrun).trans (leash_woken _ v))
        (contains_of_sync h hheld hstat hsync (by simp [hrun]))
    | left hstat hsync hrun =>
      have ha := alive_of_stopped hstat
      have hleash := (hframe.of_exited hrun).trans (leash_woken _ v)
      refine ⟨.inr ⟨_, rfl⟩, fun hno => absurd ?_ hno, fun hc => ?_⟩
      · exact (h.of_leash hleash).escaped_of_alive (master_alive_of_exited h hheld ha hsync hrun)
      · rw [Event.Contains, if_pos ha] at hc
        exact absurd ((exited_iff_faultsIn h hheld ha hsync).1 ⟨_, _, hrun⟩) hc.2.2
    | refused hstat hsync hr hrun =>
      refine ⟨.inr ⟨1, rfl⟩, fun _ => contains_of_sync h hheld hstat hsync (by simp [hrun]), fun _ => ?_⟩
      have hleash := (hframe.of_ret hrun).trans (leash_woken _ v)
      exact (h.of_leash ((leash_bothKilled _).trans hleash)).not_escaped_tracerGone
        (not_alive_bothKilled _)
    | held hstat hop hnum hwait =>
      refine hstay (leash_woken _ v) ?_
      rw [Event.Contains, if_pos (alive_of_stopped hstat)]
      exact ⟨by rw [hop]; decide, fun _ => hnum, fun hf => hwait hf.1.2.1 hf.1.2.2⟩
    | passed hstat hop =>
      refine hstay ((leash_passed _ _).trans (leash_woken _ v)) ?_
      rw [Event.Contains, if_pos (alive_of_stopped hstat)]
      exact ⟨by rw [hop]; decide, fun h => absurd (hop.symm.trans h) (by decide),
        fun hf => absurd (hop.symm.trans hf.1.1) (by decide)⟩
    | behind hstat hop hnum =>
      refine ⟨.inr ⟨1, rfl⟩, ?_⟩
      have ha := alive_of_stopped hstat
      rw [Event.Contains, if_pos ha]
      constructor
      · exact fun hno => absurd (hescapes ha) hno
      · rintro ⟨-, hle, -⟩
        have hle' := hle hop
        have hlt : (s.world.var v).syscallNum < (s.world.var v.other).syscallNum := hnum
        bv_omega
    | odd hstat hop =>
      refine ⟨.inr ⟨1, rfl⟩, ?_⟩
      have ha := alive_of_stopped hstat
      rw [Event.Contains, if_pos ha]
      constructor
      · exact fun hno => absurd (hescapes ha) hno
      · exact fun hc => absurd hop hc.1

end Step

/-! ## Every run -/

/-- What `main` has set up is traced, and would outlive its tracer: the second request of
`configureChildProc` has replaced `PTRACE_O_EXITKILL`.  Nobody is held. -/
theorem leashed_mainSetup {forked : Who → Tracee} (hf : ∀ v, (forked v).Forked) {w w₀ : World ρ}
    (h : mainSetup forked w = .ret () w₀) : w₀.Leashed ∧ w₀.Held := by
  obtain ⟨w', hw', hproc, hstarted⟩ := started_mainSetup hf w
  cases h.symm.trans hw'
  refine ⟨⟨fun v => ?_, fun v => ?_⟩, .of_running hstarted.state⟩
  · rw [hproc v]; exact (hf v).traced
  · rw [hproc v]
    show PTRACE_O_TRACESYSGOOD &&& PTRACE_O_EXITKILL = 0
    decide

/-- **Containment.**  A run of the monitor leaves no variant alive and untraced if and
only if each of its events contains the variants. -/
theorem contained_iff {forked : Who → Tracee} (hf : ∀ v, (forked v).Forked) {w w₀ : World ρ}
    (h₀ : mainSetup forked w = .ret () w₀) {es : List (Event ρ)} {s : Sys ρ}
    (hrun : (system ρ).Run ⟨w₀, .waiting⟩ es s) :
    ¬ s.world.Escaped ↔
      ((system ρ).restrict fun t e => e.Contains t).Run ⟨w₀, .waiting⟩ es s := by
  suffices hall : (s.world.Leashed ∨ ∃ code, s.mode = .gone code) ∧
      (s.mode = .waiting → s.world.Held) ∧ (¬ s.world.Escaped ↔
        ((system ρ).restrict fun t e => e.Contains t).Run ⟨w₀, .waiting⟩ es s) from hall.2.2
  induction hrun with
  | nil =>
    obtain ⟨h, hheld⟩ := leashed_mainSetup hf h₀
    exact ⟨.inl h, fun _ => hheld, fun _ => .nil, fun _ => h.not_escaped⟩
  | @snoc t u es e hrun hstep ih =>
    have hmode : t.mode = .waiting := (step_cases hstep).1
    have ht : t.world.Leashed := ih.1.resolve_right fun ⟨code, hg⟩ => by
      rw [hmode] at hg
      exact absurd hg (by simp)
    have hheld := ih.2.1 hmode
    obtain ⟨hnext, hiff⟩ := contained_step ht hheld hstep
    refine ⟨hnext, held_step ht hheld hstep, fun hno => ?_, fun hres => ?_⟩
    · exact .snoc (ih.2.2.1 ht.not_escaped) ⟨hstep, hiff.1 hno⟩
    · obtain ⟨t', hinit, hlast⟩ := hres.last
      obtain rfl := hrun.unique system_deterministic hinit.of_restrict
      exact hiff.2 hlast.2

/-! ## Two ways out -/

/-- A process at its first stop. -/
def Tracee.newborn : Tracee :=
  ⟨.signal, true, false, true, 0, fun _ => 0, fun _ => none, 0, []⟩

theorem forked_newborn : Tracee.newborn.Forked := ⟨rfl, rfl, rfl, rfl, rfl⟩

/-- The system `main` sets up from two such processes. -/
def Sys.launched : Sys Unit :=
  ⟨(mainSetup (fun _ => .newborn) (Sys.fresh ()).world : Outcome _ _).state, .waiting⟩

/-- A kernel under which user code comes to its end. -/
def Kernel.ending : Kernel Unit where
  syscall _ t o := (.ret 0 0 0 t.mem, o)
  user _ _ _ := .died
  killed _ := false
  junk := .stopped

/-- A kernel under which user code is sent a signal. -/
def Kernel.signalling : Kernel Unit where
  syscall _ t o := (.ret 0 0 0 t.mem, o)
  user _ t _ := .signal t.regs t.mem
  killed _ := false
  junk := .stopped

/-- The master exits, or is sent a signal; the monitor goes, and the replica stays. -/
theorem replica_escapes :
    (∃ s, (system Unit).Run .launched [.run .master .ending, .wake .master .ending] s ∧
      s.mode = .gone 0 ∧ (s.world.proc .replica).alive = true ∧
      (s.world.proc .replica).traced = false) ∧
    (∃ s, (system Unit).Run .launched [.run .master .signalling, .wake .master .signalling] s ∧
      s.mode = .gone 1 ∧ (s.world.proc .replica).alive = true ∧
      (s.world.proc .replica).traced = false) := by
  refine ⟨⟨_, run_played (by decide +kernel), ?_⟩, ⟨_, run_played (by decide +kernel), ?_⟩⟩ <;>
    decide +kernel

/-- So the first of the two runs has an event that does not contain the variants. -/
theorem contained_iff_ending : ¬ ((system Unit).restrict fun t e => e.Contains t).Run .launched
    [.run .master .ending, .wake .master .ending]
    (Sys.launched.played [.run .master .ending, .wake .master .ending]) := fun h =>
  (contained_iff (fun _ => forked_newborn) rfl (run_played (by decide +kernel))).2 h
    ⟨.replica, by decide +kernel, by decide +kernel⟩

end Aurora
