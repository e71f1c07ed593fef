import AuroraMVEE.Parts
import AuroraMVEE.TableEdits
import AuroraMVEE.Counters
import AuroraMVEE.Output

/-!
# The mapping table over a whole run

What the table holds after any run of the main loop, whichever calls the two programs make
between those that edit it.

* `table_untouched` — no executor but those of `mmap` and `munmap` edits the table.
* `TableKept` — what `mmap` and `munmap` keep of it: each entry has passed the policy, none has a
  length, and there are as many as there were calls of the one more than of the other.
* `table_history` — so it is in every run.  An entry without a length is found at the address it
  starts at and nowhere else, so the table is looked up by start address only.
-/

namespace Aurora

variable {ρ : Type}

/-- What is kept of the table `ms`, once the master's kernel has executed the calls `ran`. -/
structure TableKept (ms : List VariantMMap) (ran : List Word) : Prop where
  lenless : ∀ e ∈ ms, e.len = 0
  policy : ∀ e ∈ ms, checkMMapPerms e.prot e.flags = 0
  count : ms.length + ran.count Syscall.munmap.nr = ran.count Syscall.mmap.nr

namespace TableKept

variable {ms ms' : List VariantMMap} {ran : List Word}

theorem empty : TableKept [] [] := ⟨by simp, by simp, rfl⟩

/-- One more `mmap`, which the policy allows. -/
theorem add (h : TableKept ms ran) (addr : Word) {prot flags : BitVec 32}
    (hpolicy : checkMMapPerms prot flags = 0) :
    TableKept (addMapping ms addr 0 prot flags) (ran ++ [Syscall.mmap.nr]) := by
  have hcases : ∀ {p : VariantMMap → Prop}, (∀ e ∈ ms, p e) → p ⟨addr, 0, prot, flags⟩ →
      ∀ e ∈ addMapping ms addr 0 prot flags, p e := by
    intro p hms hnew e he
    rcases List.mem_append.1 he with he | he
    · exact hms e he
    · rwa [List.mem_singleton.1 he]
  refine ⟨hcases h.lenless rfl, hcases h.policy hpolicy, ?_⟩
  have hcount := h.count
  simp only [addMapping, List.length_append, List.length_singleton, List.count_append,
    List.count_singleton, beq_self_eq_true, if_true,
    show (Syscall.mmap.nr == Syscall.munmap.nr) = false from rfl]
  simp only [Bool.false_eq_true, if_false]
  omega

/-- One more `munmap`, of an entry that was found. -/
theorem takeOut (h : TableKept ms ran) {target : Word} {e : VariantMMap}
    (htaken : TakenOut ms ms' target e) : TableKept ms' (ran ++ [Syscall.munmap.nr]) := by
  obtain ⟨as, bs, rfl, rfl, -⟩ := htaken.splits
  have hmem : ∀ f ∈ as ++ bs, f ∈ as ++ e :: bs := by
    intro f hf
    rcases List.mem_append.1 hf with hf | hf
    · exact List.mem_append_left _ hf
    · exact List.mem_append_right _ (List.mem_cons_of_mem _ hf)
  refine ⟨fun f hf => h.lenless f (hmem f hf), fun f hf => h.policy f (hmem f hf), ?_⟩
  have hcount := h.count
  simp only [List.length_append, List.length_cons, List.count_append, List.count_singleton,
    beq_self_eq_true, if_true, show (Syscall.munmap.nr == Syscall.mmap.nr) = false from rfl] at hcount ⊢
  simp only [Bool.false_eq_true, if_false]
  omega

/-- Any other call. -/
theorem other (h : TableKept ms ran) {n : Word} (hm : n ≠ Syscall.mmap.nr) (hu : n ≠ Syscall.munmap.nr) :
    TableKept ms (ran ++ [n]) := by
  refine ⟨h.lenless, h.policy, ?_⟩
  rw [List.count_append, List.count_append, List.count_singleton, List.count_singleton]
  simpa [hm, hu] using h.count

/-- An entry without a length is found at the address it starts at, and nowhere else. -/
theorem find (h : TableKept ms ran) (a : Word) :
    findMapping ms a = ms.find? fun e => e.addr == a := by
  refine List.find?_congr fun e he => ?_
  simp [VariantMMap.covers, h.lenless e he]

/-- So every entry ends before the address space does. -/
theorem fits (h : TableKept ms ran) : ∀ e ∈ ms, e.Fits := by
  intro e he
  have hlen : e.len.toNat = 0 := by rw [h.lenless e he]; rfl
  have haddr := e.addr.isLt
  unfold VariantMMap.Fits
  omega

end TableKept

/-! ## One call -/

section Calls

variable {K : Kernel ρ} {c : Syscall} {w w' : World ρ}

instance : IsPreorder (World ρ) fun w w' => w'.mappings = w.mappings where
  refl _ := rfl
  trans _ _ _ h h' := h'.trans h

theorem World.advance_mappings (w : World ρ) (K : Kernel ρ) (v : Who) :
    (w.advance K v).mappings = w.mappings := by
  unfold World.advance
  split
  · cases (w.proc v).loc <;> rfl
  · rfl

/-- Waiting for a variant leaves the table alone, whatever becomes of the variant. -/
theorem table_waitVariant (v : Who) :
    Prog.Within (fun w w' : World ρ => w'.mappings = w.mappings) (waitVariant K v) := by
  intro w
  unfold Prog.wp waitVariant
  split
  · exact World.advance_mappings w K v
  · split
    · rfl
    · split
      · split <;> rfl
      · rfl

/-- What no part but an edit of the table does. -/
theorem Part.table_kept {Γ : Scope} (hΓ : ¬ Γ.table) (α : Type) (m : Mon ρ α) (h : Part K Γ α m) :
    Prog.Within (fun w w' : World ρ => w'.mappings = w.mappings) m := by
  have hassign (v : Who) (f : Variant → Variant) : Prog.Within
      (fun w w' : World ρ => w'.mappings = w.mappings) (assign v f : Mon ρ Unit) := .modify fun _ => rfl
  cases h with
  | look f _ => exact .gets f
  | scratch f _ => exact .modify fun _ => rfl
  | table f hT _ => exact absurd hT hΓ
  | readStatic v b p n => exact .of_apply fun w => ⟨_, _, rfl, rfl⟩
  | writeFrom localBuf p n _ => exact within_writeFrom (fun _ _ => rfl) _
  | note v => exact .modify fun _ => rfl
  | resumeFromWait v _ => exact .bind (.modify fun _ => rfl) fun _ => hassign v _
  | resumeFromExit v => exact .bind (.modify fun _ => rfl) fun _ => hassign v _
  | wait v _ => exact table_waitVariant v
  | setSyscall v call _ => exact .modify fun _ => rfl
  | setReturn x => exact .modify fun _ => rfl
  | setLseekRegs fd offset => exact .modify fun _ => rfl

/-- No executor but those of `mmap` and `munmap` edits the table, however it ends. -/
theorem table_untouched (hm : c ≠ .mmap) (hu : c ≠ .munmap) (w : World ρ) :
    ((execSyscall K c w).state).mappings = w.mappings := by
  have hmade : Made K ⟨fun _ _ => True, fun _ => True, False, True⟩ (execSyscall K c) :=
    Made.execSyscall trivial (fun _ => trivial) (fun _ => trivial) (fun _ => trivial)
      (fun h => h.elim hm hu) fun _ => trivial
  exact (hmade.within (R := fun w w' : World ρ => w'.mappings = w.mappings)
    (Part.table_kept id)).state w

/-- The master's kernel executes the call that was serviced; if that is an `access`, it may have been
lost. -/
theorem serviced_ran (hR : Rendezvous c w.ctl) (hrun : execSyscall K c w = .ret 0 w') :
    (w'.proc .master).ran = (w.proc .master).ran ++ [c.nr] ∨
      c = .access ∧ (w'.proc .master).ran = (w.proc .master).ran := by
  have hwithin : (c.plan .master).Within (w.ctl .master) (w'.ctl .master) := by
    have hplan := within_plan K hR .master
    rwa [hrun] at hplan
  rcases (Prog.ret_of_wp (execSyscall_follows K c hR _ rfl) hrun).1 rfl with hdone | ⟨⟨hc, -⟩, -⟩
  · exact .inl ((hdone .master).ran.trans (by rw [plan_master_nr]; rfl))
  · rcases hwithin with hsame | hgrown
    · exact .inr ⟨hc, hsame⟩
    · exact .inl (hgrown.trans (by rw [plan_master_nr]; rfl))

/-- The table is in order, for the calls that the master's kernel has executed. -/
def World.TableKept (w : World ρ) : Prop := Aurora.TableKept w.mappings (w.proc .master).ran

/-- A call that is serviced keeps the table in order. -/
theorem World.TableKept.serviced (h : w.TableKept) (hR : Rendezvous c w.ctl)
    (hrun : execSyscall K c w = .ret 0 w') : w'.TableKept := by
  have hkept (hm : c ≠ .mmap) (hu : c ≠ .munmap) : w'.mappings = w.mappings := by
    have htable := table_untouched (K := K) hm hu w
    rwa [hrun] at htable
  unfold World.TableKept
  rcases serviced_ran hR hrun with hran | ⟨rfl, hran⟩
  · rw [hran]
    by_cases hm : c = .mmap
    · subst hm
      obtain ⟨hallowed, -, -, -, rax, rcx, r11, mem, -, htable⟩ := mmap_accepted hR.atEntry hrun
      rw [htable]
      exact Aurora.TableKept.add h rax hallowed.policy
    by_cases hu : c = .munmap
    · subst hu
      obtain ⟨⟨-, e, hfound, haddr⟩, -⟩ := (decides_munmapEq w).accepted hrun
      obtain ⟨ms', hremoved, htaken⟩ :=
        removeMapping_takes_found (Aurora.TableKept.fits h) hfound haddr
      rw [munmap_mappings hrun, hremoved]
      exact Aurora.TableKept.takeOut h htaken
    · rw [hkept hm hu]
      exact Aurora.TableKept.other h (fun hn => hm (Syscall.nr_injective hn)) fun hn =>
        hu (Syscall.nr_injective hn)
  · -- an `access` that was lost is in neither count
    rw [hran, hkept (by simp) (by simp)]
    exact h

end Calls

/-! ## Every run -/

section Runs

variable {s₀ s s' : Sys ρ} {e : Event ρ} {es : List (Event ρ)}

theorem tableKept_step (hs : s.InStep True) (h : s.world.TableKept) (hstep : (system ρ).step s e s')
    (he : e.Plain) (hmode : s'.mode = .waiting) : s'.world.TableKept := by
  have hkeep {w : World ρ} (hmap : w.mappings = s.world.mappings)
      (hran : (w.proc .master).ran = (s.world.proc .master).ran) : w.TableKept := by
    unfold World.TableKept
    rw [hmap, hran]
    exact h
  obtain ⟨hbefore, hcase⟩ := step_cases hstep
  cases hcase with
  | run v K hrun => exact hkeep (World.advance_mappings _ K v) (World.advance_ran _ K v .master)
  | kill v ha => exact he.elim
  | noChild hm hr => exact absurd hmode (by simp)
  | wake v K hp hbody =>
    have hwoken := World.woken_ran s.world v .master
    cases hbody with
    | held hstat hop _ _ => exact hkeep rfl hwoken
    | passed hstat hop =>
      exact hkeep rfl ((World.passed_ran (Tracee.loc_ne_entry hop) .master).trans hwoken)
    | serviced hstat hsync hrun =>
      rcases hs hbefore with hlock | hquiet
      · rcases hlock.meeting hp (alive_of_stopped hstat) hsync K with hno | ⟨c, hR, hexec⟩
        · rw [hno] at hrun
          exact absurd hrun (by simp)
        rw [hexec] at hrun
        have hmet : ((s.world.woken v).noted v).TableKept := hkeep rfl hwoken
        exact hmet.serviced hR hrun
      · exact absurd hp (by simp [Tracee.pending, show (s.world.proc v).reported = true from (hquiet v).1])
    | _ => exact absurd hmode (by simp)

/-- **The table over a whole run.**  Start with an empty table, and let anything happen in the
two-stop model.  While the main loop waits, no entry of the table has a length; each has passed the
policy; there are as many as the master has executed calls of `mmap` more than of `munmap`; and an
address is looked up by comparing it with where the entries start, so an address inside a mapping is
not found. -/
theorem table_history (h₀ : s₀.world.Started) (hempty : s₀.world.mappings = [])
    (hrun : ((system ρ).restrict fun _ e => e.Plain).Run s₀ es s) (hmode : s.mode = .waiting) :
    (∀ e ∈ s.world.mappings, e.len = 0 ∧ checkMMapPerms e.prot e.flags = 0) ∧
      s.world.mappings.length + (s.world.proc .master).ran.count Syscall.munmap.nr =
        (s.world.proc .master).ran.count Syscall.mmap.nr ∧
      ∀ a, findMapping s.world.mappings a = s.world.mappings.find? fun e => e.addr == a := by
  have hstart : s₀.world.TableKept := by
    unfold World.TableKept
    rw [hempty, h₀.ran]
    exact .empty
  have hinv : s.InStep True ∧ (s.mode = .waiting → s.world.TableKept) := by
    refine hrun.invariant (I := fun t : Sys ρ => t.InStep True ∧ (t.mode = .waiting → t.world.TableKept))
      ⟨fun _ => .inl (.of_started h₀), fun _ => hstart⟩ ?_
    rintro t e t' ⟨hstep, hkept⟩ ⟨ht, he⟩
    refine ⟨inStep_step hstep ht he fun _ _ _ _ _ => trivial, fun hwait => ?_⟩
    exact tableKept_step hstep (hkept (step_cases ht).1) ht he hwait
  have hkept := hinv.2 hmode
  exact ⟨fun e he => ⟨hkept.lenless e he, hkept.policy e he⟩, hkept.count, hkept.find⟩

end Runs

/-! ### A first mapping -/

/-- Both variants make an `mmap`: there is one entry, for the one call. -/
theorem table_history_mmap :
    (∀ e ∈ ((Sys.fresh ()).played (meetCalling 9)).world.mappings,
        e.len = 0 ∧ checkMMapPerms e.prot e.flags = 0) ∧
      ((Sys.fresh ()).played (meetCalling 9)).world.mappings.length +
          (((Sys.fresh ()).played (meetCalling 9)).world.proc .master).ran.count Syscall.munmap.nr =
        (((Sys.fresh ()).played (meetCalling 9)).world.proc .master).ran.count Syscall.mmap.nr ∧
      ∀ a, findMapping ((Sys.fresh ()).played (meetCalling 9)).world.mappings a =
        ((Sys.fresh ()).played (meetCalling 9)).world.mappings.find? fun e => e.addr == a :=
  table_history (started_fresh ()) rfl
    ((run_played (by decide +kernel)).to_restrict fun e he _ => plain_meetCalling 9 e he)
    (by decide +kernel)

example : ((Sys.fresh ()).played (meetCalling 9)).world.mappings.length = 1 := by decide +kernel

end Aurora
