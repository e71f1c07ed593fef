import AuroraMVEE.Independence

/-!
# Settled verdicts

`verdict_independent_iff` says that a verdict is settled by what the kernel reads if the scalars
differ, one of the compared words never comes out equal, or each of them always does.  Here is what
the last two come to where the pointers are given.

* `poll` — settled against the variants if the descriptor or the events of some element differ, and
  in their favour if none of the elements can be read.
* `accept4`, `getsockname` — never against them, and in their favour if each length that can be read
  is `-1`.
* `pselect6` — against them if a word differs that the kernel reads in both, or the pointer to the
  mask never comes out equal; in their favour if the kernel reads all that is compared.
* `getcwd` — neither.
-/

namespace Aurora

variable {ρ : Type} {w : World ρ} {c : Syscall} {v : Who} {k : Fin 6} {j : ℕ}

/-- The kernel reads all of the word number `j` behind position `k`. -/
def World.ReadsWord (w : World ρ) (c : Syscall) (v : Who) (k : Fin 6) (j : ℕ) : Prop :=
  ∀ b : Fin 8, w.reads c v k (8 * j + b)

/-- Such a word is delivered as it is. -/
theorem eq_long_of_readsWord (hs : (w.proc v).stopped = true) (hreads : w.ReadsWord c v k j) {d : Long}
    (hd : w.MayGet c v k j d) : d = w.long v k j :=
  funext fun b => eq_long_of_reads hs (fun b' => reads_touches (hreads b')) (hreads b) hd

/-- What is delivered is one of the words that may be. -/
theorem mayGet_long (hw : w.Arrived c) (hk : k ∈ comparedArgs c) : w.MayGet c v k j (w.long v k j) :=
  (KernelAgrees.refl hw).mayGet v hk j

/-- Of a word that the kernel has nothing to do with, anything may be delivered. -/
theorem mayGet_of_untouched (h : ∀ b : Fin 8, ¬ w.touches c v k (8 * j + b))
    (hmask : ¬ w.PointsToMask c v k j) (d : Long) : w.MayGet c v k j d :=
  .inl ⟨fun b => ⟨fun ht => absurd ht (h b), fun hr => absurd (reads_touches hr) (h b)⟩,
    fun hp => absurd hp hmask⟩

/-! ## `getcwd` -/

/-- Where both variants give `getcwd` a buffer, its verdict is left to what lies in them. -/
theorem getcwd_undecided (hgiven : ∀ v, (w.var v).syscallInfo.arg 0 ≠ 0) :
    ¬ w.NeverEqual .getcwd ∧ ¬ w.AlwaysEqual .getcwd := by
  have hany : ∀ v k j, w.Compared .getcwd k j → ∀ d, w.MayGet .getcwd v k j d := by
    intro v k j hkj
    obtain rfl : k = 0 := by simpa [comparedArgs] using hkj.1
    refine mayGet_of_untouched (fun b ht => ?_) fun hp => absurd hp.1 (by decide)
    unfold World.touches at ht
    rw [if_neg (hgiven v)] at ht
    exact ht.elim id id
  constructor
  · rintro ⟨k, j, hkj, hnever⟩
    exact hnever minusOne minusOne (hany _ k j hkj _) (hany _ k j hkj _)
      ⟨fun _ _ => rfl, fun _ _ _ => show (0xff : Byte) ≠ 0 by decide, fun hc => absurd hc (by decide)⟩
  · intro halways
    have hkj : w.Compared .getcwd 0 0 := ⟨by decide, show 8 * 0 < strCmpSize by decide⟩
    exact (halways 0 0 hkj (fun _ => 0) (fun _ => 0) (hany _ 0 0 hkj _) (hany _ 0 0 hkj _)).noEnd rfl 0
      (by decide) rfl

/-! ## `poll` -/

section Poll

/-- An array of `pollfd`s that fits the monitor's buffer has the number of elements that the kernel
sees. -/
theorem pollfds_size {x : Word} (h : (x * sizeofPollfd).toNat ≤ BUF_SIZE) :
    (x * sizeofPollfd).toNat = 8 * (x.setWidth 32).toNat := by
  have h8 : sizeofPollfd.toNat = 8 := rfl
  have hx := x.isLt
  unfold BUF_SIZE at h
  rw [BitVec.toNat_mul, h8] at h ⊢
  rw [BitVec.toNat_setWidth]
  omega

/-- Of a `pollfd` that is compared, the kernel reads the first six bytes and writes the others. -/
theorem pollfd_offsets (hscalars : w.ScalarsPass .poll) (hgiven : ∀ v, (w.var v).syscallInfo.arg 0 ≠ 0)
    (hkj : w.Compared .poll 0 j) (v : Who) (b : Fin 8) :
    8 * j + b < compares .poll 0 (w.var .master).syscallInfo.arg ∧ w.touches .poll v 0 (8 * j + b) ∧
      (w.reads .poll v 0 (8 * j + b) ↔ (b : ℕ) < 6) := by
  obtain ⟨hsame, hsize⟩ := hscalars
  have hnfds : (w.var v).syscallInfo.arg 1 = (w.var .master).syscallInfo.arg 1 := by
    cases v
    · rfl
    · exact (hsame 1 (by decide)).symm
  have hlt : 8 * j < ((w.var .master).syscallInfo.arg 1 * sizeofPollfd).toNat := hkj.2
  rw [pollfds_size hsize] at hlt
  have hread : 8 * j + b < 8 * (((w.var v).syscallInfo.arg 1).setWidth 32).toNat := by
    rw [hnfds]
    omega
  refine ⟨?_, ?_, ?_⟩
  · show 8 * j + (b : ℕ) < ((w.var .master).syscallInfo.arg 1 * sizeofPollfd).toNat
    rwa [pollfds_size hsize, ← hnfds]
  · unfold World.touches
    rw [if_neg (hgiven v)]
    exact .inr hread
  · unfold World.reads
    rw [if_neg (hgiven v)]
    show _ ∧ (8 * j + (b : ℕ)) % 8 < 6 ↔ _
    rw [and_iff_right hread]
    omega

/-- The `pollfd` number `j` of `v` can be read. -/
def World.PollfdThere (w : World ρ) (v : Who) (j : ℕ) : Prop :=
  ∀ b : Fin 8, (w.cell v 0 (8 * j + b)).isSome

section

variable (hscalars : w.ScalarsPass .poll) (hgiven : ∀ v, (w.var v).syscallInfo.arg 0 ≠ 0)
  (hw : w.Arrived .poll)

include hscalars hgiven hw

/-- What may be delivered of a `pollfd`: its descriptor and its events, with any `revents`; or `-1`,
where it cannot be read. -/
theorem mayGet_pollfd (hkj : w.Compared .poll 0 j) (v : Who) (d : Long) : w.MayGet .poll v 0 j d ↔
    (∀ b : Fin 8, (b : ℕ) < 6 → d b = w.long v 0 j b) ∧ (¬ w.PollfdThere v j → d = minusOne) := by
  have hs := hw.stopped v
  have hoffs := pollfd_offsets hscalars hgiven hkj v
  constructor
  · refine fun hd => ⟨fun b hb => eq_long_of_reads hs (fun b' => (hoffs b').2.1) ((hoffs b).2.2.2 hb) hd,
      fun hnot => ?_⟩
    rcases hd with ⟨hfits, -⟩ | ⟨rfl, -⟩
    · exact absurd (fun b => (hfits b).1 (hoffs b).2.1) hnot
    · rfl
  · rintro ⟨hbytes, hmiss⟩
    by_cases hthere : w.PollfdThere v j
    · refine .inl ⟨fun b => ⟨fun _ => hthere b, fun hreads => ?_⟩,
        fun hmask => absurd hmask.1 (by decide)⟩
      rw [hbytes b ((hoffs b).2.2.1 hreads), long_of_mapped hs hthere b]
    · obtain ⟨b, hb⟩ := not_forall.1 hthere
      exact .inr ⟨hmiss hthere, b, fun _ => Option.not_isSome_iff_eq_none.1 hb⟩

/-- A verdict of `poll` is settled against the variants where a descriptor or events differ. -/
theorem poll_neverEqual_iff : w.NeverEqual .poll ↔ ∃ j, w.Compared .poll 0 j ∧
    ∃ b : Fin 8, (b : ℕ) < 6 ∧ w.long .master 0 j b ≠ w.long .replica 0 j b := by
  constructor
  · rintro ⟨k, j, hkj, hnever⟩
    obtain rfl : k = 0 := by simpa [comparedArgs] using hkj.1
    refine ⟨j, hkj, ?_⟩
    by_contra hsame
    push Not at hsame
    -- with ones for the `revents` of both
    let d : Long := fun b => if (b : ℕ) < 6 then w.long .master 0 j b else 0xff
    have hd : ∀ v, w.MayGet .poll v 0 j d := fun v => by
      have hlong : ∀ b : Fin 8, (b : ℕ) < 6 → d b = w.long v 0 j b := fun b hb => by
        cases v
        · exact if_pos hb
        · exact (if_pos hb).trans (hsame b hb)
      refine (mayGet_pollfd hscalars hgiven hw hkj v d).2 ⟨hlong, fun hnot => funext fun b => ?_⟩
      obtain ⟨b', hb'⟩ := not_forall.1 hnot
      by_cases hb : (b : ℕ) < 6
      · rw [hlong b hb, long_of_hole (Option.not_isSome_iff_eq_none.1 hb')]
      · exact if_neg hb
    exact hnever d d (hd .master) (hd .replica)
      ⟨fun _ _ => rfl, fun h => absurd h (by decide), fun h => absurd h (by decide)⟩
  · rintro ⟨j, hkj, b, hb, hne⟩
    have hoffs := pollfd_offsets hscalars hgiven hkj
    exact neverEqual_of_differs hw hkj (fun v b => (hoffs v b).2.1) (hoffs .master b).1
      (fun v => (hoffs v b).2.2.2 hb) hne

/-- It is settled in their favour where none of the elements can be read. -/
theorem poll_alwaysEqual_iff : w.AlwaysEqual .poll ↔
    ∀ j, w.Compared .poll 0 j → ∀ v, ¬ w.PollfdThere v j := by
  constructor
  · intro h j hkj v hthere
    have hlong : ∀ v, w.MayGet .poll v 0 j (w.long v 0 j) := fun v => mayGet_long hw hkj.1
    -- another `revents`
    let d : Long := fun b => if b = 6 then w.long v 0 j 6 + 1 else w.long v 0 j b
    have hd : w.MayGet .poll v 0 j d := (mayGet_pollfd hscalars hgiven hw hkj v d).2
      ⟨fun b hb => if_neg (by omega), fun hnot => absurd hthere hnot⟩
    have hb : 8 * j + ((6 : Fin 8) : ℕ) < compares .poll 0 (w.var .master).syscallInfo.arg :=
      (pollfd_offsets hscalars hgiven hkj v 6).1
    have h6 : d 6 = w.long v 0 j 6 + 1 := rfl
    have hne : d 6 ≠ w.long v 0 j 6 := by
      rw [h6]
      simp
    cases v
    · have h₁ := (h 0 j hkj _ _ hd (hlong .replica)).bytes 6 hb
      have h₂ := (h 0 j hkj _ _ (hlong .master) (hlong .replica)).bytes 6 hb
      exact hne (h₁.trans h₂.symm)
    · have h₁ := (h 0 j hkj _ _ (hlong .master) hd).bytes 6 hb
      have h₂ := (h 0 j hkj _ _ (hlong .master) (hlong .replica)).bytes 6 hb
      exact hne (h₁.symm.trans h₂)
  · intro h k j hkj d e hd he
    obtain rfl : k = 0 := by simpa [comparedArgs] using hkj.1
    have hones : ∀ v d, w.MayGet .poll v 0 j d → d = minusOne := fun v d hd =>
      ((mayGet_pollfd hscalars hgiven hw hkj v d).1 hd).2 (h j hkj v)
    rw [hones .master d hd, hones .replica e he]
    exact ⟨fun _ _ => rfl, fun h => absurd h (by decide), fun h => absurd h (by decide)⟩

end

end Poll

/-! ## The length of a socket address -/

section Addrlen

/-- The length that is supplied can be read. -/
def World.LengthThere (w : World ρ) (v : Who) : Prop := ∀ i < sizeofSocklen, (w.cell v 2 i).isSome

variable (hc : c = .accept4 ∨ c = .getsockname)

include hc

theorem compared_length : w.Compared c k j ↔ k = 2 ∧ j = 0 := by
  have hsize : compares c k (w.var .master).syscallInfo.arg = sizeofSocklen := by
    rcases hc with rfl | rfl <;> rfl
  have harg : k ∈ comparedArgs c ↔ k = 2 := by
    rcases hc with rfl | rfl <;> exact List.mem_singleton
  unfold World.Compared
  rw [hsize, harg, show sizeofSocklen = 4 from rfl]
  omega

variable (hgiven : ∀ v, (w.var v).syscallInfo.arg 2 ≠ 0)

include hgiven

theorem length_offsets (v : Who) (b : Fin 8) :
    (w.touches c v 2 (8 * 0 + b) ↔ (b : ℕ) < sizeofSocklen) ∧
      (w.reads c v 2 (8 * 0 + b) ↔ (b : ℕ) < sizeofSocklen) := by
  unfold World.touches World.reads
  rw [if_neg (hgiven v), if_neg (hgiven v), Nat.mul_zero, Nat.zero_add]
  rcases hc with rfl | rfl <;> exact ⟨or_iff_left id, Iff.rfl⟩

/-- What may be delivered of a length: its bytes, with anything behind them; or `-1`. -/
theorem mayGet_length (v : Who) (d : Long) : w.MayGet c v 2 0 d ↔
    (∀ b : Fin 8, (b : ℕ) < sizeofSocklen → w.cell v 2 b = some (d b)) ∨ d = minusOne := by
  have hoffs := length_offsets hc hgiven v
  have hmask : ¬ w.PointsToMask c v 2 0 := fun h => absurd h.2.1 (by decide)
  constructor
  · rintro (⟨hfits, -⟩ | ⟨rfl, -⟩)
    · refine .inl fun b hb => ?_
      have hcell := (hfits b).2 ((hoffs b).2.2 hb)
      rwa [Nat.mul_zero, Nat.zero_add] at hcell
    · exact .inr rfl
  · rintro (hbytes | rfl)
    · refine .inl ⟨fun b => ⟨fun ht => ?_, fun hr => ?_⟩, fun h => absurd h hmask⟩
      · rw [Nat.mul_zero, Nat.zero_add, hbytes b ((hoffs b).1.1 ht)]
        rfl
      · rw [Nat.mul_zero, Nat.zero_add, hbytes b ((hoffs b).2.1 hr)]
    · exact .inr ⟨rfl, 4, fun ht => absurd ((hoffs 4).1.1 ht) (by decide)⟩

/-- A verdict is never settled by the lengths against the variants. -/
theorem length_not_neverEqual : ¬ w.NeverEqual c := by
  rintro ⟨k, j, hkj, hnever⟩
  obtain ⟨rfl, rfl⟩ := (compared_length hc).1 hkj
  have hones : ∀ v, w.MayGet c v 2 0 minusOne := fun v => (mayGet_length hc hgiven v _).2 (.inr rfl)
  refine hnever _ _ (hones _) (hones _) ⟨fun _ _ => rfl, ?_, fun _ _ => by decide⟩
  rintro rfl
  exact absurd hc (by decide)

/-- It is settled in their favour where each length that can be read is `-1`, and where the flag of
`getsockname` is overwritten, the master's cannot be read. -/
theorem length_alwaysEqual_iff : w.AlwaysEqual c ↔
    (∀ v, w.LengthThere v → ∀ i < sizeofSocklen, w.cell v 2 i = some 0xff) ∧
      (c = .getsockname → w.image.neighbour .masterLen = .eq → ¬ w.LengthThere .master) := by
  have hones : ∀ v, w.MayGet c v 2 0 minusOne := fun v => (mayGet_length hc hgiven v _).2 (.inr rfl)
  have hsize : compares c 2 (w.var .master).syscallInfo.arg = sizeofSocklen := by
    rcases hc with rfl | rfl <;> rfl
  -- the length, with zeros behind it
  let d : Who → Long := fun v b => if (b : ℕ) < sizeofSocklen then (w.cell v 2 b).getD 0 else 0
  have hcell : ∀ v, w.LengthThere v → ∀ b : Fin 8, (b : ℕ) < sizeofSocklen →
      w.cell v 2 b = some (d v b) := by
    intro v hthere b hb
    obtain ⟨x, hx⟩ := Option.isSome_iff_exists.1 (hthere b hb)
    show _ = some (if _ then _ else _)
    rw [if_pos hb, hx]
    rfl
  have hd : ∀ v, w.LengthThere v → w.MayGet c v 2 0 (d v) := fun v hthere =>
    (mayGet_length hc hgiven v _).2 (.inl (hcell v hthere))
  constructor
  · intro h
    have hpass := h 2 0 ((compared_length hc).2 ⟨rfl, rfl⟩)
    refine ⟨fun v hthere i hi => ?_, fun hcall heq hthere => ?_⟩
    · obtain ⟨b, rfl⟩ : ∃ b : Fin 8, (b : ℕ) = i := ⟨⟨i, hi.trans (by decide)⟩, rfl⟩
      have hb : 8 * 0 + (b : ℕ) < compares c 2 (w.var .master).syscallInfo.arg := by rw [hsize]; omega
      have hff : d v b = 0xff := by
        cases v
        · exact (hpass _ _ (hd _ hthere) (hones _)).bytes b hb
        · exact ((hpass _ _ (hones _) (hd _ hthere)).bytes b hb).symm
      rw [hcell v hthere b hi, hff]
    · have hset := (hpass _ _ (hd _ hthere) (hones _)).flag hcall heq
      have h4 : d .master 4 = 0 := if_neg (by decide)
      rw [h4] at hset
      exact absurd hset (by decide)
  · rintro ⟨hbytes, hflag⟩ k j hkj d e hd he
    obtain ⟨rfl, rfl⟩ := (compared_length hc).1 hkj
    have hthere : ∀ {v} {d : Long}, (∀ b : Fin 8, (b : ℕ) < sizeofSocklen → w.cell v 2 b = some (d b)) →
        w.LengthThere v := by
      intro v d hfits i hi
      have hcell := hfits ⟨i, hi.trans (by decide)⟩ hi
      simp only at hcell
      rw [hcell]
      rfl
    -- each length comes out as ones
    have hall : ∀ v d, w.MayGet c v 2 0 d → ∀ b : Fin 8, (b : ℕ) < sizeofSocklen → d b = 0xff := by
      intro v d hd b hb
      rcases (mayGet_length hc hgiven v d).1 hd with hfits | rfl
      · exact Option.some.inj ((hfits b hb).symm.trans (hbytes v (hthere hfits) b hb))
      · rfl
    refine ⟨fun b hb => ?_, ?_, fun hcall heq => ?_⟩
    · have hb : (b : ℕ) < sizeofSocklen := by rw [hsize] at hb; omega
      rw [hall _ d hd b hb, hall _ e he b hb]
    · rintro rfl
      exact absurd hc (by decide)
    · rcases (mayGet_length hc hgiven .master d).1 hd with hfits | rfl
      · exact absurd (hthere hfits) (hflag hcall heq)
      · decide

end Addrlen

/-! ## `pselect6` -/

section Pselect6

/-- Except for the pointer to the mask, the kernel reads a word that is compared as a whole, or has
nothing to do with it. -/
theorem pselect6_word (hkj : w.Compared .pselect6 k j) (hmask : ¬ w.PointsToMask .pselect6 v k j) :
    w.ReadsWord .pselect6 v k j ∨ ∀ b : Fin 8, ¬ w.touches .pselect6 v k (8 * j + b) := by
  have hlt : 8 * j < if k = 4 then sizeofTimespec else sizeofFdSet := hkj.2
  have htime : sizeofTimespec = 16 := rfl
  have hset : sizeofFdSet = 128 := rfl
  by_cases h0 : (w.var v).syscallInfo.arg k = 0
  · refine .inl fun b => ?_
    unfold World.reads zeroPage
    rw [if_pos h0]
    split at hlt <;> omega
  unfold World.ReadsWord World.touches World.reads
  simp only [if_neg h0, touchOffset, readOffset]
  by_cases h4 : k = 4
  · refine .inl fun b => ?_
    rw [if_pos h4] at hlt ⊢
    omega
  · by_cases h5 : k = 5
    · subst h5
      have hj : j ≠ 0 := fun hj => hmask ⟨rfl, rfl, hj, h0⟩
      simp only [h4, if_false, if_true, true_and]
      by_cases hj1 : j = 1
      · exact .inl fun b => by omega
      · exact .inr fun b => by omega
    · simp only [h4, h5, if_false, false_and, or_false]
      have hmod : fdsBytes (toInt ((w.var v).syscallInfo.arg 0)) % 8 = 0 := by
        unfold fdsBytes
        split <;> omega
      by_cases hin : 8 * j < fdsBytes (toInt ((w.var v).syscallInfo.arg 0))
      · exact .inl fun b => by omega
      · exact .inr fun b => by omega

/-- The words of `pselect6` are compared as a whole. -/
theorem match_pselect6 (hkj : w.Compared .pselect6 k j) (d e : Long) :
    w.Match .pselect6 k j d e ↔ d = e := by
  have hlt : 8 * j < if k = 4 then sizeofTimespec else sizeofFdSet := hkj.2
  have htime : sizeofTimespec = 16 := rfl
  have hset : sizeofFdSet = 128 := rfl
  constructor
  · refine fun hm => funext fun b => hm.bytes b ?_
    show 8 * j + (b : ℕ) < if k = 4 then sizeofTimespec else sizeofFdSet
    split at hlt
    · next h4 => rw [if_pos h4]; omega
    · next h4 => rw [if_neg h4]; omega
  · rintro rfl
    exact ⟨fun _ _ => rfl, fun h => absurd h (by decide), fun h => absurd h (by decide)⟩

variable (hw : w.Arrived .pselect6)

include hw

/-- A verdict of `pselect6` is settled against the variants where a word differs that the kernel reads
in both, or the pointer to the mask never comes out equal. -/
theorem pselect6_neverEqual_iff : w.NeverEqual .pselect6 ↔
    (∃ k j, w.Compared .pselect6 k j ∧ (∀ v, w.ReadsWord .pselect6 v k j) ∧
      w.long .master k j ≠ w.long .replica k j) ∨
    (∃ v, (w.var v).syscallInfo.arg 5 ≠ 0) ∧ ∀ d e, w.MayGet .pselect6 .master 5 0 d →
      w.MayGet .pselect6 .replica 5 0 e → d ≠ e := by
  constructor
  · rintro ⟨k, j, hkj, hnever⟩
    have hne : ∀ d e, w.MayGet .pselect6 .master k j d → w.MayGet .pselect6 .replica k j e → d ≠ e :=
      fun d e hd he => hnever d e hd he ∘ (match_pselect6 hkj d e).2
    have hlong : ∀ v, w.MayGet .pselect6 v k j (w.long v k j) := fun v => mayGet_long hw hkj.1
    by_cases hmask : ∃ v, w.PointsToMask .pselect6 v k j
    · obtain ⟨v, -, rfl, rfl, hgiven⟩ := hmask
      exact .inr ⟨⟨v, hgiven⟩, hne⟩
    · refine .inl ⟨k, j, hkj, fun v => ?_, hne _ _ (hlong _) (hlong _)⟩
      have hno : ¬ w.PointsToMask .pselect6 v k j := fun h => hmask ⟨v, h⟩
      refine (pselect6_word hkj hno).resolve_right fun hfree => ?_
      cases v
      · exact hne _ _ (mayGet_of_untouched hfree hno _) (hlong .replica) rfl
      · exact hne _ _ (hlong .master) (mayGet_of_untouched hfree hno _) rfl
  · rintro (⟨k, j, hkj, hreads, hne⟩ | ⟨-, hne⟩)
    · refine ⟨k, j, hkj, fun d e hd he hm => hne ?_⟩
      rw [← eq_long_of_readsWord (hw.stopped _) (hreads _) hd,
        ← eq_long_of_readsWord (hw.stopped _) (hreads _) he]
      exact (match_pselect6 hkj d e).1 hm
    · exact ⟨5, 0, compared_mask, fun d e hd he => hne d e hd he ∘ (match_pselect6 compared_mask d e).1⟩

/-- It is settled in their favour where the kernel reads all that is compared, and it is the same. -/
theorem pselect6_alwaysEqual_iff : w.AlwaysEqual .pselect6 ↔ ∀ k j, w.Compared .pselect6 k j →
    (∀ v, w.ReadsWord .pselect6 v k j) ∧ w.long .master k j = w.long .replica k j := by
  have hlong : ∀ v {k j}, w.Compared .pselect6 k j → w.MayGet .pselect6 v k j (w.long v k j) :=
    fun v _ _ hkj => mayGet_long hw hkj.1
  constructor
  · intro h
    have heq : ∀ {k j}, w.Compared .pselect6 k j → ∀ d e, w.MayGet .pselect6 .master k j d →
        w.MayGet .pselect6 .replica k j e → d = e := fun hkj d e hd he =>
      (match_pselect6 hkj d e).1 (h _ _ hkj d e hd he)
    -- nothing may be delivered but one word
    have hbound : ∀ v {k j}, w.Compared .pselect6 k j → ¬ ∀ d, w.MayGet .pselect6 v k j d := by
      intro v k j hkj hany
      have hne : (fun _ => 0 : Long) ≠ fun _ => 1 := fun h => absurd (congrFun h 0) (by decide)
      refine hne ?_
      cases v
      · exact (heq hkj _ _ (hany _) (hlong .replica hkj)).trans
          (heq hkj _ _ (hany _) (hlong .replica hkj)).symm
      · exact (heq hkj _ _ (hlong .master hkj) (hany _)).symm.trans
          (heq hkj _ _ (hlong .master hkj) (hany _))
    have hwhole : ∀ v {k j}, w.Compared .pselect6 k j → ¬ w.PointsToMask .pselect6 v k j →
        w.ReadsWord .pselect6 v k j := fun v _ _ hkj hno =>
      (pselect6_word hkj hno).resolve_right fun hfree =>
        hbound v hkj (mayGet_of_untouched hfree hno)
    -- of what is behind the pair of a mask nothing is read
    have hnull : ∀ v, (w.var v).syscallInfo.arg 5 = 0 := by
      intro v
      by_contra h0
      have hreads := hwhole v (k := 5) (j := 2)
        ⟨by decide, show 8 * 2 < (if (5 : Fin 6) = 4 then sizeofTimespec else sizeofFdSet) by decide⟩
        (fun hmask => absurd hmask.2.2.1 (by decide)) 0
      unfold World.reads at hreads
      rw [if_neg h0] at hreads
      exact absurd hreads.2 (by decide)
    exact fun k j hkj => ⟨fun v => hwhole v hkj fun hmask => hmask.2.2.2 (hnull v),
      heq hkj _ _ (hlong _ hkj) (hlong _ hkj)⟩
  · intro h k j hkj d e hd he
    obtain ⟨hreads, hsame⟩ := h k j hkj
    rw [match_pselect6 hkj, eq_long_of_readsWord (hw.stopped _) (hreads _) hd,
      eq_long_of_readsWord (hw.stopped _) (hreads _) he, hsame]

omit hw in
/-- The pointer to the mask never comes out equal where it is `NULL` in one variant alone. -/
theorem mask_apart (hgiven : ∀ v, (w.var v).syscallInfo.arg 5 ≠ 0)
    (hthere : ∀ v, ∀ i < 8, (w.cell v 5 i).isSome)
    (hnull : ¬ (w.wordAt .master 5 0 = 0 ↔ w.wordAt .replica 5 0 = 0)) {d e : Long}
    (hd : w.MayGet .pselect6 .master 5 0 d) (he : w.MayGet .pselect6 .replica 5 0 e) : d ≠ e := by
  have hword : ∀ v d, w.MayGet .pselect6 v 5 0 d → (CBuffer.word d = 0 ↔ w.wordAt v 5 0 = 0) := by
    rintro v d (⟨-, hmay⟩ | ⟨-, b, hb⟩)
    · exact (hmay ⟨rfl, rfl, rfl, hgiven v⟩).null
    · have hsome := hthere v b b.isLt
      have hnone : w.cell v 5 (8 * 0 + b) = none := by
        refine hb ?_
        unfold World.touches
        rw [if_neg (hgiven v)]
        exact .inr ⟨rfl, by omega⟩
      rw [show 8 * 0 + (b : ℕ) = b by omega] at hnone
      rw [hnone] at hsome
      exact absurd hsome (by decide)
  rintro rfl
  exact hnull ((hword _ _ hd).symm.trans (hword _ _ he))

end Pselect6

end Aurora
