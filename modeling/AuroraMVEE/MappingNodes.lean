import AuroraMVEE.Mappings
import AuroraMVEE.Lib.DList
import AuroraMVEE.Lib.Machine

/-!
# The mapping list, node by node

`mappings.c` on the heap: the nodes behind the dummy node that `mappings` points to, and the
three functions with their loops over `next`.  A loop runs on fuel; `none` means that a
pointer was followed that leads to no node, or that the fuel has run out.

* `Stands` — the nodes behind the dummy are a doubly linked list, and there are no others.
* `addMapping_spec`, `removeMapping_spec`, `findMapping_spec` — what each function does to such a
  list, and that it returns.
* `mapping_list_refines` — along every sequence of calls the nodes stand for the sequence of
  entries that `Mappings.lean` works with.
-/

namespace Aurora.Nodes

/-- `node` -/
abbrev Node := DList.Cell Word VariantMMap

/-- The nodes that are allocated, by address. -/
abbrev NodeHeap := DList.Heap Word VariantMMap

/-- `*p = c` -/
def write (h : NodeHeap) (p : Word) (c : Node) : NodeHeap := Function.update h p (some c)

/-- `free(p)` -/
def free (h : NodeHeap) (p : Word) : NodeHeap := Function.update h p none

theorem write_isSome (h : NodeHeap) (p : Word) (c : Node) (a : Word) :
    (write h p c a).isSome ↔ a = p ∨ (h a).isSome := by
  unfold write
  by_cases hap : a = p
  · subst hap
    simp
  · simp [hap]

theorem free_isSome (h : NodeHeap) (p a : Word) : (free h p a).isSome ↔ a ≠ p ∧ (h a).isSome := by
  unfold free
  by_cases hap : a = p
  · subst hap
    simp
  · simp [hap]

/-! ## `mappings.c` -/

/-- The loop of `addMapping`: the last node from `current` on. -/
def lastNode (h : NodeHeap) : ℕ → Word → Option Word
  | 0, _ => none
  | fuel + 1, current => do
    let c ← h current
    match c.next with
    | none => some current
    | some next => lastNode h fuel next

/-- `addMapping`, where `malloc` has returned `new`, with `junk` in it. -/
def addMapping (mappings : Word) (fuel : ℕ) (h : NodeHeap) (new : Word) (junk : Node)
    (addr len : Word) (prot flags : BitVec 32) : Option NodeHeap := do
  let h := write h new { junk with entry := ⟨addr, len, prot, flags⟩, next := none }
  let current ← lastNode h fuel mappings
  let c ← h current
  let h := write h current { c with next := some new }
  let n ← h new
  return write h new { n with prev := some current }

/-- What `removeMapping` does with the node it looks for. -/
def unlink (h : NodeHeap) (current : Word) : Option NodeHeap := do
  let c ← h current
  let prev ← c.prev
  let p ← h prev
  let h := write h prev { p with next := c.next }
  -- `current` is read again
  let c ← h current
  match c.next with
  | none => return free h current
  | some next => do
    let n ← h next
    return free (write h next { n with prev := c.prev }) current

/-- The loop of `removeMapping`. -/
def removeLoop (h : NodeHeap) (addr : Word) : ℕ → Option Word → Option (NodeHeap × Int)
  | _, none => some (h, -1)
  | 0, some _ => none
  | fuel + 1, some current => do
    let c ← h current
    if c.entry.addr = addr then return (← unlink h current, 0)
    else removeLoop h addr fuel c.next

/-- `removeMapping` -/
def removeMapping (mappings : Word) (fuel : ℕ) (h : NodeHeap) (addr : Word) :
    Option (NodeHeap × Int) := do
  let dummy ← h mappings
  removeLoop h addr fuel dummy.next

/-- The loop of `findMapping`: the node whose entry is returned, or `NULL`. -/
def findLoop (h : NodeHeap) (targetAddr : Word) : ℕ → Option Word → Option (Option Word)
  | _, none => some none
  | 0, some _ => none
  | fuel + 1, some current => do
    let c ← h current
    if c.entry.covers targetAddr then return some current
    else findLoop h targetAddr fuel c.next

/-- `findMapping` -/
def findMapping (mappings : Word) (fuel : ℕ) (h : NodeHeap) (targetAddr : Word) :
    Option (Option Word) := do
  let dummy ← h mappings
  findLoop h targetAddr fuel dummy.next

/-- The call returns `b`: so it does with any fuel from some amount on. -/
def Returns {β : Type} (call : ℕ → Option β) (b : β) : Prop := ∃ n, ∀ fuel, n ≤ fuel → call fuel = some b

theorem Returns.unique {β : Type} {call : ℕ → Option β} {a b : β} (ha : Returns call a)
    (hb : Returns call b) : a = b := by
  obtain ⟨n, hn⟩ := ha
  obtain ⟨m, hm⟩ := hb
  have hboth := (hn (max n m) (le_max_left n m)).symm.trans (hm (max n m) (le_max_right n m))
  exact Option.some.inj hboth

/-! ## The invariant -/

/-- Behind the dummy node stand the nodes `ns`, and no other node is allocated. -/
structure Stands (mappings : Word) (h : NodeHeap) (ns : List (Word × VariantMMap)) : Prop where
  seg : ∃ e, DList.Seg h none ((mappings, e) :: ns) none
  nodup : (mappings :: DList.addrs ns).Nodup
  only : ∀ a, (h a).isSome → a ∈ mappings :: DList.addrs ns

variable {mappings : Word} {h : NodeHeap} {ns : List (Word × VariantMMap)}

theorem lastNode_eq {p : Option Word} {x : Word × VariantMMap} {l : List (Word × VariantMMap)}
    (hs : DList.Seg h p (x :: l) none) {fuel : ℕ} (hfuel : l.length < fuel) :
    lastNode h fuel x.1 = DList.back (some x.1) l := by
  induction l generalizing p x fuel with
  | nil =>
    obtain ⟨fuel, rfl⟩ := Nat.exists_eq_add_of_lt hfuel
    simp [lastNode, hs.head]
  | cons y l ih =>
    cases fuel with
    | zero => exact absurd hfuel (Nat.not_lt_zero _)
    | succ fuel =>
      have hrest := ih hs.tail (Nat.lt_of_succ_lt_succ hfuel)
      simp [lastNode, hs.head, hrest]

/-! ## Adding -/

/-- What is not allocated is not in the list. -/
theorem Stands.fresh (hs : Stands mappings h ns) {new : Word} (hnew : h new = none) :
    new ∉ mappings :: DList.addrs ns := by
  obtain ⟨e, hseg⟩ := hs.seg
  intro hmem
  have hsome := hseg.isSome hmem
  rw [hnew] at hsome
  exact absurd hsome (by decide)

/-- **`addMapping`** appends a node. -/
theorem addMapping_spec (hs : Stands mappings h ns) {new : Word} (hnew : h new = none) (junk : Node)
    (addr len : Word) (prot flags : BitVec 32) : ∃ h',
      Returns (fun fuel => addMapping mappings fuel h new junk addr len prot flags) h' ∧
        Stands mappings h' (ns ++ [(new, ⟨addr, len, prot, flags⟩)]) := by
  have hfresh := hs.fresh hnew
  obtain ⟨e, hseg⟩ := hs.seg
  obtain ⟨l, ⟨b, eb⟩, hlast⟩ := DList.exists_last (mappings, e) ns
  have haddrs : mappings :: DList.addrs ns = DList.addrs l ++ [b] := by
    simpa using congrArg DList.addrs hlast
  have hback : DList.back (some mappings) ns = some b := by
    simpa using congrArg (DList.back none) hlast
  have hb : b ∉ DList.addrs l := by
    have hnodup := hs.nodup
    rw [← DList.addrs_cons (mappings, e), hlast] at hnodup
    exact DList.notMem_left hnodup List.mem_cons_self
  have hnb : new ≠ b := by
    rintro rfl
    rw [haddrs] at hfresh
    simp at hfresh
  -- the node at `new` is filled in, its `prev` excepted
  set h₁ := write h new { junk with entry := ⟨addr, len, prot, flags⟩, next := none } with hh₁
  have hseg₁ : DList.Seg h₁ none ((mappings, e) :: ns) none := hseg.update hfresh _
  have hwalk : ∀ fuel, ns.length + 1 ≤ fuel → lastNode h₁ fuel mappings = some b := by
    intro fuel hfuel
    rw [lastNode_eq hseg₁ hfuel, hback]
  rw [hlast] at hseg₁
  have hcell := (DList.seg_append.1 hseg₁).2.head
  -- the last node is made to point to it
  set h₂ := write h₁ b ⟨eb, some new, DList.back none l⟩ with hh₂
  have hseg₂ : DList.Seg h₂ none (l ++ [(b, eb)]) (some new) := hseg₁.setNext hb (some new)
  have hnode : h₂ new = some { junk with entry := ⟨addr, len, prot, flags⟩, next := none } := by
    rw [hh₂, write, Function.update_of_ne hnb, hh₁, write, Function.update_self]
  refine ⟨write h₂ new ⟨⟨addr, len, prot, flags⟩, none, some b⟩, ⟨ns.length + 1, fun fuel hfuel => ?_⟩,
    ⟨e, ?_⟩, ?_, ?_⟩
  · simp [addMapping, ← hh₁, hwalk fuel hfuel, hcell, ← hh₂, hnode]
  · rw [← List.cons_append, hlast]
    apply DList.seg_append.2
    have hleft := hseg₂.update (a := new) (by simpa [haddrs] using hfresh)
      (some ⟨⟨addr, len, prot, flags⟩, none, some b⟩)
    refine ⟨hleft, ?_, trivial⟩
    rw [DList.back_append]
    exact Function.update_self new _ h₂
  · rw [DList.addrs_append, ← List.cons_append]
    exact hs.nodup.append (List.nodup_singleton new) (List.disjoint_singleton.2 hfresh)
  · intro a ha
    rw [DList.addrs_append, ← List.cons_append, List.mem_append]
    rw [write_isSome, hh₂, write_isSome, hh₁, write_isSome] at ha
    rcases ha with rfl | rfl | rfl | ha
    · exact .inr List.mem_cons_self
    · left
      rw [haddrs]
      exact List.mem_append_right _ List.mem_cons_self
    · exact .inr List.mem_cons_self
    · exact .inl (hs.only a ha)

/-! ## Removing -/

/-- A write to an allocated node allocates nothing. -/
theorem write_isSome_of_isSome {h : NodeHeap} {p : Word} (hp : (h p).isSome) (c : Node) (a : Word) :
    (write h p c a).isSome ↔ (h a).isSome := by
  rw [write_isSome]
  constructor
  · rintro (rfl | ha)
    · exact hp
    · exact ha
  · exact .inr

/-- `unlink` joins what is on either side of the node, and frees it. -/
theorem unlink_spec {l m : List (Word × VariantMMap)} {b x : Word} {eb ex : VariantMMap}
    (hseg : DList.Seg h none ((l ++ [(b, eb)]) ++ (x, ex) :: m) none)
    (hnodup : (DList.addrs ((l ++ [(b, eb)]) ++ (x, ex) :: m)).Nodup) :
    ∃ h', unlink h x = some h' ∧ DList.Seg h' none ((l ++ [(b, eb)]) ++ m) none ∧
      ∀ a, (h' a).isSome ↔ a ≠ x ∧ (h a).isSome := by
  obtain ⟨hleft, hright⟩ := DList.seg_append.1 hseg
  have hb : h b = some ⟨eb, some x, DList.back none l⟩ := (DList.seg_append.1 hleft).2.head
  have hx : h x = some ⟨ex, DList.front m none, some b⟩ := by
    rw [hright.head, DList.back_append]
    rfl
  -- the addresses are all different
  have hsplit := hnodup
  rw [DList.addrs_append] at hsplit
  obtain ⟨hinit, hxm, -⟩ := List.nodup_append.1 hsplit
  obtain ⟨hxnew, hm⟩ := List.nodup_cons.1 hxm
  have hbleft : b ∈ DList.addrs (l ++ [(b, eb)]) := by simp
  have hbnew : b ∉ DList.addrs l := DList.notMem_left hinit List.mem_cons_self
  have hxleft : x ∉ DList.addrs (l ++ [(b, eb)]) := DList.notMem_left hnodup List.mem_cons_self
  have hxb : x ≠ b := (ne_of_mem_of_not_mem hbleft hxleft).symm
  -- `current->prev->next = current->next`
  set h₁ := write h b ⟨eb, DList.front m none, DList.back none l⟩ with hh₁
  have hleft₁ : DList.Seg h₁ none (l ++ [(b, eb)]) (DList.front m none) := hleft.setNext hbnew _
  have hx₁ : h₁ x = some ⟨ex, DList.front m none, some b⟩ :=
    (Function.update_of_ne hxb _ _).trans hx
  have hsome₁ : ∀ a, (h₁ a).isSome ↔ (h a).isSome := write_isSome_of_isSome (by rw [hb]; rfl) _
  have hunlink : unlink h x = (DList.front m none).elim (some (free h₁ x)) fun next =>
      (h₁ next).bind fun n => some (free (write h₁ next { n with prev := some b }) x) := by
    unfold unlink
    simp only [hx, hb, Option.bind_eq_bind, Option.bind_some, ← hh₁, hx₁]
    cases DList.front m none <;> rfl
  cases m with
  | nil =>
    refine ⟨free h₁ x, ?_, ?_, fun a => ?_⟩
    · exact hunlink
    · rw [List.append_nil]
      exact hleft₁.update hxleft none
    · rw [free_isSome, hsome₁]
  | cons y m =>
    obtain ⟨c, ec⟩ := y
    have hcleft : c ∉ DList.addrs (l ++ [(b, eb)]) :=
      DList.notMem_left hnodup (List.mem_cons_of_mem x List.mem_cons_self)
    have hcb : c ≠ b := (ne_of_mem_of_not_mem hbleft hcleft).symm
    have hc₁ : h₁ c = some ⟨ec, DList.front m none, some x⟩ :=
      (Function.update_of_ne hcb _ _).trans hright.tail.head
    have hright₁ : DList.Seg h₁ (some x) ((c, ec) :: m) none := by
      apply hright.tail.update
      exact fun hmem => DList.notMem_left hnodup (List.mem_cons_of_mem x hmem) hbleft
    -- `current->next->prev = current->prev`
    set h₂ := write h₁ c ⟨ec, DList.front m none, some b⟩ with hh₂
    have hleft₂ : DList.Seg h₂ none (l ++ [(b, eb)]) (some c) := hleft₁.update hcleft _
    have hright₂ : DList.Seg h₂ (some b) ((c, ec) :: m) none :=
      hright₁.setPrev (List.nodup_cons.1 hm).1 (some b)
    refine ⟨free h₂ x, ?_, ?_, fun a => ?_⟩
    · rw [hunlink, DList.front_cons, Option.elim_some, hc₁]
      rfl
    · apply DList.seg_append.2
      rw [DList.back_append]
      exact ⟨hleft₂.update hxleft none, hright₂.update hxnew none⟩
    · rw [free_isSome, write_isSome_of_isSome (by rw [hc₁]; rfl), hsome₁]

theorem removeLoop_none (h : NodeHeap) (addr : Word) (fuel : ℕ) :
    removeLoop h addr fuel none = some (h, -1) := by
  cases fuel <;> rfl

/-- The loop passes over the nodes that do not start at `addr`. -/
theorem removeLoop_skip {p : Option Word} {l m : List (Word × VariantMMap)} {addr : Word}
    (hs : DList.Seg h p (l ++ m) none) (hskip : ∀ x ∈ l, x.2.addr ≠ addr) (fuel : ℕ) :
    removeLoop h addr (fuel + l.length) (DList.front (l ++ m) none) =
      removeLoop h addr fuel (DList.front m none) := by
  induction l generalizing p with
  | nil => rfl
  | cons x l ih =>
    have hrest := ih hs.tail fun y hy => hskip y (List.mem_cons_of_mem x hy)
    have hx : ¬ x.2.addr = addr := hskip x List.mem_cons_self
    show removeLoop h addr (fuel + l.length + 1) (some x.1) = _
    rw [removeLoop, DList.Seg.head hs, Option.bind_eq_bind, Option.bind_some, if_neg hx]
    exact hrest

/-- **`removeMapping`** takes out the first node that starts at the address, if there is one. -/
theorem removeMapping_spec (hs : Stands mappings h ns) (addr : Word) : ∃ h' ns' r,
    Returns (fun fuel => removeMapping mappings fuel h addr) (h', r) ∧ Stands mappings h' ns' ∧
      Aurora.removeMapping (ns.map Prod.snd) addr = (ns'.map Prod.snd, r) := by
  obtain ⟨e, hseg⟩ := hs.seg
  have hcall : ∀ fuel, removeMapping mappings fuel h addr =
      removeLoop h addr fuel (DList.front ns none) := by
    intro fuel
    unfold removeMapping
    rw [DList.Seg.head hseg]
    rfl
  by_cases hany : ∃ y ∈ ns, y.2.addr = addr
  · obtain ⟨y, hy, haddr⟩ := hany
    obtain ⟨x, l, m, hskip, hx, rfl, herase⟩ :=
      List.exists_of_eraseP (p := fun z => z.2.addr == addr) hy (by simpa using haddr)
    obtain ⟨l', ⟨b, eb⟩, hlast⟩ := DList.exists_last (mappings, e) l
    have hlist : (mappings, e) :: (l ++ x :: m) = (l' ++ [(b, eb)]) ++ x :: m := by
      rw [← List.cons_append, hlast]
    have hnodup : (DList.addrs ((mappings, e) :: (l ++ x :: m))).Nodup := hs.nodup
    rw [hlist] at hnodup
    have hwhole := hseg
    rw [hlist] at hwhole
    obtain ⟨h', hunlink, hseg', hsome⟩ := unlink_spec hwhole hnodup
    rw [← hlast] at hseg'
    refine ⟨h', l ++ m, 0, ⟨(l ++ x :: m).length, fun fuel hfuel => ?_⟩, ⟨⟨e, hseg'⟩, ?_, ?_⟩, ?_⟩
    · obtain ⟨k, rfl⟩ : ∃ k, fuel = k + 1 + l.length := by
        rw [List.length_append, List.length_cons] at hfuel
        exact ⟨fuel - l.length - 1, by omega⟩
      have hxcell := (DList.seg_append.1 hseg.tail).2.head
      have hxaddr : x.2.addr = addr := by simpa using hx
      show removeMapping mappings _ h addr = _
      rw [hcall, removeLoop_skip hseg.tail fun z hz => by simpa using hskip z hz]
      rw [DList.front_cons, removeLoop, hxcell, Option.bind_eq_bind, Option.bind_some, if_pos hxaddr,
        hunlink]
      rfl
    · have hsub : (l ++ m).Sublist (l ++ x :: m) := (List.Sublist.refl l).append (List.sublist_cons_self x m)
      exact hs.nodup.sublist ((hsub.map Prod.fst).cons_cons mappings)
    · intro a ha
      obtain ⟨hne, hsome'⟩ := (hsome a).1 ha
      have hmem := hs.only a hsome'
      simp only [DList.addrs_append, DList.addrs_cons, List.mem_cons, List.mem_append] at hmem ⊢
      tauto
    · unfold Aurora.removeMapping
      have hmapped : (List.map Prod.snd (l ++ x :: m)).eraseP (fun f => f.addr == addr) =
          List.map Prod.snd (l ++ m) := by
        rw [List.eraseP_map, ← herase]
        rfl
      rw [if_pos, hmapped]
      exact List.any_eq_true.2 ⟨y.2, List.mem_map_of_mem hy, by simpa using haddr⟩
  · refine ⟨h, ns, -1, ⟨ns.length, fun fuel hfuel => ?_⟩, hs, ?_⟩
    · obtain ⟨k, rfl⟩ := Nat.exists_eq_add_of_le' hfuel
      have hskip : ∀ x ∈ ns, x.2.addr ≠ addr := fun x hx haddr => hany ⟨x, hx, haddr⟩
      have hloop := removeLoop_skip (m := []) (by rw [List.append_nil]; exact hseg.tail) hskip k
      rw [List.append_nil] at hloop
      show removeMapping mappings _ h addr = _
      rw [hcall, hloop, DList.front_nil, removeLoop_none]
    · unfold Aurora.removeMapping
      rw [if_neg]
      simpa using hany

/-! ## Finding -/

/-- The node that `findMapping` should return. -/
def covering (ns : List (Word × VariantMMap)) (targetAddr : Word) : Option Word :=
  (ns.find? fun x => x.2.covers targetAddr).map Prod.fst

theorem findLoop_eq {p : Option Word} {l : List (Word × VariantMMap)} (hs : DList.Seg h p l none)
    (targetAddr : Word) {fuel : ℕ} (hfuel : l.length ≤ fuel) :
    findLoop h targetAddr fuel (DList.front l none) = some (covering l targetAddr) := by
  induction l generalizing p fuel with
  | nil => cases fuel <;> rfl
  | cons x l ih =>
    obtain ⟨fuel, rfl⟩ := Nat.exists_eq_add_of_le' hfuel
    have hrest : findLoop h targetAddr (fuel + l.length) (DList.front l none) =
        some (covering l targetAddr) := ih hs.tail (Nat.le_add_left _ _)
    show findLoop h targetAddr (fuel + l.length + 1) (some x.1) = _
    rw [findLoop, DList.Seg.head hs, Option.bind_eq_bind, Option.bind_some]
    unfold covering at *
    by_cases hx : x.2.covers targetAddr = true
    · simp [hx]
    · rw [if_neg hx, List.find?_cons_of_neg (by exact hx)]
      exact hrest

/-- **`findMapping`** returns the first entry that covers the address, or `NULL`. -/
theorem findMapping_spec (hs : Stands mappings h ns) (targetAddr : Word) :
    Returns (fun fuel => findMapping mappings fuel h targetAddr) (covering ns targetAddr) := by
  obtain ⟨e, hseg⟩ := hs.seg
  refine ⟨ns.length, fun fuel hfuel => ?_⟩
  show findMapping mappings fuel h targetAddr = _
  unfold findMapping
  rw [DList.Seg.head hseg, Option.bind_eq_bind, Option.bind_some]
  exact findLoop_eq hseg.tail targetAddr hfuel

/-- The entry it points to is the one that is found in the sequence. -/
theorem covering_entry (hs : Stands mappings h ns) (targetAddr : Word) :
    ((covering ns targetAddr).bind h).map DList.Cell.entry =
      Aurora.findMapping (ns.map Prod.snd) targetAddr := by
  obtain ⟨e, hseg⟩ := hs.seg
  have hfound : Aurora.findMapping (ns.map Prod.snd) targetAddr =
      (ns.find? fun x => x.2.covers targetAddr).map Prod.snd := List.find?_map
  unfold covering
  rw [hfound]
  cases hfind : ns.find? fun x => x.2.covers targetAddr with
  | none => rfl
  | some x => exact hseg.tail.entry (List.mem_of_find?_eq_some hfind)

/-! ## Sequences of calls -/

/-- A call: what `malloc` returned and what lay there, or what the call returned. -/
inductive Call where
  | add (new : Word) (junk : Node) (addr len : Word) (prot flags : BitVec 32)
  | remove (addr : Word) (r : Int)

/-- The list behind the dummy node, one call at a time.  `malloc` returns a node that is not
allocated. -/
def nodeList (mappings : Word) : Machine NodeHeap Call where
  step
    | h, .add new junk addr len prot flags, h' => h new = none ∧
        Returns (fun fuel => addMapping mappings fuel h new junk addr len prot flags) h'
    | h, .remove addr r, h' => Returns (fun fuel => removeMapping mappings fuel h addr) (h', r)

/-- The sequence of the entries, under the same calls. -/
def entrySequence : Machine (List VariantMMap) Call where
  step
    | ms, .add _ _ addr len prot flags, ms' => ms' = Aurora.addMapping ms addr len prot flags
    | ms, .remove addr r, ms' => Aurora.removeMapping ms addr = (ms', r)

/-- `node dummy = {{}, NULL, NULL};` and nothing else. -/
def initialHeap (mappings : Word) : NodeHeap := fun a =>
  if a = mappings then some ⟨⟨0, 0, 0, 0⟩, none, none⟩ else none

theorem initialHeap_stands (mappings : Word) : Stands mappings (initialHeap mappings) [] where
  seg := ⟨⟨0, 0, 0, 0⟩, if_pos rfl, trivial⟩
  nodup := List.nodup_singleton mappings
  only a ha := by
    unfold initialHeap at ha
    split at ha
    · rename_i heq
      exact heq ▸ List.mem_cons_self
    · exact absurd ha (by decide)

/-- The heap holds the sequence `ms`: from the dummy node one reaches finitely many nodes, none
of which was freed or is reached from itself, `prev` is the inverse of `next` among them, the
entries of the nodes are those of `ms` in their order, and every call returns: a look-up the
node of the first entry that covers the address. -/
structure Refines (mappings : Word) (h : NodeHeap) (ms : List VariantMMap) : Prop where
  finite : {a | DList.Reaches h mappings a}.Finite
  allocated : ∀ a, DList.Reaches h mappings a → (h a).isSome
  acyclic : ∀ a, DList.Reaches h mappings a → ¬ Relation.TransGen (DList.Next h) a a
  inverse : ∀ a b, DList.Reaches h mappings a → DList.Reaches h mappings b →
    (DList.Next h a b ↔ DList.Prev h b a)
  contents : ∃ ns, Stands mappings h ns ∧ ns.map Prod.snd = ms ∧ ∀ targetAddr,
    Returns (fun fuel => findMapping mappings fuel h targetAddr) (covering ns targetAddr)
  finds : ∀ targetAddr, ∃ r, Returns (fun fuel => findMapping mappings fuel h targetAddr) r ∧
    (r.bind h).map DList.Cell.entry = Aurora.findMapping ms targetAddr
  adds : ∀ new junk addr len prot flags, h new = none →
    ∃ h', Returns (fun fuel => addMapping mappings fuel h new junk addr len prot flags) h'
  removes : ∀ addr, ∃ h', Returns (fun fuel => removeMapping mappings fuel h addr)
    (h', (Aurora.removeMapping ms addr).2)

theorem Stands.reaches_iff (hs : Stands mappings h ns) {a : Word} :
    DList.Reaches h mappings a ↔ a ∈ mappings :: DList.addrs ns := by
  obtain ⟨e, hseg⟩ := hs.seg
  exact hseg.reaches_iff

theorem Stands.refines (hs : Stands mappings h ns) : Refines mappings h (ns.map Prod.snd) := by
  obtain ⟨e, hseg⟩ := hs.seg
  constructor
  · apply (List.finite_toSet (mappings :: DList.addrs ns)).subset
    intro a ha
    exact hs.reaches_iff.1 ha
  · intro a ha
    exact hseg.isSome (hs.reaches_iff.1 ha)
  · intro a ha
    exact hseg.acyclic hs.nodup (hs.reaches_iff.1 ha)
  · intro a b ha hb
    exact hseg.next_iff_prev (hs.reaches_iff.1 ha) (hs.reaches_iff.1 hb)
  · exact ⟨ns, hs, rfl, findMapping_spec hs⟩
  · intro targetAddr
    exact ⟨_, findMapping_spec hs targetAddr, covering_entry hs targetAddr⟩
  · intro new junk addr len prot flags hnew
    obtain ⟨h', hreturns, -⟩ := addMapping_spec hs hnew junk addr len prot flags
    exact ⟨h', hreturns⟩
  · intro addr
    obtain ⟨h', ns', r, hreturns, -, hremoved⟩ := removeMapping_spec hs addr
    rw [hremoved]
    exact ⟨h', hreturns⟩

/-- **The mapping list refines a sequence.**  Every sequence of calls from the list with nothing
but the dummy node is one of the sequence of entries, with the same results, and the heap it
ends in holds the sequence. -/
theorem mapping_list_refines {calls : List Call}
    (hrun : (nodeList mappings).Run (initialHeap mappings) calls h) :
    ∃ ms, entrySequence.Run [] calls ms ∧ Refines mappings h ms := by
  have hsim := hrun.simulates (N := entrySequence)
    (R := fun h ms => ∃ ns, Stands mappings h ns ∧ ns.map Prod.snd = ms) (t := [])
    ⟨[], initialHeap_stands mappings, rfl⟩ ?_
  · obtain ⟨ms, hspec, ns, hs, rfl⟩ := hsim
    exact ⟨_, hspec, hs.refines⟩
  · intro h ms call h' hR hstep
    obtain ⟨ns, hs, rfl⟩ := hR
    cases call with
    | add new junk addr len prot flags =>
      obtain ⟨hnew, hreturns⟩ := hstep
      obtain ⟨h'', hreturns', hs'⟩ := addMapping_spec hs hnew junk addr len prot flags
      obtain rfl := hreturns.unique hreturns'
      refine ⟨Aurora.addMapping (ns.map Prod.snd) addr len prot flags, rfl, _, hs', ?_⟩
      exact List.map_append
    | remove addr r =>
      obtain ⟨h'', ns', r', hreturns, hs', hremoved⟩ := removeMapping_spec hs addr
      obtain ⟨rfl, rfl⟩ := Prod.mk.inj (Returns.unique hstep hreturns)
      exact ⟨_, hremoved, _, hs', rfl⟩

/-! ### Two entries, and one of them removed -/

/-- What `malloc` leaves in a node. -/
def junkNode : Node := ⟨⟨1, 1, 1, 1⟩, some 7, some 7⟩

/-- Two mappings are added that start at one address, and the first is removed. -/
def twoAdded : List Call := [.add 0x2000 junkNode 0x10000 0x1000 1 2,
  .add 0x3000 junkNode 0x10000 0x2000 3 2, .remove 0x10000 0]

/-- The three calls return, and lead to a heap that holds a sequence. -/
theorem mapping_list_refines_two : ∃ h, (nodeList 0x1000).Run (initialHeap 0x1000) twoAdded h ∧
    ∃ ms, entrySequence.Run [] twoAdded ms ∧ Refines 0x1000 h ms := by
  have hnew₁ : initialHeap 0x1000 0x2000 = none := by decide
  obtain ⟨h₁, hadd₁, hs₁⟩ := addMapping_spec (initialHeap_stands 0x1000) hnew₁ junkNode 0x10000 0x1000 1 2
  have hnew : h₁ 0x3000 = none := by
    by_contra hsome
    have hmem := hs₁.only 0x3000 (Option.isSome_iff_ne_none.2 hsome)
    exact absurd hmem (by decide)
  obtain ⟨h₂, hadd₂, hs₂⟩ := addMapping_spec hs₁ hnew junkNode 0x10000 0x2000 3 2
  obtain ⟨h₃, ns, r, hremove, -, hremoved⟩ := removeMapping_spec hs₂ 0x10000
  obtain rfl : r = 0 := (congrArg Prod.snd hremoved).symm
  have hstep₁ : (nodeList 0x1000).step (initialHeap 0x1000)
      (.add 0x2000 junkNode 0x10000 0x1000 1 2) h₁ := ⟨hnew₁, hadd₁⟩
  have hstep₂ : (nodeList 0x1000).step h₁ (.add 0x3000 junkNode 0x10000 0x2000 3 2) h₂ :=
    ⟨hnew, hadd₂⟩
  have hrun : (nodeList 0x1000).Run (initialHeap 0x1000) twoAdded h₃ :=
    .snoc (.snoc (.snoc .nil hstep₁) hstep₂) hremove
  exact ⟨h₃, hrun, mapping_list_refines hrun⟩

end Aurora.Nodes
