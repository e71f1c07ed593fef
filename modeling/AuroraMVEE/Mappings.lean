import AuroraMVEE.Abi

/-!
# The mapping table and the mapping policy

`mappings.c` keeps the master's mappings in a doubly linked list behind a dummy
node, appended at the tail and searched from the head; here it is the list of
its entries.  `security_manager.c` holds the one policy on them.
-/

namespace Aurora

/-- `variantMMap` -/
structure VariantMMap where
  addr : Word
  len : Word
  prot : BitVec 32
  flags : BitVec 32
  deriving DecidableEq, Repr

/-- Append an entry. -/
def addMapping (ms : List VariantMMap) (addr len : Word) (prot flags : BitVec 32) :
    List VariantMMap :=
  ms ++ [⟨addr, len, prot, flags⟩]

/-- Unlink the first entry that starts at `addr`; `-1` if there is none. -/
def removeMapping (ms : List VariantMMap) (addr : Word) : List VariantMMap × Int :=
  if ms.any (fun e => e.addr == addr) then (ms.eraseP fun e => e.addr == addr, 0) else (ms, -1)

/-- The containment test of `findMapping`. -/
def VariantMMap.covers (e : VariantMMap) (targetAddr : Word) : Bool :=
  (e.addr == targetAddr && e.len == 0) ||
    (decide (0 < e.len) && decide (e.addr ≤ targetAddr) && decide (targetAddr < e.addr + e.len))

/-- The first entry that covers `targetAddr`. -/
def findMapping (ms : List VariantMMap) (targetAddr : Word) : Option VariantMMap :=
  ms.find? fun e => e.covers targetAddr

/-- `security_manager.c`: a mapping may be writable only if it is private. -/
def checkMMapPerms (prot flags : BitVec 32) : Int :=
  if prot &&& PROT_WRITE ≠ 0 ∧ flags &&& MAP_PRIVATE = 0 then -1 else 0

theorem checkMMapPerms_eq_zero_iff {prot flags : BitVec 32} :
    checkMMapPerms prot flags = 0 ↔ (prot &&& PROT_WRITE ≠ 0 → flags &&& MAP_PRIVATE ≠ 0) := by
  unfold checkMMapPerms
  by_cases h : prot &&& PROT_WRITE ≠ 0 ∧ flags &&& MAP_PRIVATE = 0
  · simp [h]
  · rw [if_neg h]
    exact ⟨fun _ hp hf => h ⟨hp, hf⟩, fun _ => rfl⟩

end Aurora
