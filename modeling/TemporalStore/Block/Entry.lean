import TemporalStore.Lib.Bytes

/-! # The address of a block and what its holder keeps beside it (`block_store.rs`) -/

namespace TemporalStore.BlockEntry

/-- The slab ids of addresses that resolve inside the log. -/
def hotBlockSlabId : ℕ := 2 ^ 32 - 1

def walLogSlabId : ℕ := 2 ^ 32 - 2

def isWalResident (blockSlabId : ℕ) : Bool :=
  blockSlabId == walLogSlabId || blockSlabId == hotBlockSlabId

def maxAddressableBlockSlabId : ℕ := 2 ^ 32 - 1 - 2

def maxAddressableBlockOffset : ℕ := 2 ^ 32 - 1

def maxAddressableBlockId : ℕ := 2 ^ 16 - 1

/-- Equality is that of the source: the bits lent to a holder have no part in it. -/
structure ElementEntry where
  blockSlabId : UInt32
  offset : UInt32
  length : UInt32
  blockId : Option UInt16
  hasGeneration : Bool
  deriving DecidableEq

/-- A length that is too large is cut to the largest one. -/
def narrow (value : ℕ) : UInt32 := UInt32.ofNat (min value (2 ^ 32 - 1))

namespace ElementEntry

/-- `none` where an address or a block id has no room in its field. -/
def tryFromWireParts (blockSlabId offset length : ℕ) (blockId : Option ℕ) (hasGeneration : Bool) :
    Option ElementEntry :=
  if ¬(blockSlabId ≤ maxAddressableBlockSlabId ∨ isWalResident blockSlabId) ∨
      maxAddressableBlockOffset < offset then none
  else if blockId.any (maxAddressableBlockId < ·) then none
  else some ⟨UInt32.ofNat blockSlabId, UInt32.ofNat offset, narrow length,
    blockId.map UInt16.ofNat, hasGeneration⟩

/-- A generation exists exactly when a block id does. The source panics where this is `none`. -/
def fromParts (blockSlabId offset length : ℕ) (blockId : Option ℕ) : Option ElementEntry :=
  tryFromWireParts blockSlabId offset length blockId blockId.isSome

variable (entry : ElementEntry)

def generation : Option ℕ :=
  if entry.hasGeneration then entry.blockId.map UInt16.toNat else none

def addressWord : ℕ := entry.blockSlabId.toNat * 2 ^ 32 + entry.offset.toNat

def logResident : Bool := entry.blockId.isNone

lemma addressWord_div : entry.addressWord / 2 ^ 32 = entry.blockSlabId.toNat := by
  have hlt := entry.offset.toNat_lt
  rw [addressWord]
  omega

lemma addressWord_mod : entry.addressWord % 2 ^ 32 = entry.offset.toNat := by
  have hlt := entry.offset.toNat_lt
  rw [addressWord]
  omega

lemma isSome_generation :
    entry.generation.isSome = (entry.hasGeneration && entry.blockId.isSome) := by
  rw [generation]
  cases entry.hasGeneration with
  | false => rfl
  | true => rw [if_pos rfl, Option.isSome_map, Bool.true_and]

lemma narrow_toNat (n : UInt32) : narrow n.toNat = n := by
  have hlt := n.toNat_lt
  rw [narrow, min_eq_left (by omega), UInt32.ofNat_toNat]

/-- The parts of an entry make an entry again, with the length and the generation bit given. -/
lemma tryFromWireParts_toNat (length : ℕ) (hasGeneration : Bool) :
    tryFromWireParts entry.blockSlabId.toNat entry.offset.toNat length
        (entry.blockId.map UInt16.toNat) hasGeneration =
      some { entry with length := narrow length, hasGeneration := hasGeneration } := by
  have hslab := entry.blockSlabId.toNat_lt
  have hoff := entry.offset.toNat_lt
  have hword : ¬(¬(entry.blockSlabId.toNat ≤ maxAddressableBlockSlabId ∨
      isWalResident entry.blockSlabId.toNat) ∨ maxAddressableBlockOffset < entry.offset.toNat) := by
    simp only [maxAddressableBlockSlabId, isWalResident, walLogSlabId, hotBlockSlabId,
      maxAddressableBlockOffset, Bool.or_eq_true, beq_iff_eq]
    omega
  have hblk : ¬(entry.blockId.map UInt16.toNat).any (maxAddressableBlockId < ·) = true := by
    cases entry.blockId with
    | none => simp
    | some id =>
      have hid := id.toNat_lt
      rw [Option.map_some, Option.any_some, decide_eq_true_eq, maxAddressableBlockId]
      omega
  have hid : (entry.blockId.map UInt16.toNat).map UInt16.ofNat = entry.blockId := by
    cases entry.blockId with
    | none => rfl
    | some id => rw [Option.map_some, Option.map_some, UInt16.ofNat_toNat]
  rw [tryFromWireParts, if_neg hword, if_neg hblk, hid, UInt32.ofNat_toNat, UInt32.ofNat_toNat]

end ElementEntry

end TemporalStore.BlockEntry
