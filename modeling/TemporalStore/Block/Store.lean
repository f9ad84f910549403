import TemporalStore.Lib.Keyed
import TemporalStore.Lib.Lists
import TemporalStore.Lib.Word
import TemporalStore.Block.Record

/-! # The block store and its shared slabs (`block_store.rs`, `block_store_read.rs`) -/

namespace TemporalStore.Block

open Lib BlockEntry

/-- `SlabSummary`, without the logical bytes. -/
structure SlabSummary where
  firstBlockId : Option ℕ
  lastBlockId : Option ℕ
  deriving DecidableEq

def SlabSummary.add (summary : SlabSummary) (blockId : ℕ) : SlabSummary :=
  ⟨some (summary.firstBlockId.elim blockId (min · blockId)),
    some (summary.lastBlockId.elim blockId (max · blockId))⟩

/-- The walk of the headers from `offset` on, where `remaining` starts. -/
def summarizeFrom (blockSlabId : ℕ) :
    ℕ → ℕ → Bytes → SlabSummary → Except BlockStoreError SlabSummary
  | 0, _, _, summary => .ok summary
  | fuel + 1, offset, remaining, summary =>
    if remaining = [] then .ok summary
    else
      match ElementEntry.fromParts blockSlabId offset 0 none with
      -- the panic of `from_parts`
      | none => .error (.addressOutOfRange blockSlabId offset none)
      | some address =>
        if !isBlockRecord remaining then
          .error (corruptBlockEnvelope address "mixed raw bytes after block envelope")
        else do
          let header ← parseBlockRecordHeader remaining address
          let recordLen := blockRecordHeaderLen + header.storedLen
          if remaining.length < recordLen then
            .error (corruptBlockEnvelope address "payload length mismatch")
          else
            summarizeFrom blockSlabId fuel (offset + recordLen) (remaining.drop recordLen)
              (summary.add header.blockId)

/-- Every round takes a header at least, so the length of the slab is fuel enough. -/
def summarizeSlab (slab : Bytes) (blockSlabId : ℕ) : Except BlockStoreError SlabSummary :=
  if !isBlockRecord slab then .ok ⟨none, none⟩
  else summarizeFrom blockSlabId slab.length 0 slab ⟨none, none⟩

/-- The slab is walked to its end. -/
def Summarized (slab : Bytes) (blockSlabId : ℕ) : Prop :=
  (summarizeSlab slab blockSlabId).isOk = true

instance (slab : Bytes) (blockSlabId : ℕ) : Decidable (Summarized slab blockSlabId) :=
  inferInstanceAs (Decidable (_ = true))

/-- `LocalSlabBackend::read_range`. Nothing is read past the end of the file. -/
def readRange (slab : Bytes) (offset length : ℕ) : Except BlockStoreError Bytes :=
  if length ≠ 0 ∧ slab.length < offset + length then .error .io else .ok (slice slab offset length)

/-- What the file of an address holds there. -/
def readSlab (zstd : Zstd) (slab : Option Bytes) (address : ElementEntry) :
    Except BlockStoreError Bytes :=
  match slab with
  | none => .error .io
  | some slab => do
    let bytes ← readRange slab address.offset.toNat address.length.toNat
    decodeBlockRecord zstd bytes address

abbrev FetchSlab (σ : Type) := σ → ℕ → Except BlockStoreError (Option Bytes)

/-- `BlockStoreInner`, without its descriptors and counters; `σ` is the type of shared sources. -/
structure BlockStore (σ : Type) where
  /-- The slab files under the root. -/
  slabs : Series ℕ Bytes
  /-- The slab that appends go to. -/
  blockSlabId : ℕ
  writeOffset : ℕ
  nextBlockId : ℕ
  sharedSlabSource : Option σ

namespace BlockStore

variable {σ : Type} (store : BlockStore σ)

def existingMax : ℕ := (store.slabs.map Prod.fst).foldl max 0

def attachSharedSlabSource (source : σ) : BlockStore σ :=
  { store with sharedSlabSource := some source }

/-- The slab that is reserved behind those of a checkpoint. -/
def reservedSlabId (throughSlabId : ℕ) : ℕ :=
  saturatingSucc (max (max throughSlabId store.blockSlabId) store.existingMax)

/-- Appends go to a new empty slab from now on. -/
def reserveLazyCheckpointRange (throughSlabId nextBlockIdFloor : ℕ) : BlockStore σ :=
  { store with
    slabs := store.slabs.put (store.reservedSlabId throughSlabId) []
    blockSlabId := store.reservedSlabId throughSlabId
    writeOffset := 0
    nextBlockId := max store.nextBlockId nextBlockIdFloor }

/-- The state of the store once the file of a slab is in place. -/
def placeSlab (blockSlabId : ℕ) (bytes : Bytes) : BlockStore σ :=
  let placed := { store with slabs := store.slabs.put blockSlabId bytes }
  if store.blockSlabId ≤ blockSlabId then
    { placed with blockSlabId := blockSlabId, writeOffset := bytes.length }
  else placed

def installSlab (blockSlabId : ℕ) (bytes : Bytes) : Except BlockStoreError Unit × BlockStore σ :=
  let placed := store.placeSlab blockSlabId bytes
  match summarizeSlab bytes blockSlabId with
  | .error error => (.error error, placed)
  | .ok summary =>
    (.ok (), { placed with
      nextBlockId := summary.lastBlockId.elim placed.nextBlockId fun lastBlockId =>
        max placed.nextBlockId (saturatingSucc lastBlockId) })

section Read

variable (zstd : Zstd) (fetchSlab : FetchSlab σ)

def ensureSlabPresent (blockSlabId : ℕ) : Except BlockStoreError Unit × BlockStore σ :=
  match store.slabs.lookup blockSlabId, store.sharedSlabSource with
  | some _, _ => (.ok (), store)
  | none, none => (.ok (), store)
  | none, some source =>
    match fetchSlab source blockSlabId with
    | .error error => (.error error, store)
    | .ok none => (.ok (), store)
    | .ok (some bytes) => store.installSlab blockSlabId bytes

def read (address : ElementEntry) : Except BlockStoreError Bytes × BlockStore σ :=
  match store.ensureSlabPresent fetchSlab address.blockSlabId.toNat with
  | (.error error, after) => (.error error, after)
  | (.ok (), after) =>
    (readSlab zstd (after.slabs.lookup address.blockSlabId.toNat) address, after)

/-- The bytes that a read of the slab is served from. -/
def serves (blockSlabId : ℕ) : Option Bytes :=
  match store.slabs.lookup blockSlabId, store.sharedSlabSource with
  | some bytes, _ => some bytes
  | none, none => none
  | none, some source =>
    match fetchSlab source blockSlabId with
    | .ok (some bytes) => if Summarized bytes blockSlabId then some bytes else none
    | _ => none

end Read

lemma le_existingMax {store : BlockStore σ} {blockSlabId : ℕ} {bytes : Bytes}
    (h : store.slabs.lookup blockSlabId = some bytes) : blockSlabId ≤ store.existingMax :=
  le_foldl_max_of_mem (List.mem_map_of_mem (f := Prod.fst) (Series.mem_of_lookup h)) 0

/-- The slab that is reserved takes no place of another one, as long as there are ids left. -/
lemma lookup_reserveLazyCheckpointRange {store : BlockStore σ} {throughSlabId blockSlabId : ℕ}
    (nextBlockIdFloor : ℕ)
    (hroom : max (max throughSlabId store.blockSlabId) store.existingMax < u64Max)
    (hle : blockSlabId ≤ max (max throughSlabId store.blockSlabId) store.existingMax) :
    (store.reserveLazyCheckpointRange throughSlabId nextBlockIdFloor).slabs.lookup blockSlabId =
      store.slabs.lookup blockSlabId := by
  apply Series.lookup_put_of_ne
  rw [reservedSlabId, saturatingSucc_of_lt hroom]
  exact Nat.ne_of_lt (Nat.lt_succ_of_le hle)

section Placed

variable (blockSlabId : ℕ) (bytes : Bytes)

@[simp] lemma placeSlab_slabs :
    (store.placeSlab blockSlabId bytes).slabs = store.slabs.put blockSlabId bytes := by
  unfold placeSlab
  split <;> rfl

@[simp] lemma placeSlab_sharedSlabSource :
    (store.placeSlab blockSlabId bytes).sharedSlabSource = store.sharedSlabSource := by
  unfold placeSlab
  split <;> rfl

@[simp] lemma installSlab_slabs :
    (store.installSlab blockSlabId bytes).2.slabs = store.slabs.put blockSlabId bytes := by
  unfold installSlab
  split <;> exact placeSlab_slabs _ _ _

@[simp] lemma installSlab_sharedSlabSource :
    (store.installSlab blockSlabId bytes).2.sharedSlabSource = store.sharedSlabSource := by
  unfold installSlab
  split <;> exact placeSlab_sharedSlabSource _ _ _

lemma installSlab_isOk :
    (store.installSlab blockSlabId bytes).1.isOk = true ↔ Summarized bytes blockSlabId := by
  unfold installSlab Summarized
  cases summarizeSlab bytes blockSlabId <;> rfl

end Placed

variable {zstd : Zstd} {fetchSlab : FetchSlab σ} {store} {blockSlabId : ℕ}

lemma serves_of_lookup {bytes : Bytes} (h : store.slabs.lookup blockSlabId = some bytes) :
    store.serves fetchSlab blockSlabId = some bytes := by
  rw [serves, h]

lemma serves_of_fetch {source : σ} (hmiss : store.slabs.lookup blockSlabId = none)
    (hsrc : store.sharedSlabSource = some source) {slab : Bytes} :
    store.serves fetchSlab blockSlabId = some slab ↔
      fetchSlab source blockSlabId = .ok (some slab) ∧ Summarized slab blockSlabId := by
  rw [serves, hmiss, hsrc]
  dsimp only
  split
  · rename_i bytes hfetch
    rw [hfetch, Except.ok.injEq, Option.some.injEq]
    split
    · rename_i hsummary
      rw [Option.some.injEq]
      exact ⟨fun h => ⟨h, h ▸ hsummary⟩, fun h => h.1⟩
    · rename_i hsummary
      refine ⟨nofun, ?_⟩
      rintro ⟨rfl, h⟩
      exact absurd h hsummary
  · rename_i hfetch
    refine ⟨nofun, fun h => ?_⟩
    exact absurd h.1 (hfetch slab)

lemma serves_cases {slab : Bytes} (h : store.serves fetchSlab blockSlabId = some slab) :
    store.slabs.lookup blockSlabId = some slab ∨
      store.slabs.lookup blockSlabId = none ∧ ∃ source, store.sharedSlabSource = some source ∧
        fetchSlab source blockSlabId = .ok (some slab) ∧ Summarized slab blockSlabId := by
  cases hfile : store.slabs.lookup blockSlabId with
  | some bytes =>
    rw [serves_of_lookup hfile] at h
    exact .inl h
  | none =>
    cases hsrc : store.sharedSlabSource with
    | none =>
      rw [serves, hfile, hsrc] at h
      cases h
    | some source => exact .inr ⟨rfl, source, rfl, (serves_of_fetch hfile hsrc).mp h⟩

/-- What looking for a slab leaves: the file that is served, or an error when none is. -/
structure Ensured (fetchSlab : FetchSlab σ)
    (store : BlockStore σ) (blockSlabId : ℕ) (result : Except BlockStoreError Unit)
    (after : BlockStore σ) : Prop where
  served : result.isOk = true →
    after.slabs.lookup blockSlabId = store.serves fetchSlab blockSlabId
  failed : result.isOk = false → store.serves fetchSlab blockSlabId = none
  source : after.sharedSlabSource = store.sharedSlabSource
  others : ∀ other, other ≠ blockSlabId → after.slabs.lookup other = store.slabs.lookup other

lemma ensured_installSlab {source : σ} {bytes : Bytes}
    (hmiss : store.slabs.lookup blockSlabId = none) (hsrc : store.sharedSlabSource = some source)
    (hfetch : fetchSlab source blockSlabId = .ok (some bytes)) :
    Ensured fetchSlab store blockSlabId (store.installSlab blockSlabId bytes).1
      (store.installSlab blockSlabId bytes).2 where
  served hok := by
    rw [installSlab_slabs, Series.lookup_put_self]
    exact ((serves_of_fetch hmiss hsrc).mpr
      ⟨hfetch, (installSlab_isOk store blockSlabId bytes).mp hok⟩).symm
  failed hfailed := by
    rw [Option.eq_none_iff_forall_not_mem]
    intro slab hslab
    obtain ⟨hfetch', hsummary⟩ := (serves_of_fetch hmiss hsrc).mp hslab
    rw [hfetch] at hfetch'
    cases hfetch'
    rw [(installSlab_isOk store blockSlabId bytes).mpr hsummary] at hfailed
    cases hfailed
  source := installSlab_sharedSlabSource _ _ _
  others other hne := by rw [installSlab_slabs, Series.lookup_put_of_ne _ _ hne]

lemma ensured_ensureSlabPresent (fetchSlab : FetchSlab σ) (store : BlockStore σ) (blockSlabId : ℕ) :
    Ensured fetchSlab store blockSlabId (store.ensureSlabPresent fetchSlab blockSlabId).1
      (store.ensureSlabPresent fetchSlab blockSlabId).2 := by
  have hsame : ∀ result, (result.isOk = true → store.slabs.lookup blockSlabId =
        store.serves fetchSlab blockSlabId) →
      (result.isOk = false → store.serves fetchSlab blockSlabId = none) →
      Ensured fetchSlab store blockSlabId result store :=
    fun result hserved hfailed => ⟨hserved, hfailed, rfl, fun _ _ => rfl⟩
  unfold ensureSlabPresent
  split
  · rename_i bytes source hfile
    exact hsame _ (fun _ => by rw [serves_of_lookup hfile, hfile]) nofun
  · rename_i hfile hsrc
    exact hsame _ (fun _ => by rw [serves, hfile, hsrc]) nofun
  · rename_i source hfile hsrc
    split
    · rename_i error hfetch
      exact hsame _ nofun (fun _ => by rw [serves, hfile, hsrc]; simp only [hfetch])
    · rename_i hfetch
      exact hsame _ (fun _ => by rw [serves, hfile, hsrc]; simp only [hfetch]) nofun
    · rename_i bytes hfetch
      exact ensured_installSlab hfile hsrc hfetch

lemma read_eq_ok {address : ElementEntry} {bytes : Bytes} :
    (store.read zstd fetchSlab address).1 = .ok bytes ↔
      readSlab zstd (store.serves fetchSlab address.blockSlabId.toNat) address = .ok bytes := by
  have hensd := ensured_ensureSlabPresent fetchSlab store address.blockSlabId.toNat
  unfold read
  split
  · rename_i error after hens
    rw [hens] at hensd
    rw [hensd.failed rfl]
    exact ⟨nofun, nofun⟩
  · rename_i after hens
    rw [hens] at hensd
    rw [hensd.served rfl]

/-- The store serves at least what another one does. -/
def Extends (fetchSlab fetchSlab' : FetchSlab σ) (store store' : BlockStore σ) : Prop :=
  ∀ blockSlabId slab, store.serves fetchSlab blockSlabId = some slab →
    store'.serves fetchSlab' blockSlabId = some slab

lemma Extends.read {fetchSlab' : FetchSlab σ}
    {store' : BlockStore σ} (h : Extends fetchSlab fetchSlab' store store') {address : ElementEntry}
    {bytes : Bytes} (hread : (store.read zstd fetchSlab address).1 = .ok bytes) :
    (store'.read zstd fetchSlab' address).1 = .ok bytes := by
  rw [read_eq_ok] at hread ⊢
  cases hserv : store.serves fetchSlab address.blockSlabId.toNat with
  | none =>
    rw [hserv] at hread
    cases hread
  | some slab =>
    rw [h _ _ hserv, ← hserv]
    exact hread

section

variable (zstd : Zstd) (fetchSlab : FetchSlab σ)
    (store : BlockStore σ) (address : ElementEntry)

lemma read_snd : (store.read zstd fetchSlab address).2 =
      (store.ensureSlabPresent fetchSlab address.blockSlabId.toNat).2 := by
  unfold read
  split
  · rename_i hens
    rw [hens]
  · rename_i hens
    rw [hens]

lemma sharedSlabSource_read :
    (store.read zstd fetchSlab address).2.sharedSlabSource = store.sharedSlabSource := by
  rw [read_snd]
  exact (ensured_ensureSlabPresent fetchSlab store address.blockSlabId.toNat).source

lemma extends_read : Extends fetchSlab fetchSlab store (store.read zstd fetchSlab address).2 := by
  have hensd := ensured_ensureSlabPresent fetchSlab store address.blockSlabId.toNat
  rw [read_snd]
  intro id slab hserv
  by_cases hid : id = address.blockSlabId.toNat
  · -- a slab that is served does not fail to be found
    subst hid
    apply serves_of_lookup
    cases hok : (store.ensureSlabPresent fetchSlab address.blockSlabId.toNat).1.isOk with
    | false =>
      rw [hensd.failed hok] at hserv
      cases hserv
    | true => rw [hensd.served hok, hserv]
  · rw [serves, hensd.others id hid, hensd.source]
    exact hserv

end

end BlockStore

end TemporalStore.Block
