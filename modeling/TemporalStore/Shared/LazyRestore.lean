import TemporalStore.Block.Store
import TemporalStore.Lib.Layout
import TemporalStore.Shared.Checkpoint

/-! # Loading a shard lazily (`restore_index_and_block_addresses_with`) -/

namespace TemporalStore.Shared

open Lib Block BlockEntry List BlockStore Series CheckpointFiles

variable {κ ι : Type}

structure SharedSlabAddress (ι : Type) where
  key : ContentKey ι
  byteSize : ℕ
  sha256 : Bytes

/-- `SharedPathSlabSource`: the slabs of a checkpoint of the shard. -/
structure SharedPathSlabSource (κ ι : Type) where
  shardId : κ
  slabs : Series ℕ (SharedSlabAddress ι)

abbrev LazyStore (κ ι : Type) := BlockStore (SharedPathSlabSource κ ι)

/-- `fetch_slab`, over the files of the shards' checkpoints. -/
def SharedPathSlabSource.fetchSlab (codec : ManifestCodec ι Bytes) (files : κ → CheckpointFiles ι)
    (source : SharedPathSlabSource κ ι) (blockSlabId : ℕ) : Except BlockStoreError (Option Bytes) :=
  match source.slabs.lookup blockSlabId with
  | none => .ok none
  | some address =>
    match (files source.shardId).contents address.key with
    | none => .error .io
    | some bytes =>
      if bytes.length ≠ address.byteSize ∨ codec.sha256Hex bytes ≠ address.sha256 then
        .error (.checksumMismatch blockSlabId 0 address.byteSize address.sha256
          (codec.sha256Hex bytes))
      else .ok (some bytes)

lemma SharedPathSlabSource.fetchSlab_eq_some {codec : ManifestCodec ι Bytes}
    {files : κ → CheckpointFiles ι} {source : SharedPathSlabSource κ ι} {blockSlabId : ℕ}
    {bytes : Bytes} : source.fetchSlab codec files blockSlabId = .ok (some bytes) ↔
      ∃ address, source.slabs.lookup blockSlabId = some address ∧
        (files source.shardId).contents address.key = some bytes ∧
        bytes.length = address.byteSize ∧ codec.sha256Hex bytes = address.sha256 := by
  unfold fetchSlab
  cases source.slabs.lookup blockSlabId with
  | none => exact ⟨nofun, nofun⟩
  | some address =>
    simp only [Option.some.injEq, exists_eq_left']
    cases (files source.shardId).contents address.key with
    | none => exact ⟨nofun, nofun⟩
    | some found =>
      simp only [Option.some.injEq]
      split_ifs with hmism
      · refine ⟨nofun, ?_⟩
        rintro ⟨rfl, hsize, hdigest⟩
        simp [hsize, hdigest] at hmism
      · rw [not_or, not_not, not_not] at hmism
        refine ⟨fun h => ?_, fun h => by rw [h.1]⟩
        cases h
        exact ⟨rfl, hmism⟩

inductive LoadError where
  | restore (error : RestoreError)
  | index
  deriving DecidableEq

/-- The map of the slabs of a checkpoint. -/
def CheckpointManifest.slabSource (shardId : κ) (manifest : CheckpointManifest ι Bytes) :
    SharedPathSlabSource κ ι :=
  ⟨shardId, inOrder (manifest.blockSlabs.map fun slab =>
    (slab.blockSlabId, ⟨slab.key, slab.byteSize, slab.sha256⟩))⟩

def CheckpointManifest.maxSlabId (manifest : CheckpointManifest ι Bytes) : ℕ :=
  (manifest.blockSlabs.map (·.blockSlabId)).foldl max 0

/-- What a load does to the block store. -/
def CheckpointManifest.attach (shardId : κ) (manifest : CheckpointManifest ι Bytes)
    (store : LazyStore κ ι) : LazyStore κ ι :=
  let attached := store.attachSharedSlabSource (manifest.slabSource shardId)
  if manifest.blockSlabs.isEmpty then attached
  else attached.reserveLazyCheckpointRange manifest.maxSlabId manifest.nextBlockId

section Load

variable (codec : ManifestCodec ι Bytes) (indexAddresses : Bytes → Option (List ElementEntry))

def latestCheckpoint (files : CheckpointFiles ι) :
    Except RestoreError (CheckpointManifest ι Bytes) := do
  match (← files.listCheckpoints codec).getLast? with
  | none => .error .checkpointNotFound
  | some manifest => .ok manifest

/-- The addresses in the index of a checkpoint. `indexAddresses` gives those in the bytes of an
index, and nothing for bytes that the engine does not install. -/
def loadIndex (files : CheckpointFiles ι) (manifest : CheckpointManifest ι Bytes) :
    Except LoadError (List ElementEntry) :=
  match files.fetch codec manifest.indexKey manifest.indexByteSize manifest.indexSha256 with
  | .error error => .error (.restore error)
  | .ok index =>
    match manifest.routingRange, indexAddresses index with
    | none, _ => .error (.restore .routingRangeMissing)
    | some _, none => .error .index
    | some _, some addresses => .ok addresses

/-- The store changes once the index is installed. -/
def restoreIndexAndBlockAddresses (files : CheckpointFiles ι) (shardId : κ)
    (store : LazyStore κ ι) :
    Except LoadError (CheckpointManifest ι Bytes × List ElementEntry ×
      LazyStore κ ι) :=
  match latestCheckpoint codec files with
  | .error error => .error (.restore error)
  | .ok manifest => do
    let addresses ← loadIndex codec indexAddresses files manifest
    .ok (manifest, addresses, manifest.attach shardId store)

variable {codec indexAddresses} {shardId : κ} {manifest : CheckpointManifest ι Bytes}

@[simp] lemma sharedSlabSource_attach (store : LazyStore κ ι) :
    (manifest.attach shardId store).sharedSlabSource = some (manifest.slabSource shardId) := by
  unfold CheckpointManifest.attach
  split <;> rfl

lemma lookup_attach {store : LazyStore κ ι} {blockSlabId : ℕ}
    (hroom : max (max manifest.maxSlabId store.blockSlabId) store.existingMax < u64Max)
    (hle : blockSlabId ≤ max (max manifest.maxSlabId store.blockSlabId) store.existingMax) :
    (manifest.attach shardId store).slabs.lookup blockSlabId = store.slabs.lookup blockSlabId := by
  unfold CheckpointManifest.attach
  split
  · rfl
  · exact lookup_reserveLazyCheckpointRange _ hroom hle

lemma mem_blockSlabs (codec : ManifestCodec ι Bytes) {p : Publication ι} {x : ℕ × Bytes}
    (h : x ∈ p.slabs) : ⟨x.1, .slab p.checkpointId x.1, x.2.length, codec.sha256Hex x.2⟩ ∈
      (p.manifest codec).blockSlabs :=
  mem_map_of_mem h

lemma lookup_slabSource (shardId : κ) {p : Publication ι} {x : ℕ × Bytes} (h : x ∈ p.slabs) :
    ((p.manifest codec).slabSource shardId).slabs.lookup x.1 =
      some ⟨.slab p.checkpointId x.1, x.2.length, codec.sha256Hex x.2⟩ := by
  unfold CheckpointManifest.slabSource
  rw [(ordered_inOrder _).lookup_eq_some, mem_inOrder]
  · exact mem_map_of_mem (mem_blockSlabs codec h)
  · -- no two slabs of a publication have one id
    intro a ha b hb hkey
    obtain ⟨_, hslab, rfl⟩ := mem_map.mp ha
    obtain ⟨y, hy, rfl⟩ := mem_map.mp hslab
    obtain ⟨_, hslab, rfl⟩ := mem_map.mp hb
    obtain ⟨z, hz, rfl⟩ := mem_map.mp hslab
    rw [inj_on_of_nodup_map p.slabs_nodup hy hz hkey]

lemma restoreIndexAndBlockAddresses_eq_ok {files : CheckpointFiles ι}
    {store after : LazyStore κ ι} {addresses : List ElementEntry}
    (h : restoreIndexAndBlockAddresses codec indexAddresses files shardId store =
      .ok (manifest, addresses, after)) :
    latestCheckpoint codec files = .ok manifest ∧ after = manifest.attach shardId store := by
  unfold restoreIndexAndBlockAddresses at h
  split at h
  · cases h
  · rename_i found hfound
    obtain ⟨_, -, h⟩ := bind_eq_ok h
    cases h
    exact ⟨hfound, rfl⟩

lemma latestCheckpoint_eq_ok {files : CheckpointFiles ι}
    (h : latestCheckpoint codec files = .ok manifest) :
    ∃ listed, files.listCheckpoints codec = .ok listed ∧ manifest ∈ listed := by
  obtain ⟨listed, hlisted, h⟩ := bind_eq_ok h
  refine ⟨listed, hlisted, ?_⟩
  split at h
  · cases h
  · rename_i last hlast
    cases h
    exact mem_of_getLast? hlast

end Load

structure Load (κ ι : Type) where
  shardId : κ
  checkpointId : ι
  addresses : List ElementEntry
  deriving DecidableEq

structure Site (κ ι : Type) where
  /-- What nodes have published for a shard, with the step at which each publication stopped. -/
  published : κ → List (Publication ι × ℕ)
  store : LazyStore κ ι
  loads : List (Load κ ι)

inductive SiteEvent (κ ι : Type) where
  | publish (shardId : κ) (publication : Publication ι) (steps : ℕ)
  | load (shardId : κ)
  | read (address : ElementEntry)

def Site.start (store : LazyStore κ ι) : Site κ ι where
  published _ := []
  store := { store with sharedSlabSource := none }
  loads := []

namespace Site

variable [LinearOrder ι] (zstd : Zstd) (codec : ManifestCodec ι Bytes)
  (indexAddresses : Bytes → Option (List ElementEntry)) (site : Site κ ι)

def files (shardId : κ) : CheckpointFiles ι :=
  .publishAll codec (site.published shardId)

def fetchSlab : FetchSlab (SharedPathSlabSource κ ι) :=
  SharedPathSlabSource.fetchSlab codec (site.files codec)

def read (address : ElementEntry) : Except BlockStoreError Bytes × LazyStore κ ι :=
  site.store.read zstd (site.fetchSlab codec) address

def step [DecidableEq κ] (site : Site κ ι) : SiteEvent κ ι → Site κ ι
  | .publish shardId publication steps =>
    let published := site.published shardId ++ [(publication, steps)]
    { site with published := Function.update site.published shardId published }
  | .load shardId =>
    match restoreIndexAndBlockAddresses codec indexAddresses (site.files codec shardId) shardId
      site.store with
    | .error _ => site
    | .ok (manifest, addresses, store) =>
      { site with store, loads := site.loads ++ [⟨shardId, manifest.checkpointId, addresses⟩] }
  | .read address => { site with store := (site.read zstd codec address).2 }

def run [DecidableEq κ] (site : Site κ ι) (events : List (SiteEvent κ ι)) : Site κ ι :=
  events.foldl (step zstd codec indexAddresses) site

/-- The slabs of a checkpoint find their ids free on the node. -/
structure CarefulLoad (shardId : κ) (manifest : CheckpointManifest ι Bytes) : Prop where
  /-- A slab file of the node with the id of a slab of the checkpoint holds the same bytes. -/
  sameFile : ∀ slab ∈ manifest.blockSlabs, site.store.slabs.lookup slab.blockSlabId = none ∨
    site.store.slabs.lookup slab.blockSlabId = (site.files codec shardId).contents slab.key
  /-- What is still to be fetched of the shard loaded before is in this checkpoint too. -/
  fetchable : ∀ source ∈ site.store.sharedSlabSource, ∀ x ∈ source.slabs,
    site.store.slabs.lookup x.1 = none → ∃ slab ∈ manifest.blockSlabs, slab.blockSlabId = x.1 ∧
      (site.files codec shardId).contents slab.key =
        (site.files codec source.shardId).contents x.2.key
  /-- The headers of every slab lead to its end. -/
  summarized : ∀ slab ∈ manifest.blockSlabs,
    ∀ bytes ∈ (site.files codec shardId).contents slab.key, Summarized bytes slab.blockSlabId
  /-- There is an id left for the slab of the appends to come. -/
  room : max (max manifest.maxSlabId site.store.blockSlabId) site.store.existingMax < u64Max

/-- The id of a checkpoint is drawn anew, and a shard is loaded when its slabs find room. -/
def Careful : SiteEvent κ ι → Prop
  | .publish shardId publication _ =>
    ∀ r ∈ site.published shardId, r.1.checkpointId ≠ publication.checkpointId
  | .load shardId => ∀ manifest, latestCheckpoint codec (site.files codec shardId) = .ok manifest →
    site.CarefulLoad codec shardId manifest
  | .read _ => True

def AllCareful [DecidableEq κ] (site : Site κ ι) : List (SiteEvent κ ι) → Prop
  | [] => True
  | event :: events =>
    site.Careful codec event ∧ AllCareful (site.step zstd codec indexAddresses event) events

/-- Every address in every loaded index reads what the node that published it held there. -/
def ReadsPublished : Prop :=
  ∀ load ∈ site.loads, ∃ r ∈ site.published load.shardId, r.1.checkpointId = load.checkpointId ∧
    ∀ address ∈ load.addresses, ∀ bytes,
      readSlab zstd (r.1.slabs.lookup address.blockSlabId.toNat) address = .ok bytes →
        (site.read zstd codec address).1 = .ok bytes

variable {zstd codec indexAddresses site}

/-- Every slab that the store is served from is one of a publication. -/
structure Traced (codec : ManifestCodec ι Bytes) (site : Site κ ι) : Prop where
  fresh : ∀ shardId, CheckpointFiles.Fresh (site.published shardId)
  source : ∀ source ∈ site.store.sharedSlabSource, ∀ x ∈ source.slabs,
    ∃ r ∈ site.published source.shardId, x.2.key.checkpointId = r.1.checkpointId
  loads : ∀ load ∈ site.loads, ∃ r ∈ site.published load.shardId,
    r.1.checkpointId = load.checkpointId ∧ ∀ address ∈ load.addresses, ∀ slab,
      r.1.slabs.lookup address.blockSlabId.toNat = some slab →
        site.store.serves (site.fetchSlab codec) address.blockSlabId.toNat = some slab

/-- The trace goes on, and what the store served it serves. -/
def Passes (codec : ManifestCodec ι Bytes) (site after : Site κ ι) : Prop :=
  Traced codec after ∧ BlockStore.Extends (site.fetchSlab codec) (after.fetchSlab codec) site.store
    after.store

lemma traced_start (store : LazyStore κ ι) : Traced codec (start store) where
  fresh _ := nodup_nil
  source := nofun
  loads := nofun

lemma Traced.readsPublished (h : Traced codec site) : site.ReadsPublished zstd codec := by
  intro load hload
  obtain ⟨r, hr, hid, hserv⟩ := h.loads load hload
  refine ⟨r, hr, hid, fun address haddr bytes hread => ?_⟩
  rw [read, read_eq_ok]
  cases hslab : r.1.slabs.lookup address.blockSlabId.toNat with
  | none =>
    rw [hslab] at hread
    cases hread
  | some slab =>
    rw [hserv address haddr slab hslab, ← hslab]
    exact hread

lemma Traced.loads_of_extends (h : Traced codec site) (after : Site κ ι)
    (hpub : ∀ shardId, ∀ r ∈ site.published shardId, r ∈ after.published shardId)
    (hext : BlockStore.Extends (site.fetchSlab codec) (after.fetchSlab codec) site.store
      after.store) {load : Load κ ι} (hload : load ∈ site.loads) :
    ∃ r ∈ after.published load.shardId, r.1.checkpointId = load.checkpointId ∧
      ∀ address ∈ load.addresses, ∀ slab, r.1.slabs.lookup address.blockSlabId.toNat = some slab →
        after.store.serves (after.fetchSlab codec) address.blockSlabId.toNat = some slab := by
  obtain ⟨r, hr, hid, hserv⟩ := h.loads load hload
  refine ⟨r, hpub _ r hr, hid, fun address haddr slab hslab => ?_⟩
  exact hext _ _ (hserv address haddr slab hslab)

section Publish

variable [DecidableEq κ] {shardId : κ} {publication : Publication ι} {steps : ℕ}

lemma published_step_publish (other : κ) :
    (site.step zstd codec indexAddresses (.publish shardId publication steps)).published other =
      site.published other ++ if other = shardId then [(publication, steps)] else [] := by
  change Function.update _ _ _ other = _
  by_cases hother : other = shardId
  · rw [hother, Function.update_self, if_pos rfl]
  · rw [Function.update_of_ne hother, if_neg hother, append_nil]

lemma contents_step_publish
    (hnew : ∀ r ∈ site.published shardId, r.1.checkpointId ≠ publication.checkpointId)
    {other : κ} {r : Publication ι × ℕ} (hr : r ∈ site.published other) {key : ContentKey ι}
    (hkey : key.checkpointId = r.1.checkpointId) :
    ((site.step zstd codec indexAddresses (.publish shardId publication steps)).files codec
      other).contents key = (site.files codec other).contents key := by
  rw [files, published_step_publish]
  split
  · rename_i hother
    subst hother
    rw [publishAll, foldl_append]
    apply contents_publish_of_ne
    rw [hkey]
    exact hnew r hr
  · rw [append_nil]
    rfl

section

variable (h : Traced codec site) (hnew : site.Careful codec (.publish shardId publication steps))
include h hnew

lemma Traced.extends_publish : BlockStore.Extends (site.fetchSlab codec)
      ((site.step zstd codec indexAddresses (.publish shardId publication steps)).fetchSlab codec)
      site.store site.store := by
  intro blockSlabId slab hserv
  rcases serves_cases hserv with hfile | ⟨hmiss, source, hsrc, hfetch, hsummary⟩
  · exact serves_of_lookup hfile
  · rw [serves_of_fetch hmiss hsrc]
    refine ⟨?_, hsummary⟩
    obtain ⟨address, haddr, hcont, hmatch⟩ := SharedPathSlabSource.fetchSlab_eq_some.mp hfetch
    apply SharedPathSlabSource.fetchSlab_eq_some.mpr
    refine ⟨address, haddr, ?_, hmatch⟩
    obtain ⟨r, hr, hkey⟩ := h.source source hsrc _ (mem_of_lookup haddr)
    rw [contents_step_publish hnew hr hkey, hcont]

lemma Traced.publish :
    Traced codec (site.step zstd codec indexAddresses (.publish shardId publication steps)) := by
  have hpub : ∀ other, ∀ r ∈ site.published other, r ∈ (site.step zstd codec indexAddresses
      (.publish shardId publication steps)).published other := by
    intro other r hr
    rw [published_step_publish]
    exact mem_append_left _ hr
  refine ⟨fun other => ?_, fun source hsrc x hx => ?_, fun load hload => ?_⟩
  · rw [published_step_publish]
    split
    · rename_i hother
      subst hother
      rw [CheckpointFiles.Fresh, map_append]
      refine nodup_append.mpr ⟨h.fresh other, nodup_singleton _, ?_⟩
      intro a ha b hb
      obtain ⟨r, hr, rfl⟩ := mem_map.mp ha
      rw [mem_singleton.mp hb]
      exact hnew r hr
    · rw [append_nil]
      exact h.fresh other
  · obtain ⟨r, hr, hkey⟩ := h.source source hsrc x hx
    exact ⟨r, hpub _ r hr, hkey⟩
  · exact h.loads_of_extends _ hpub (h.extends_publish hnew) hload

end

end Publish

section Load

variable {shardId : κ} {manifest : CheckpointManifest ι Bytes}

section

variable {r : Publication ι × ℕ} (h : site.CarefulLoad codec shardId (r.1.manifest codec))
    (hfresh : CheckpointFiles.Fresh (site.published shardId)) (hr : r ∈ site.published shardId)
    (hcomp : Completed codec r)
include h hfresh hr hcomp

lemma CarefulLoad.serves {x : ℕ × Bytes} (hx : x ∈ r.1.slabs) :
    ((r.1.manifest codec).attach shardId site.store).serves (site.fetchSlab codec) x.1 =
      some x.2 := by
  have hcont := (contents_publishAll hfresh hr hcomp).2 x hx
  have hslab := mem_blockSlabs codec hx
  have hlookup : ((r.1.manifest codec).attach shardId site.store).slabs.lookup x.1 =
      site.store.slabs.lookup x.1 := by
    apply lookup_attach h.room
    have hle : x.1 ≤ (r.1.manifest codec).maxSlabId := le_foldl_max_of_mem
      (mem_map_of_mem (f := CheckpointSlab.blockSlabId) hslab) 0
    exact hle.trans ((le_max_left _ _).trans (le_max_left _ _))
  rcases h.sameFile _ hslab with hmiss | hsame
  · rw [serves_of_fetch (hlookup.trans hmiss) (sharedSlabSource_attach _)]
    refine ⟨?_, h.summarized _ hslab _ hcont⟩
    apply SharedPathSlabSource.fetchSlab_eq_some.mpr
    exact ⟨_, lookup_slabSource shardId hx, hcont, rfl, rfl⟩
  · exact serves_of_lookup (hlookup.trans (hsame.trans hcont))

lemma CarefulLoad.extends :
    BlockStore.Extends (site.fetchSlab codec) (site.fetchSlab codec) site.store
      ((r.1.manifest codec).attach shardId site.store) := by
  intro blockSlabId slab hserv
  rcases serves_cases hserv with hfile | ⟨hmiss, source, hsrc, hfetch, -⟩
  · apply serves_of_lookup
    rw [lookup_attach h.room, hfile]
    exact (le_existingMax hfile).trans (le_max_right _ _)
  · -- the slab was still to be fetched, and is one of the new checkpoint
    obtain ⟨address, haddr, hold, -⟩ := SharedPathSlabSource.fetchSlab_eq_some.mp hfetch
    obtain ⟨_, hslab, hid, hsame⟩ := h.fetchable source hsrc _ (mem_of_lookup haddr) hmiss
    obtain ⟨x, hx, rfl⟩ := mem_map.mp hslab
    have hnew := (contents_publishAll hfresh hr hcomp).2 x hx
    have hslab : x.2 = slab := by
      apply Option.some.inj
      rw [← hnew, ← hold]
      exact hsame
    cases hid
    rw [← hslab]
    exact h.serves hfresh hr hcomp hx

end

lemma Traced.exists_publication (h : Traced codec site)
    (hlatest : latestCheckpoint codec (site.files codec shardId) = .ok manifest) :
    ∃ r ∈ site.published shardId, Completed codec r ∧ manifest = r.1.manifest codec := by
  obtain ⟨listed, hlisted, hmem⟩ := latestCheckpoint_eq_ok hlatest
  exact mem_listCheckpoints (h.fresh shardId) hlisted hmem

variable [DecidableEq κ]

lemma Traced.load (h : Traced codec site) (hcare : site.Careful codec (.load shardId)) :
    site.Passes codec (site.step zstd codec indexAddresses (.load shardId)) := by
  unfold step
  dsimp only
  split
  · exact ⟨h, fun _ _ hserv => hserv⟩
  · rename_i manifest addresses store hrestore
    obtain ⟨hlatest, rfl⟩ := restoreIndexAndBlockAddresses_eq_ok hrestore
    have hload := hcare manifest hlatest
    obtain ⟨r, hr, hcomp, rfl⟩ := h.exists_publication hlatest
    have hext := hload.extends (h.fresh shardId) hr hcomp
    refine ⟨⟨h.fresh, ?_, ?_⟩, hext⟩
    · intro source hsrc x hx
      rw [sharedSlabSource_attach] at hsrc
      cases hsrc
      obtain ⟨_, hslab, rfl⟩ := mem_map.mp (mem_of_mem_inOrder hx)
      obtain ⟨y, -, rfl⟩ := mem_map.mp hslab
      exact ⟨r, hr, rfl⟩
    · intro load hmem
      rcases mem_append.mp hmem with hmem | hmem
      · exact h.loads_of_extends
          ⟨site.published, (r.1.manifest codec).attach shardId site.store, []⟩
          (fun _ _ hr => hr) hext hmem
      · rw [mem_singleton.mp hmem]
        refine ⟨r, hr, rfl, fun address _ slab hslab => ?_⟩
        exact hload.serves (h.fresh shardId) hr hcomp (mem_of_lookup hslab)

end Load

section Run

variable [DecidableEq κ]

lemma Traced.read (h : Traced codec site) (address : ElementEntry) :
    site.Passes codec (site.step zstd codec indexAddresses (.read address)) := by
  have hext := extends_read zstd (site.fetchSlab codec) site.store address
  have hsrc := sharedSlabSource_read zstd (site.fetchSlab codec) site.store address
  refine ⟨⟨h.fresh, fun source hmem => ?_, fun load hload => ?_⟩, hext⟩
  · exact h.source source (hsrc ▸ hmem)
  · exact h.loads_of_extends (site.step zstd codec indexAddresses (.read address))
      (fun _ _ hr => hr) hext hload

lemma Traced.step (h : Traced codec site) {event : SiteEvent κ ι}
    (hcare : site.Careful codec event) :
    site.Passes codec (site.step zstd codec indexAddresses event) := by
  cases event with
  | publish shardId publication steps => exact ⟨h.publish hcare, h.extends_publish hcare⟩
  | load shardId => exact h.load hcare
  | read address => exact h.read address

lemma Traced.run (h : Traced codec site) {events : List (SiteEvent κ ι)}
    (hcare : site.AllCareful zstd codec indexAddresses events) :
    site.Passes codec (site.run zstd codec indexAddresses events) := by
  induction events generalizing site with
  | nil => exact ⟨h, fun _ _ hserv => hserv⟩
  | cons event events ih =>
    obtain ⟨htraced, hstep⟩ := h.step hcare.1
    obtain ⟨hrun, hext⟩ := ih htraced hcare.2
    exact ⟨hrun, fun _ _ hserv => hext _ _ (hstep _ _ hserv)⟩

lemma allCareful_append {before after : List (SiteEvent κ ι)} :
    site.AllCareful zstd codec indexAddresses (before ++ after) ↔
      site.AllCareful zstd codec indexAddresses before ∧
        (site.run zstd codec indexAddresses before).AllCareful zstd codec indexAddresses after := by
  induction before generalizing site with
  | nil => exact (and_iff_right trivial).symm
  | cons event before ih =>
    change _ ∧ AllCareful zstd codec indexAddresses _ (before ++ after) ↔ (_ ∧ _) ∧ _
    rw [ih, and_assoc]
    rfl

/-- While every shard is loaded when its slabs find their ids free, each address in each loaded
index reads what its publisher held there, and what the node could read it goes on reading. -/
theorem reads_of_allCareful (zstd : Zstd) (codec : ManifestCodec ι Bytes)
    (indexAddresses : Bytes → Option (List ElementEntry))
    (store : LazyStore κ ι) (before after : List (SiteEvent κ ι))
    (hcareful : (start store).AllCareful zstd codec indexAddresses (before ++ after)) :
    ((start store).run zstd codec indexAddresses before).ReadsPublished zstd codec ∧
      ∀ address bytes,
        (((start store).run zstd codec indexAddresses before).read zstd codec address).1 =
            .ok bytes →
          (((start store).run zstd codec indexAddresses (before ++ after)).read zstd codec
            address).1 = .ok bytes := by
  obtain ⟨hbefore, hafter⟩ := allCareful_append.mp hcareful
  have htraced := ((traced_start store).run hbefore).1
  refine ⟨htraced.readsPublished, fun address bytes hread => ?_⟩
  rw [run, foldl_append]
  exact (htraced.run hafter).2.read hread

end Run

end Site

namespace Small

def key : Layout (ContentKey ℕ) :=
  (Layout.nat.prod Layout.nat.option).via
    (fun
      | .index checkpointId => (checkpointId, none)
      | .slab checkpointId blockSlabId => (checkpointId, some blockSlabId))
    (fun
      | (checkpointId, none) => .index checkpointId
      | (checkpointId, some blockSlabId) => .slab checkpointId blockSlabId)
    fun k => by cases k <;> rfl

def slab : Layout (CheckpointSlab ℕ Bytes) :=
  (Layout.nat.prod (key.prod (Layout.nat.prod Layout.byte.list))).via
    (fun s => (s.blockSlabId, s.key, s.byteSize, s.sha256)) (fun (a, b, c, d) => ⟨a, b, c, d⟩)
    fun _ => rfl

def manifest : Layout (CheckpointManifest ℕ Bytes) :=
  (Layout.nat.prod (Layout.nat.prod (Layout.nat.prod (key.prod (Layout.nat.prod
    (Layout.byte.list.prod (slab.list.prod (Layout.nat.prod
      (Layout.nat.prod Layout.nat).option)))))))).via
    (fun m => (m.checkpointId, m.checkpointWalIndex, m.createdAtMs, m.indexKey, m.indexByteSize,
      m.indexSha256, m.blockSlabs, m.nextBlockId, m.routingRange))
    (fun (a, b, c, d, e, f, g, h, i) => ⟨a, b, c, d, e, f, g, h, i⟩) fun _ => rfl

/-- The bytes themselves stand for their digest. -/
def codec : ManifestCodec ℕ Bytes where
  sha256Hex := id
  encode := manifest.encode
  decode bytes := ((manifest.alone ()).decode bytes).toOption
  decode_encode m := by
    have h := (manifest.alone ()).decode_encode m
    change ((manifest.alone ()).decode (manifest.encode m)).toOption = some m
    exact congrArg Except.toOption h
  decode_nil := rfl

/-- An index of one block: its slab and the length of its record. -/
def indexAddresses : Bytes → Option (List ElementEntry)
  | [blockSlabId, length] => some [⟨blockSlabId.toUInt32, 0, length.toUInt32, some 0, true⟩]
  | _ => none

def stored : Zstd := ⟨fun _ _ => none⟩

def record (payload : UInt8) : Bytes :=
  blockRecordBytes (LogFraming.crc32c [payload]).toNat 1 0 [payload]

/-- A checkpoint of one slab with one block. -/
def publication (checkpointId : ℕ) (blockSlabId payload : UInt8) : Publication ℕ where
  checkpointId
  checkpointWalIndex := 1
  createdAtMs := 0
  routingRange := (0, 0)
  index := [blockSlabId, 13]
  nextBlockId := 1
  slabs := [(blockSlabId.toNat, record payload)]
  slabs_nodup := nodup_singleton _

def publish (shardId : ℕ) (blockSlabId payload : UInt8) : SiteEvent ℕ ℕ :=
  .publish shardId (publication shardId blockSlabId payload) 6

def address (blockSlabId : UInt32) : ElementEntry := ⟨blockSlabId, 0, 13, some 0, true⟩

def node (slabs : Series ℕ Bytes) : Site ℕ ℕ := .start ⟨slabs, 0, 0, 0, none⟩

def after (slabs : Series ℕ Bytes) (events : List (SiteEvent ℕ ℕ)) : Site ℕ ℕ :=
  (node slabs).run stored codec indexAddresses events

def readAfter (slabs : Series ℕ Bytes) (events : List (SiteEvent ℕ ℕ)) (blockSlabId : UInt32) :
    Except BlockStoreError Bytes :=
  ((after slabs events).read stored codec (address blockSlabId)).1

/-- A node with a slab 0 loads a shard whose slab is number 3, reads its block, and loads another
shard whose slab is number 9. -/
def apart : List (SiteEvent ℕ ℕ) :=
  [publish 1 3 5, .load 1, .read (address 3), publish 2 9 6, .load 2]

lemma allCareful_apart : (node [(0, record 7)]).AllCareful stored codec indexAddresses apart := by
  refine ⟨nofun, ?_, trivial, nofun, ?_, trivial⟩
  · intro manifest hlatest
    have hfirst : Except.ok ((publication 1 3 5).manifest codec) = .ok manifest := hlatest
    cases hfirst
    exact ⟨by decide +kernel, nofun, by decide +kernel, by decide +kernel⟩
  · intro manifest hlatest
    have hsecond : Except.ok ((publication 2 9 6).manifest codec) = .ok manifest := hlatest
    cases hsecond
    exact ⟨by decide +kernel, by decide +kernel, by decide +kernel, by decide +kernel⟩

end Small

open TemporalStore.Shared.Small in
theorem Site.reads_apart : (after [(0, record 7)] apart).ReadsPublished stored codec ∧
      readAfter [(0, record 7)] apart 0 = .ok [7] :=
  ⟨(reads_of_allCareful stored codec indexAddresses ⟨[(0, record 7)], 0, 0, 0, none⟩ apart []
      allCareful_apart).1,
    (reads_of_allCareful stored codec indexAddresses ⟨[(0, record 7)], 0, 0, 0, none⟩ [] apart
      allCareful_apart).2 (address 0) [7] (by decide +kernel)⟩

open TemporalStore.Shared.Small in
/-- A node with a slab 0 of its own loads a shard whose checkpoint has a slab 0, and a node without
slabs loads two shards that both have one. -/
theorem Site.not_readsPublished :
    ¬(after [(0, record 7)] [publish 1 0 5, .load 1]).ReadsPublished stored codec ∧
      ¬∀ bytes, readAfter [] [publish 1 0 5, publish 2 0 6, .load 1] 0 = .ok bytes →
        readAfter [] [publish 1 0 5, publish 2 0 6, .load 1, .load 2] 0 = .ok bytes := by
  constructor
  · intro h
    have hload : (⟨1, 1, [address 0]⟩ : Load ℕ ℕ) ∈
        (after [(0, record 7)] [publish 1 0 5, .load 1]).loads := by
      decide +kernel
    obtain ⟨r, hr, -, hreads⟩ := h _ hload
    have hpublished : r = (publication 1 0 5, 6) := mem_singleton.mp hr
    subst hpublished
    have hheld := hreads (address 0) mem_cons_self [5] (by decide +kernel)
    have hread : readAfter [(0, record 7)] [publish 1 0 5, .load 1] 0 = .ok [7] := by
      decide +kernel
    cases hread.symm.trans hheld
  · intro h
    have hfirst : readAfter [] [publish 1 0 5, publish 2 0 6, .load 1] 0 = .ok [5] := by
      decide +kernel
    have hsecond : readAfter [] [publish 1 0 5, publish 2 0 6, .load 1, .load 2] 0 = .ok [6] := by
      decide +kernel
    cases hsecond.symm.trans (h [5] hfirst)

end TemporalStore.Shared
