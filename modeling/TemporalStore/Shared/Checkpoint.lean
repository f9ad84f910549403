import TemporalStore.Lib.Bytes
import TemporalStore.Lib.Keyed
import TemporalStore.Lib.Result
import Mathlib.Data.Prod.Lex
import Mathlib.Logic.Equiv.List
import Mathlib.Tactic.DeriveEncodable

/-! # Checkpoints in the file object store (`publish_checkpoint`, `restore_latest_checkpoint`) -/

namespace TemporalStore.Shared

open Lib List

variable {ι δ : Type}

/-- Objects of a checkpoint other than its manifest, by the id of the checkpoint. -/
inductive ContentKey (ι : Type) where
  | index (checkpointId : ι)
  | slab (checkpointId : ι) (blockSlabId : ℕ)
  deriving DecidableEq

def ContentKey.checkpointId : ContentKey ι → ι
  | .index checkpointId => checkpointId
  | .slab checkpointId _ => checkpointId

structure CheckpointSlab (ι δ : Type) where
  blockSlabId : ℕ
  key : ContentKey ι
  byteSize : ℕ
  sha256 : δ

/-- `SharedStoreCheckpointManifest`, as far as a restore reads it. -/
structure CheckpointManifest (ι δ : Type) where
  checkpointId : ι
  checkpointWalIndex : ℕ
  createdAtMs : ℕ
  indexKey : ContentKey ι
  indexByteSize : ℕ
  indexSha256 : δ
  blockSlabs : List (CheckpointSlab ι δ)
  nextBlockId : ℕ
  routingRange : Option (ℕ × ℕ)

/-- The JSON form of a manifest and the digest in it. -/
structure ManifestCodec (ι δ : Type) where
  sha256Hex : Bytes → δ
  encode : CheckpointManifest ι δ → Bytes
  decode : Bytes → Option (CheckpointManifest ι δ)
  decode_encode : ∀ manifest, decode (encode manifest) = some manifest
  /-- An empty file is no JSON document. -/
  decode_nil : decode [] = none

/-- The files of one shard's checkpoints. -/
structure CheckpointFiles (ι : Type) where
  contents : ContentKey ι → Option Bytes
  /-- The manifests in the order in which they are listed. -/
  manifests : Series ι Bytes

/-- A file-system step: afterwards the file holds these bytes. -/
inductive FileStep (ι : Type) where
  | content (key : ContentKey ι) (bytes : Bytes)
  | manifest (checkpointId : ι) (bytes : Bytes)

/-- `FileObjectStore::put`: the file is created or truncated, and then written. -/
def FileStep.put (step : Bytes → FileStep ι) (bytes : Bytes) : List (FileStep ι) :=
  [step [], step bytes]

structure Publication (ι : Type) where
  checkpointId : ι
  checkpointWalIndex : ℕ
  createdAtMs : ℕ
  routingRange : ℕ × ℕ
  index : Bytes
  nextBlockId : ℕ
  slabs : List (ℕ × Bytes)
  slabs_nodup : (slabs.map Prod.fst).Nodup

namespace Publication

variable (codec : ManifestCodec ι δ) (p : Publication ι)

def manifest : CheckpointManifest ι δ where
  checkpointId := p.checkpointId
  checkpointWalIndex := p.checkpointWalIndex
  createdAtMs := p.createdAtMs
  indexKey := .index p.checkpointId
  indexByteSize := p.index.length
  indexSha256 := codec.sha256Hex p.index
  blockSlabs := p.slabs.map fun slab =>
    ⟨slab.1, .slab p.checkpointId slab.1, slab.2.length, codec.sha256Hex slab.2⟩
  nextBlockId := p.nextBlockId
  routingRange := some p.routingRange

def contentSteps : List (FileStep ι) :=
  FileStep.put (.content (.index p.checkpointId)) p.index ++
    p.slabs.flatMap fun slab => FileStep.put (.content (.slab p.checkpointId slab.1)) slab.2

/-- `publish_checkpoint`: the manifest is written last. -/
def publishCheckpoint : List (FileStep ι) :=
  p.contentSteps ++ FileStep.put (.manifest p.checkpointId) (codec.encode (p.manifest codec))

end Publication

namespace CheckpointFiles

variable [LinearOrder ι]

def empty : CheckpointFiles ι := ⟨fun _ => none, []⟩

def apply (files : CheckpointFiles ι) : FileStep ι → CheckpointFiles ι
  | .content key bytes =>
    { files with contents := Function.update files.contents key (some bytes) }
  | .manifest checkpointId bytes =>
    { files with manifests := files.manifests.put checkpointId bytes }

/-- A publication, and after how many of its steps the process stops. -/
def publish (codec : ManifestCodec ι δ) (files : CheckpointFiles ι) (r : Publication ι × ℕ) :
    CheckpointFiles ι :=
  ((r.1.publishCheckpoint codec).take r.2).foldl apply files

def publishAll (codec : ManifestCodec ι δ) (runs : List (Publication ι × ℕ)) : CheckpointFiles ι :=
  runs.foldl (publish codec) empty

end CheckpointFiles

inductive RestoreError where
  | undecodable
  | objectNotFound
  | checksumMismatch
  | routingRangeMissing
  | checkpointNotFound
  deriving DecidableEq

structure Restored where
  index : Bytes
  routingRange : ℕ × ℕ
  slabs : List (ℕ × Bytes)
  deriving DecidableEq

namespace CheckpointFiles

variable (codec : ManifestCodec ι δ) (files : CheckpointFiles ι)

def decodeManifest (object : ι × Bytes) : Except RestoreError (CheckpointManifest ι δ) :=
  match codec.decode object.2 with
  | some manifest => .ok manifest
  | none => .error .undecodable

/-- The order of the list: by log index and then by time. -/
def notAfter (a b : CheckpointManifest ι δ) : Prop :=
  toLex (a.checkpointWalIndex, a.createdAtMs) ≤ toLex (b.checkpointWalIndex, b.createdAtMs)

instance : DecidableRel (@notAfter ι δ) := fun _ _ => inferInstanceAs (Decidable (_ ≤ _))

def listCheckpoints : Except RestoreError (List (CheckpointManifest ι δ)) := do
  let manifests ← files.manifests.mapM (decodeManifest codec)
  .ok (manifests.insertionSort notAfter)

/-- Get an object and verify its size and digest. -/
def fetch [DecidableEq δ] (key : ContentKey ι) (byteSize : ℕ) (sha256 : δ) :
    Except RestoreError Bytes :=
  match files.contents key with
  | none => .error .objectNotFound
  | some bytes =>
    if bytes.length ≠ byteSize ∨ codec.sha256Hex bytes ≠ sha256 then .error .checksumMismatch
    else .ok bytes

def fetchSlab [DecidableEq δ] (slab : CheckpointSlab ι δ) : Except RestoreError (ℕ × Bytes) := do
  let bytes ← files.fetch codec slab.key slab.byteSize slab.sha256
  .ok (slab.blockSlabId, bytes)

def restoreCheckpoint [DecidableEq δ] (manifest : CheckpointManifest ι δ) :
    Except RestoreError Restored := do
  let index ← files.fetch codec manifest.indexKey manifest.indexByteSize manifest.indexSha256
  match manifest.routingRange with
  | none => .error .routingRangeMissing
  | some routingRange =>
    let slabs ← manifest.blockSlabs.mapM (files.fetchSlab codec)
    .ok ⟨index, routingRange, slabs⟩

def restoreLatestCheckpoint [DecidableEq δ] : Except RestoreError Restored := do
  match (← files.listCheckpoints codec).getLast? with
  | none => .error .checkpointNotFound
  | some manifest => files.restoreCheckpoint codec manifest

end CheckpointFiles

def Completed (codec : ManifestCodec ι δ) (r : Publication ι × ℕ) : Prop :=
  (r.1.publishCheckpoint codec).length ≤ r.2

/-- The process stopped between the creation of the manifest file and its write. -/
def CutAtManifest (r : Publication ι × ℕ) : Prop := r.2 = r.1.contentSteps.length + 1

instance (codec : ManifestCodec ι δ) (r : Publication ι × ℕ) : Decidable (Completed codec r) :=
  inferInstanceAs (Decidable (_ ≤ _))

instance (r : Publication ι × ℕ) : Decidable (CutAtManifest r) :=
  inferInstanceAs (Decidable (_ = _))

def Publication.restored (p : Publication ι) : Restored := ⟨p.index, p.routingRange, p.slabs⟩

def manifestFile (codec : ManifestCodec ι δ) (r : Publication ι × ℕ) : Option (ι × Bytes) :=
  if r.2 ≤ r.1.contentSteps.length then none
  else if r.2 = r.1.contentSteps.length + 1 then some (r.1.checkpointId, [])
  else some (r.1.checkpointId, codec.encode (r.1.manifest codec))

lemma length_publishCheckpoint (codec : ManifestCodec ι δ) (p : Publication ι) :
    (p.publishCheckpoint codec).length = p.contentSteps.length + 2 := by
  rw [Publication.publishCheckpoint, length_append]
  rfl

variable {r : Publication ι × ℕ}

lemma manifestFile_of_completed {codec : ManifestCodec ι δ} (h : Completed codec r) :
    manifestFile codec r = some (r.1.checkpointId, codec.encode (r.1.manifest codec)) := by
  rw [Completed, length_publishCheckpoint] at h
  rw [manifestFile, if_neg (by omega), if_neg (by omega)]

lemma manifestFile_of_cutAtManifest (codec : ManifestCodec ι δ) (h : CutAtManifest r) :
    manifestFile codec r = some (r.1.checkpointId, []) := by
  rw [CutAtManifest] at h
  rw [manifestFile, if_neg (by omega), if_pos h]

lemma manifestFile_eq_some {codec : ManifestCodec ι δ} {x : ι × Bytes}
    (h : manifestFile codec r = some x) : x.1 = r.1.checkpointId ∧ (CutAtManifest r ∨
      Completed codec r ∧ x.2 = codec.encode (r.1.manifest codec)) := by
  rw [manifestFile] at h
  split_ifs at h with hbef hcut
  · cases h
    exact ⟨rfl, .inl hcut⟩
  · cases h
    refine ⟨rfl, .inr ⟨?_, rfl⟩⟩
    rw [Completed, length_publishCheckpoint]
    omega

namespace CheckpointFiles

variable [LinearOrder ι] {codec : ManifestCodec ι δ}

omit [LinearOrder ι] in
lemma mem_contentSteps {p : Publication ι} {step : FileStep ι} (h : step ∈ p.contentSteps) :
    ∃ key bytes, step = .content key bytes ∧ key.checkpointId = p.checkpointId := by
  rw [Publication.contentSteps, mem_append, mem_flatMap] at h
  rcases h with h | ⟨slab, -, h⟩
  all_goals
    simp only [FileStep.put, mem_cons, not_mem_nil, or_false] at h
    rcases h with rfl | rfl <;> exact ⟨_, _, rfl, rfl⟩

variable {steps : List (FileStep ι)}

section

variable {files : CheckpointFiles ι}

lemma manifests_foldl_content (h : ∀ step ∈ steps, ∃ key bytes, step = .content key bytes) :
    (steps.foldl apply files).manifests = files.manifests := by
  induction steps generalizing files with
  | nil => rfl
  | cons step steps ih =>
    obtain ⟨key, bytes, rfl⟩ := h step mem_cons_self
    exact ih fun step hstep => h step (mem_cons_of_mem _ hstep)

lemma contents_foldl_of_ne {key : ContentKey ι} (h : ∀ bytes, .content key bytes ∉ steps) :
    (steps.foldl apply files).contents key = files.contents key := by
  induction steps generalizing files with
  | nil => rfl
  | cons step steps ih =>
    rw [foldl_cons, ih fun bytes hmem => h bytes (mem_cons_of_mem _ hmem)]
    cases step with
    | manifest checkpointId bytes => rfl
    | content other bytes =>
      apply Function.update_of_ne
      rintro rfl
      exact h bytes mem_cons_self

lemma contents_foldl_put (key : ContentKey ι) (bytes : Bytes) :
    ((FileStep.put (.content key) bytes).foldl apply files).contents key = some bytes :=
  Function.update_self _ _ _

lemma contents_foldl_slabs {checkpointId : ι}
    {slabs : List (ℕ × Bytes)} (hnodup : (slabs.map Prod.fst).Nodup) {slab : ℕ × Bytes}
    (h : slab ∈ slabs) :
    ((slabs.flatMap fun slab => FileStep.put (.content (.slab checkpointId slab.1)) slab.2).foldl
      apply files).contents (.slab checkpointId slab.1) = some slab.2 := by
  induction slabs generalizing files with
  | nil => simp at h
  | cons first slabs ih =>
    rw [flatMap_cons, foldl_append]
    rw [map_cons, nodup_cons] at hnodup
    rcases mem_cons.mp h with rfl | h
    · -- the slabs after it have other ids
      rw [contents_foldl_of_ne, contents_foldl_put]
      intro bytes hmem
      obtain ⟨other, hother, hmem⟩ := mem_flatMap.mp hmem
      apply hnodup.1
      simp only [FileStep.put, mem_cons, not_mem_nil, or_false, FileStep.content.injEq,
        ContentKey.slab.injEq, true_and] at hmem
      rcases hmem with ⟨hid, -⟩ | ⟨hid, -⟩ <;> exact hid ▸ mem_map_of_mem hother
    · exact ih hnodup.2 h

end

variable {r : Publication ι × ℕ}

lemma publish_of_completed {files : CheckpointFiles ι} (h : Completed codec r) :
    (files.publish codec r).contents (.index r.1.checkpointId) = some r.1.index ∧
      ∀ slab ∈ r.1.slabs,
        (files.publish codec r).contents (.slab r.1.checkpointId slab.1) = some slab.2 := by
  rw [publish, take_of_length_le h, Publication.publishCheckpoint, foldl_append,
    Publication.contentSteps, foldl_append]
  constructor
  · rw [contents_foldl_of_ne, contents_foldl_of_ne, contents_foldl_put]
    · intro bytes hmem
      simp [FileStep.put] at hmem
    · intro bytes hmem
      simp [FileStep.put] at hmem
  · intro slab hslab
    rw [contents_foldl_of_ne, contents_foldl_slabs r.1.slabs_nodup hslab]
    intro bytes hmem
    simp [FileStep.put] at hmem

lemma contents_publish_of_ne {files : CheckpointFiles ι} (key : ContentKey ι)
    (h : key.checkpointId ≠ r.1.checkpointId) :
    (files.publish codec r).contents key = files.contents key := by
  apply contents_foldl_of_ne
  intro bytes hmem
  have hmem := mem_of_mem_take hmem
  rw [Publication.publishCheckpoint, mem_append] at hmem
  rcases hmem with hmem | hmem
  · obtain ⟨key', bytes', heq, hid⟩ := mem_contentSteps hmem
    cases heq
    exact h hid
  · simp [FileStep.put] at hmem

lemma manifests_publish (files : CheckpointFiles ι) (r : Publication ι × ℕ) :
    (files.publish codec r).manifests =
      (manifestFile codec r).elim files.manifests fun x => files.manifests.put x.1 x.2 := by
  have hcontent : ∀ n (files : CheckpointFiles ι),
      ((r.1.contentSteps.take n).foldl apply files).manifests = files.manifests := by
    intro n files
    apply manifests_foldl_content
    intro step hstep
    obtain ⟨key, bytes, hcontent, -⟩ := mem_contentSteps (mem_of_mem_take hstep)
    exact ⟨key, bytes, hcontent⟩
  rw [publish, Publication.publishCheckpoint, take_append, foldl_append, manifestFile]
  split_ifs with hbef hcut
  · rw [Nat.sub_eq_zero_of_le hbef]
    exact hcontent _ _
  · rw [hcut, Nat.add_sub_cancel_left]
    exact congrArg (Series.put · _ _) (hcontent _ _)
  · rw [take_of_length_le (l := FileStep.put _ _) (by
      change 2 ≤ _
      omega)]
    change (((_ : CheckpointFiles ι).manifests.put _ _).put _ _) = _
    rw [Series.put_put, hcontent]
    rfl

section Sequence

variable {runs : List (Publication ι × ℕ)}

lemma manifests_publishAll (codec : ManifestCodec ι δ) (runs : List (Publication ι × ℕ)) :
    (publishAll codec runs).manifests = Series.inOrder (runs.filterMap (manifestFile codec)) := by
  induction runs using reverseRecOn with
  | nil => rfl
  | append_singleton runs r ih =>
    have hlast : publishAll codec (runs ++ [r]) = (publishAll codec runs).publish codec r := by
      rw [publishAll, foldl_append]
      rfl
    rw [hlast, manifests_publish, ih, filterMap_append]
    cases hr : manifestFile codec r with
    | none => rw [filterMap_cons_none hr, filterMap_nil, append_nil]; rfl
    | some x =>
      rw [filterMap_cons_some hr, filterMap_nil, Series.inOrder_append_one]
      rfl

/-- The checkpoint id of every call is a fresh one. -/
def Fresh (runs : List (Publication ι × ℕ)) : Prop := (runs.map fun r => r.1.checkpointId).Nodup

instance (runs : List (Publication ι × ℕ)) : Decidable (Fresh runs) :=
  inferInstanceAs (Decidable (List.Nodup _))

variable {r : Publication ι × ℕ}

section

variable (hfresh : Fresh runs)
include hfresh

lemma mem_manifests_publishAll {x : ι × Bytes} :
    x ∈ (publishAll codec runs).manifests ↔ ∃ r ∈ runs, manifestFile codec r = some x := by
  rw [manifests_publishAll, Series.mem_inOrder, mem_filterMap]
  intro x hx y hy hkey
  obtain ⟨r, hr, hx⟩ := mem_filterMap.mp hx
  obtain ⟨r', hr', hy⟩ := mem_filterMap.mp hy
  have hid : r.1.checkpointId = r'.1.checkpointId :=
    (manifestFile_eq_some hx).1.symm.trans (hkey.trans (manifestFile_eq_some hy).1)
  cases inj_on_of_nodup_map hfresh hr hr' hid
  exact Option.some.inj (hx.symm.trans hy)

lemma contents_publishAll (hr : r ∈ runs) (h : Completed codec r) :
    (publishAll codec runs).contents (.index r.1.checkpointId) = some r.1.index ∧
      ∀ slab ∈ r.1.slabs,
        (publishAll codec runs).contents (.slab r.1.checkpointId slab.1) = some slab.2 := by
  induction runs using reverseRecOn with
  | nil => simp at hr
  | append_singleton runs last ih =>
    rw [publishAll, foldl_append, foldl_cons, foldl_nil]
    rcases mem_append.mp hr with hmem | hmem
    · have hne : r.1.checkpointId ≠ last.1.checkpointId := by
        intro heq
        have hnodup : ((runs ++ [last]).map fun r => r.1.checkpointId).Nodup := hfresh
        rw [map_append] at hnodup
        exact disjoint_of_nodup_append hnodup
          (mem_map_of_mem (f := fun r : Publication ι × ℕ => r.1.checkpointId) hmem)
          (mem_singleton.mpr heq)
      have hold := ih (hfresh.sublist ((sublist_append_left _ _).map _)) hmem
      rw [contents_publish_of_ne (.index _) hne]
      refine ⟨hold.1, fun slab hslab => ?_⟩
      rw [contents_publish_of_ne (.slab _ _) hne]
      exact hold.2 slab hslab
    · rw [mem_singleton.mp hmem] at h ⊢
      exact publish_of_completed h

lemma mem_decoded {manifests : List (CheckpointManifest ι δ)}
    (h : (publishAll codec runs).manifests.mapM (decodeManifest codec) = .ok manifests)
    {manifest : CheckpointManifest ι δ} (hmem : manifest ∈ manifests) :
    ∃ r ∈ runs, Completed codec r ∧ manifest = r.1.manifest codec := by
  obtain ⟨x, hx, hdec⟩ := mem_of_mapM_eq_ok h hmem
  obtain ⟨r, hr, hfile⟩ := (mem_manifests_publishAll hfresh).mp hx
  rcases (manifestFile_eq_some hfile).2 with hcut | ⟨hcomp, hbytes⟩
  · rw [manifestFile_of_cutAtManifest codec hcut] at hfile
    cases hfile
    rw [decodeManifest, codec.decode_nil] at hdec
    cases hdec
  · rw [decodeManifest, hbytes, codec.decode_encode] at hdec
    cases hdec
    exact ⟨r, hr, hcomp, rfl⟩

/-- The manifests decode if and only if none is an empty file, and then they are those of the
publications that completed. -/
lemma decode_manifests (codec : ManifestCodec ι δ) (hcut : ∀ r ∈ runs, ¬CutAtManifest r) :
    ∃ manifests, (publishAll codec runs).manifests.mapM (decodeManifest codec) = .ok manifests ∧
      ∀ manifest, manifest ∈ manifests ↔
        ∃ r ∈ runs, Completed codec r ∧ manifest = r.1.manifest codec := by
  have hwhole : ∀ x ∈ (publishAll codec runs).manifests, ∃ manifest,
      decodeManifest codec x = .ok manifest := by
    intro x hx
    obtain ⟨r, hr, hfile⟩ := (mem_manifests_publishAll hfresh).mp hx
    obtain ⟨-, hbytes⟩ := (manifestFile_eq_some hfile).2.resolve_left (hcut r hr)
    exact ⟨_, by rw [decodeManifest, hbytes, codec.decode_encode]⟩
  obtain ⟨manifests, hmans⟩ := exists_mapM_eq_ok hwhole
  refine ⟨manifests, hmans, fun manifest => ⟨mem_decoded hfresh hmans, ?_⟩⟩
  rintro ⟨r, hr, hcomp, rfl⟩
  have hx := (mem_manifests_publishAll hfresh).mpr ⟨r, hr, manifestFile_of_completed hcomp⟩
  obtain ⟨manifest, hmem, hdec⟩ := exists_of_mapM_eq_ok hmans hx
  rw [decodeManifest, codec.decode_encode] at hdec
  cases hdec
  exact hmem

lemma mem_listCheckpoints {listed : List (CheckpointManifest ι δ)}
    (h : (publishAll codec runs).listCheckpoints codec = .ok listed)
    {manifest : CheckpointManifest ι δ} (hmem : manifest ∈ listed) :
    ∃ r ∈ runs, Completed codec r ∧ manifest = r.1.manifest codec := by
  obtain ⟨manifests, hmans, hsort⟩ := bind_eq_ok h
  cases hsort
  exact mem_decoded hfresh hmans ((mem_insertionSort _).mp hmem)

end

variable [DecidableEq δ]

omit [LinearOrder ι] in
lemma fetch_eq_ok {files : CheckpointFiles ι} {key : ContentKey ι} {bytes : Bytes}
    (h : files.contents key = some bytes) :
    files.fetch codec key bytes.length (codec.sha256Hex bytes) = .ok bytes := by
  rw [fetch, h]
  exact if_neg (by simp)

lemma restoreCheckpoint_of_completed (hfresh : Fresh runs) (hr : r ∈ runs) (h : Completed codec r) :
    (publishAll codec runs).restoreCheckpoint codec (r.1.manifest codec) = .ok r.1.restored := by
  obtain ⟨hidx, hslabs⟩ := contents_publishAll hfresh hr h
  have hfetched : (r.1.manifest codec).blockSlabs.mapM ((publishAll codec runs).fetchSlab codec) =
      .ok r.1.slabs := by
    have hmap : (r.1.manifest codec).blockSlabs.mapM ((publishAll codec runs).fetchSlab codec) =
        r.1.slabs.mapM fun slab => (publishAll codec runs).fetchSlab codec
          ⟨slab.1, .slab r.1.checkpointId slab.1, slab.2.length, codec.sha256Hex slab.2⟩ :=
      mapM_map
    rw [hmap, mapM_eq_ok (g := id), map_id]
    intro slab hslab
    rw [fetchSlab, fetch_eq_ok (hslabs slab hslab)]
    rfl
  change ((publishAll codec runs).fetch codec (.index r.1.checkpointId) r.1.index.length
    (codec.sha256Hex r.1.index) >>= _) = _
  rw [fetch_eq_ok hidx]
  rw [hfetched]
  rfl

lemma restoreLatestCheckpoint_ne_ok (hfresh : Fresh runs) (hr : r ∈ runs) (hcut : CutAtManifest r)
    (restored : Restored) :
    (publishAll codec runs).restoreLatestCheckpoint codec ≠ .ok restored := by
  intro hrestore
  obtain ⟨listed, hlisted, -⟩ := bind_eq_ok hrestore
  obtain ⟨manifests, hmans, -⟩ := bind_eq_ok hlisted
  have hx := (mem_manifests_publishAll hfresh).mpr ⟨r, hr, manifestFile_of_cutAtManifest codec hcut⟩
  obtain ⟨manifest, -, hdec⟩ := exists_of_mapM_eq_ok hmans hx
  rw [decodeManifest, codec.decode_nil] at hdec
  cases hdec

/-- Once a publication has completed, restoring the latest checkpoint installs the index and slabs
of one that completed if and only if no publication was cut between the creation and the write of
its manifest. -/
theorem restoreLatestCheckpoint_iff (codec : ManifestCodec ι δ) (runs : List (Publication ι × ℕ))
    (hfresh : Fresh runs) (hsome : ∃ r ∈ runs, Completed codec r) : (∃ r ∈ runs, Completed codec r ∧
        (publishAll codec runs).restoreLatestCheckpoint codec = .ok r.1.restored) ↔
      ∀ r ∈ runs, ¬CutAtManifest r := by
  constructor
  · rintro ⟨r, -, -, hrestore⟩ cut hmem hcut
    exact restoreLatestCheckpoint_ne_ok hfresh hmem hcut r.1.restored hrestore
  · intro hcut
    obtain ⟨manifests, hmanifests, hmem⟩ := decode_manifests hfresh codec hcut
    have hlist : (publishAll codec runs).listCheckpoints codec =
        .ok (manifests.insertionSort notAfter) := by
      rw [listCheckpoints, hmanifests]
      rfl
    have hne : manifests.insertionSort notAfter ≠ [] := by
      obtain ⟨r, hr, hcompleted⟩ := hsome
      exact ne_nil_of_mem ((mem_insertionSort _).mpr ((hmem _).mpr ⟨r, hr, hcompleted, rfl⟩))
    have hlast := getLast?_eq_some_getLast hne
    obtain ⟨r, hr, hcompleted, hmanifest⟩ :=
      (hmem _).mp ((mem_insertionSort _).mp (getLast_mem hne))
    refine ⟨r, hr, hcompleted, ?_⟩
    rw [restoreLatestCheckpoint, hlist, ok_bind, hlast, hmanifest]
    exact restoreCheckpoint_of_completed hfresh hr hcompleted

end Sequence

end CheckpointFiles

deriving instance Encodable for ContentKey, CheckpointSlab, CheckpointManifest

/-- A manifest as so many zero bytes. -/
def unaryCodec : ManifestCodec ℕ Unit where
  sha256Hex _ := ()
  encode manifest := replicate (Encodable.encode manifest + 1) 0
  decode bytes :=
    match bytes with
    | [] => none
    | _ :: rest => Encodable.decode rest.length
  decode_encode manifest := by
    rw [replicate_succ]
    simp only [length_replicate, Encodable.encodek]
  decode_nil := rfl

/-- An index and two slabs. -/
def smallPublication (checkpointId checkpointWalIndex : ℕ) : Publication ℕ :=
  ⟨checkpointId, checkpointWalIndex, 0, (0, 16383), [3, 4], 2, [(3, [84]), (4, [66, 1])],
    by decide⟩

namespace CheckpointFiles

theorem restoreLatestCheckpoint_small :
    ∃ r ∈ [(smallPublication 1 1, 8), (smallPublication 2 2, 5)], Completed unaryCodec r ∧
      (publishAll unaryCodec
        [(smallPublication 1 1, 8), (smallPublication 2 2, 5)]).restoreLatestCheckpoint
        unaryCodec = .ok r.1.restored :=
  (restoreLatestCheckpoint_iff unaryCodec [(smallPublication 1 1, 8), (smallPublication 2 2, 5)]
    (by decide) ⟨_, mem_cons_self, by decide⟩).mpr (by decide)

/-- The second publication stops when the file of its manifest is created. -/
theorem not_restoreLatestCheckpoint_cut :
    (∃ r ∈ [(smallPublication 1 1, 8), (smallPublication 2 2, 7)], Completed unaryCodec r) ∧
      ¬∃ r ∈ [(smallPublication 1 1, 8), (smallPublication 2 2, 7)], Completed unaryCodec r ∧
        (publishAll unaryCodec
          [(smallPublication 1 1, 8), (smallPublication 2 2, 7)]).restoreLatestCheckpoint
            unaryCodec = .ok r.1.restored := by
  refine ⟨⟨_, mem_cons_self, by decide⟩, ?_⟩
  rintro ⟨r, -, -, hrestore⟩
  exact restoreLatestCheckpoint_ne_ok (by decide) (mem_cons_of_mem _ mem_cons_self)
    (by decide) r.1.restored hrestore

end CheckpointFiles

end TemporalStore.Shared
