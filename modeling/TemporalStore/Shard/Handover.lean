import Mathlib.Data.String.Basic
import TemporalStore.Lib.Lists
import TemporalStore.Shard.Takeover
import TemporalStore.Shared.Writer

/-! # A shard handed from node to node
(`publish_shard_checkpoint`, `restore_shared_index_before_load`) -/

namespace TemporalStore.Shard

open Lib Shared List Option Series ShardNode

/-- What a shared log entry carries: the results of a write, and its command. -/
abbrev Payload := List OutcomeItem × Option Command

/-- A checkpoint in the shared store: the index, with the blocks it names. -/
structure SharedCheckpoint where
  checkpointWalIndex : ℕ
  createdAtMs : ℕ
  index : IndexFile

structure SharedStorage where
  /-- By checkpoint id, as they are listed. -/
  checkpoints : Series String SharedCheckpoint
  log : SharedLog Payload
  manifests : List BucketDumpManifest

namespace SharedStorage

def empty : SharedStorage := ⟨[], .empty, []⟩

/-- The last of `list_checkpoints`: by log index, and then by time. -/
def latest (storage : SharedStorage) : Option SharedCheckpoint :=
  ((storage.checkpoints.map Prod.snd).insertionSort fun a b =>
    toLex (a.checkpointWalIndex, a.createdAtMs) ≤
      toLex (b.checkpointWalIndex, b.createdAtMs)).getLast?

/-- `publish_wal_entry` for a record of the local log. -/
def mirrorRecord (mode : WalAppendMode) (shardId : ℕ) (log : SharedLog Payload)
    (record : ℕ × LogRecord) : SharedLog Payload :=
  let entry : WalEntry Payload := ⟨shardId, record.1, (record.2.items, some record.2.command)⟩
  match mode with
  | .protobufAppendBlob => (log.appendBlob [[entry]]).appendOffsets [[entry]]
  | .jsonPerKey => log.putObject entry

/-- `publish_bucket_dump_manifests`: a manifest is an object under its id. -/
def publishManifests (storage : SharedStorage) (manifests : List BucketDumpManifest) :
    List BucketDumpManifest :=
  storage.manifests.filter (fun m => !(manifests.any (·.manifestId == m.manifestId))) ++ manifests

/-- `POST /load` on a node that has nothing of the shard. Without a checkpoint it starts from an
empty index and replays the whole log; a hole in the log makes the load fail, and a log that cannot
be read is passed over. -/
def takeOver (mode : WalAppendMode) (shardId : ℕ) (storage : SharedStorage)
    (conditions : LoadConditions) : ShardNode × Except Status Unit :=
  let node : ShardNode := ⟨none, [], [], none⟩
  let index := (storage.latest.map SharedCheckpoint.index).getD ⟨.empty, none⟩
  let after := (storage.latest.map SharedCheckpoint.checkpointWalIndex).getD 0
  match Shared.replayWal mode storage.log shardId after with
  | .ok entries =>
    node.load ⟨index, storage.manifests, entries.map WalEntry.command⟩ conditions
  | .error (.gap expected actual) =>
    ((node.load ⟨index, storage.manifests, []⟩ conditions).1,
      .error ⟨"shared_wal_replay_hole", s!"expected {expected}, found {actual}"⟩)
  | .error .unreadable => node.load ⟨index, storage.manifests, []⟩ conditions

end SharedStorage

structure Handover where
  owner : ShardNode
  storage : SharedStorage

inductive HandoverEvent where
  | execute (config : Config) (now : ℕ) (command : Command)
  | dump (manifestId : String) (indexLogSequence createdUnixMs : ℕ)
  /-- The local log is reclaimed below a sequence. -/
  | reclaim (retainFromSequence : ℕ)
  | publish (checkpointId : String) (createdAtMs : ℕ)
  /-- Another node takes the shard over. -/
  | takeOver (conditions : LoadConditions)

/-- `gc_before_sequence`: the record with the highest sequence stays. -/
def ShardNode.reclaim (node : ShardNode) (retainFromSequence : ℕ) : ShardNode :=
  { node with
    wal := node.wal.filter fun r => decide (min retainFromSequence (lastSequence node.wal) ≤ r.1) }

namespace Handover

variable (mode : WalAppendMode) (shardId : ℕ)

def start : Handover := ⟨⟨none, [], [], some ⟨.empty, none⟩⟩, .empty⟩

/-- `publish_shard_checkpoint`. -/
def publish (s : Handover) (checkpointId : String) (createdAtMs : ℕ) : Handover :=
  match s.owner.memory with
  | none => s
  | some file =>
    { s with storage := {
        log := s.owner.wal.foldl (SharedStorage.mirrorRecord mode shardId) s.storage.log
        manifests := s.storage.publishManifests s.owner.manifests
        checkpoints := s.storage.checkpoints.put checkpointId
          ⟨lastSequence s.owner.wal, createdAtMs, file⟩ } }

def step (s : Handover) : HandoverEvent → Handover
  | .execute config now command => { s with owner := s.owner.execute config now command }
  | .dump manifestId indexLogSequence createdUnixMs =>
    { s with owner := s.owner.dump manifestId indexLogSequence createdUnixMs }
  | .reclaim retainFromSequence => { s with owner := s.owner.reclaim retainFromSequence }
  | .publish checkpointId createdAtMs => s.publish mode shardId checkpointId createdAtMs
  | .takeOver conditions =>
    { s with owner := (s.storage.takeOver mode shardId conditions).1 }

def run (s : Handover) (events : List HandoverEvent) : Handover :=
  events.foldl (step mode shardId) s

/-- The id of a new checkpoint is a fresh one. -/
def Fresh (s : Handover) : HandoverEvent → Prop
  | .publish checkpointId _ => ∀ x ∈ s.storage.checkpoints, x.1 ≠ checkpointId
  | _ => True

def AllFresh : Handover → List HandoverEvent → Prop
  | _, [] => True
  | s, event :: events => s.Fresh event ∧ AllFresh (s.step mode shardId event) events

end Handover

/-- Every entry of the log can be read and has an index up to `bound`. -/
structure EndsAt (bound : ℕ) (log : SharedLog Payload) : Prop where
  objects : ∀ o ∈ log.objects, o.1 ≤ bound ∧ ∃ e, o.2 = some e
  blob : ∀ record ∈ log.blob, ∀ e ∈ record, e.walIndex ≤ bound
  offsets : ∀ m ∈ log.offsets, m.1 ≤ bound
  blobWhole : log.blobTorn = false
  offsetsWhole : log.offsetsTorn = false

section EndsAt

variable {bound after shardId : ℕ} {mode : WalAppendMode} {log : SharedLog Payload}
  (h : EndsAt bound log)
include h

lemma EndsAt.mono {bound' : ℕ} (hle : bound ≤ bound') : EndsAt bound' log where
  objects o ho := ⟨(h.objects o ho).1.trans hle, (h.objects o ho).2⟩
  blob record hrec e he := (h.blob record hrec e he).trans hle
  offsets m hm := (h.offsets m hm).trans hle
  __ := h

lemma EndsAt.mirrorRecord {record : ℕ × LogRecord} (hrec : record.1 ≤ bound) :
    EndsAt bound (SharedStorage.mirrorRecord mode shardId log record) := by
  cases mode with
  | jsonPerKey =>
    refine ⟨fun o ho => ?_, h.blob, h.offsets, h.blobWhole, h.offsetsWhole⟩
    rcases mem_of_mem_put ho with rfl | ho
    · exact ⟨hrec, _, rfl⟩
    · exact h.objects o ho
  | protobufAppendBlob =>
    refine ⟨h.objects, fun r hr e he => ?_, fun m hm => ?_, h.blobWhole, h.offsetsWhole⟩
    · rcases mem_append.mp hr with hr | hr
      · exact h.blob r hr e he
      · rw [mem_singleton.mp hr] at he
        rw [mem_singleton.mp he]
        exact hrec
    · rcases mem_append.mp hm with hm | hm
      · exact h.offsets m hm
      · rw [mem_singleton.mp hm]
        exact hrec

lemma EndsAt.mirror {wal : List (ℕ × LogRecord)} (hwal : ∀ record ∈ wal, record.1 ≤ bound) :
    EndsAt bound (wal.foldl (SharedStorage.mirrorRecord mode shardId) log) := by
  induction wal generalizing log with
  | nil => exact h
  | cons record wal ih =>
    exact ih (h.mirrorRecord (hwal record mem_cons_self)) fun r hr => hwal r (mem_cons_of_mem _ hr)

lemma EndsAt.replayWalEntries (hle : bound ≤ after) : replayWalEntries log after = .ok [] := by
  obtain ⟨parsed, hparsed⟩ := exists_mapM_eq_ok (f := parseWalEntryObject) fun o ho => by
    obtain ⟨e, he⟩ := (h.objects o ho).2
    exact ⟨(o.1, e), by rw [parseWalEntryObject, he]⟩
  have hnone : (inOrder (parsed ++ log.blob.flatten.map fun e => (e.walIndex, e))).filter
      (fun e => decide (after < e.1)) = [] := by
    apply filter_eq_nil_iff.mpr
    intro x hx
    have hidx : x.1 ≤ bound := by
      rcases mem_append.mp (mem_of_mem_inOrder hx) with hx | hx
      · obtain ⟨o, ho, hx⟩ := mem_of_mapM_eq_ok hparsed hx
        obtain ⟨hle, e, he⟩ := h.objects o ho
        rw [parseWalEntryObject, he] at hx
        cases hx
        exact hle
      · obtain ⟨e, he, rfl⟩ := mem_map.mp hx
        obtain ⟨record, hrec, he⟩ := mem_flatten.mp he
        exact h.blob record hrec e he
    simpa using hidx.trans hle
  rw [Shared.replayWalEntries, loadWalEntries, hparsed, h.blobWhole]
  simp only [Bool.false_eq_true, if_false, ok_bind, hnone]
  rfl

lemma EndsAt.replayWal (hle : bound ≤ after) :
    Shared.replayWal mode log shardId after = .ok [] := by
  have hunion := h.replayWalEntries hle
  cases mode with
  | jsonPerKey => exact hunion
  | protobufAppendBlob =>
    have hnone : (inOrder log.offsets).filter (fun m => decide (after < m.1)) = [] := by
      apply filter_eq_nil_iff.mpr
      intro m hm
      simpa using (h.offsets m (mem_of_mem_inOrder hm)).trans hle
    rw [Shared.replayWal, replayWalFromOffsetMetadata, loadWalOffsetMetadata, h.offsetsWhole]
    simp only [Bool.false_eq_true, if_false, ok_bind, hnone]
    split_ifs
    · exact hunion
    · exact hunion
    · rfl

end EndsAt

namespace Handover

variable {mode : WalAppendMode} {shardId : ℕ} {s : Handover}

/-- The local log has no hole, and no entry of the shared log is past all checkpoints. -/
structure Orderly (s : Handover) : Prop where
  wal : ∃ first, Sequenced first s.owner.wal
  log : ∃ bound, EndsAt bound s.storage.log ∧
    (bound = 0 ∨ ∃ x ∈ s.storage.checkpoints, bound ≤ x.2.checkpointWalIndex)

lemma orderly_start : Orderly start where
  wal := ⟨1, numbered_nil⟩
  log := ⟨0, ⟨nofun, nofun, nofun, rfl, rfl⟩, .inl rfl⟩

lemma le_lastSequence {first : ℕ} {wal : List (ℕ × LogRecord)} (h : Sequenced first wal)
    {record : ℕ × LogRecord} (hrec : record ∈ wal) : record.1 ≤ lastSequence wal := by
  have hlast := getLast?_eq_some_getLast (ne_nil_of_mem hrec)
  generalize wal.getLast (ne_nil_of_mem hrec) = last at hlast
  have hkey := h.key_getLast hlast
  have hbnd := (h.key_of_mem hrec).2
  rw [lastSequence, hlast]
  change record.1 ≤ last.1
  omega

section

variable {node : ShardNode} (h : ∃ first, Sequenced first node.wal)
include h

lemma sequenced_execute (config : Config) (now : ℕ) (command : Command) :
    ∃ first, Sequenced first (node.execute config now command).wal := by
  obtain ⟨first, h⟩ := h
  rw [execute]
  split
  next => exact ⟨first, h⟩
  next file hfile =>
    by_cases hlogged : (isWriteCommand command &&
        (executeOnShard config now file.shard command).mutated) = true
    · rw [if_pos hlogged]
      cases hlast : node.wal.getLast? with
      | none =>
        rw [getLast?_eq_none_iff] at hlast
        refine ⟨1, ?_⟩
        rw [hlast]
        rfl
      | some last =>
        refine ⟨first, h.append_one ?_⟩
        have hkey := h.key_getLast hlast
        rw [lastSequence, hlast]
        change last.1 + 1 = first + node.wal.length
        omega
    · rw [if_neg hlogged]
      exact ⟨first, h⟩

lemma sequenced_reclaim
    (retainFromSequence : ℕ) : ∃ first, Sequenced first (node.reclaim retainFromSequence).wal := by
  obtain ⟨first, h⟩ := h
  generalize hretain : min retainFromSequence (lastSequence node.wal) = retain
  have hfilter : (node.reclaim retainFromSequence).wal = node.wal.drop (retain - first) := by
    rw [reclaim, hretain]
    cases retain with
    | zero => simp
    | succ k =>
      rw [← h.filter k]
      simp only [Nat.succ_le_iff]
  rw [hfilter]
  exact ⟨_, h.drop _⟩

lemma sequenced_applyReplayedWalEntry (conditions : LoadConditions) (entry : Payload) :
    ∃ first, Sequenced first (node.applyReplayedWalEntry conditions entry).wal := by
  rw [applyReplayedWalEntry.eq_def]
  split
  next => exact h
  next => exact sequenced_execute h _ _ _
  next => exact h

end

/-- The log of a node that takes the shard over has the bare commands of the shared log at most. -/
lemma sequenced_load (shared : SharedShard) (conditions : LoadConditions) : ∃ first, Sequenced first
      ((⟨none, [], [], none⟩ : ShardNode).load shared conditions).1.wal := by
  have hempty : ∃ first, Sequenced first (((⟨none, [], [], none⟩ : ShardNode).restoreSharedIndex
      shared).loadShardWith conditions).1.wal := by
    exact ⟨1, numbered_nil⟩
  rw [load]
  generalize ((⟨none, [], [], none⟩ : ShardNode).restoreSharedIndex shared).loadShardWith
    conditions = loaded at hempty
  obtain ⟨node, status⟩ := loaded
  cases status with
  | error status => exact hempty
  | ok =>
    induction shared.tail generalizing node with
    | nil => exact hempty
    | cons entry tail ih => exact ih _ (sequenced_applyReplayedWalEntry hempty conditions entry)

lemma sequenced_takeOver (storage : SharedStorage) (conditions : LoadConditions) :
    ∃ first, Sequenced first (storage.takeOver mode shardId conditions).1.wal := by
  rw [SharedStorage.takeOver]
  split
  next => exact sequenced_load _ _
  next => exact sequenced_load _ _
  next => exact sequenced_load _ _

lemma Orderly.publish (h : s.Orderly) {checkpointId : String}
    (hfresh : ∀ x ∈ s.storage.checkpoints, x.1 ≠ checkpointId) (createdAtMs : ℕ) :
    (s.publish mode shardId checkpointId createdAtMs).Orderly := by
  rw [Handover.publish]
  split
  next => exact h
  next file hfile =>
    obtain ⟨first, hwal⟩ := h.wal
    obtain ⟨bound, hlog, hbnd⟩ := h.log
    refine ⟨⟨first, hwal⟩, max bound (lastSequence s.owner.wal), ?_, .inr ?_⟩
    · apply (hlog.mono (le_max_left _ _)).mirror
      intro record hrec
      exact (le_lastSequence hwal hrec).trans (le_max_right _ _)
    · rcases le_total bound (lastSequence s.owner.wal) with hle | hle
      · rw [max_eq_right hle]
        exact ⟨_, mem_put_self _ _ _, le_rfl⟩
      · rw [max_eq_left hle]
        rcases hbnd with hzero | ⟨x, hx, hxbound⟩
        · exact ⟨_, mem_put_self _ _ _, (hzero ▸ Nat.zero_le _)⟩
        · exact ⟨x, mem_put_of_ne _ hx (hfresh x hx), hxbound⟩

lemma Orderly.step (h : s.Orderly) {event : HandoverEvent} (hfresh : s.Fresh event) :
    (s.step mode shardId event).Orderly := by
  cases event with
  | execute config now command => exact ⟨sequenced_execute h.wal config now command, h.log⟩
  | dump manifestId indexLogSequence createdUnixMs =>
    refine ⟨?_, h.log⟩
    change ∃ first, Sequenced first (s.owner.dump manifestId indexLogSequence createdUnixMs).wal
    rw [dump]
    split
    next => exact h.wal
    next => exact h.wal
  | reclaim retainFromSequence => exact ⟨sequenced_reclaim h.wal retainFromSequence, h.log⟩
  | publish checkpointId createdAtMs => exact h.publish hfresh createdAtMs
  | takeOver conditions => exact ⟨sequenced_takeOver s.storage conditions, h.log⟩

lemma Orderly.run (h : s.Orderly) {events : List HandoverEvent}
    (hfresh : AllFresh mode shardId s events) : (s.run mode shardId events).Orderly := by
  induction events generalizing s with
  | nil => exact h
  | cons event events ih => exact ih (h.step hfresh.1) hfresh.2

/-- Nothing in the shared store is ahead of what the owner publishes: no checkpoint by its log index
and time, and no dump manifest, of the owner or in the store, by its sequence. -/
structure Ahead (s : Handover) (file : IndexFile) (createdAtMs : ℕ) : Prop where
  checkpoints : ∀ x ∈ s.storage.checkpoints, toLex (x.2.checkpointWalIndex, x.2.createdAtMs) <
    toLex (lastSequence s.owner.wal, createdAtMs)
  manifests : ∀ m ∈ s.storage.manifests ++ s.owner.manifests, m.walSequence ≤ file.watermark

lemma latest_publish {file : IndexFile} (hfile : s.owner.memory = some file) {createdAtMs : ℕ}
    (hahead : s.Ahead file createdAtMs) (checkpointId : String) :
    (s.publish mode shardId checkpointId createdAtMs).storage.latest =
      some ⟨lastSequence s.owner.wal, createdAtMs, file⟩ := by
  rw [Handover.publish, hfile]
  apply getLast?_insertionSort
    fun c : SharedCheckpoint => toLex (c.checkpointWalIndex, c.createdAtMs)
  · exact mem_map_of_mem (f := Prod.snd) (mem_put_self _ _ _)
  · intro c hc hne
    obtain ⟨x, hx, rfl⟩ := mem_map.mp hc
    rcases mem_of_mem_put hx with rfl | hx
    · exact absurd rfl hne
    · exact hahead.checkpoints x hx

/-- A load of an index whose sequence no dump exceeds, on a node without a log, serves the index. -/
lemma load_of_watermark {shared : SharedShard} (conditions : LoadConditions)
    (hmans : ∀ m ∈ shared.manifests, m.walSequence ≤ shared.index.watermark)
    (htail : shared.tail = []) :
    ∃ node, (⟨none, [], [], none⟩ : ShardNode).load shared conditions = (node, .ok ()) ∧
      node.memory = some ⟨loadedShard conditions shared.index.shard [],
        shared.index.appliedWalSequence⟩ := by
  have hbase : ((⟨none, [], [], none⟩ : ShardNode).restoreSharedIndex shared).recoveryBase =
      (some shared.index, shared.index.watermark) := by
    rw [recoveryBase]
    split
    next manifest hman =>
      have hmem : manifest ∈ shared.manifests := 
        mem_of_mem_filter (mem_of_durableRecoveryBucketDumpManifestAt hman)
      exact if_neg (not_lt.mpr (hmans manifest hmem))
    next => rfl
  rw [load, if_neg (by simp [lastSequence]), loadShardWith, hbase, htail]
  exact ⟨_, rfl, rfl⟩

def syncWrites : Config := ⟨false, false, false, 0⟩

/-- The first owner has two records in its log, the second one. -/
def shorterLog : List HandoverEvent :=
  [.execute syncWrites 1 (.stringSet [1] [7]), .execute syncWrites 2 (.stringSet [2] [8]),
    .publish "a" 10, .takeOver loadSync, .execute syncWrites 3 (.stringSet [3] [9])]

/-- One owner that dumps and publishes its first write, and then writes again. -/
def growingLog : List HandoverEvent :=
  [.execute syncWrites 1 (.stringSet [1] [7]), .dump "m" 1 5, .publish "a" 10,
    .execute syncWrites 2 (.stringSet [2] [8])]

end Handover

end TemporalStore.Shard
