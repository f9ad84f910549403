import TemporalStore.Shared.Log
import TemporalStore.Lib.Faulty

/-! # The storage writer (`SharedStoreStorageWriter`) -/

namespace TemporalStore.Shared

open Lib

variable {κ : Type}

/-- The offset index of records that start at the record `start` of the blob. -/
def metadataOf : List (List (WalEntry κ)) → ℕ → List (ℕ × ℕ)
  | [], _ => []
  | record :: records, start =>
    record.map (fun e => (e.walIndex, start)) ++ metadataOf records (start + 1)

namespace SharedLog

variable (log : SharedLog κ)

def putObject (e : WalEntry κ) : SharedLog κ :=
  { log with objects := log.objects.put e.walIndex (some e) }

def tearObject (e : WalEntry κ) : SharedLog κ :=
  { log with objects := log.objects.put e.walIndex none }

def appendBlob (records : List (List (WalEntry κ))) : SharedLog κ :=
  { log with blob := log.blob ++ records }

def tearBlob : SharedLog κ := { log with blobTorn := true }

/-- Index records just appended: the receipt says that they are the last of the blob. -/
def appendOffsets (records : List (List (WalEntry κ))) : SharedLog κ :=
  { log with offsets := log.offsets ++ metadataOf records (log.blob.length - records.length) }

def tearOffsets : SharedLog κ := { log with offsetsTorn := true }

end SharedLog

abbrev SharedStore (κ : Type) := ℕ → SharedLog κ

/-- An operation on the objects of one shard. -/
def onShard (shardId attempts : ℕ) (full part : SharedLog κ → SharedLog κ) :
    Operation (SharedStore κ) where
  attempts := attempts
  full store := Function.update store shardId (full (store shardId))
  part store := Function.update store shardId (part (store shardId))

inductive StorageMode where
  | sync
  | async
  deriving DecidableEq

structure WriterConfig (κ : Type) where
  appendMode : WalAppendMode
  /-- `wal_batch_container` -/
  batchContainer : Bool
  /-- Whether the entries fit in one container. -/
  fitsContainer : List (WalEntry κ) → Bool
  /-- `command_to_sdk_proto` has an encoding for the command. -/
  encodes : κ → Bool
  fenced : Bool
  maxAttempts : ℕ
  mode : StorageMode
  groupCommit : Bool
  maxPending : ℕ

namespace WriterConfig

variable (cfg : WriterConfig κ)

def attempts : ℕ := max cfg.maxAttempts 1

/-- `enforce_fence`: one read of the lease, without retries. -/
def enforceFence (shardId : ℕ) : List (Operation (SharedStore κ)) :=
  if cfg.fenced then [onShard shardId 1 id id] else []

def refuse (shardId : ℕ) : Operation (SharedStore κ) := onShard shardId 0 id id

def publishRecords (shardId : ℕ) (records : List (List (WalEntry κ))) :
    List (Operation (SharedStore κ)) :=
  [onShard shardId cfg.attempts (·.appendBlob records) SharedLog.tearBlob,
    onShard shardId cfg.attempts (·.appendOffsets records) SharedLog.tearOffsets]

def publishObject (entry : WalEntry κ) : List (Operation (SharedStore κ)) :=
  [onShard entry.shardId cfg.attempts (·.putObject entry) (·.tearObject entry)]

def publishWalEntry (entry : WalEntry κ) : List (Operation (SharedStore κ)) :=
  cfg.enforceFence entry.shardId ++
    if cfg.encodes entry.command then
      match cfg.appendMode with
      | .protobufAppendBlob => cfg.publishRecords entry.shardId [[entry]]
      | .jsonPerKey => cfg.publishObject entry
    else [refuse entry.shardId]

/-- One container for the batch, or a frame an entry. -/
def batchRecords (entries : List (WalEntry κ)) : List (List (WalEntry κ)) :=
  if cfg.batchContainer ∧ 1 < entries.length ∧ cfg.fitsContainer entries then [entries]
  else entries.map fun e => [e]

def publishWalEntriesBatch (entries : List (WalEntry κ)) : List (Operation (SharedStore κ)) :=
  match entries with
  | [] => []
  | first :: _ =>
    if cfg.appendMode = .protobufAppendBlob ∧ ∀ e ∈ entries, e.shardId = first.shardId then
      cfg.enforceFence first.shardId ++
        if ∀ e ∈ entries, cfg.encodes e.command then
          cfg.publishRecords first.shardId (cfg.batchRecords entries)
        else [refuse first.shardId]
    else entries.flatMap cfg.publishWalEntry

end WriterConfig

structure StorageWriter (κ : Type) where
  store : SharedStore κ
  nextWalIndex : ℕ
  pending : List (WalEntry κ)
  /-- The entries reported as published, by a write or by a flush. -/
  published : List (WalEntry κ)
  /-- The process has stopped. -/
  stopped : Bool

/-- A call of the writer, with what happens to the attempts of its operations. -/
inductive WriterCall (κ : Type) where
  | write (shardId : ℕ) (command : κ) (faults : List (List Attempt))
  | flush (maxEntries : ℕ) (faults : List (List Attempt))

def WriterCall.faults : WriterCall κ → List (List Attempt)
  | .write _ _ faults => faults
  | .flush _ faults => faults

namespace StorageWriter

variable (cfg : WriterConfig κ)

def start : StorageWriter κ := ⟨fun _ => .empty, 1, [], [], false⟩

variable (w : StorageWriter κ)

/-- Whether a write must publish itself because the queue is full. -/
def atCapacity : Prop :=
  0 < cfg.maxPending ∧ cfg.maxPending ≤ w.pending.length

instance (w : StorageWriter κ) : Decidable (w.atCapacity cfg) :=
  inferInstanceAs (Decidable (_ ∧ _))

/-- Run a publication of one entry. Its index is gone whether it succeeds or not. -/
def publish (entry : WalEntry κ) (plan : List (Operation (SharedStore κ)))
    (faults : List (List Attempt)) : StorageWriter κ :=
  let next := { w with nextWalIndex := w.nextWalIndex + 1 }
  match performAll plan faults w.store with
  | (.ok, store) => { next with store := store, published := w.published ++ [entry] }
  | (.error, store) => { next with store := store }
  | (.stopped, store) => { next with store := store, stopped := true }

/-- The operations of a write that publishes its entry itself. A lone writer of a group commit is a
batch of one. -/
def directPlan (entry : WalEntry κ) : List (Operation (SharedStore κ)) :=
  if cfg.mode = .sync ∧ cfg.groupCommit then cfg.publishWalEntriesBatch [entry]
  else cfg.publishWalEntry entry

def nextEntry (shardId : ℕ) (command : κ) : WalEntry κ :=
  ⟨shardId, w.nextWalIndex, command⟩

def write (shardId : ℕ) (command : κ) (faults : List (List Attempt)) : StorageWriter κ :=
  let entry := w.nextEntry shardId command
  if cfg.mode = .sync ∨ w.atCapacity cfg then w.publish entry (directPlan cfg entry) faults
  else { w with nextWalIndex := w.nextWalIndex + 1, pending := w.pending ++ [entry] }

def drained (maxEntries : ℕ) : List (WalEntry κ) :=
  w.pending.take (max maxEntries 1)

/-- A flush that fails puts what it took back in front of the queue. -/
def flushPending (maxEntries : ℕ) (faults : List (List Attempt)) : StorageWriter κ :=
  let rest := w.pending.drop (max maxEntries 1)
  match performAll (cfg.publishWalEntriesBatch (w.drained maxEntries)) faults w.store with
  | (.ok, store) =>
    { w with store := store, pending := rest, published := w.published ++ w.drained maxEntries }
  | (.error, store) => { w with store := store, pending := w.drained maxEntries ++ rest }
  | (.stopped, store) => { w with store := store, pending := rest, stopped := true }

def step (call : WriterCall κ) : StorageWriter κ :=
  if w.stopped then w
  else
    match call with
    | .write shardId command faults => w.write cfg shardId command faults
    | .flush maxEntries faults => w.flushPending cfg maxEntries faults

def run (calls : List (WriterCall κ)) : StorageWriter κ :=
  calls.foldl (step cfg) w

end StorageWriter

end TemporalStore.Shared
