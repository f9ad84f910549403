import TemporalStore.Lib.Result
import TemporalStore.Lib.Text
import TemporalStore.LogCommand
import TemporalStore.Raft.Cluster

/-! # The binary records of a node's log (`raft/wal_proto.rs`) -/

namespace TemporalStore.Raft.WalProto

open Lib LogCommand List

variable {V : Type}

structure RaftLogEntry (V : Type) where
  term : ℕ
  index : ℕ
  shardId : ShardId
  command : Command V
  leaderTimeMs : ℕ

structure RoutingRangeStamp where
  startRoutingBucket : ℕ
  endRoutingBucket : ℕ

structure RaftSnapshotStateImageSlab where
  blockSlabId : ℕ
  bytes : Bytes

structure RaftSnapshotStateImage where
  indexBytes : Bytes
  nextBlockId : ℕ
  slabs : List RaftSnapshotStateImageSlab
  routingRange : Option RoutingRangeStamp

structure RaftSnapshot (V : Type) where
  shardId : ShardId
  lastIncludedTerm : ℕ
  lastIncludedIndex : ℕ
  externalSnapshotRef : Option V
  entries : List (RaftLogEntry V)
  stateImage : Option RaftSnapshotStateImage
  stateImageExternalized : Bool

structure RaftMembership where
  shardId : ShardId
  voters : List RaftNodeId
  leaderId : RaftNodeId

structure RaftApplySnapshotFence where
  appliedIndex : ℕ
  commitIndex : ℕ
  installedSnapshotIndex : ℕ
  firstRetainedLogIndex : ℕ

structure RaftStorageApplyFence where
  shardId : ShardId
  raftTerm : ℕ
  committedIndex : ℕ
  appliedIndex : ℕ
  snapshotId : Option String
  storageEpoch : ℕ
  checksum : String

structure RaftWalRecord (V : Type) where
  hardState : RaftHardState
  membership : RaftMembership
  replicaRole : RaftReplicaRole
  jointMembership : Option V
  latestExternalSnapshotRef : Option V
  installedSnapshot : Option (RaftSnapshot V)
  applySnapshotFence : RaftApplySnapshotFence
  storageApplyFence : RaftStorageApplyFence
  pipelineState : V
  readSafetyState : V
  membershipEvidence : V
  entries : List (RaftLogEntry V)

structure RaftWalEntryDelta where
  fromIndex : ℕ
  logFirstIndex : ℕ
  logLastIndex : ℕ

structure RaftWalEnvelope (V : Type) where
  sequence : ℕ
  checksum : String
  record : RaftWalRecord V
  delta : Option RaftWalEntryDelta

structure AppendEntriesRequest (V : Type) where
  rpc : Option V
  shardId : ShardId
  term : ℕ
  leaderId : RaftNodeId
  targetId : RaftNodeId
  prevLogIndex : ℕ
  prevLogTerm : ℕ
  entries : List (RaftLogEntry V)
  leaderCommit : ℕ

/-- The fields of a record that sit at their default on nearly every record. -/
structure RaftWalRecordRest (V : Type) where
  replicaRole : RaftReplicaRole
  jointMembership : Option V
  latestExternalSnapshotRef : Option V
  installedSnapshot : Option (RaftSnapshot V)
  pipelineState : V
  readSafetyState : V
  membershipEvidence : V

namespace V1

structure WalLogEntry where
  term : ℕ
  index : ℕ
  shardId : ℕ
  command : Option WalCommand
  leaderTimeMs : ℕ

structure WalStateImageSlab where
  blockSlabId : ℕ
  slab : Bytes

structure WalStateImage where
  index : Bytes
  nextBlockId : ℕ
  slabs : List WalStateImageSlab
  startRoutingBucket : Option ℕ
  endRoutingBucket : Option ℕ

structure WalInstalledSnapshot where
  snapshotSansImage : Bytes
  stateImage : Option WalStateImage

structure WalHardState where
  currentTerm : ℕ
  votedFor : Option ℕ
  commitIndex : ℕ

structure WalMembership where
  shardId : ℕ
  voters : List ℕ
  leaderId : ℕ

structure WalApplySnapshotFence where
  appliedIndex : ℕ
  commitIndex : ℕ
  installedSnapshotIndex : ℕ
  firstRetainedLogIndex : ℕ

structure WalStorageApplyFence where
  shardId : ℕ
  raftTerm : ℕ
  committedIndex : ℕ
  appliedIndex : ℕ
  snapshotId : Option String
  storageEpoch : ℕ
  checksum : Bytes
  checksumIsText : Bool

structure WalEntryDelta where
  fromIndex : ℕ
  logFirstIndex : ℕ
  logLastIndex : ℕ

structure WalRecord where
  hardState : Option WalHardState
  membership : Option WalMembership
  applySnapshotFence : Option WalApplySnapshotFence
  storageApplyFence : Option WalStorageApplyFence
  entries : List WalLogEntry
  installedSnapshot : Option WalInstalledSnapshot
  rest : Bytes

structure WalEnvelope where
  sequence : ℕ
  checksum : Bytes
  record : Option WalRecord
  delta : Option WalEntryDelta
  checksumIsText : Bool

structure RaftAppendEntriesRequest where
  shardId : ℕ
  term : ℕ
  leaderId : ℕ
  targetId : ℕ
  prevLogIndex : ℕ
  prevLogTerm : ℕ
  entries : List WalLogEntry
  leaderCommit : ℕ
  rpc : Bytes

end V1

/-- JSON of a type whose values are objects, on one line. -/
structure JsonObject (α : Type) extends Coding String α where
  opens : ∀ a, (encode a).head? = some 123
  oneLine : ∀ a, newline ∉ encode a

/-- What the module takes from `prost`, `serde_json` and the standard library, with the defaults of
the runtime states of a record. -/
structure Codecs (V : Type) where
  walEnvelope : Coding String V1.WalEnvelope
  appendEntries : Coding String V1.RaftAppendEntriesRequest
  command : Coding String (Command V)
  snapshot : Coding String (RaftSnapshot V)
  rest : JsonObject (RaftWalRecordRest V)
  rpcEncode : V → Bytes
  rpcDecode : Bytes → Except String (Option V)
  rpcDecode_encode : ∀ rpc, rpcDecode (rpcEncode rpc) = .ok (some rpc)
  rpcEncode_ne_nil : ∀ rpc, rpcEncode rpc ≠ []
  envelope : JsonObject (RaftWalEnvelope V)
  /-- `String::from_utf8_lossy` of bytes that are no UTF-8. -/
  replaceInvalid : Bytes → String
  pipelineDefault : V
  readSafetyDefault : V
  evidenceDefault : V

namespace Codecs

variable (K : Codecs V) (bytes : Bytes)

def fromUtf8Lossy : String :=
  (String.fromUTF8? ⟨bytes.toArray⟩).getD (K.replaceInvalid bytes)

def decodeHex (text : String) : Option Bytes :=
  if (utf8 text).length % 2 ≠ 0 ∨ utf8 text = [] then none
  else decodeHexPairs (utf8 text)

/-- The bytes to store, and whether they are the checksum's text. -/
def checksumToBytes (checksum : String) : Bytes × Bool :=
  match decodeHex checksum with
  | some digest =>
    if encodeHex digest = checksum then (digest, false) else (utf8 checksum, true)
  | none => (utf8 checksum, true)

def checksumFromBytes (isText : Bool) : String :=
  if isText then K.fromUtf8Lossy bytes else encodeHex bytes

def entryToProto (entry : RaftLogEntry V) : V1.WalLogEntry where
  term := entry.term
  index := entry.index
  shardId := entry.shardId
  command := some ⟨some (commandToProto K.command entry.command)⟩
  leaderTimeMs := entry.leaderTimeMs

def entryFromProto (entry : V1.WalLogEntry) : Except String (RaftLogEntry V) :=
  match entry.command.bind (·.kind) with
  | none => .error "wal log entry is missing its command"
  | some kind => do
    let command ← commandFromProto K.command kind
    .ok ⟨entry.term, entry.index, entry.shardId, command, entry.leaderTimeMs⟩

def imageToProto (image : RaftSnapshotStateImage) : V1.WalStateImage where
  index := image.indexBytes
  nextBlockId := image.nextBlockId
  slabs := image.slabs.map fun slab => ⟨slab.blockSlabId, slab.bytes⟩
  startRoutingBucket := image.routingRange.map (·.startRoutingBucket)
  endRoutingBucket := image.routingRange.map (·.endRoutingBucket)

/-- Both ends of a range or neither. -/
def imageFromProto (image : V1.WalStateImage) : RaftSnapshotStateImage where
  indexBytes := image.index
  nextBlockId := image.nextBlockId
  slabs := image.slabs.map fun slab => ⟨slab.blockSlabId, slab.slab⟩
  routingRange :=
    match image.startRoutingBucket, image.endRoutingBucket with
    | some startRoutingBucket, some endRoutingBucket => some ⟨startRoutingBucket, endRoutingBucket⟩
    | _, _ => none

def snapshotToProto (snapshot : RaftSnapshot V) : V1.WalInstalledSnapshot where
  snapshotSansImage := K.snapshot.encode { snapshot with stateImage := none }
  stateImage := snapshot.stateImage.map imageToProto

def snapshotFromProto (snapshot : V1.WalInstalledSnapshot) : Except String (RaftSnapshot V) := do
  let decoded ← K.snapshot.decode snapshot.snapshotSansImage
  .ok { decoded with stateImage := snapshot.stateImage.map imageFromProto }

def restDefault : RaftWalRecordRest V :=
  ⟨.voter, none, none, none, K.pipelineDefault, K.readSafetyDefault, K.evidenceDefault⟩

/-- The fields of the record that have no field in the message. The snapshot has one. -/
def restOf (record : RaftWalRecord V) : RaftWalRecordRest V :=
  ⟨record.replicaRole, record.jointMembership, record.latestExternalSnapshotRef, none,
    record.pipelineState, record.readSafetyState, record.membershipEvidence⟩

section
variable [DecidableEq V]

/-- Nothing when every field is at its default. -/
def restBytes (K : Codecs V) (record : RaftWalRecord V) : Bytes :=
  let rest := restOf record
  if rest.replicaRole = .voter ∧ rest.jointMembership = none ∧
      rest.latestExternalSnapshotRef = none ∧ rest.installedSnapshot.isNone ∧
      rest.pipelineState = K.pipelineDefault ∧ rest.readSafetyState = K.readSafetyDefault ∧
      rest.membershipEvidence = K.evidenceDefault then []
  else K.rest.encode rest

end

def restFromBytes : Except String (RaftWalRecordRest V) :=
  if bytes = [] then .ok K.restDefault else K.rest.decode bytes

def fenceToProto (fence : RaftStorageApplyFence) : V1.WalStorageApplyFence where
  shardId := fence.shardId
  raftTerm := fence.raftTerm
  committedIndex := fence.committedIndex
  appliedIndex := fence.appliedIndex
  snapshotId := fence.snapshotId
  storageEpoch := fence.storageEpoch
  checksum := (checksumToBytes fence.checksum).1
  checksumIsText := (checksumToBytes fence.checksum).2

def fenceFromProto (fence : V1.WalStorageApplyFence) : RaftStorageApplyFence where
  shardId := fence.shardId
  raftTerm := fence.raftTerm
  committedIndex := fence.committedIndex
  appliedIndex := fence.appliedIndex
  snapshotId := fence.snapshotId
  storageEpoch := fence.storageEpoch
  checksum := K.checksumFromBytes fence.checksum fence.checksumIsText

section
variable [DecidableEq V]

def envelopeToProto (K : Codecs V) (envelope : RaftWalEnvelope V) : V1.WalEnvelope :=
  let record := envelope.record
  { sequence := envelope.sequence
    checksum := (checksumToBytes envelope.checksum).1
    checksumIsText := (checksumToBytes envelope.checksum).2
    record := some
      { hardState := some ⟨record.hardState.currentTerm, record.hardState.votedFor,
          record.hardState.commitIndex⟩
        membership := some ⟨record.membership.shardId, record.membership.voters,
          record.membership.leaderId⟩
        applySnapshotFence := some ⟨record.applySnapshotFence.appliedIndex,
          record.applySnapshotFence.commitIndex, record.applySnapshotFence.installedSnapshotIndex,
          record.applySnapshotFence.firstRetainedLogIndex⟩
        storageApplyFence := some (fenceToProto record.storageApplyFence)
        entries := record.entries.map K.entryToProto
        installedSnapshot := record.installedSnapshot.map K.snapshotToProto
        rest := K.restBytes record }
    delta := envelope.delta.map fun delta =>
      ⟨delta.fromIndex, delta.logFirstIndex, delta.logLastIndex⟩ }

def encodeEnvelope (K : Codecs V) (envelope : RaftWalEnvelope V) : Bytes :=
  K.walEnvelope.encode (K.envelopeToProto envelope)

end

/-- Records written before the message had a field for the snapshot carried it in `rest`. -/
def installedSnapshotFromProto (rest : RaftWalRecordRest V) :
    Option V1.WalInstalledSnapshot → Except String (Option (RaftSnapshot V))
  | some snapshot => some <$> K.snapshotFromProto snapshot
  | none => .ok rest.installedSnapshot

/-- A message that is absent stands for one with every field at its default. -/
def recordFromProto (record : V1.WalRecord) : Except String (RaftWalRecord V) := do
  let hardState := record.hardState.getD ⟨0, none, 0⟩
  let membership := record.membership.getD ⟨0, [], 0⟩
  let applySnapshotFence := record.applySnapshotFence.getD ⟨0, 0, 0, 0⟩
  let storageApplyFence := record.storageApplyFence.getD ⟨0, 0, 0, 0, none, 0, [], false⟩
  let rest ← K.restFromBytes record.rest
  let installedSnapshot ← K.installedSnapshotFromProto rest record.installedSnapshot
  let entries ← record.entries.mapM K.entryFromProto
  .ok
    { hardState := ⟨hardState.currentTerm, hardState.votedFor, hardState.commitIndex⟩
      membership := ⟨membership.shardId, membership.voters, membership.leaderId⟩
      replicaRole := rest.replicaRole
      jointMembership := rest.jointMembership
      latestExternalSnapshotRef := rest.latestExternalSnapshotRef
      installedSnapshot := installedSnapshot
      applySnapshotFence := ⟨applySnapshotFence.appliedIndex, applySnapshotFence.commitIndex,
        applySnapshotFence.installedSnapshotIndex, applySnapshotFence.firstRetainedLogIndex⟩
      storageApplyFence := K.fenceFromProto storageApplyFence
      pipelineState := rest.pipelineState
      readSafetyState := rest.readSafetyState
      membershipEvidence := rest.membershipEvidence
      entries := entries }

def decodeEnvelope : Except String (RaftWalEnvelope V) := do
  let message ← K.walEnvelope.decode bytes
  match message.record with
  | none => .error "wal envelope is missing its record"
  | some record =>
    let record ← K.recordFromProto record
    .ok
      { sequence := message.sequence
        checksum := K.checksumFromBytes message.checksum message.checksumIsText
        record := record
        delta := message.delta.map fun delta =>
          ⟨delta.fromIndex, delta.logFirstIndex, delta.logLastIndex⟩ }

def binaryRecordMagic : Byte := 0xA7

section
variable [DecidableEq V]

/-- The length is stored as a `u32`. -/
def encodeRecordLine (K : Codecs V) (envelope : RaftWalEnvelope V) (binary : Bool) : Bytes :=
  if binary then
    let payload := K.encodeEnvelope envelope
    binaryRecordMagic :: (leBytes 4 (payload.length % 2 ^ 32) ++ payload)
  else K.envelope.encode envelope ++ [newline]

end

/-- The next record and how many bytes it takes. `none` is a torn tail. -/
def nextEnvelope : Option (ℕ × RaftWalEnvelope V) :=
  match bytes.head? with
  | none => none
  | some first =>
    if first = binaryRecordMagic then
      if bytes.length < 5 then none
      else
        let length := leNat (slice bytes 1 4)
        if bytes.length < 5 + length then none
        else (K.decodeEnvelope (slice bytes 5 length)).toOption.map fun envelope =>
          (5 + length, envelope)
    else
      let rawLine := (takeLine bytes).getD bytes
      (K.envelope.decode (stripTrailingNewline rawLine)).toOption.map fun envelope =>
        (rawLine.length, envelope)

def encodeAppendEntries (request : AppendEntriesRequest V) : Bytes :=
  binaryRecordMagic :: K.appendEntries.encode
    { shardId := request.shardId
      term := request.term
      leaderId := request.leaderId
      targetId := request.targetId
      prevLogIndex := request.prevLogIndex
      prevLogTerm := request.prevLogTerm
      entries := request.entries.map K.entryToProto
      leaderCommit := request.leaderCommit
      rpc := (request.rpc.map K.rpcEncode).getD [] }

/-- No metadata is no bytes. -/
def rpcFromBytes : Except String (Option V) :=
  if bytes = [] then .ok none else K.rpcDecode bytes

def decodeAppendEntries (body : Bytes) : Except String (AppendEntriesRequest V) := do
  let message ← K.appendEntries.decode (body.drop 1)
  let rpc ← K.rpcFromBytes message.rpc
  let entries ← message.entries.mapM K.entryFromProto
  .ok ⟨rpc, message.shardId, message.term, message.leaderId, message.targetId,
    message.prevLogIndex, message.prevLogTerm, entries, message.leaderCommit⟩

lemma fromUtf8Lossy_utf8 (text : String) : K.fromUtf8Lossy (utf8 text) = text := by
  rw [fromUtf8Lossy, fromUTF8?_utf8, Option.getD_some]

lemma checksumFromBytes_checksumToBytes (checksum : String) :
    K.checksumFromBytes (checksumToBytes checksum).1 (checksumToBytes checksum).2 = checksum := by
  have htext : K.checksumFromBytes (utf8 checksum) true = checksum := K.fromUtf8Lossy_utf8 checksum
  unfold checksumToBytes
  split
  · split
    · assumption
    · exact htext
  · exact htext

lemma entryFromProto_entryToProto (entry : RaftLogEntry V) :
    K.entryFromProto (K.entryToProto entry) = .ok entry := by
  simp only [entryFromProto, entryToProto, Option.bind_some, commandFromProto_commandToProto,
    ok_bind]

lemma mapM_entryFromProto (entries : List (RaftLogEntry V)) :
    (entries.map K.entryToProto).mapM K.entryFromProto = .ok entries := by
  induction entries with
  | nil => rfl
  | cons entry entries ih =>
    rw [map_cons, mapM_cons, entryFromProto_entryToProto, ih]
    rfl

lemma imageFromProto_imageToProto (image : RaftSnapshotStateImage) :
    imageFromProto (imageToProto image) = image := by
  obtain ⟨indexBytes, nextBlockId, slabs, routingRange⟩ := image
  have hslabs : (slabs.map fun slab => V1.WalStateImageSlab.mk slab.blockSlabId slab.bytes).map
      (fun slab => RaftSnapshotStateImageSlab.mk slab.blockSlabId slab.slab) = slabs := by
    rw [map_map]
    exact map_id slabs
  cases routingRange <;> simp [imageFromProto, imageToProto, hslabs]

lemma snapshotFromProto_snapshotToProto (snapshot : RaftSnapshot V) :
    K.snapshotFromProto (K.snapshotToProto snapshot) = .ok snapshot := by
  have himg : (snapshot.stateImage.map imageToProto).map imageFromProto = snapshot.stateImage := by
    rw [Option.map_map]
    have hid : imageFromProto ∘ imageToProto = id := funext imageFromProto_imageToProto
    rw [hid, Option.map_id, id]
  simp only [snapshotFromProto, snapshotToProto, K.snapshot.decode_encode, ok_bind, himg]

lemma fenceFromProto_fenceToProto (fence : RaftStorageApplyFence) :
    K.fenceFromProto (fenceToProto fence) = fence := by
  simp only [fenceFromProto, fenceToProto, checksumFromBytes_checksumToBytes]

section
variable [DecidableEq V]

lemma restFromBytes_restBytes (K : Codecs V) (record : RaftWalRecord V) :
    K.restFromBytes (K.restBytes record) = .ok (restOf record) := by
  unfold restBytes
  dsimp only
  split
  · rename_i h
    obtain ⟨hrole, hjoint, hext, -, hpip, hsafety, hevid⟩ := h
    simp only [restOf] at hrole hjoint hext hpip hsafety hevid
    rw [restFromBytes, if_pos rfl, restDefault, restOf, hrole, hjoint, hext, hpip, hsafety, hevid]
  · have hne : K.rest.encode (restOf record) ≠ [] := by
      intro hnil
      have hopens := K.rest.opens (restOf record)
      rw [hnil] at hopens
      cases hopens
    rw [restFromBytes, if_neg hne, K.rest.decode_encode]

lemma decodeEnvelope_encodeEnvelope (K : Codecs V) (envelope : RaftWalEnvelope V) :
    K.decodeEnvelope (K.encodeEnvelope envelope) = .ok envelope := by
  obtain ⟨sequence, checksum, record, delta⟩ := envelope
  have hdelta : (delta.map fun delta => V1.WalEntryDelta.mk delta.fromIndex delta.logFirstIndex
      delta.logLastIndex).map (fun delta => RaftWalEntryDelta.mk delta.fromIndex delta.logFirstIndex
      delta.logLastIndex) = delta := by
    cases delta <;> rfl
  have hsnap : K.installedSnapshotFromProto (restOf record)
      (record.installedSnapshot.map K.snapshotToProto) = .ok record.installedSnapshot := by
    cases record.installedSnapshot with
    | none => rfl
    | some snapshot =>
      simp only [Option.map_some, installedSnapshotFromProto, snapshotFromProto_snapshotToProto,
        map_ok]
  simp only [decodeEnvelope, encodeEnvelope, K.walEnvelope.decode_encode, ok_bind, envelopeToProto,
    recordFromProto, restFromBytes_restBytes, hsnap, mapM_entryFromProto, hdelta,
    checksumFromBytes_checksumToBytes, Option.getD_some, fenceFromProto_fenceToProto]
  rfl

end

lemma decodeAppendEntries_encodeAppendEntries (request : AppendEntriesRequest V) :
    K.decodeAppendEntries (K.encodeAppendEntries request) = .ok request := by
  have hrpc : K.rpcFromBytes ((request.rpc.map K.rpcEncode).getD []) = .ok request.rpc := by
    cases request.rpc with
    | none => rfl
    | some rpc =>
      rw [Option.map_some, Option.getD_some, rpcFromBytes, if_neg (K.rpcEncode_ne_nil rpc),
        K.rpcDecode_encode]
  simp only [decodeAppendEntries, encodeAppendEntries, drop_one, tail_cons,
    K.appendEntries.decode_encode, ok_bind, hrpc, mapM_entryFromProto]

section
variable [DecidableEq V]

variable (K : Codecs V) (envelope : RaftWalEnvelope V)

lemma head?_encodeRecordLine_text (rest : Bytes) :
    (K.encodeRecordLine envelope false ++ rest).head? = some 123 := by
  have hopens := K.envelope.opens envelope
  rw [encodeRecordLine, if_neg Bool.false_ne_true, append_assoc, head?_append, hopens]
  rfl

lemma nextEnvelope_text (rest : Bytes) :
    K.nextEnvelope (K.encodeRecordLine envelope false ++ rest) =
      some ((K.encodeRecordLine envelope false).length, envelope) := by
  have hline : K.encodeRecordLine envelope false = K.envelope.encode envelope ++ [newline] := rfl
  have htake : takeLine (K.encodeRecordLine envelope false ++ rest) =
      some (K.encodeRecordLine envelope false) := by
    rw [hline, append_assoc]
    exact takeLine_append rest (K.envelope.oneLine envelope)
  have hstrip : stripTrailingNewline (K.encodeRecordLine envelope false) =
      K.envelope.encode envelope := by
    rw [hline]
    simp [stripTrailingNewline]
  rw [nextEnvelope, head?_encodeRecordLine_text]
  dsimp only
  rw [htake, Option.getD_some, hstrip, K.envelope.decode_encode]
  rfl

lemma nextEnvelope_binary (K : Codecs V) (envelope : RaftWalEnvelope V) (rest : Bytes) :
    let payload := K.encodeEnvelope envelope
    let length := payload.length % 2 ^ 32
    K.nextEnvelope (K.encodeRecordLine envelope true ++ rest) =
      (K.decodeEnvelope (payload.take length)).toOption.map fun read => (5 + length, read) := by
  intro payload length
  have hline : K.encodeRecordLine envelope true ++ rest =
      [binaryRecordMagic] ++ (leBytes 4 length ++ (payload ++ rest)) := by
    rw [encodeRecordLine]
    simp [payload, length]
  have hle : length ≤ payload.length := Nat.mod_le _ _
  have hlen : (K.encodeRecordLine envelope true ++ rest).length =
      5 + (payload.length + rest.length) := by
    rw [hline]
    simp only [length_append, length_singleton, leBytes_length]
    omega
  have hleng : slice (K.encodeRecordLine envelope true ++ rest) 1 4 = leBytes 4 length :=
    slice_eq_of_append hline rfl (leBytes_length 4 length)
  have hpay : slice (K.encodeRecordLine envelope true ++ rest) 5 length = payload.take length := by
    have hsplit : K.encodeRecordLine envelope true ++ rest =
        (binaryRecordMagic :: leBytes 4 length) ++ (payload.take length ++
          (payload.drop length ++ rest)) := by
      rw [hline, ← append_assoc (payload.take length), take_append_drop]
      rfl
    refine slice_eq_of_append hsplit ?_ ?_
    · rw [length_cons, leBytes_length]
    · rw [length_take, Nat.min_eq_left hle]
  have hnat : leNat (leBytes 4 length) = length :=
    leNat_leBytes (lt_of_lt_of_le (Nat.mod_lt _ (by decide)) (by decide))
  have hhead : (K.encodeRecordLine envelope true ++ rest).head? = some binaryRecordMagic := by
    rfl
  rw [nextEnvelope, hhead]
  dsimp only
  rw [if_pos rfl, if_neg (by omega), hleng, hnat, if_neg (by omega), hpay]

/-- The record reads back and takes the bytes that were written. -/
def ReadsBack (binary : Bool) : Prop :=
  ∀ rest, K.nextEnvelope (K.encodeRecordLine envelope binary ++ rest) =
    some ((K.encodeRecordLine envelope binary).length, envelope)

lemma readsBack_binary_iff :
    K.ReadsBack envelope true ↔ (K.encodeEnvelope envelope).length < 2 ^ 32 := by
  have hlen : (K.encodeRecordLine envelope true).length =
      5 + (K.encodeEnvelope envelope).length := by
    rw [encodeRecordLine, if_pos rfl, length_cons, length_append, leBytes_length]
    omega
  constructor
  · intro h
    have hread := h []
    rw [nextEnvelope_binary, hlen] at hread
    obtain ⟨read, -, hread⟩ := Option.map_eq_some_iff.mp hread
    have hmod : 5 + (K.encodeEnvelope envelope).length % 2 ^ 32 =
        5 + (K.encodeEnvelope envelope).length := congrArg Prod.fst hread
    omega
  · intro h rest
    rw [nextEnvelope_binary, hlen, Nat.mod_eq_of_lt h, take_length, decodeEnvelope_encodeEnvelope]
    rfl

/-- An envelope reads back from its record if and only if the record is text, or the message of the
envelope is shorter than four gigabytes. A request always reads back. -/
theorem record_reads_back_iff (K : Codecs V) :
    (∀ (envelope : RaftWalEnvelope V) (binary : Bool), K.ReadsBack envelope binary ↔
        (binary = true → (K.walEnvelope.encode (K.envelopeToProto envelope)).length < 2 ^ 32)) ∧
      ∀ request : AppendEntriesRequest V,
        K.decodeAppendEntries (K.encodeAppendEntries request) = .ok request := by
  refine ⟨fun envelope binary => ?_, K.decodeAppendEntries_encodeAppendEntries⟩
  cases binary with
  | true =>
    rw [readsBack_binary_iff, encodeEnvelope]
    exact ⟨fun h _ => h, fun h => h rfl⟩
  | false =>
    exact ⟨fun _ h => absurd h Bool.false_ne_true, fun _ rest => K.nextEnvelope_text envelope rest⟩

end

end Codecs

deriving instance Encodable for RaftHardState, RaftReplicaRole

deriving instance Encodable for RaftLogEntry, RoutingRangeStamp, RaftSnapshotStateImageSlab,
  RaftSnapshotStateImage, RaftSnapshot, RaftMembership, RaftApplySnapshotFence,
  RaftStorageApplyFence, RaftWalRecord, RaftWalEntryDelta, RaftWalEnvelope, RaftWalRecordRest

deriving instance Encodable for V1.WalLogEntry, V1.WalStateImageSlab, V1.WalStateImage,
  V1.WalInstalledSnapshot, V1.WalHardState, V1.WalMembership, V1.WalApplySnapshotFence,
  V1.WalStorageApplyFence, V1.WalEntryDelta, V1.WalRecord, V1.WalEnvelope,
  V1.RaftAppendEntriesRequest

def unaryObject (α : Type) [Encodable α] : JsonObject α where
  toCoding := unary "not a value"
  opens _ := rfl
  oneLine a := by
    change newline ∉ 123 :: replicate (Encodable.encode a) 1
    rw [mem_cons, mem_replicate, not_or]
    exact ⟨by decide, fun h => absurd h.2 (by decide)⟩

/-- The bytes of the state image in a message. -/
def V1.WalEnvelope.imageSize (envelope : V1.WalEnvelope) : ℕ :=
  (envelope.record.bind (·.installedSnapshot) |>.bind (·.stateImage)).elim 0 fun image =>
    (image.slabs.map (·.slab.length)).sum

def unaryCodecs : Codecs Unit where
  walEnvelope := padded "not a value" V1.WalEnvelope.imageSize
  appendEntries := unary "not a value"
  command := unary "not a value"
  snapshot := unary "not a value"
  rest := unaryObject _
  rpcEncode _ := [123]
  rpcDecode _ := .ok (some ())
  rpcDecode_encode _ := rfl
  rpcEncode_ne_nil _ := by simp
  envelope := unaryObject _
  replaceInvalid _ := ""
  pipelineDefault := ()
  readSafetyDefault := ()
  evidenceDefault := ()

def imageEnvelope (slab : Bytes) : RaftWalEnvelope Unit where
  sequence := 1
  checksum := ""
  record :=
    { hardState := ⟨1, none, 1⟩
      membership := ⟨1, [1], 1⟩
      replicaRole := .voter
      jointMembership := none
      latestExternalSnapshotRef := none
      installedSnapshot := some
        { shardId := 1
          lastIncludedTerm := 1
          lastIncludedIndex := 1
          externalSnapshotRef := none
          entries := []
          stateImage := some ⟨[], 1, [⟨0, slab⟩], none⟩
          stateImageExternalized := false }
      applySnapshotFence := ⟨1, 1, 1, 2⟩
      storageApplyFence := ⟨1, 1, 1, 1, none, 1, ""⟩
      pipelineState := ()
      readSafetyState := ()
      membershipEvidence := ()
      entries := [] }
  delta := none

lemma imageSize_imageEnvelope (slab : Bytes) :
    (unaryCodecs.envelopeToProto (imageEnvelope slab)).imageSize = slab.length :=
  Nat.add_zero slab.length

/-- With a slab of four gigabytes the length of the record is cut. -/
theorem not_record_reads_back : ¬unaryCodecs.ReadsBack (imageEnvelope (zeros (2 ^ 32))) true := by
  have hle := le_padded_length "not a value" V1.WalEnvelope.imageSize
    (unaryCodecs.envelopeToProto (imageEnvelope (zeros (2 ^ 32))))
  rw [imageSize_imageEnvelope, zeros_length] at hle
  rw [Codecs.readsBack_binary_iff]
  exact Nat.not_lt.mpr hle

end TemporalStore.Raft.WalProto
