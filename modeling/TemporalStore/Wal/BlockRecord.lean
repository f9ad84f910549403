import TemporalStore.Wal.Walk

/-! # Records that carry one staged block (`wal_proto.rs`) -/

namespace TemporalStore.Wal

open Lib Lib.Protobuf LogFraming List

/-- A `StagedBlock` without an element name. -/
structure StagedBlock where
  objectId : ℕ
  bytes : Bytes
  objectId_lt : objectId < 2 ^ 64
  length_lt : bytes.length < 2 ^ 62

def smallBlock : StagedBlock := ⟨7, [1], by decide, by decide⟩

def rawPayloadMarker : Byte := 0xB8

variable (block : StagedBlock) (record : WalRecord StagedBlock)

/-- The body of a `WalStagedBlock`; an empty block is left out. -/
def StagedBlock.fields : List Field :=
  ⟨1, .fixed64 block.objectId⟩ :: if block.bytes = [] then [] else [⟨2, .bytes block.bytes⟩]

/-- The fields of the `EngineWalRecord`; a sequence of 0 is left out. -/
def blockRecordFields : List Field :=
  (if record.sequence = 0 then [] else [⟨2, .varint record.sequence⟩]) ++
    [⟨6, .bytes (encodeFields record.body.fields)⟩]

def encodeBlockRecord : Bytes :=
  rawPayloadMarker :: encodeFields (blockRecordFields record)

def stagedBlockOfFields : List Field → Option (ℕ × Bytes)
  | [⟨1, .fixed64 objectId⟩] => some (objectId, [])
  | [⟨1, .fixed64 objectId⟩, ⟨2, .bytes bytes⟩] => some (objectId, bytes)
  | _ => none

def blockRecordOfFields : List Field → Option (ℕ × Bytes)
  | [⟨6, .bytes block⟩] => some (0, block)
  | [⟨2, .varint sequence⟩, ⟨6, .bytes block⟩] => some (sequence, block)
  | _ => none

/-- The record in a payload of this shape; any other payload is refused. -/
def decodeBlockRecord (payload : Bytes) : Except String (WalRecord StagedBlock) :=
  let decoded : Option (WalRecord StagedBlock) := do
    let (sequence, block) ← blockRecordOfFields (← decodeFields (payload.drop 1))
    let (objectId, bytes) ← stagedBlockOfFields (← decodeFields block)
    if h : sequence ≤ u64Max ∧ objectId < 2 ^ 64 ∧ bytes.length < 2 ^ 62 then
      some ⟨sequence, ⟨objectId, bytes, h.2.1, h.2.2⟩, h.1⟩
    else none
  decoded.elim (.error "payload does not hold one staged block") .ok

lemma StagedBlock.fields_fit : ∀ f ∈ block.fields, f.Fits := by
  have hlen : block.bytes.length < 2 ^ 64 := lt_trans block.length_lt (by decide)
  intro f hf
  rw [fields, mem_cons] at hf
  rcases hf with rfl | hf
  · exact ⟨by simp, by simp, block.objectId_lt⟩
  · split at hf
    · simp at hf
    · rw [mem_singleton.mp hf]
      exact ⟨by simp, by simp, hlen⟩

lemma StagedBlock.encodeFields_length {block : StagedBlock} (hne : block.bytes ≠ []) :
    (encodeFields block.fields).length =
      10 + (writeVarint block.bytes.length).length + block.bytes.length := by
  have hkey1 : (writeVarint (1 * 8 + 1)).length = 1 := writeVarint_length_of_lt (by decide)
  have hkey2 : (writeVarint (2 * 8 + 2)).length = 1 := writeVarint_length_of_lt (by decide)
  rw [StagedBlock.fields, if_neg hne]
  simp only [encodeFields, flatMap_cons, flatMap_nil, append_nil, Field.encode, WireValue.encode,
    WireValue.wireType, length_append, leBytes_length, hkey1, hkey2]
  omega

lemma StagedBlock.encode_length : block.bytes.length ≤ (encodeFields block.fields).length ∧
      (encodeFields block.fields).length ≤ block.bytes.length + 20 := by
  have hlen := writeVarint_length_le block.bytes.length
  by_cases hnil : block.bytes = []
  · have hkey1 : (writeVarint (1 * 8 + 1)).length = 1 := writeVarint_length_of_lt (by decide)
    rw [fields, hnil]
    simp [encodeFields, Field.encode, WireValue.encode, WireValue.wireType, hkey1]
  · rw [encodeFields_length hnil]
    omega

lemma blockRecordFields_fit : ∀ f ∈ blockRecordFields record, f.Fits := by
  have hseq : record.sequence < 2 ^ 64 := lt_of_le_of_lt record.sequence_le (by decide)
  have hlen : (encodeFields record.body.fields).length < 2 ^ 64 := by
    have hblk := record.body.encode_length
    have := record.body.length_lt
    omega
  intro f hf
  rw [blockRecordFields, mem_append, mem_singleton] at hf
  rcases hf with hf | rfl
  · split at hf
    · simp at hf
    · rw [mem_singleton.mp hf]
      exact ⟨by simp, by simp, hseq⟩
  · exact ⟨by simp, by simp, hlen⟩

lemma encodeBlockRecord_length_eq : (encodeBlockRecord record).length =
    1 + (if record.sequence = 0 then 0 else 1 + (writeVarint record.sequence).length) +
      (1 + (writeVarint (encodeFields record.body.fields).length).length +
        (encodeFields record.body.fields).length) := by
  have hkey2 : (writeVarint (2 * 8 + 0)).length = 1 := writeVarint_length_of_lt (by decide)
  have hkey6 : (writeVarint (6 * 8 + 2)).length = 1 := writeVarint_length_of_lt (by decide)
  rw [encodeBlockRecord, blockRecordFields]
  split
  · simp only [nil_append, encodeFields, flatMap_cons, flatMap_nil, append_nil,
      Field.encode, WireValue.encode, WireValue.wireType, length_cons, length_append, hkey6]
    omega
  · simp only [cons_append, nil_append, encodeFields, flatMap_cons, flatMap_nil, append_nil,
      Field.encode, WireValue.encode, WireValue.wireType, length_cons, length_append, hkey2, hkey6]
    omega

lemma encodeBlockRecord_length : record.body.bytes.length < (encodeBlockRecord record).length ∧
      (encodeBlockRecord record).length ≤ record.body.bytes.length + 50 := by
  have hblk := record.body.encode_length
  have hlen := writeVarint_length_le (encodeFields record.body.fields).length
  have hseq := writeVarint_length_le record.sequence
  rw [encodeBlockRecord_length_eq]
  split <;> omega

lemma blockRecordOfFields_fields : blockRecordOfFields (blockRecordFields record) =
      some (record.sequence, encodeFields record.body.fields) := by
  rw [blockRecordFields]
  split
  · next hzero => rw [hzero]; rfl
  · rfl

lemma stagedBlockOfFields_fields :
    stagedBlockOfFields block.fields = some (block.objectId, block.bytes) := by
  rw [StagedBlock.fields]
  split
  · next hnil => rw [hnil]; rfl
  · rfl

lemma decodeBlockRecord_encode : decodeBlockRecord (encodeBlockRecord record) = .ok record := by
  have hfields := decodeFields_encodeFields (blockRecordFields_fit record)
  have hblk := decodeFields_encodeFields record.body.fields_fit
  have hok : record.sequence ≤ u64Max ∧ record.body.objectId < 2 ^ 64 ∧
      record.body.bytes.length < 2 ^ 62 :=
    ⟨record.sequence_le, record.body.objectId_lt, record.body.length_lt⟩
  simp only [decodeBlockRecord, encodeBlockRecord, drop_succ_cons, drop_zero, hfields,
    blockRecordOfFields_fields, hblk, stagedBlockOfFields_fields, Option.bind_eq_bind,
    Option.bind_some, dif_pos hok]
  rfl

/-- The codec of these records. No text record is ever written with it. -/
def blockCodec : WalCodec StagedBlock StagedBlock where
  encode := encodeBlockRecord
  decodeProto := decodeBlockRecord
  decodeJson := fun _ => .error "expected value at line 1 column 1"
  sha256DigestHex := fun _ => []
  restored := WalRecord.body
  decodeProto_encode := decodeBlockRecord_encode
  encode_marked := fun _ => ⟨rawPayloadMarker, by decide, rfl⟩
  encode_length_lt := by
    intro record
    have hlen := encodeBlockRecord_length record
    have := record.body.length_lt
    omega

end TemporalStore.Wal
