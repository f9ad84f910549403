import TemporalStore.Block.Entry
import TemporalStore.Lib.Result
import TemporalStore.LogFraming

/-! # Block records (`block_store/block_store_record.rs`) -/

namespace TemporalStore.Block

open Lib LogFraming BlockEntry

inductive BlockStoreError where
  | corruptBlockEnvelope (blockSlabId offset : ℕ) (reason : String)
  | checksumMismatch (blockSlabId offset length : ℕ) (expected actual : Bytes)
  | addressOutOfRange (blockSlabId offset : ℕ) (blockId : Option ℕ)
  | io
  deriving DecidableEq

def corruptBlockEnvelope (address : ElementEntry) (reason : String) : BlockStoreError :=
  .corruptBlockEnvelope address.blockSlabId.toNat address.offset.toNat reason

/-- The decompressor of the `zstd` crate. -/
structure Zstd where
  decompress : Bytes → ℕ → Option Bytes

inductive BlockRecordCompression where
  | none
  | zstd
  deriving DecidableEq

def blockRecordMagic : Bytes := [84, 66]

def blockRecordHeaderLen : ℕ := 12

/-- `BLOCK_RECORD_CODEC_SHIFT`: the length has the low thirty bits. -/
def blockRecordCodecShift : ℕ := 30

def blockRecordBytes (checksum sized blockId : ℕ) (stored : Bytes) : Bytes :=
  blockRecordMagic ++ (leBytes 4 checksum ++ (leBytes 4 sized ++ (leBytes 2 blockId ++ stored)))

structure BlockRecordHeader where
  storedLen : ℕ
  checksum : ℕ
  blockId : ℕ
  compression : BlockRecordCompression
  deriving DecidableEq

def parseBlockRecordHeader (record : Bytes) (address : ElementEntry) :
    Except BlockStoreError BlockRecordHeader :=
  if !blockRecordMagic.isPrefixOf record then
    .error (corruptBlockEnvelope address "not a block record")
  else if record.length < blockRecordHeaderLen then
    .error (corruptBlockEnvelope address "short header")
  else
    let checksum := leNat (slice record 2 4)
    let sized := leNat (slice record 6 4)
    let storedLen := sized % 2 ^ blockRecordCodecShift
    let blockId := leNat (slice record 10 2)
    match sized / 2 ^ blockRecordCodecShift with
    | 0 => .ok ⟨storedLen, checksum, blockId, .none⟩
    | 1 =>
      -- the decompressed length stands behind the header
      if record.length < blockRecordHeaderLen + 4 then
        .error (corruptBlockEnvelope address "compressed block has no decompressed size")
      else .ok ⟨storedLen, checksum, blockId, .zstd⟩
    | codec => .error (corruptBlockEnvelope address
        ("unsupported compression codec " ++ toString codec))

def decodeBlockRecordPayload (zstd : Zstd) (stored : Bytes) (header : BlockRecordHeader)
    (address : ElementEntry) : Except BlockStoreError Bytes :=
  match header.compression with
  | .none => .ok stored
  | .zstd =>
    if stored.length < 4 then
      .error (corruptBlockEnvelope address "compressed block has no decompressed size")
    else
      let logicalLen := leNat (stored.take 4)
      match zstd.decompress (stored.drop 4) logicalLen with
      | none => .error (corruptBlockEnvelope address "zstd decompression failed")
      | some payload =>
        if payload.length ≠ logicalLen then
          .error (corruptBlockEnvelope address ("decompressed length " ++ toString payload.length ++
            " does not match the size the block states, " ++ toString logicalLen))
        else .ok payload

def verifyBlockRecordChecksum (payload : Bytes) (expected : ℕ) (address : ElementEntry) :
    Except BlockStoreError Unit :=
  if expected = (crc32c payload).toNat then .ok ()
  else .error (.checksumMismatch address.blockSlabId.toNat address.offset.toNat address.length.toNat
    (hexBytes 8 expected) (crcDigestHex payload))

/-- Whether bytes are taken for a record at all. -/
def isBlockRecord (record : Bytes) : Bool :=
  blockRecordHeaderLen ≤ record.length && blockRecordMagic.isPrefixOf record

def decodeBlockRecord (zstd : Zstd) (record : Bytes) (address : ElementEntry) :
    Except BlockStoreError Bytes :=
  if !isBlockRecord record then .ok record
  else do
    let header ← parseBlockRecordHeader record address
    match address.blockId with
    | some blockId =>
      if blockId.toNat ≠ header.blockId then
        .error (corruptBlockEnvelope address ("page id mismatch: address " ++
          toString blockId.toNat ++ ", record " ++ toString header.blockId))
    | none => pure ()
    if record.length ≠ blockRecordHeaderLen + header.storedLen then
      .error (corruptBlockEnvelope address "payload length mismatch")
    let payload ← decodeBlockRecordPayload zstd (record.drop blockRecordHeaderLen) header address
    verifyBlockRecordChecksum payload header.checksum address
    return payload

end TemporalStore.Block
