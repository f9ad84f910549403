import TemporalStore.Lib.Bytes
import TemporalStore.Lib.Result

/-! # The payload forms of an engine log record (`wal_proto.rs`) -/

namespace TemporalStore.EngineWal

open Lib

/-- What the reader of a payload answers where it has no record. -/
inductive Fault where
  | malformed (message : String)
  | panicked
  deriving DecidableEq

def Fault.text : Fault → String
  | .malformed message => message
  | .panicked => ""

def binaryPayloadMarker : Byte := 0xB7

def rawPayloadMarker : Byte := 0xB8

def compressedRawPayloadMarker : Byte := 0xB9

def compressedEscapedPayloadMarker : Byte := 0xBA

def compressionMinBytes : ℕ := 256

/-- The compressor and the inflater of records. The compressor may refuse. -/
structure Zstd where
  compress : Bytes → Option Bytes
  decompress : Bytes → Except String Bytes
  decompress_compress : ∀ {bytes frame : Bytes}, compress bytes = some frame →
    decompress frame = .ok bytes

def escape : Byte := 0x1B

def escapedNewline : Byte := 0x01

def escapedEscape : Byte := 0x02

def newlineByte : Byte := 10

def escapeNewlines : Bytes → Bytes
  | [] => []
  | byte :: bytes =>
    if byte = newlineByte then escape :: escapedNewline :: escapeNewlines bytes
    else if byte = escape then escape :: escapedEscape :: escapeNewlines bytes
    else byte :: escapeNewlines bytes

def unknownEscape (byte : Byte) : String :=
  let digits := String.ofList (Nat.toDigits 16 byte.toNat)
  let digits := if byte.toNat < 16 then "0" ++ digits else digits
  s!"unknown escape 0x{digits} in wal payload"

def unescapeNewlines : Bytes → Except String Bytes
  | [] => .ok []
  | [byte] => if byte = escape then .error "wal payload ends mid-escape" else .ok [byte]
  | byte :: next :: bytes =>
    if byte = escape then
      if next = escapedNewline then do
        let out ← unescapeNewlines bytes
        .ok (newlineByte :: out)
      else if next = escapedEscape then do
        let out ← unescapeNewlines bytes
        .ok (escape :: out)
      else .error (unknownEscape next)
    else do
      let out ← unescapeNewlines (next :: bytes)
      .ok (byte :: out)

lemma unescapeNewlines_cons {byte : Byte} (h : byte ≠ escape) (bytes : Bytes) :
    unescapeNewlines (byte :: bytes) =
      (unescapeNewlines bytes >>= fun out => .ok (byte :: out)) := by
  cases bytes with
  | nil => exact if_neg h
  | cons next bytes => rw [unescapeNewlines, if_neg h]

lemma unescapeNewlines_escapeNewlines (bytes : Bytes) :
    unescapeNewlines (escapeNewlines bytes) = .ok bytes := by
  induction bytes with
  | nil => rfl
  | cons byte bytes ih =>
    rw [escapeNewlines]
    split_ifs with hnl hescape
    · rw [unescapeNewlines, if_pos rfl, if_pos rfl, ih, ok_bind, hnl]
    · rw [unescapeNewlines, if_pos rfl, if_neg (by decide), if_pos rfl, ih, ok_bind, hescape]
    · rw [unescapeNewlines_cons hescape, ih, ok_bind]

/-- The settings of the process: whether records are compressed, and whether a frame states its
length, so that nothing needs escaping. -/
structure Settings where
  compressRecords : Bool
  binaryFrame : Bool
  deriving DecidableEq

variable (zstd : Zstd)

/-- Compression is not used below a floor, nor where it does not pay. -/
def compressPayload (encoded : Bytes) : Option Bytes :=
  if encoded.length < compressionMinBytes then none
  else (zstd.compress encoded).filter (·.length < encoded.length)

/-- What `encode_inner` writes for the bytes of a message. -/
def encodePayload (settings : Settings) (encoded : Bytes) : Bytes :=
  match if settings.compressRecords then compressPayload zstd encoded else none with
  | some compressed =>
    if settings.binaryFrame then compressedRawPayloadMarker :: compressed
    else compressedEscapedPayloadMarker :: escapeNewlines compressed
  | none =>
    if settings.binaryFrame then rawPayloadMarker :: encoded
    else binaryPayloadMarker :: escapeNewlines encoded

def unescapeBody (marker : Byte) (body : Bytes) : Except Fault Bytes :=
  if marker = binaryPayloadMarker ∨ marker = compressedEscapedPayloadMarker then
    (unescapeNewlines body).mapError .malformed
  else .ok body

def inflateBody (marker : Byte) (framed : Bytes) : Except Fault Bytes :=
  if marker = compressedRawPayloadMarker ∨ marker = compressedEscapedPayloadMarker then
    (zstd.decompress framed).mapError .malformed
  else .ok framed

/-- The bytes of the message in a payload. An empty payload has no body to slice. -/
def decodePayload : Bytes → Except Fault Bytes
  | [] => .error .panicked
  | marker :: body => do
    let framed ← unescapeBody marker body
    inflateBody zstd marker framed

lemma unescapeBody_escapeNewlines {marker : Byte}
    (h : marker = binaryPayloadMarker ∨ marker = compressedEscapedPayloadMarker) (bytes : Bytes) :
    unescapeBody marker (escapeNewlines bytes) = .ok bytes := by
  rw [unescapeBody, if_pos h, unescapeNewlines_escapeNewlines]
  rfl

lemma encodePayload_marked (settings : Settings) (encoded : Bytes) :
    ∃ marker ∈ [binaryPayloadMarker, rawPayloadMarker, compressedRawPayloadMarker,
        compressedEscapedPayloadMarker],
      (encodePayload zstd settings encoded).head? = some marker := by
  unfold encodePayload
  split <;> split_ifs <;> exact ⟨_, by decide, rfl⟩

lemma decodePayload_encodePayload (settings : Settings) (encoded : Bytes) :
    decodePayload zstd (encodePayload zstd settings encoded) = .ok encoded := by
  unfold encodePayload
  split
  · rename_i compressed hcomp
    have hinflate : zstd.decompress compressed = .ok encoded := by
      rw [compressPayload] at hcomp
      split_ifs at hcomp
      exact zstd.decompress_compress (Option.filter_eq_some_iff.mp hcomp).1
    split_ifs
    · change inflateBody zstd compressedRawPayloadMarker compressed = _
      rw [inflateBody, hinflate]
      rfl
    · rw [decodePayload, unescapeBody_escapeNewlines (by decide), ok_bind, inflateBody, hinflate]
      rfl
  · split_ifs
    · rfl
    · rw [decodePayload, unescapeBody_escapeNewlines (by decide)]
      rfl

end TemporalStore.EngineWal
