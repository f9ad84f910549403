import TemporalStore.Lib.Protobuf

/-! # The block grid and block footers (`wal.rs`, `storage_descriptor.rs`) -/

namespace TemporalStore.Wal

open Lib Lib.Protobuf List

def walBlockBytes : ℕ := 128 * 1024

def walBlockFooterBytes : ℕ := 128

def walBlockFooterMagic : ℕ := 0xB10CF007E12A5EED

def writeAheadLogFormatVersion : ℕ := 1

variable (now index blockEnd lastRecordOffset lastRecordSequence : ℕ)

/-- Where the footer of block `index` lies, relative to the end of the base header. -/
def blockFooterAt : ℕ := index * walBlockBytes + (walBlockBytes - walBlockFooterBytes)

def blockDataEnd : ℕ := blockFooterAt index

def blockOf (relativeOffset : ℕ) : ℕ := relativeOffset / walBlockBytes

-- These are not proved by `rfl`: rewriting with them must not leave the kernel a comparison of sums
-- with large literals.
lemma blockFooterAt_eq : blockFooterAt index = index * 131072 + 130944 := by
  simp [blockFooterAt, walBlockBytes, walBlockFooterBytes]

lemma blockDataEnd_eq : blockDataEnd index = index * 131072 + 130944 := by
  rw [blockDataEnd, blockFooterAt_eq]

lemma walBlockBytes_eq : walBlockBytes = 131072 := by simp [walBlockBytes]

lemma blockOf_eq (r : ℕ) : blockOf r = r / 131072 := by rw [blockOf, walBlockBytes_eq]

structure BlockFooter where
  magic : ℕ
  version : ℕ
  timestampMs : ℕ
  blockCrc : ℕ
  blockNumber : ℕ
  blockEnd : ℕ
  lastRecordOffset : ℕ
  lastRecordLeftSize : ℕ
  lastRecordSequence : ℕ
  clientToken : Bytes
  truncatedOffset : ℕ
  deriving DecidableEq

namespace BlockFooter

def default : BlockFooter := ⟨0, 0, 0, 0, 0, 0, 0, 0, 0, [], 0⟩

/-- A field that holds its default is left out of the message. -/
def unlessDefault (isDefault : Prop) [Decidable isDefault] (number : ℕ) (value : WireValue) :
    List Field :=
  if isDefault then [] else [⟨number, value⟩]

def fields (f : BlockFooter) : List Field :=
  unlessDefault (f.magic = 0) 1 (.fixed64 f.magic) ++
  (unlessDefault (f.version = 0) 2 (.varint f.version) ++
  (unlessDefault (f.timestampMs = 0) 3 (.varint f.timestampMs) ++
  (unlessDefault (f.blockCrc = 0) 4 (.fixed32 f.blockCrc) ++
  (unlessDefault (f.blockNumber = 0) 5 (.varint f.blockNumber) ++
  (unlessDefault (f.blockEnd = 0) 6 (.varint f.blockEnd) ++
  (unlessDefault (f.lastRecordOffset = 0) 7 (.varint f.lastRecordOffset) ++
  (unlessDefault (f.lastRecordLeftSize = 0) 8 (.varint f.lastRecordLeftSize) ++
  (unlessDefault (f.lastRecordSequence = 0) 9 (.varint f.lastRecordSequence) ++
  (unlessDefault (f.clientToken = []) 10 (.bytes f.clientToken) ++
  unlessDefault (f.truncatedOffset = 0) 12 (.varint f.truncatedOffset))))))))))

def encode (f : BlockFooter) : Bytes := encodeFields f.fields

/-- Merge one field into the message. A known field with another wire type is an error, an unknown
field is skipped. -/
def mergeField (f : BlockFooter) (field : Field) : Option BlockFooter :=
  match field.number, field.value with
  | 1, .fixed64 n => some { f with magic := n }
  | 2, .varint n => some { f with version := n % 2 ^ 32 }
  | 3, .varint n => some { f with timestampMs := n }
  | 4, .fixed32 n => some { f with blockCrc := n }
  | 5, .varint n => some { f with blockNumber := n }
  | 6, .varint n => some { f with blockEnd := n % 2 ^ 32 }
  | 7, .varint n => some { f with lastRecordOffset := n }
  | 8, .varint n => some { f with lastRecordLeftSize := n % 2 ^ 32 }
  | 9, .varint n => some { f with lastRecordSequence := n }
  | 10, .bytes b => some { f with clientToken := b }
  | 12, .varint n => some { f with truncatedOffset := n }
  | 1, _ | 2, _ | 3, _ | 4, _ | 5, _ | 6, _ | 7, _ | 8, _ | 9, _ | 10, _ | 12, _ => none
  | _, _ => some f

def decode (bytes : Bytes) : Option BlockFooter := do
  let fs ← decodeFields bytes
  fs.foldlM mergeField default

/-- The values the message's field types hold. -/
structure Fits (f : BlockFooter) : Prop where
  magic : f.magic < 2 ^ 64
  version : f.version < 2 ^ 32
  timestampMs : f.timestampMs < 2 ^ 64
  blockCrc : f.blockCrc < 2 ^ 32
  blockNumber : f.blockNumber < 2 ^ 64
  blockEnd : f.blockEnd < 2 ^ 32
  lastRecordOffset : f.lastRecordOffset < 2 ^ 64
  lastRecordLeftSize : f.lastRecordLeftSize < 2 ^ 32
  lastRecordSequence : f.lastRecordSequence < 2 ^ 64
  clientToken : f.clientToken.length < 2 ^ 64
  truncatedOffset : f.truncatedOffset < 2 ^ 64

variable {isDefault : Prop} {number : ℕ} {value : WireValue}

lemma mem_unlessDefault [Decidable isDefault] {field : Field}
    (h : field ∈ unlessDefault isDefault number value) : field = ⟨number, value⟩ := by
  rw [unlessDefault] at h
  split at h
  · simp at h
  · simpa using h

variable {f : BlockFooter}

lemma fields_fit (h : f.Fits) : ∀ field ∈ f.fields, field.Fits := by
  intro field hfield
  simp only [fields, mem_append] at hfield
  have h32 {n : ℕ} (hn : n < 2 ^ 32) : n < 2 ^ 64 := lt_trans hn (by decide)
  rcases hfield with hf | hf | hf | hf | hf | hf | hf | hf | hf | hf | hf <;>
    rw [mem_unlessDefault hf] <;> refine ⟨by simp, by simp, ?_⟩
  · exact h.magic
  · exact h32 h.version
  · exact h.timestampMs
  · exact h.blockCrc
  · exact h.blockNumber
  · exact h32 h.blockEnd
  · exact h.lastRecordOffset
  · exact h32 h.lastRecordLeftSize
  · exact h.lastRecordSequence
  · exact h.clientToken
  · exact h.truncatedOffset

lemma foldlM_unlessDefault [Decidable isDefault] {g : BlockFooter} (rest : List Field)
    (hmerge : mergeField f ⟨number, value⟩ = some g) (hdefault : isDefault → f = g) :
    (unlessDefault isDefault number value ++ rest).foldlM mergeField f =
      rest.foldlM mergeField g := by
  rw [unlessDefault]
  split
  · next hd => rw [hdefault hd, nil_append]
  · simp [hmerge]

lemma foldlM_fields (h : f.Fits) : f.fields.foldlM mergeField default = some f := by
  obtain ⟨magic, version, timestampMs, blockCrc, blockNumber, blockEnd, lastRecordOffset,
    lastRecordLeftSize, lastRecordSequence, clientToken, truncatedOffset⟩ := f
  have hv : version % 2 ^ 32 = version := Nat.mod_eq_of_lt h.version
  have he : blockEnd % 2 ^ 32 = blockEnd := Nat.mod_eq_of_lt h.blockEnd
  have hl : lastRecordLeftSize % 2 ^ 32 = lastRecordLeftSize :=
    Nat.mod_eq_of_lt h.lastRecordLeftSize
  rw [fields, ← append_nil (unlessDefault (_ = 0) 12 _), default]
  -- the fields stand in the order of their numbers, and each is merged or left out at its default
  iterate 11 rw [foldlM_unlessDefault _ rfl (by rintro rfl; rfl)]
  simp only [hv, he, hl, foldlM_nil, pure]

lemma decode_encode (h : f.Fits) : decode (encode f) = some f := by
  simp [decode, encode, decodeFields_encodeFields (fields_fit h), foldlM_fields h]

lemma encodeFields_unlessDefault_length_le [Decidable isDefault] (hnumber : number < 15)
    (hvalue : ∀ bs, value ≠ .bytes bs) :
    (encodeFields (unlessDefault isDefault number value)).length ≤ 11 := by
  have hw := value.wireType_lt
  have hkey := writeVarint_length_of_lt (show number * 8 + value.wireType < 128 by omega)
  have hv := value.encode_length_le 0 fun bs hbs => absurd hbs (hvalue bs)
  rw [unlessDefault]
  split
  · simp [encodeFields]
  · simp only [encodeFields, flatMap_cons, flatMap_nil, append_nil, Field.encode, length_append]
    omega

lemma encode_length_le (h : f.clientToken = []) : f.encode.length ≤ 110 := by
  have htoken : unlessDefault (f.clientToken = []) 10 (.bytes f.clientToken) = [] := if_pos h
  simp only [encode, fields, htoken, nil_append, encodeFields_append, length_append]
  calc _ ≤ 11 + (11 + (11 + (11 + (11 + (11 + (11 + (11 + (11 + 11)))))))) := by
        gcongr <;> exact encodeFields_unlessDefault_length_le (by decide) (by simp)
    _ = 110 := rfl

lemma encode_length_pos (h : f.magic ≠ 0) : 0 < f.encode.length := by
  have hmagic : unlessDefault (f.magic = 0) 1 (.fixed64 f.magic) = [⟨1, .fixed64 f.magic⟩] :=
    if_neg h
  have hpos := length_pos_iff.mpr (Field.encode_ne_nil ⟨1, .fixed64 f.magic⟩)
  simp only [encode, fields, hmagic, encodeFields_append, length_append]
  simp only [encodeFields, flatMap_cons, flatMap_nil, append_nil]
  omega

end BlockFooter

/-- The footer the writer puts behind a block. The block's checksum is never computed. -/
def writtenFooter : BlockFooter where
  magic := walBlockFooterMagic
  version := writeAheadLogFormatVersion
  timestampMs := now % 2 ^ 64
  blockCrc := 0
  blockNumber := index % 2 ^ 64
  blockEnd := blockEnd % 2 ^ 32
  lastRecordOffset := lastRecordOffset % 2 ^ 64
  lastRecordLeftSize := 0
  lastRecordSequence := lastRecordSequence % 2 ^ 64
  clientToken := []
  truncatedOffset := 0

/-- The footer's message in its slot: a two-byte length, the message, zeros to the end. -/
def encodeBlockFooter : Bytes :=
  let message :=
    (writtenFooter now index blockEnd lastRecordOffset lastRecordSequence).encode
  leBytes 2 message.length ++ (message ++ zeros (walBlockFooterBytes - 2 - message.length))

/-- The footer in a slot, or `none` if the slot is empty or holds something else. -/
def decodeBlockFooter (slot : Bytes) : Option BlockFooter :=
  if slot.length < 2 ∨ slot.all (· == 0) then none
  else
    let declared := leNat (slot.take 2)
    if declared = 0 ∨ slot.length < 2 + declared then none
    else do
      let footer ← BlockFooter.decode (slice slot 2 declared)
      if footer.magic ≠ walBlockFooterMagic then none else some footer

lemma decodeBlockFooter_zeros (n : ℕ) : decodeBlockFooter (zeros n) = none := by
  rw [decodeBlockFooter, if_pos]
  right
  rw [all_eq_true]
  intro b hb
  simp [mem_zeros hb]

lemma decodeBlockFooter_message {f : BlockFooter} (hfits : f.Fits)
    (hmagic : f.magic = walBlockFooterMagic) (hlen : f.encode.length ≤ 110) (pad : Bytes) :
    decodeBlockFooter (leBytes 2 f.encode.length ++ (f.encode ++ pad)) = some f := by
  have hpos : 0 < f.encode.length := BlockFooter.encode_length_pos (by rw [hmagic]; decide)
  have hdecl : leNat (leBytes 2 f.encode.length) = f.encode.length :=
    leNat_leBytes (by norm_num; omega)
  have hnonzero : ¬(leBytes 2 f.encode.length ++ (f.encode ++ pad)).all (· == 0) = true := by
    intro hall
    have hfirst := all_eq_true.mp hall (UInt8.ofNat (f.encode.length % 256)) (by simp [leBytes])
    have hzero : UInt8.ofNat (f.encode.length % 256) = 0 := by simpa using hfirst
    have := congrArg UInt8.toNat hzero
    simp at this
    omega
  have htake : (leBytes 2 f.encode.length ++ (f.encode ++ pad)).take 2 =
      leBytes 2 f.encode.length := by
    rw [take_append_of_le_length (by simp), take_of_length_le (by simp)]
  have hslice : slice (leBytes 2 f.encode.length ++ (f.encode ++ pad)) 2 f.encode.length =
      f.encode := by
    simpa using slice_at_length (leBytes 2 f.encode.length) f.encode pad
  have hlong : ¬(f.encode.length = 0 ∨
      (leBytes 2 f.encode.length ++ (f.encode ++ pad)).length < 2 + f.encode.length) := by
    simp only [length_append, leBytes_length]
    omega
  have hfilled : ¬((leBytes 2 f.encode.length ++ (f.encode ++ pad)).length < 2 ∨
      (leBytes 2 f.encode.length ++ (f.encode ++ pad)).all (· == 0) = true) := by
    rintro (hshort | hall)
    · omega
    · exact hnonzero hall
  rw [decodeBlockFooter, if_neg hfilled]
  simp only [htake, hdecl, if_neg hlong, hslice, BlockFooter.decode_encode hfits]
  simp [hmagic]

/-- A footer slot as the writer fills it. -/
structure FooterSlot where
  bytes : Bytes
  footer : BlockFooter
  length_eq : bytes.length = walBlockFooterBytes
  decode_eq : decodeBlockFooter bytes = some footer
  head_ne_zero : bytes.head? ≠ some 0

lemma writtenFooter_fits :
    (writtenFooter now index blockEnd lastRecordOffset lastRecordSequence).Fits where
  magic := by simp [writtenFooter, walBlockFooterMagic]
  version := by simp [writtenFooter, writeAheadLogFormatVersion]
  timestampMs := Nat.mod_lt _ (by decide)
  blockCrc := by simp [writtenFooter]
  blockNumber := Nat.mod_lt _ (by decide)
  blockEnd := Nat.mod_lt _ (by decide)
  lastRecordOffset := Nat.mod_lt _ (by decide)
  lastRecordLeftSize := by simp [writtenFooter]
  lastRecordSequence := Nat.mod_lt _ (by decide)
  clientToken := by simp [writtenFooter]
  truncatedOffset := by simp [writtenFooter]

/-- The slot `encodeBlockFooter` fills, with what it decodes to. -/
def writtenSlot : FooterSlot where
  bytes := encodeBlockFooter now index blockEnd lastRecordOffset lastRecordSequence
  footer := writtenFooter now index blockEnd lastRecordOffset lastRecordSequence
  length_eq := by
    have hlen := BlockFooter.encode_length_le
      (show (writtenFooter now index blockEnd lastRecordOffset lastRecordSequence).clientToken = []
        from rfl)
    simp only [encodeBlockFooter, length_append, leBytes_length, zeros_length, walBlockFooterBytes]
    omega
  decode_eq := decodeBlockFooter_message (writtenFooter_fits ..) rfl
    (BlockFooter.encode_length_le rfl) _
  head_ne_zero := by
    have hlen := BlockFooter.encode_length_le
      (show (writtenFooter now index blockEnd lastRecordOffset lastRecordSequence).clientToken = []
        from rfl)
    have hpos := BlockFooter.encode_length_pos
      (show (writtenFooter now index blockEnd lastRecordOffset lastRecordSequence).magic ≠ 0
        by simp [writtenFooter, walBlockFooterMagic])
    simp only [encodeBlockFooter, leBytes, cons_append, head?_cons, ne_eq, Option.some.injEq]
    intro hzero
    have := congrArg UInt8.toNat hzero
    rw [UInt8.toNat_ofNat'] at this
    simp at this
    omega

end TemporalStore.Wal
