import TemporalStore.Shared.Wire

namespace TemporalStore.Shared.Wire

open Lib LogFraming List LogCodec

variable {κ ι π : Type}

section LengthPrefixed

variable {body : Bytes}

lemma lengthPrefixed_length (body : Bytes) : (lengthPrefixed body).length = 4 + body.length := by
  rw [lengthPrefixed, length_append, beBytes_length]

lemma drop_four_lengthPrefixed : (lengthPrefixed body).drop 4 = body :=
  drop_left' (beBytes_length 4 _)

lemma take_lengthPrefixed (rest : Bytes) :
    (lengthPrefixed body ++ rest).take (4 + body.length) = lengthPrefixed body :=
  take_left' (lengthPrefixed_length body)

lemma beNat_take_lengthPrefixed (rest : Bytes) (h : body.length < 2 ^ 32) :
    beNat ((lengthPrefixed body ++ rest).take 4) = body.length := by
  rw [lengthPrefixed, append_assoc, take_left' (beBytes_length 4 _)]
  apply beNat_beBytes
  omega

lemma isWalBatchContainer_lengthPrefixed (rest : Bytes) (h : body.length < frameLengthCeiling) :
    isWalBatchContainer (lengthPrefixed body ++ rest) = false := by
  rw [frameLengthCeiling] at h
  have hne : UInt8.ofNat (body.length / 256 ^ 3 % 256) ≠ batchContainerMarker := by
    intro heq
    have := congrArg UInt8.toNat heq
    rw [UInt8.toNat_ofNat', show batchContainerMarker.toNat = 255 from rfl] at this
    omega
  rw [lengthPrefixed, beBytes_succ, isWalBatchContainer]
  simpa using hne

end LengthPrefixed

section RoundTrip

variable {codec : LogCodec κ ι π}

lemma verifyCrc32c_self (bytes : Bytes) : verifyCrc32c bytes none (crc32c bytes) = .ok () := by
  simp [verifyCrc32c]

lemma payloadCheck_cases (payload : Bytes) (frameFormat : UInt32) :
    codec.payloadCheck payload frameFormat = ⟨[], [], crc32c payload, frameFormatNoSize⟩ ∨
    codec.payloadCheck payload frameFormat = ⟨[], [], crc32c payload, frameFormatCrc32c⟩ ∨
    (∃ raw, hexEncode raw = codec.sha256Hex payload ∧
      codec.payloadCheck payload frameFormat = ⟨[], raw, 0, frameFormatRawDigest⟩) ∨
    codec.payloadCheck payload frameFormat =
      ⟨codec.sha256Hex payload, [], 0, frameFormatHexDigest⟩ := by
  rw [payloadCheck]
  split_ifs with hnoSize hcrc32c hraw
  · exact .inl rfl
  · exact .inr (.inl rfl)
  · split
    · next raw hsome =>
      -- the raw digest is used only if it spells the digest
      rw [digestTextToBytes] at hsome
      split_ifs at hsome
      have htext : hexEncode raw = codec.sha256Hex payload := by
        simpa using (Option.filter_eq_some_iff.mp hsome).2
      exact .inr (.inr (.inl ⟨raw, htext, rfl⟩))
    · exact .inr (.inr (.inr rfl))
  · exact .inr (.inr (.inr rfl))

variable {frame : WalFrameProto π} {frameFormat : UInt32}

lemma verifyFrame_payloadCheck {check : PayloadCheck}
    (hcheck : codec.payloadCheck frame.commandPayload frameFormat = check)
    (hformat : frame.frameFormat = check.frameFormat) (hsha : frame.commandSha256 = check.sha256)
    (hdigest : frame.commandDigest = check.digest) (hcrc : frame.commandCrc32c = check.crc32c)
    (hsize : frame.commandByteSize = if check.frameFormat = frameFormatNoSize then 0
      else UInt64.ofNat frame.commandPayload.length) : codec.verifyFrame frame = .ok () := by
  have hhex : codec.verifyChecksum frame.commandPayload
      (UInt64.ofNat frame.commandPayload.length) (codec.sha256Hex frame.commandPayload) =
        .ok () := by
    simp [verifyChecksum]
  rw [verifyFrame, hformat, hsha, hdigest, hcrc, hsize, ← hcheck]
  rcases payloadCheck_cases frame.commandPayload frameFormat with h | h | ⟨raw, hraw, h⟩ | h
  · rw [h]
    exact verifyCrc32c_self frame.commandPayload
  · rw [h]
    change verifyCrc32c frame.commandPayload (some (UInt64.ofNat frame.commandPayload.length))
      (crc32c frame.commandPayload) = .ok ()
    simp [verifyCrc32c]
  · rw [h]
    rw [← hraw] at hhex
    exact hhex
  · rw [h]
    exact hhex

variable {entry : WalEntry κ ι}

lemma frameProto_spec (h : codec.frameProto entry frameFormat = .ok frame) :
    codec.commandParts entry = .ok (frame.commandPayload, frame.commandEncoding) ∧
      frame.shardId = entry.shardId ∧ frame.walIndex = entry.walIndex ∧
      frame.stagedBlocks = entry.stagedBlocks ∧ codec.itemsToProto entry = .ok frame.items ∧
      codec.verifyFrame frame = .ok () := by
  obtain ⟨⟨payload, encoding⟩, hparts, h⟩ := bind_eq_ok h
  obtain ⟨items, hitems, h⟩ := bind_eq_ok h
  cases h
  exact ⟨hparts, rfl, rfl, rfl, hitems, verifyFrame_payloadCheck rfl rfl rfl rfl rfl rfl⟩

lemma encodeWalProtoFrame_eq {bytes : Bytes}
    (h : codec.encodeWalProtoFrame entry frameFormat = .ok bytes) :
    ∃ frame, codec.frameProto entry frameFormat = .ok frame ∧
      bytes = lengthPrefixed (codec.frame.encode frame) := by
  obtain ⟨frame, hfr, h⟩ := bind_eq_ok h
  cases h
  exact ⟨frame, hfr, rfl⟩

lemma decodeWalProtoFrameExact_lengthPrefixed (h : codec.frameProto entry frameFormat = .ok frame)
    (hback : codec.ReadsBack entry)
    (hlen : (codec.frame.encode frame).length < frameLengthCeiling) :
    codec.decodeWalProtoFrameExact (lengthPrefixed (codec.frame.encode frame)) = .ok entry := by
  obtain ⟨hparts, hshard, hidx, hblks, hits, hverify⟩ := frameProto_spec h
  have hleng : beNat ((lengthPrefixed (codec.frame.encode frame)).take 4) =
      (codec.frame.encode frame).length := by
    have h := beNat_take_lengthPrefixed [] (hlen.trans (by decide))
    rwa [append_nil] at h
  have hcmd := walCommandFromPayload_commandParts codec hparts hback.carries hits
  rw [decodeWalProtoFrameExact]
  rw [if_neg (by rw [lengthPrefixed_length]; omega), if_neg (by omega),
    if_neg (by rw [lengthPrefixed_length]; omega), drop_four_lengthPrefixed,
    codec.frame.decode_encode, ok_bind, hverify, ok_bind, hcmd, ok_bind, hshard, hidx, hblks,
    walEntryFromParts_itemsToProto codec hits hback]

lemma lengthPrefixed_append (body rest : Bytes) :
    (lengthPrefixed body ++ rest).length = 4 + body.length + rest.length ∧
      lengthPrefixed body ++ rest ≠ [] := by
  have hleng : (lengthPrefixed body ++ rest).length = 4 + body.length + rest.length := by
    rw [length_append, lengthPrefixed_length]
  exact ⟨hleng, ne_nil_of_length_pos (by omega)⟩

lemma readWalRecord_lengthPrefixed {body : Bytes} (rest : Bytes)
    (hlen : body.length < frameLengthCeiling) :
    readWalRecord (lengthPrefixed body ++ rest) = .ok (some (lengthPrefixed body)) := by
  obtain ⟨hleng, hne⟩ := lengthPrefixed_append body rest
  rw [readWalRecord, if_neg hne, isWalBatchContainer_lengthPrefixed rest hlen, if_neg (by simp),
    if_neg (by omega), beNat_take_lengthPrefixed rest (hlen.trans (by decide)), if_neg (by omega),
    take_lengthPrefixed]

lemma decodeMetadataFrame_encode (m : WalOffsetMetadata) (key : ObjectKey) :
    codec.decodeMetadataFrame key (codec.encodeWalOffsetMetadataFrame m key) = .ok m := by
  rw [decodeMetadataFrame, encodeWalOffsetMetadataFrame, drop_four_lengthPrefixed,
    codec.offsetMetadata.decode_encode, ok_bind]
  have hkey : (if m.walBlobKey = key then none else some m.walBlobKey).getD key = m.walBlobKey := by
    split_ifs with h
    · exact h.symm
    · rfl
  rw [WalOffsetMetadata.fromProto, WalOffsetMetadata.toProto, hkey]

lemma readMetadataFrame_encode {m : WalOffsetMetadata} {key : ObjectKey} (rest : Bytes)
    (hkey : m.walBlobKey = key) :
    readMetadataFrame (codec.encodeWalOffsetMetadataFrame m key ++ rest) =
      .ok (some (codec.encodeWalOffsetMetadataFrame m key)) := by
  have hlen : (codec.offsetMetadata.encode (m.toProto key)).length < 2 ^ 32 :=
    codec.offsetMetadata_length _ (if_pos hkey)
  rw [encodeWalOffsetMetadataFrame]
  set body := codec.offsetMetadata.encode (m.toProto key) with hbody
  obtain ⟨hleng, hne⟩ := lengthPrefixed_append body rest
  rw [readMetadataFrame, if_neg hne, if_neg (by omega), beNat_take_lengthPrefixed rest hlen,
    if_neg (by omega), take_lengthPrefixed]

lemma impliedIndex_eq {firstWalIndex walIndex : UInt64} {position : ℕ}
    (h : walIndex.toNat = firstWalIndex.toNat + position) :
    impliedIndex firstWalIndex position = walIndex := by
  have hlt := walIndex.toNat_lt
  have hadd : saturatingAdd firstWalIndex.toNat position = walIndex.toNat := by
    rw [saturatingAdd, u64Max]
    omega
  rw [impliedIndex, hadd, UInt64.ofNat_toNat]

lemma walBatchEntryEncoding_eq {container : WalBatchProto π} {packed : WalBatchEntryProto π}
    {encoding : UInt32} (henc : encoding = 0 ∨ encoding = 1)
    (h : packed.commandEncodingPlusOne = if encoding = container.commandEncoding then 0
      else UInt32.ofNat (min (encoding.toNat + 1) (2 ^ 32 - 1))) :
    walBatchEntryEncoding container packed = encoding := by
  rw [walBatchEntryEncoding, h]
  by_cases hhdr : encoding = container.commandEncoding
  · rw [if_pos hhdr, if_pos rfl, hhdr]
  · rw [if_neg hhdr]
    rcases henc with rfl | rfl <;> rfl

section Container

variable {container : WalBatchProto π}

variable {entry : WalEntry κ ι}

lemma packEntry_spec {position : ℕ} {packed : WalBatchEntryProto π}
    (h : codec.packEntry container.firstWalIndex container.commandEncoding position entry =
      .ok packed) (hback : codec.ReadsBack entry) (hshard : entry.shardId = container.shardId)
    (hidx : entry.walIndex.toNat = container.firstWalIndex.toNat + position) :
    walBatchEntryIndex container position packed = entry.walIndex ∧
      codec.walBatchEntryToRecord container position packed = .ok entry := by
  obtain ⟨⟨payload, encoding⟩, hparts, h⟩ := bind_eq_ok h
  obtain ⟨items, hitems, h⟩ := bind_eq_ok h
  cases h
  have himpl := impliedIndex_eq hidx
  have hat : ∀ p : WalBatchEntryProto π, p.walIndexPlusOne =
      (if entry.walIndex = impliedIndex container.firstWalIndex position then 0
        else UInt64.ofNat (saturatingAdd entry.walIndex.toNat 1)) →
      walBatchEntryIndex container position p = entry.walIndex := by
    intro p hp
    rw [walBatchEntryIndex, hp, if_pos himpl.symm, if_pos rfl, himpl]
  refine ⟨hat _ rfl, ?_⟩
  rw [walBatchEntryToRecord, verifyCrc32c_self, ok_bind,
    walBatchEntryEncoding_eq (commandParts_encoding codec hparts) rfl]
  rw [walCommandFromPayload_commandParts codec hparts hback.carries hitems, ok_bind, hat _ rfl,
    ← hshard, walEntryFromParts_itemsToProto codec hitems hback]

/-- Entries of one shard with consecutive indexes, which can come back as they are. -/
structure InSequence (codec : LogCodec κ ι π) (shardId : UInt64) (start : ℕ)
    (entries : List (WalEntry κ ι)) : Prop where
  readsBack : ∀ e ∈ entries, codec.ReadsBack e
  shard : ∀ e ∈ entries, e.shardId = shardId
  numbered : Numbered (fun e => e.walIndex.toNat) start entries

variable {entries : List (WalEntry κ ι)} {shardId : UInt64} {start : ℕ}

lemma InSequence.tail (h : InSequence codec shardId start (entry :: entries)) :
    InSequence codec shardId (start + 1) entries :=
  ⟨fun e he => h.readsBack e (mem_cons_of_mem entry he),
    fun e he => h.shard e (mem_cons_of_mem entry he), h.numbered.tail.2⟩

lemma InSequence.append {rest : List (WalEntry κ ι)}
    (h : InSequence codec shardId start (entries ++ rest)) :
    InSequence codec shardId start entries ∧
      InSequence codec shardId (start + entries.length) rest := by
  obtain ⟨hback, hback'⟩ := forall_mem_append.mp h.readsBack
  obtain ⟨hshard, hshard'⟩ := forall_mem_append.mp h.shard
  have hbef := h.numbered.take entries.length
  have hafter := h.numbered.drop entries.length
  rw [take_left] at hbef
  rw [drop_left] at hafter
  exact ⟨⟨hback, hshard, hbef⟩, hback', hshard', hafter⟩

variable {packed : List (WalBatchEntryProto π)} {position : ℕ}

section

variable
  (h : (entries.zipIdx position).mapM (fun x =>
    codec.packEntry container.firstWalIndex container.commandEncoding x.2 x.1) = .ok packed)
  (hseq : InSequence codec container.shardId (container.firstWalIndex.toNat + position) entries)
include h hseq

lemma mapM_walBatchEntryToRecord :
    (packed.zipIdx position).mapM (fun x => codec.walBatchEntryToRecord container x.2 x.1) =
      .ok entries := by
  induction entries generalizing position packed with
  | nil =>
    cases h
    rfl
  | cons e es ih =>
    obtain ⟨p, ps, rfl, hp, hps⟩ := mapM_cons_eq_ok h
    have hrec := (packEntry_spec hp (hseq.readsBack e mem_cons_self)
      (hseq.shard e mem_cons_self) hseq.numbered.tail.1).2
    rw [zipIdx_cons, mapM_cons, hrec, ih hps hseq.tail]
    rfl

lemma find_walBatchEntryIndex (hent : entry ∈ entries) :
    ∃ x, (packed.zipIdx position).find? (fun x =>
        walBatchEntryIndex container x.2 x.1 = entry.walIndex) = some x ∧
      codec.walBatchEntryToRecord container x.2 x.1 = .ok entry := by
  induction entries generalizing position packed with
  | nil => simp at hent
  | cons e es ih =>
    obtain ⟨he, hes⟩ := hseq.numbered.tail
    obtain ⟨p, ps, rfl, hp, hps⟩ := mapM_cons_eq_ok h
    obtain ⟨hidx, hrec⟩ := packEntry_spec hp (hseq.readsBack e mem_cons_self)
      (hseq.shard e mem_cons_self) he
    rw [zipIdx_cons]
    rcases mem_cons.mp hent with rfl | hent
    · rw [find?_cons_of_pos (by simpa using hidx)]
      exact ⟨_, rfl, hrec⟩
    · -- the first entry has a smaller index
      have hlt := (hes.key_of_mem hent).1
      have hne : e.walIndex ≠ entry.walIndex := by
        intro heq
        rw [← heq] at hlt
        omega
      rw [find?_cons_of_neg (by simpa [hidx] using hne)]
      exact ih hps hseq.tail hent

end

end Container

lemma encodeWalBatchContainer_eq {first : WalEntry κ ι} {rest : List (WalEntry κ ι)}
    {bytes : Bytes} (h : codec.encodeWalBatchContainer (first :: rest) = .ok (some bytes)) :
    ∃ container : WalBatchProto π, container.batchFormat = batchFormatHoisted ∧
      container.shardId = first.shardId ∧ container.firstWalIndex = first.walIndex ∧
      (first :: rest).zipIdx.mapM (fun x => codec.packEntry container.firstWalIndex
        container.commandEncoding x.2 x.1) = .ok container.entries ∧
      (codec.batch.encode container).length ≤ batchContainerMaxBody ∧
      bytes = batchContainerMarker ::
        (beBytes 3 (codec.batch.encode container).length ++ codec.batch.encode container) := by
  obtain ⟨⟨payload, headerEncoding⟩, -, h⟩ := bind_eq_ok h
  obtain ⟨packed, hpacked, h⟩ := bind_eq_ok h
  rw [Except.ok.injEq] at h
  split_ifs at h with hlen
  rw [Option.some.injEq] at h
  exact ⟨_, rfl, rfl, rfl, hpacked, not_lt.mp hlen, h.symm⟩

section Record

variable {body : Bytes}

lemma walBatchContainerBodyLen_eq (rest : Bytes) (h : body.length ≤ batchContainerMaxBody) :
    walBatchContainerBodyLen (batchContainerMarker :: (beBytes 3 body.length ++ body) ++ rest) =
      .ok body.length := by
  rw [batchContainerMaxBody] at h
  rw [walBatchContainerBodyLen, if_neg (by simp)]
  rw [cons_append, drop_one, tail_cons, append_assoc,
    take_left' (beBytes_length 3 _), beNat_beBytes (by omega)]

lemma readWalRecord_container (rest : Bytes) (h : body.length ≤ batchContainerMaxBody) :
    readWalRecord (batchContainerMarker :: (beBytes 3 body.length ++ body) ++ rest) =
      .ok (some (batchContainerMarker :: (beBytes 3 body.length ++ body))) := by
  have hleng : (batchContainerMarker :: (beBytes 3 body.length ++ body)).length =
      4 + body.length := by
    rw [length_cons, length_append, beBytes_length]
    omega
  have htake : (batchContainerMarker :: (beBytes 3 body.length ++ body) ++ rest).take
      (4 + body.length) = batchContainerMarker :: (beBytes 3 body.length ++ body) :=
    take_left' hleng
  rw [readWalRecord, if_neg (by simp), if_pos (by simp [isWalBatchContainer]),
    walBatchContainerBodyLen_eq rest h, ok_bind, if_neg (by rw [length_append, hleng]; omega),
    htake]

end Record

end RoundTrip

/-- A record of the log object and the entries in it. -/
structure LogRecord (κ ι : Type) where
  raw : Bytes
  entries : List (WalEntry κ ι)

/-- The reader of whole logs and the reader of single entries both find the entries of a record. -/
structure LogRecord.Readable (codec : LogCodec κ ι π) (record : LogRecord κ ι) : Prop where
  pos : 0 < record.raw.length
  read : ∀ rest, readWalRecord (record.raw ++ rest) = .ok (some record.raw)
  decode : codec.decodeWalRecord record.raw = .ok record.entries
  entry : ∀ e ∈ record.entries, codec.decodeWalRecordEntry record.raw e.walIndex = .ok e

section Readable

variable {codec : LogCodec κ ι π}

lemma readable_frame {entry : WalEntry κ ι} {frameFormat : UInt32} {bytes : Bytes}
    (h : codec.encodeWalProtoFrame entry frameFormat = .ok bytes) (hback : codec.ReadsBack entry)
    (hlen : bytes.length < 4 + frameLengthCeiling) : LogRecord.Readable codec ⟨bytes, [entry]⟩ := by
  obtain ⟨frame, hfr, rfl⟩ := encodeWalProtoFrame_eq h
  rw [lengthPrefixed_length] at hlen
  have hbody : (codec.frame.encode frame).length < frameLengthCeiling := by omega
  have hexact := decodeWalProtoFrameExact_lengthPrefixed hfr hback hbody
  have hshape : isWalBatchContainer (lengthPrefixed (codec.frame.encode frame)) = false := by
    have h := isWalBatchContainer_lengthPrefixed [] hbody
    rwa [append_nil] at h
  refine ⟨?_, fun rest => readWalRecord_lengthPrefixed rest hbody, ?_, ?_⟩
  · rw [lengthPrefixed_length]
    omega
  · rw [decodeWalRecord, hshape, hexact]
    rfl
  · intro e he
    rw [mem_singleton] at he
    rw [decodeWalRecordEntry, hshape, if_neg (by simp), hexact, he]

lemma readable_container {entries : List (WalEntry κ ι)} {bytes : Bytes} {shardId : UInt64}
    {start : ℕ} (h : codec.encodeWalBatchContainer entries = .ok (some bytes))
    (hseq : InSequence codec shardId start entries) :
    LogRecord.Readable codec ⟨bytes, entries⟩ := by
  cases entries with
  | nil => cases h
  | cons first rest =>
    obtain ⟨container, hformat, hshardId, hfirst, hpacked, hlen, rfl⟩ :=
      encodeWalBatchContainer_eq h
    have hseq' : InSequence codec container.shardId (container.firstWalIndex.toNat + 0)
        (first :: rest) := by
      rw [hfirst, hseq.numbered.tail.1, hshardId, hseq.shard first mem_cons_self]
      exact hseq
    set body := codec.batch.encode container with hbody
    have hhdr : codec.decodeWalBatchContainerHeader body = .ok container := by
      rw [hbody, decodeWalBatchContainerHeader, codec.batch.decode_encode, ok_bind,
        if_neg (not_not.mpr hformat)]
    have hdrop : (batchContainerMarker :: (beBytes 3 body.length ++ body)).drop 4 = body := by
      exact drop_left' (beBytes_length 3 _)
    refine ⟨by simp, fun rest => readWalRecord_container rest hlen, ?_, ?_⟩
    · rw [decodeWalRecord, hdrop, decodeWalBatchContainerBody, hhdr]
      exact mapM_walBatchEntryToRecord hpacked hseq'
    · intro e he
      obtain ⟨x, hfind, hrec⟩ := find_walBatchEntryIndex hpacked hseq' he
      have hbodyLen : walBatchContainerBodyLen (batchContainerMarker ::
          (beBytes 3 body.length ++ body)) = .ok body.length := by
        have h := walBatchContainerBodyLen_eq [] hlen
        rwa [append_nil] at h
      rw [decodeWalRecordEntry, if_pos (by simp [isWalBatchContainer]),
        decodeWalBatchContainerEntryExact, hbodyLen, ok_bind,
        if_neg (by rw [length_cons, length_append, beBytes_length]; omega), hdrop, hhdr,
        ok_bind, hfind]
      exact hrec

lemma decodeWalProtoBlob_records {records : List (LogRecord κ ι)}
    (h : ∀ r ∈ records, r.Readable codec) :
    codec.decodeWalProtoBlob (records.flatMap LogRecord.raw) =
      .ok (records.flatMap LogRecord.entries) := by
  have hwalk : walk readWalRecord codec.decodeWalRecord
      ((records.flatMap LogRecord.raw).length + 1) 0 (records.flatMap LogRecord.raw) =
      .ok (some ((place LogRecord.raw 0 records).map fun p => (p.1, p.2.entries))) :=
    walk_records (fun r hr => (h r hr).pos) (fun r hr => (h r hr).read)
      (fun r hr => (h r hr).decode) rfl (Nat.lt_succ_self _)
  have hents : ((place LogRecord.raw 0 records).map fun p => (p.1, p.2.entries)).map Prod.snd =
      records.map LogRecord.entries := by
    conv_rhs => rw [← map_snd_place LogRecord.raw 0 records]
    rw [map_map, map_map]
    rfl
  rw [decodeWalProtoBlob, hwalk, ok_bind]
  dsimp only
  rw [hents, ← flatMap_def]

end Readable

end TemporalStore.Shared.Wire
