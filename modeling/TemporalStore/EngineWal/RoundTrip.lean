import TemporalStore.EngineWal.Record
import TemporalStore.Wal.Walk

namespace TemporalStore.EngineWal

open Lib LogCommand BlockEntry List ElementEntry

variable {V M : Type}

variable (item : WalOutcomeItem) (record : WriteAheadLogRecord V M)

/-- The name that the reader puts together. -/
def restoredName : Option String :=
  match numericElementName item.kind item.elementName with
  | .ok (some (stored, entry)) => numericElementNameText (some stored) entry
  | _ => item.elementName

def restoredAddress (impliedLength : Option ℕ) (address : ElementEntry) : ElementEntry :=
  { address with
    length := if address.length = 0 then narrow (impliedLength.getD 0) else address.length
    hasGeneration := address.blockId.isSome }

def restoredItem (impliedLength : Option ℕ) (item : WalOutcomeItem) : WalOutcomeItem :=
  { item with
    elementName := restoredName item
    address := item.address.map (restoredAddress impliedLength) }

def restoredMetadata (stampHasAReader : Bool) (metadata : WriteAheadLogRecordMetadata M) :
    WriteAheadLogRecordMetadata M :=
  { metadata with
    version := Codecs.versionFromProto metadata.version
    timestampMs := if stampHasAReader then metadata.timestampMs else 0 }

def restored : WriteAheadLogRecord V M :=
  { record with
    metadata := record.metadata.map (restoredMetadata record.outcomes.isEmpty)
    outcomes := record.outcomes.map (restoredItem (impliedBlockLength record)) }

namespace Codecs

lemma addressFromProto_addressToProto (address : ElementEntry) (impliedLength : Option ℕ) :
    addressFromProto (addressToProto address impliedLength) impliedLength =
      .ok (restoredAddress impliedLength address) := by
  have hzero : address.length.toNat = 0 ↔ address.length = 0 := by
    rw [← UInt32.toNat_inj]
    rfl
  have hleng : narrow (if (addressToProto address impliedLength).length = 0
      then impliedLength.getD 0 else (addressToProto address impliedLength).length) =
      if address.length = 0 then narrow (impliedLength.getD 0) else address.length := by
    unfold addressToProto
    by_cases himpl : some address.length.toNat = impliedLength
    · simp only [if_pos himpl, if_true]
      rw [← himpl, Option.getD_some, narrow_toNat]
      split_ifs with h
      · exact h.symm ▸ rfl
      · rfl
    · simp only [if_neg himpl, hzero]
      split_ifs
      · rfl
      · exact narrow_toNat _
  have hparts := tryFromWireParts_toNat address
    (if (addressToProto address impliedLength).length = 0 then impliedLength.getD 0
      else (addressToProto address impliedLength).length) address.blockId.isSome
  have hsome : (address.blockId.map UInt16.toNat).isSome = address.blockId.isSome :=
    Option.isSome_map
  have hfrom : fromParts address.blockSlabId.toNat address.offset.toNat
      (if (addressToProto address impliedLength).length = 0 then impliedLength.getD 0
        else (addressToProto address impliedLength).length) (address.blockId.map UInt16.toNat) =
      some (restoredAddress impliedLength address) := by
    rw [fromParts, hsome, hparts, hleng, restoredAddress]
  unfold addressFromProto
  dsimp only [addressToProto] at hfrom ⊢
  rw [hfrom]

lemma objectKey_restored (item : WalOutcomeItem) {written readKey : Option String}
    (h : ∀ key, written = some key → readKey = some key) :
    ((itemObjectKeyToWrite item written).or readKey).getD "" = item.objectKey := by
  rw [itemObjectKeyToWrite]
  split_ifs with hkey
  · rw [Option.none_or, h _ hkey, Option.getD_some]
  · rfl

lemma kind_restored (kind : String) : (((kindCode kind).bind kindFromCode).or
      (if (kindCode kind).isSome then none else some kind)).getD "" = kind := by
  cases hcode : kindCode kind with
  | none => rfl
  | some code => rw [Option.bind_some, kindFromCode_kindCode hcode]; rfl

lemma objectId_restored (item : WalOutcomeItem) (shardId : ℕ) :
    (itemObjectIdToWrite item shardId).getD
      (stableBlockObjectId shardId item.kind item.objectKey) = item.objectId := by
  have hkind : ((kindCode item.kind).bind kindFromCode).getD item.kind = item.kind := by
    cases hcode : kindCode item.kind with
    | none => rfl
    | some code => rw [Option.bind_some, kindFromCode_kindCode hcode, Option.getD_some]
  rw [itemObjectIdToWrite, hkind]
  split_ifs with h
  · exact h.symm
  · rfl

lemma elementName_restored {item : WalOutcomeItem} {numeric : Option (ℕ × Option ℕ)}
    (h : numericElementName item.kind item.elementName = .ok numeric) :
    (numericElementNameText (numeric.map (·.1)) (numeric.bind (·.2))).or
      (if numeric.isSome then none else item.elementName) = restoredName item := by
  rw [restoredName, h]
  cases numeric with
  | none => rfl
  | some number =>
    obtain ⟨stored, entry⟩ := number
    cases entry <;> rfl

lemma itemFromProto_itemToProto {item : WalOutcomeItem} {shardId : ℕ}
    {impliedLength written readKey : Option _} {message : V1.EngineWalItem}
    (hkey : ∀ key, written = some key → readKey = some key)
    (h : itemToProto item shardId impliedLength written = .ok message) :
    itemFromProto message shardId impliedLength readKey =
      .ok (restoredItem impliedLength item) := by
  obtain ⟨numeric, hnum, h⟩ := bind_eq_ok h
  cases h
  have haddr : (item.address.map fun address => addressToProto address impliedLength).mapM
      (fun block => addressFromProto block impliedLength) =
      .ok (item.address.map (restoredAddress impliedLength)) := by
    cases item.address with
    | none => rfl
    | some address =>
      change some <$> addressFromProto _ _ = _
      rw [addressFromProto_addressToProto]
      rfl
  simp only [itemFromProto, haddr, ok_bind, kind_restored, objectKey_restored item hkey,
    objectId_restored, elementName_restored hnum, Option.getD_some]
  rfl

variable (K : Codecs V M)

lemma metadataFromProto_metadataToProto (metadata : WriteAheadLogRecordMetadata M)
    (stampHasAReader : Bool) : K.metadataFromProto (K.metadataToProto metadata stampHasAReader) =
      .ok (restoredMetadata stampHasAReader metadata) := by
  have hversion : versionFromProto (versionToProto metadata.version) =
      versionFromProto metadata.version := by
    unfold versionToProto
    split_ifs with h
    · rw [h]
      rfl
    · rfl
  have hits : K.metadataItemsFromProto (if metadata.items.isEmpty then []
      else [verbatimItem (K.metadataItems.encode metadata.items)]) = .ok metadata.items := by
    cases hempty : metadata.items.isEmpty with
    | true =>
      rw [isEmpty_iff.mp hempty]
      rfl
    | false =>
      change (K.metadataItems.decode (K.metadataItems.encode metadata.items)).mapError _ = _
      rw [K.metadataItems.decode_encode]
      rfl
  simp only [metadataFromProto, metadataToProto, hits, ok_bind, hversion]
  rfl

lemma stagedBlockFromProto_stagedBlockToProto (impliedObjectId : Option ℕ) (block : StagedBlock) :
    stagedBlockFromProto impliedObjectId (stagedBlockToProto impliedObjectId block) = block := by
  have hid : ((if impliedObjectId = some block.objectId then none
      else some block.objectId).or impliedObjectId).getD 0 = block.objectId := by
    split_ifs with h
    · rw [h]
      rfl
    · rfl
  simp only [stagedBlockFromProto, stagedBlockToProto, hid]

lemma commandOf_commandToProto (record : WriteAheadLogRecord V M) {message : V1.EngineWalRecord}
    (h : message.command = record.command.map fun command =>
      ⟨some (commandToProto K.command command)⟩) : K.commandOf message = .ok record.command := by
  rw [commandOf, h]
  cases record.command with
  | none => rfl
  | some command =>
    change some <$> (commandFromProto K.command (commandToProto K.command command)).mapError _ = _
    rw [commandFromProto_commandToProto]
    rfl

lemma strippableCommandKey_eq_some {K : Codecs V M} {record : WriteAheadLogRecord V M}
    {key : String} (h : K.strippableCommandKey record = some key) :
    K.commandObjectKey record.command = some key := by
  unfold strippableCommandKey at h
  split_ifs at h
  exact h

lemma recordFromProto_recordToProto {record : WriteAheadLogRecord V M}
    {message : V1.EngineWalRecord} (h : K.recordToProto record = .ok message) :
    K.recordFromProto message = .ok (restored record) := by
  obtain ⟨items, hits, h⟩ := bind_eq_ok h
  have hlen : items.length = record.outcomes.length := length_of_mapM_eq_ok hits
  have himpl : impliedLengthOf message = impliedBlockLength record := by
    cases h
    simp only [impliedLengthOf, impliedBlockLength, hlen, length_map, head?_map, Option.map_map]
    rfl
  have hread : items.mapM (fun item => itemFromProto item record.shardId
      (impliedBlockLength record) (K.commandObjectKey record.command)) =
      .ok (record.outcomes.map (restoredItem (impliedBlockLength record))) :=
    mapM_of_mapM_eq_ok hits fun item _ message hmsg =>
      itemFromProto_itemToProto (fun _ => strippableCommandKey_eq_some) hmsg
  have hmeta : (record.metadata.map fun metadata =>
      K.metadataToProto metadata record.outcomes.isEmpty).mapM K.metadataFromProto =
      .ok (record.metadata.map (restoredMetadata record.outcomes.isEmpty)) := by
    cases record.metadata with
    | none => rfl
    | some metadata =>
      change some <$> K.metadataFromProto _ = _
      rw [metadataFromProto_metadataToProto]
      rfl
  have hblks : (record.stagedBlocks.map (stagedBlockToProto (impliedStagedObjectId record))).map
      (stagedBlockFromProto (impliedObjectIdOf
        (record.outcomes.map (restoredItem (impliedBlockLength record)))
        (record.stagedBlocks.map (stagedBlockToProto (impliedStagedObjectId record))))) =
      record.stagedBlocks := by
    have hid : impliedObjectIdOf (record.outcomes.map (restoredItem (impliedBlockLength record)))
        (record.stagedBlocks.map (stagedBlockToProto (impliedStagedObjectId record))) =
        impliedStagedObjectId record := by
      simp only [impliedObjectIdOf, impliedStagedObjectId, length_map, head?_map, Option.map_map]
      rfl
    rw [hid, map_map]
    exact map_id'' (stagedBlockFromProto_stagedBlockToProto _) _
  cases h
  simp only [recordFromProto, himpl]
  rw [K.commandOf_commandToProto record rfl]
  simp only [hread, hmeta, hblks, ok_bind]
  rfl

lemma decode_encode {settings : Settings} {record : WriteAheadLogRecord V M} {payload : Bytes}
    (h : K.encode settings record = .ok payload) : K.decode payload = .ok (restored record) := by
  obtain ⟨message, hmsg, h⟩ := bind_eq_ok h
  cases h
  rw [decode, decodePayload_encodePayload, ok_bind, K.message.decode_encode]
  exact K.recordFromProto_recordToProto hmsg

lemma exists_encode_iff (settings : Settings) (record : WriteAheadLogRecord V M) :
    (∃ payload, K.encode settings record = .ok payload) ↔ ∀ item ∈ record.outcomes, ∃ numeric,
        numericElementName item.kind item.elementName = .ok numeric := by
  constructor
  · rintro ⟨payload, h⟩ item hitem
    obtain ⟨message, hmsg, -⟩ := bind_eq_ok h
    obtain ⟨items, hits, -⟩ := bind_eq_ok hmsg
    obtain ⟨written, -, hwrit⟩ := exists_of_mapM_eq_ok hits hitem
    obtain ⟨numeric, hnum, -⟩ := bind_eq_ok hwrit
    exact ⟨numeric, hnum⟩
  · intro h
    have hwrit : ∀ item ∈ record.outcomes, ∃ message, itemToProto item record.shardId
        (impliedBlockLength record) (K.strippableCommandKey record) = .ok message := by
      intro item hitem
      obtain ⟨numeric, hnum⟩ := h item hitem
      rw [itemToProto, hnum]
      exact ⟨_, rfl⟩
    obtain ⟨items, hits⟩ := exists_mapM_eq_ok hwrit
    rw [encode, recordToProto, hits]
    exact ⟨_, rfl⟩

/-- The record can be written with every sequence, in a payload that a vector holds. -/
def Writable (settings : Settings) (record : WriteAheadLogRecord V M) : Prop :=
  ∀ sequence ≤ u64Max, ∃ payload,
    K.encode settings { record with sequence := sequence } = .ok payload ∧ payload.length < 2 ^ 63

/-- These records in the log. A panic of the reader is told as an error without a text. -/
def walCodec (settings : Settings) (json : Bytes → Except String (WriteAheadLogRecord V M))
    (sha256DigestHex : Bytes → Bytes) :
    Wal.WalCodec { record // K.Writable settings record } (WriteAheadLogRecord V M) :=
  let counted (record : WriteAheadLogRecord V M) : Except String (Wal.WalRecord _) :=
    if h : record.sequence ≤ u64Max then .ok ⟨record.sequence, record, h⟩ else .error "no u64"
  let written (record : Wal.WalRecord { record // K.Writable settings record }) :=
    { record.body.1 with sequence := record.sequence }
  have hwritten (record) : ∃ payload, K.encode settings (written record) = .ok payload ∧
      payload.length < 2 ^ 63 := record.body.2 record.sequence record.sequence_le
  { encode := fun record => (K.encode settings (written record)).toOption.getD []
    decodeProto := fun payload => (K.decode payload).mapError Fault.text >>= counted
    decodeJson := fun payload => json payload >>= counted
    sha256DigestHex := sha256DigestHex
    restored := fun record => restored (written record)
    decodeProto_encode := by
      intro record
      obtain ⟨payload, hpayload, -⟩ := hwritten record
      have hle : (restored (written record)).sequence ≤ u64Max := record.sequence_le
      rw [hpayload, Except.toOption, Option.getD_some, K.decode_encode hpayload]
      exact dif_pos hle
    encode_marked := by
      intro record
      obtain ⟨payload, hpayload, -⟩ := hwritten record
      rw [hpayload]
      obtain ⟨message, -, hpayload⟩ := bind_eq_ok hpayload
      cases hpayload
      exact encodePayload_marked _ _ _
    encode_length_lt := by
      intro record
      obtain ⟨payload, hpayload, hlen⟩ := hwritten record
      rw [hpayload]
      exact hlen }

end Codecs

/-- The record without what the writer drops on purpose: the leader's clock where the record states
its outcomes. -/
def documented : WriteAheadLogRecord V M :=
  { record with
    metadata := record.metadata.map fun metadata =>
      { metadata with
        timestampMs := if record.outcomes.isEmpty then metadata.timestampMs else 0 } }

/-- The name is a number in another spelling than the reader's, or has a character across the byte
where the writer splits it. -/
def Misspelled (kind name : String) : Prop :=
  if kind = "context_event" then
    (utf8 name).length = 32 ∧ (isCharBoundary (utf8 name) 16 = false ∨
      ∃ stored entry, parseHex64 ((utf8 name).take 16) = some stored ∧
        parseHex64 ((utf8 name).drop 16) = some entry ∧
        ascii (hexBytes 16 stored ++ hexBytes 16 entry) ≠ name)
  else kind ∈ numberedKinds ∧ ∃ n, parseUsize (utf8 name) = some n ∧ ascii (decimalBytes n) ≠ name

/-- What a record has to be like to come back as it is. -/
structure Faithful (record : WriteAheadLogRecord V M) : Prop where
  version : ∀ metadata, record.metadata = some metadata → metadata.version ≠ 0
  names : ∀ item ∈ record.outcomes, ∀ name, item.elementName = some name →
    ¬Misspelled item.kind name
  lengths : ∀ item ∈ record.outcomes, ∀ address, item.address = some address →
    address.length = 0 → ¬(record.outcomes.length = 1 ∧ record.stagedBlocks.length = 1)
  generations : ∀ item ∈ record.outcomes, ∀ address, item.address = some address →
    address.hasGeneration = address.blockId.isSome

/-- The name comes back if it is written at all and not spelled anew. -/
def NameKept : Prop :=
  (∃ numeric, numericElementName item.kind item.elementName = .ok numeric) ∧
    restoredName item = item.elementName

lemma eventNumbers_kept_iff (name : String) : ((∃ numeric, eventNumbers (utf8 name) = .ok numeric) ∧
      ∀ stored entry, eventNumbers (utf8 name) = .ok (some (stored, entry)) →
        numericElementNameText (some stored) entry = some name) ↔
      ¬Misspelled "context_event" name := by
  simp only [Misspelled, if_true, eventNumbers]
  by_cases hlen : (utf8 name).length = 32
  · cases hbnd : isCharBoundary (utf8 name) 16 with
    | false => simp [hlen]
    | true =>
      simp only [hlen, ne_eq, not_true_eq_false, if_false, Bool.not_true, Bool.false_eq_true,
        Except.ok.injEq, exists_eq', true_and, Bool.true_eq_false, false_or]
      cases hstored : parseHex64 ((utf8 name).take 16) with
      | none => simp
      | some stored =>
        cases hent : parseHex64 ((utf8 name).drop 16) with
        | none => simp
        | some entry => simp [numericElementNameText]
  · simp [hlen]

lemma nameKept_iff :
    NameKept item ↔ ∀ name, item.elementName = some name → ¬Misspelled item.kind name := by
  rw [NameKept, restoredName]
  cases hname : item.elementName with
  | none => simp [numericElementName]
  | some name =>
    simp only [numericElementName, Option.some.injEq, forall_eq']
    by_cases hevent : item.kind = "context_event"
    · rw [if_pos hevent, hevent, ← eventNumbers_kept_iff]
      refine and_congr_right fun hok => ?_
      obtain ⟨numeric, hnum⟩ := hok
      rw [hnum]
      cases numeric with
      | none => simp
      | some number =>
        obtain ⟨stored, entry⟩ := number
        simp
    · rw [if_neg hevent, Misspelled, if_neg hevent]
      by_cases hkind : item.kind ∈ numberedKinds
      · cases hnumber : parseUsize (utf8 name) with
        | none => simp [hkind]
        | some n => simp [hkind, numericElementNameText]
      · simp [hkind]

lemma narrow_ne_zero {n : ℕ} (h : n ≠ 0) : narrow n ≠ 0 := by
  intro hzero
  have htoNat : (narrow n).toNat = 0 := by
    rw [hzero]
    rfl
  rw [narrow, UInt32.toNat_ofNat'] at htoNat
  omega

lemma restoredAddress_eq_iff {implied : Option ℕ} (hpos : ∀ n, implied = some n → n ≠ 0)
    (address : ElementEntry) : restoredAddress implied address = address ↔
      (address.length = 0 → implied = none) ∧ address.hasGeneration = address.blockId.isSome := by
  have hleng : (if address.length = 0 then narrow (implied.getD 0) else address.length) =
      address.length ↔ (address.length = 0 → implied = none) := by
    by_cases hzero : address.length = 0
    · rw [hzero]
      cases implied with
      | none => simp [narrow]
      | some n => simp [narrow_ne_zero (hpos n rfl)]
    · simp [hzero]
  rw [← hleng, eq_comm (a := address.hasGeneration)]
  obtain ⟨blockSlabId, offset, length, blockId, hasGeneration⟩ := address
  simp [restoredAddress]

lemma impliedBlockLength_ne_zero {record : WriteAheadLogRecord V M} {n : ℕ}
    (h : impliedBlockLength record = some n) : n ≠ 0 := by
  unfold impliedBlockLength at h
  split_ifs at h
  obtain ⟨block, -, rfl⟩ := Option.map_eq_some_iff.mp h
  simp [Block.blockRecordHeaderLen]

lemma impliedBlockLength_eq_none_iff : impliedBlockLength record = none ↔
      ¬(record.outcomes.length = 1 ∧ record.stagedBlocks.length = 1) := by
  unfold impliedBlockLength
  split_ifs with h
  · obtain ⟨block, hblk⟩ := length_eq_one_iff.mp h.2
    simp [hblk, h.1]
  · simp [h]

lemma restoredItem_eq_iff (implied : Option ℕ) (item : WalOutcomeItem) :
    restoredItem implied item = item ↔ restoredName item = item.elementName ∧
      ∀ address, item.address = some address → restoredAddress implied address = address := by
  have haddr : item.address.map (restoredAddress implied) = item.address ↔
      ∀ address, item.address = some address → restoredAddress implied address = address := by
    cases item.address <;> simp
  rw [← haddr]
  constructor
  · intro h
    exact ⟨congrArg WalOutcomeItem.elementName h, congrArg WalOutcomeItem.address h⟩
  · rintro ⟨hname, haddr⟩
    rw [restoredItem, hname, haddr]

lemma restored_eq_documented_iff : restored record = documented record ↔
      (∀ metadata, record.metadata = some metadata → metadata.version ≠ 0) ∧
        ∀ item ∈ record.outcomes, restoredItem (impliedBlockLength record) item = item := by
  have hmeta : record.metadata.map (restoredMetadata record.outcomes.isEmpty) =
      (documented record).metadata ↔
        ∀ metadata, record.metadata = some metadata → metadata.version ≠ 0 := by
    rw [documented]
    cases record.metadata with
    | none => simp
    | some metadata =>
      simp only [Option.map_some, Option.some.injEq, restoredMetadata, forall_eq',
        WriteAheadLogRecordMetadata.mk.injEq, and_true, Codecs.versionFromProto]
      split_ifs with hzero
      · simp [hzero, writeAheadLogFormatVersion]
      · simp [hzero]
  have houtc : record.outcomes.map (restoredItem (impliedBlockLength record)) = record.outcomes ↔
        ∀ item ∈ record.outcomes, restoredItem (impliedBlockLength record) item = item := by
    conv_lhs => rw [← map_id record.outcomes, map_map]
    exact map_inj_left
  rw [← hmeta, ← houtc]
  constructor
  · intro h
    exact ⟨congrArg WriteAheadLogRecord.metadata h, congrArg WriteAheadLogRecord.outcomes h⟩
  · rintro ⟨hmeta, houtc⟩
    rw [restored, hmeta, houtc]
    rfl

/-- Decoding the encoding of a record gives the record, without what is dropped on purpose, if and
only if the record is faithful. The form of the payload has no part in it. -/
theorem engine_record_reads_back_iff (K : Codecs V M) (settings : Settings)
    (record : WriteAheadLogRecord V M) : (∃ payload, K.encode settings record = .ok payload ∧
        K.decode payload = .ok (documented record)) ↔ Faithful record := by
  have hread : (∃ payload, K.encode settings record = .ok payload ∧
      K.decode payload = .ok (documented record)) ↔
      (∃ payload, K.encode settings record = .ok payload) ∧
        restored record = documented record := by
    constructor
    · rintro ⟨payload, hencode, hdecode⟩
      rw [K.decode_encode hencode] at hdecode
      exact ⟨⟨payload, hencode⟩, Except.ok.inj hdecode⟩
    · rintro ⟨⟨payload, hencode⟩, hsame⟩
      exact ⟨payload, hencode, hsame ▸ K.decode_encode hencode⟩
  have haddress (address : ElementEntry) :=
    restoredAddress_eq_iff
      (fun _ h => impliedBlockLength_ne_zero (h : impliedBlockLength record = _)) address
  rw [hread, K.exists_encode_iff, restored_eq_documented_iff]
  constructor
  · rintro ⟨hnumeric, hversion, hitems⟩
    have hitem (item) (h : item ∈ record.outcomes) := (restoredItem_eq_iff _ _).mp (hitems item h)
    exact
      { version := hversion
        names := fun item h => (nameKept_iff item).mp ⟨hnumeric item h, (hitem item h).1⟩
        lengths := fun item h address ha hzero => (impliedBlockLength_eq_none_iff record).mp
          (((haddress address).mp ((hitem item h).2 address ha)).1 hzero)
        generations := fun item h address ha =>
          ((haddress address).mp ((hitem item h).2 address ha)).2 }
  · intro h
    have hname (item) (hitem : item ∈ record.outcomes) :=
      (nameKept_iff item).mpr (h.names item hitem)
    refine ⟨fun item hitem => (hname item hitem).1, h.version, fun item hitem => ?_⟩
    refine (restoredItem_eq_iff _ _).mpr ⟨(hname item hitem).2, fun address ha => ?_⟩
    exact (haddress address).mpr ⟨fun hzero => (impliedBlockLength_eq_none_iff record).mpr
      (h.lengths item hitem address ha hzero), h.generations item hitem address ha⟩

deriving instance Encodable for V1.WalBlockAddress, V1.EngineWalItem, V1.WalStagedBlock,
  V1.EngineWalMetadata, V1.EngineWalRecord

/-- Codecs that write numbers in unary, and a compressor that always refuses. -/
def unaryCodecs : Codecs Unit Unit where
  message := unary "not a record"
  command := unary "not a command"
  metadataItems := unary "not a list"
  zstd := ⟨fun _ => none, .ok, nofun⟩
  commandObjectKeys _ := []

/-- A feature whose element is named by a number with leading zeros. -/
def paddedRecord : WriteAheadLogRecord Unit Unit where
  shardId := 1
  sequence := 1
  command := none
  metadata := none
  stagedBlocks := []
  outcomes := [⟨"feature", "key", some "007", 0, 0, none, some [], none, false, false⟩]

/-- The name comes back as the number seven. -/
theorem not_engine_record_reads_back :
    ¬∃ payload, unaryCodecs.encode ⟨true, true⟩ paddedRecord = .ok payload ∧
      unaryCodecs.decode payload = .ok (documented paddedRecord) := by
  rintro ⟨payload, hencode, hdecode⟩
  rw [unaryCodecs.decode_encode hencode] at hdecode
  have hnames : (restored paddedRecord).outcomes.map (·.elementName) =
      (documented paddedRecord).outcomes.map (·.elementName) := by
    rw [Except.ok.inj hdecode]
  revert hnames
  decide +kernel

end TemporalStore.EngineWal
