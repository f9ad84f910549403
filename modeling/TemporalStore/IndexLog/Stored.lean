import TemporalStore.IndexLog.Files
import TemporalStore.Lib.Lists
import TemporalStore.Lib.Thin

namespace TemporalStore.IndexLog

open Lib BlockEntry LogFraming LogCodecs List

/-- What the readers of deltas find in a payload. -/
inductive Body (J : Type) where
  | whole
  | unreadable (error : IndexLogError)
  | delta (record : IndexDeltaRecord J)

section Stored

variable {J : Type} (K : LogCodecs J)

def LogCodecs.Reads (payload : Bytes) (head : IndexRecordHead) : Body J → Prop
  | .whole => indexPayloadShape payload = some indexLogShapeWhole ∧ head.appliedWalSequence = none
  | .unreadable error => indexPayloadShape payload ≠ some indexLogShapeWhole ∧
      K.decodeDelta payload = .error error ∧ head.appliedWalSequence = none
  | .delta record => indexPayloadShape payload ≠ some indexLogShapeWhole ∧
      K.decodeDelta payload = .ok record ∧ record.sequence = head.sequence ∧
        record.appliedWalSequence = head.appliedWalSequence

/-- A payload that was appended. -/
structure Stored where
  payload : Bytes
  head : IndexRecordHead
  body : Body J
  length_lt : payload.length < 2 ^ 63
  not_blank : isBlank payload = false
  decodeHead_eq : K.decodeHead payload = .ok head
  reads : K.Reads payload head body

variable {K}

variable (stored : Stored K) (config : WriterConfig)

def Stored.sequence : ℕ := stored.head.sequence

lemma Stored.length_lt_u64 : stored.payload.length < 2 ^ 64 :=
  stored.length_lt.trans (Nat.pow_lt_pow_right (by decide) (by decide))

def Stored.frame : ℕ × Bytes :=
  ((encodeFrame stored.payload).length, stored.payload)

/-- A base at this anchor holds what a fold takes of the record. -/
def Stored.ReflectedBy (anchor : ℕ) : Prop :=
  match stored.body with
  | .whole => True
  | .unreadable _ => False
  | .delta record =>
    match record.appliedWalSequence with
    | some applied => applied ≤ anchor
    | none => deltaRecordCarriesContentOf record = false

lemma Stored.ReflectedBy.mono {stored : Stored K} {anchor anchor' : ℕ}
    (h : stored.ReflectedBy anchor) (hle : anchor ≤ anchor') : stored.ReflectedBy anchor' := by
  rw [Stored.ReflectedBy] at h ⊢
  cases hbody : stored.body with
  | whole => trivial
  | unreadable e =>
    rw [hbody] at h
    exact h
  | delta record =>
    rw [hbody] at h
    dsimp only at h ⊢
    cases happl : record.appliedWalSequence with
    | none =>
      rw [happl] at h
      exact h
    | some applied =>
      rw [happl] at h
      exact h.trans hle

variable (K)

section

variable (packed : Bytes) {shape : Byte}
    (hshape : shape = indexLogShapeWhole ∨ shape = indexLogShapeDelta ∨
      shape = indexLogShapeAnchor)
include hshape

/-- The container of a compressed whole index is a blank, and then comes the magic of `zstd`. -/
lemma isBlank_encodeIndexPayload : isBlank (K.encodeIndexPayload config packed shape) = false := by
  rcases K.encodeIndexPayload_cases config packed shape with h | ⟨squeezed, hsqueeze, h⟩
  · rw [h]
    rcases hshape with rfl | rfl | rfl <;> rfl
  · obtain ⟨rest, rfl⟩ : ∃ rest, squeezed = 0x28 :: rest :=
      head?_eq_some_iff.mp (K.squeeze_head packed squeezed hsqueeze)
    rw [h, isBlank, all_cons, all_cons]
    have hmagic : isAsciiWhitespace 0x28 = false := rfl
    rw [hmagic, Bool.false_and, Bool.and_false]

lemma indexPayloadShape_encode :
    indexPayloadShape (K.encodeIndexPayload config packed shape) = some shape := by
  rcases K.encodeIndexPayload_cases config packed shape with h | ⟨squeezed, -, h⟩
  · rw [h]
    rcases hshape with rfl | rfl | rfl <;> rfl
  · rw [h]
    rcases hshape with rfl | rfl | rfl <;> rfl

end

lemma isBlank_encodeDelta (record : IndexDeltaRecord J) :
    isBlank (K.encodeDelta config record) = false := by
  rw [encodeDelta]
  split_ifs
  · rfl
  · exact isBlank_encodeIndexPayload K config _ (.inr (.inl rfl))

lemma indexPayloadShape_encodeDelta (record : IndexDeltaRecord J) :
    indexPayloadShape (K.encodeDelta config record) = some indexLogShapeDelta := by
  rw [encodeDelta]
  split_ifs
  · rfl
  · exact indexPayloadShape_encode K config _ (.inr (.inl rfl))

lemma exists_stored {config : WriterConfig} {shardId sequence : ℕ} {entry : Entry J}
    {payload : Bytes} (h : K.entryPayload config shardId sequence entry = .ok payload) :
    ∃ stored : Stored K, stored.payload = payload ∧ stored.sequence = sequence := by
  obtain ⟨written, hwrit, h⟩ := bind_eq_ok h
  split_ifs at h with hlong
  cases h
  have hlen : payload.length < 2 ^ 63 := Nat.lt_of_not_le hlong
  cases entry with
  | json indexBytes =>
    obtain ⟨index, -, hwrit⟩ := bind_eq_ok hwrit
    cases hwrit
    refine ⟨⟨_, ⟨shardId, sequence, none⟩, .whole, hlen,
      isBlank_encodeIndexPayload K config _ (.inl rfl), ?_,
      indexPayloadShape_encode K config _ (.inl rfl), rfl⟩, rfl, rfl⟩
    rw [decodeHead, K.decodeIndexPayload_encode _ config _ (.inl rfl), K.head_whole]
    rfl
  | indexBytes indexBytes =>
    cases hwrit
    obtain ⟨message, hmsg⟩ := K.delta_anchor
      ⟨shardId, sequence, K.sha256 indexBytes, indexBytes.length⟩
    refine ⟨⟨_, ⟨shardId, sequence, none⟩, .unreadable (.encoding message), hlen,
      isBlank_encodeIndexPayload K config _ (.inr (.inr rfl)), ?_, ?_, ?_, rfl⟩, rfl, rfl⟩
    · rw [decodeHead, K.decodeIndexPayload_encode _ config _ (.inr (.inr rfl)), K.head_anchor]
      rfl
    · rw [indexPayloadShape_encode K config _ (.inr (.inr rfl))]
      decide
    · rw [decodeDelta, K.decodeIndexPayload_encode _ config _ (.inr (.inr rfl)), hmsg]
      rfl
  | delta items keyStates appliedWalSequence metaItem upsert =>
    cases hwrit
    refine ⟨⟨_, ⟨shardId, sequence, appliedWalSequence⟩, .delta _, hlen,
      isBlank_encodeDelta K config _, K.decodeHead_encodeDelta config _, fun hwhole => ?_,
      K.decodeDelta_encodeDelta config _, rfl, rfl⟩, rfl, rfl⟩
    exact absurd ((indexPayloadShape_encodeDelta K config _).symm.trans hwhole) (by decide)

end Stored

section Files

variable {J : Type} {K : LogCodecs J}

def encoded (records : List (Stored K)) : Bytes :=
  records.flatMap fun stored => encodeFrame stored.payload

section

variable (records : List (Stored K))

lemma framesFrom_encoded {torn : Bytes}
    (htorn : readFrame K.sha256DigestHex torn = .ok none) {fuel : ℕ}
    (hfuel : (encoded records).length < fuel) :
    K.framesFrom fuel (encoded records ++ torn) = (records.map Stored.frame, .ok ()) := by
  obtain ⟨fuel, rfl⟩ := Nat.exists_eq_add_of_lt hfuel
  clear hfuel
  induction records generalizing fuel with
  | nil =>
    rw [framesFrom, encoded, flatMap_nil, nil_append, htorn]
    rfl
  | cons stored records ih =>
    have hpos := encodeFrame_length_pos stored.payload
    obtain ⟨more, hmore⟩ : ∃ more, (encoded (stored :: records)).length + fuel =
        (encoded records).length + more + 1 := by
      refine ⟨(encodeFrame stored.payload).length - 1 + fuel, ?_⟩
      rw [encoded, flatMap_cons, length_append, ← encoded]
      omega
    rw [hmore, framesFrom, encoded, flatMap_cons, ← encoded, append_assoc,
      readFrame_encodeFrame _ _ stored.length_lt_u64]
    dsimp only
    rw [drop_left, ih more]
    rfl

lemma frames_encoded {torn : Bytes} (htorn : readFrame K.sha256DigestHex torn = .ok none) :
    K.frames (encoded records ++ torn) = (records.map Stored.frame, .ok ()) := by
  apply framesFrom_encoded records htorn
  rw [length_append]
  omega

lemma frames_whole : K.frames (encoded records) = (records.map Stored.frame, .ok ()) := by
  have h : K.frames (encoded records ++ []) = _ := frames_encoded records rfl
  rwa [append_nil] at h

lemma sum_frames : ((records.map Stored.frame).map Prod.fst).sum = (encoded records).length := by
  rw [encoded, length_flatMap, map_map]
  rfl

lemma flatMap_payloads : (records.map Stored.payload).flatMap encodeFrame = encoded records := by
  rw [flatMap_map]
  rfl

end

/-- The name of a piece tells the truth about its records. -/
structure Named (span : IndexSegmentSpan) (records : List (Stored K)) : Prop where
  start : records.head?.map Stored.sequence = some span.start
  below : ∀ stored ∈ records, stored.sequence < span.stop
  last : ∃ stored ∈ records, stored.sequence + 1 = span.stop
  reflected : span.maxAppliedWal ≠ indexSegmentUnreflected →
    ∀ stored ∈ records, stored.ReflectedBy span.maxAppliedWal

lemma Named.start_mem {span : IndexSegmentSpan} {records : List (Stored K)}
    (h : Named span records) : ∃ stored ∈ records, stored.sequence = span.start := by
  obtain ⟨stored, hhead, hstart⟩ := Option.map_eq_some_iff.mp h.start
  exact ⟨stored, mem_of_mem_head? hhead, hstart⟩

variable (K) in
structure Piece where
  span : IndexSegmentSpan
  records : List (Stored K)
  named : Named span records

def Piece.file (piece : Piece K) : SealedPiece := ⟨piece.span, encoded piece.records⟩

variable (K) in
/-- The piece being written: records, and maybe the start of one. -/
structure Tail where
  records : List (Stored K)
  torn : Bytes
  torn_end : readFrame K.sha256DigestHex torn = .ok none

def Tail.bytes (tail : Tail K) : Bytes := encoded tail.records ++ tail.torn

lemma readFrame_nil (K : LogCodecs J) : readFrame K.sha256DigestHex [] = .ok none := rfl

def Tail.trimmed (tail : Tail K) : Tail K := ⟨tail.records, [], readFrame_nil K⟩

lemma Tail.trimmed_bytes (tail : Tail K) : tail.trimmed.bytes = encoded tail.records :=
  append_nil _

def recordsOf (pieces : List (Piece K)) (active : Option (Tail K)) : List (Stored K) :=
  pieces.flatMap Piece.records ++ active.elim [] Tail.records

variable (K) in
/-- The log of a shard. Its sequences rise, up to the last one at most where it is known. -/
structure Log where
  pieces : List (Piece K)
  active : Option (Tail K)
  lastSequence : Option ℕ
  ordered : (recordsOf pieces active).Pairwise fun a b => a.sequence < b.sequence
  bounds : ∀ stored ∈ recordsOf pieces active, 0 < stored.sequence ∧ stored.sequence < u64Max
  known : ∀ last, lastSequence = some last →
    (∀ stored ∈ recordsOf pieces active, stored.sequence ≤ last) ∧
      ∀ tail, active = some tail → tail.torn = []

namespace Log

variable (log : Log K)

def records : List (Stored K) := recordsOf log.pieces log.active

def state : LogState :=
  ⟨log.pieces.map Piece.file, log.active.map Tail.bytes, log.lastSequence⟩

variable (K) in
def empty : Log K := ⟨[], none, none, List.Pairwise.nil, by simp [recordsOf], by simp⟩

/-- The highest sequence in the files. -/
def top : ℕ := (log.records.map Stored.sequence).foldl max 0

lemma top_le_iff {n : ℕ} : log.top ≤ n ↔ ∀ stored ∈ log.records, stored.sequence ≤ n := by
  rw [top, foldl_max_le_iff, forall_mem_map]
  exact and_iff_right (Nat.zero_le n)

def current : ℕ := log.lastSequence.getD log.top

lemma current_of_known {log : Log K} {last : ℕ} (h : log.lastSequence = some last) :
    log.current = last := by
  rw [current, h, Option.getD_some]

lemma le_current {stored : Stored K} (h : stored ∈ log.records) :
    stored.sequence ≤ log.current := by
  rw [current]
  cases hlast : log.lastSequence with
  | none => exact log.top_le_iff.mp le_rfl stored h
  | some last => exact (log.known last hlast).1 stored h

/-- The log with other files, and records left out. -/
def thin (pieces : List (Piece K)) (active : Option (Tail K)) (lastSequence : Option ℕ)
    (hsub : (recordsOf pieces active).Sublist log.records)
    (hlast : ∀ last, lastSequence = some last →
      log.current ≤ last ∧ ∀ tail, active = some tail → tail.torn = []) : Log K where
  pieces := pieces
  active := active
  lastSequence := lastSequence
  ordered := log.ordered.sublist hsub
  bounds stored hstored := log.bounds stored (hsub.subset hstored)
  known last h :=
    ⟨fun _ hstored => (log.le_current (hsub.subset hstored)).trans (hlast last h).1,
      (hlast last h).2⟩

lemma segments_state : log.state.segments = log.pieces.map Piece.file := by
  refine sortByKey_eq_iff.mpr (pairwise_map.mpr ?_)
  have hpieces := (pairwise_flatMap.mp (pairwise_append.mp log.ordered).1).2
  refine hpieces.imp fun {p q} h => ?_
  obtain ⟨a, ha, hastart⟩ := p.named.start_mem
  obtain ⟨b, hb, hbstart⟩ := q.named.start_mem
  have hlt := h a ha b hb
  rw [hastart, hbstart] at hlt
  exact hlt.le

end Log

end Files

end TemporalStore.IndexLog
