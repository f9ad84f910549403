import TemporalStore.Shared.Blob

namespace TemporalStore.Shared.Wire

open Lib List ObjectStore LogRecord LogCodec

variable {κ ι π : Type}

inductive Publication (κ ι : Type) where
  | entry (writer : WalWriter) (entry : WalEntry κ ι)
  | batch (writer : WalWriter) (entries : List (WalEntry κ ι))

namespace Publication

def entries : Publication κ ι → List (WalEntry κ ι)
  | .entry _ e => [e]
  | .batch _ es => es

def publish (codec : LogCodec κ ι π) (store : ObjectStore) :
    Publication κ ι → Except WireError ObjectStore
  | .entry writer e => do
    let (_, store) ← codec.publishWalEntry writer store e
    .ok store
  | .batch writer es => do
    let (_, store) ← codec.publishWalEntriesBatch writer store es
    .ok store

/-- The body of every frame that is written stays under the ceiling. -/
def UnderCeiling (codec : LogCodec κ ι π) : Publication κ ι → Prop
  | .entry writer e => ∀ frame, codec.encodeWalProtoFrame e writer.walFrameFormat = .ok frame →
      frame.length < 4 + frameLengthCeiling
  | .batch writer es => codec.batchContainer writer es = .ok none →
      ∀ e ∈ es, ∀ frame, codec.encodeWalProtoFrame e writer.walFrameFormat = .ok frame →
        frame.length < 4 + frameLengthCeiling

end Publication

def publishAll (codec : LogCodec κ ι π) (store : ObjectStore)
    (publications : List (Publication κ ι)) : Except WireError ObjectStore :=
  publications.foldlM (fun store p => p.publish codec store) store

namespace ObjectStore

variable {store : ObjectStore} {key key' : ObjectKey} {bytes : Bytes}

lemma get_put_self : (store.put key bytes).get key = some bytes := by
  simp [get, put]

lemma get_put_of_ne (h : key' ≠ key) : (store.put key bytes).get key' = store.get key' := by
  have hfind : (store.filter fun o => o.1 ≠ key).find? (fun o => o.1 = key') =
      store.find? fun o => o.1 = key' := by
    rw [find?_filter]
    congr 1
    funext o
    by_cases ho : o.1 = key'
    · simp [ho, h]
    · simp [ho]
  rw [get, put, find?_cons_of_neg (by simpa using h.symm), hfind, get]

lemma mem_put {o : ObjectKey × Bytes} (h : o ∈ store.put key bytes) : o.1 = key ∨ o ∈ store := by
  rcases mem_cons.mp h with rfl | h
  · exact .inl rfl
  · exact .inr (mem_filter.mp h).1

end ObjectStore

/-- An entry and the range of the log object that its record takes. -/
structure Place (κ ι : Type) where
  offset : ℕ
  raw : Bytes
  entry : WalEntry κ ι

def Place.shift (n : ℕ) (p : Place κ ι) : Place κ ι := { p with offset := n + p.offset }

/-- The places of the entries of records that are laid end to end. -/
def places : ℕ → List (LogRecord κ ι) → List (Place κ ι)
  | _, [] => []
  | offset, r :: rs => r.entries.map (fun e => ⟨offset, r.raw, e⟩) ++
    places (offset + r.raw.length) rs

section Places

variable {records : List (LogRecord κ ι)} {offset : ℕ}

lemma map_entry_places (offset : ℕ) (records : List (LogRecord κ ι)) :
    (places offset records).map Place.entry = records.flatMap entries := by
  induction records generalizing offset with
  | nil => rfl
  | cons r rs ih =>
    rw [places, map_append, ih, map_map]
    congr 1
    exact map_id r.entries

lemma map_shift_places (n offset : ℕ) (records : List (LogRecord κ ι)) :
    (places offset records).map (Place.shift n) = places (n + offset) records := by
  induction records generalizing offset with
  | nil => rfl
  | cons r rs ih =>
    rw [places, map_append, ih, map_map, places, Nat.add_assoc]
    rfl

lemma places_append (offset : ℕ) (records rs : List (LogRecord κ ι)) :
    places offset (records ++ rs) =
      places offset records ++ places (offset + (records.flatMap raw).length) rs := by
  induction records generalizing offset with
  | nil => rfl
  | cons r records ih =>
    rw [cons_append, places, places, ih, append_assoc, flatMap_cons, length_append, Nat.add_assoc]

lemma of_mem_places {p : Place κ ι} (h : p ∈ places offset records) :
    ∃ before r after, records = before ++ r :: after ∧ p.raw = r.raw ∧ p.entry ∈ r.entries ∧
      p.offset = offset + (before.flatMap raw).length := by
  induction records generalizing offset with
  | nil => simp [places] at h
  | cons r rs ih =>
    rw [places, mem_append] at h
    rcases h with h | h
    · obtain ⟨e, he, rfl⟩ := mem_map.mp h
      exact ⟨[], r, rs, rfl, rfl, he, rfl⟩
    · obtain ⟨before, r', after, rfl, hraw, hent, hoff⟩ := ih h
      refine ⟨r :: before, r', after, rfl, hraw, hent, ?_⟩
      rw [hoff, flatMap_cons, length_append, Nat.add_assoc]

lemma slice_place {p : Place κ ι} (h : p ∈ places 0 records) :
    slice (records.flatMap raw) p.offset p.raw.length = p.raw ∧
      p.offset + p.raw.length ≤ (records.flatMap raw).length := by
  obtain ⟨before, r, after, rfl, hraw, -, hoff⟩ := of_mem_places h
  rw [Nat.zero_add] at hoff
  have hlog : (before ++ r :: after).flatMap raw =
      before.flatMap raw ++ (p.raw ++ after.flatMap raw) := by
    rw [flatMap_append, flatMap_cons, hraw]
  refine ⟨slice_eq_of_append hlog hoff.symm rfl, ?_⟩
  rw [hlog, length_append, length_append]
  omega

end Places

/-- The record of the offset index says where `p` is. -/
structure Locates (shardId : UInt64) (m : WalOffsetMetadata) (p : Place κ ι) : Prop where
  walIndex : m.walIndex = p.entry.walIndex
  key : m.walBlobKey = .walBlob shardId
  start : m.walBlobStartOffset.toNat = p.offset
  stop : m.walBlobEndOffset.toNat = p.offset + p.raw.length
  written : m.walBlobBytesWritten.toNat = p.raw.length

section Payload

variable {codec : LogCodec κ ι π} {writer : WalWriter}

/-- The range of an entry within what its batch appends. -/
def Place.span (p : Place κ ι) : ℕ × ℕ := (p.offset, p.offset + p.raw.length)

variable {entries : List (WalEntry κ ι)} {spans : List (ℕ × ℕ)}

lemma encodeWalFrames_spec {payload whole : Bytes}
    (h : codec.encodeWalFrames writer payload entries = .ok (whole, spans))
    (hback : ∀ e ∈ entries, codec.ReadsBack e) (hceil : ∀ e ∈ entries, ∀ frame,
      codec.encodeWalProtoFrame e writer.walFrameFormat = .ok frame →
        frame.length < 4 + frameLengthCeiling) :
    ∃ records : List (LogRecord κ ι), (∀ r ∈ records, r.Readable codec) ∧
      records.flatMap LogRecord.entries = entries ∧ whole = payload ++ records.flatMap raw ∧
      spans = (places payload.length records).map Place.span := by
  induction entries generalizing payload whole spans with
  | nil =>
    cases h
    exact ⟨[], by simp, rfl, by simp, rfl⟩
  | cons e es ih =>
    obtain ⟨frame, hfr, h⟩ := bind_eq_ok h
    obtain ⟨⟨whole', spans'⟩, hrest, h⟩ := bind_eq_ok h
    cases h
    obtain ⟨records, hread, hents, hwhole, hspans⟩ := ih hrest
      (fun e' he' => hback e' (mem_cons_of_mem e he'))
      (fun e' he' => hceil e' (mem_cons_of_mem e he'))
    refine ⟨⟨frame, [e]⟩ :: records, ?_, ?_, ?_, ?_⟩
    · exact forall_mem_cons.mpr ⟨readable_frame hfr (hback e mem_cons_self)
        (hceil e mem_cons_self frame hfr), hread⟩
    · rw [flatMap_cons, hents]
      rfl
    · rw [hwhole, flatMap_cons, append_assoc]
    · rw [hspans, length_append]
      rfl

/-- What a batch appends is a sequence of records that carry its entries, at the ranges that the
batch records for them. -/
lemma walPayload_spec {payload : Bytes} {shardId : UInt64} {start : ℕ}
    (h : codec.walPayload writer entries = .ok (payload, spans))
    (hseq : InSequence codec shardId start entries)
    (hceil : (Publication.batch writer entries).UnderCeiling codec) :
    ∃ records : List (LogRecord κ ι), (∀ r ∈ records, r.Readable codec) ∧
      records.flatMap LogRecord.entries = entries ∧ payload = records.flatMap LogRecord.raw ∧
      spans = (places 0 records).map Place.span := by
  obtain ⟨container, hcont, h⟩ := bind_eq_ok h
  cases container with
  | none =>
    exact encodeWalFrames_spec h hseq.readsBack (hceil hcont)
  | some bytes =>
    cases h
    have henc : codec.encodeWalBatchContainer entries = .ok (some payload) := by
      rw [batchContainer] at hcont
      split_ifs at hcont
      · exact hcont
      · cases hcont
    refine ⟨[⟨payload, entries⟩], ?_, ?_, ?_, ?_⟩
    · exact forall_mem_singleton.mpr (readable_container henc hseq)
    · rw [flatMap_singleton]
    · rw [flatMap_singleton]
    · rw [places, places, append_nil]
      simp [Place.span, Function.comp_def]

lemma u64SaturatingAdd_toNat {a : UInt64} {base n : ℕ} (ha : a = UInt64.ofNat base)
    (h : base + n < 2 ^ 64) : (u64SaturatingAdd a (UInt64.ofNat n)).toNat = base + n := by
  rw [u64SaturatingAdd, ha, UInt64.toNat_ofNat', UInt64.toNat_ofNat', UInt64.toNat_ofNat',
    saturatingAdd, u64Max]
  omega

/-- The places that a batch records are the places of its entries behind what stood in the log. -/
lemma locates_batchOffsetMetadata (shardId : UInt64) {receipt : AppendBlobReceipt} {base : ℕ}
    (hstart : receipt.startOffset = UInt64.ofNat base) {ps : List (Place κ ι)}
    {commands : List WalCommandMetadata} (hlen : commands.length = ps.length)
    (hsize : ∀ p ∈ ps, base + (p.offset + p.raw.length) < 2 ^ 64) : List.Forall₂ (Locates shardId)
      (((ps.map Place.entry).zip ((ps.map Place.span).zip commands)).map fun x =>
        batchOffsetMetadata (.walBlob shardId) receipt x.1 x.2.1 x.2.2)
      (ps.map (Place.shift base)) := by
  induction ps generalizing commands with
  | nil => exact .nil
  | cons p ps ih =>
    cases commands with
    | nil => simp at hlen
    | cons c commands =>
      have hp := hsize p mem_cons_self
      have hfrom : (u64SaturatingAdd receipt.startOffset (UInt64.ofNat p.offset)).toNat =
          base + p.offset := u64SaturatingAdd_toNat hstart (by omega)
      have hto : (u64SaturatingAdd receipt.startOffset
          (UInt64.ofNat (p.offset + p.raw.length))).toNat = base + (p.offset + p.raw.length) :=
        u64SaturatingAdd_toNat hstart hp
      refine .cons ⟨rfl, rfl, hfrom, ?_, ?_⟩ (ih (by simpa using hlen) fun q hq =>
        hsize q (mem_cons_of_mem p hq))
      · rw [Place.shift, Nat.add_assoc]
        exact hto
      · change (u64SaturatingSub
          (u64SaturatingAdd receipt.startOffset (UInt64.ofNat (p.offset + p.raw.length)))
          (u64SaturatingAdd receipt.startOffset (UInt64.ofNat p.offset))).toNat = p.raw.length
        rw [u64SaturatingSub, UInt64.toNat_ofNat']
        omega

end Payload

/-- The log object is the records laid end to end, and the offset index says of each entry where it
is. -/
structure Published (codec : LogCodec κ ι π) (shardId : UInt64) (store : ObjectStore)
    (records : List (LogRecord κ ι)) (index : List WalOffsetMetadata) : Prop where
  log : (store.get (.walBlob shardId)).getD [] = records.flatMap raw
  offsets : (store.get (.walOffsetIndex shardId)).getD [] =
    index.flatMap fun m => codec.encodeWalOffsetMetadataFrame m (.walBlob shardId)
  readable : ∀ r ∈ records, r.Readable codec
  located : List.Forall₂ (Locates shardId) index (places 0 records)
  keyless : ∀ o ∈ store, ∀ i, o.1 ≠ .walEntry shardId i

/-- A store that holds nothing of the shard's log. -/
structure Fresh (shardId : UInt64) (store : ObjectStore) : Prop where
  log : store.get (.walBlob shardId) = none
  offsets : store.get (.walOffsetIndex shardId) = none
  keyless : ∀ o ∈ store, ∀ i, o.1 ≠ .walEntry shardId i

section Published

variable {codec : LogCodec κ ι π} {shardId : UInt64} {store store' : ObjectStore}
  {records : List (LogRecord κ ι)} {index : List WalOffsetMetadata}

lemma Fresh.published (h : Fresh shardId store) : Published codec shardId store [] [] where
  log := by rw [h.log]; rfl
  offsets := by rw [h.offsets]; rfl
  readable := by simp
  located := List.Forall₂.nil
  keyless := h.keyless

def appendBoth (codec : LogCodec κ ι π) (shardId : UInt64) (store : ObjectStore) (payload : Bytes)
    (index : List WalOffsetMetadata) : ObjectStore :=
  ((store.appendBlob (.walBlob shardId) payload).2.appendBlob (.walOffsetIndex shardId)
    (index.flatMap fun m => codec.encodeWalOffsetMetadataFrame m (.walBlob shardId))).2

/-- The shard's log and its offset index go on, and nothing of the older layout is added. -/
structure Appended (codec : LogCodec κ ι π) (shardId : UInt64) (store store' : ObjectStore)
    (payload : Bytes) (rest : List WalOffsetMetadata) : Prop where
  log : (store'.get (.walBlob shardId)).getD [] =
    (store.get (.walBlob shardId)).getD [] ++ payload
  offsets : (store'.get (.walOffsetIndex shardId)).getD [] =
    (store.get (.walOffsetIndex shardId)).getD [] ++
      rest.flatMap fun m => codec.encodeWalOffsetMetadataFrame m (.walBlob shardId)
  keyless : (∀ o ∈ store, ∀ i, o.1 ≠ .walEntry shardId i) →
    ∀ o ∈ store', ∀ i, o.1 ≠ .walEntry shardId i

lemma appended_appendBoth (payload : Bytes) (rest : List WalOffsetMetadata) :
    Appended codec shardId store (appendBoth codec shardId store payload rest) payload rest where
  log := by
    rw [appendBoth, appendBlob, get_put_of_ne (by simp), appendBlob, get_put_self]
    rfl
  offsets := by
    rw [appendBoth, appendBlob, get_put_self, appendBlob, get_put_of_ne (by simp)]
    rfl
  keyless h o ho i := by
    rcases mem_put ho with hkey | ho
    · rw [hkey]
      simp
    · rcases mem_put ho with hkey | ho
      · rw [hkey]
        simp
      · exact h o ho i

lemma Published.append (h : Published codec shardId store records index)
    {rs : List (LogRecord κ ι)} {rest : List WalOffsetMetadata}
    (happ : Appended codec shardId store store' (rs.flatMap raw) rest)
    (hread : ∀ r ∈ rs, r.Readable codec) (hlocated : List.Forall₂ (Locates shardId) rest
      (places (records.flatMap raw).length rs)) :
    Published codec shardId store' (records ++ rs) (index ++ rest) where
  log := by rw [happ.log, h.log, flatMap_append]
  offsets := by rw [happ.offsets, h.offsets, flatMap_append]
  readable := forall_mem_append.mpr ⟨h.readable, hread⟩
  located := by
    rw [places_append, Nat.zero_add]
    exact rel_append h.located hlocated
  keyless := happ.keyless h.keyless

variable {receipt : AppendBlobReceipt}

lemma publishWalEntry_spec {writer : WalWriter} {e : WalEntry κ ι}
    (h : codec.publishWalEntry writer store e = .ok (receipt, store')) :
    ∃ frame m, codec.encodeWalProtoFrame e writer.walFrameFormat = .ok frame ∧
      store' = appendBoth codec e.shardId store frame [m] ∧ m.walIndex = e.walIndex ∧
      m.walBlobKey = .walBlob e.shardId ∧
      m.walBlobStartOffset = UInt64.ofNat ((store.get (.walBlob e.shardId)).getD []).length ∧
      m.walBlobEndOffset = u64SaturatingAdd m.walBlobStartOffset (UInt64.ofNat frame.length) ∧
      m.walBlobBytesWritten = UInt64.ofNat frame.length := by
  obtain ⟨command, -, h⟩ := bind_eq_ok h
  obtain ⟨frame, hfr, h⟩ := bind_eq_ok h
  cases h
  refine ⟨frame, entryOffsetMetadata (.walBlob e.shardId)
    (store.appendBlob (.walBlob e.shardId) frame).1 e command, hfr, ?_, rfl, rfl, rfl, rfl, rfl⟩
  rw [appendBoth, flatMap_singleton]
  rfl

variable {es : List (WalEntry κ ι)} {reports : List WriteReport}

lemma publishWalEntriesBatch_spec {writer : WalWriter} (hne : es ≠ [])
    (hshard : ∀ e ∈ es, e.shardId = shardId)
    (h : codec.publishWalEntriesBatch writer store es = .ok (reports, store')) :
    ∃ commands payload spans, commands.length = es.length ∧
      codec.walPayload writer es = .ok (payload, spans) ∧
      store' = appendBoth codec shardId store payload ((es.zip (spans.zip commands)).map fun x =>
        batchOffsetMetadata (.walBlob shardId)
          (store.appendBlob (.walBlob shardId) payload).1 x.1 x.2.1 x.2.2) := by
  cases es with
  | nil => exact absurd rfl hne
  | cons first rest =>
    have hfirst := hshard first mem_cons_self
    rw [publishWalEntriesBatch, if_neg (not_not.mpr fun e he => by
      rw [hshard e he, hfirst])] at h
    obtain ⟨commands, hcmds, h⟩ := bind_eq_ok h
    obtain ⟨⟨payload, spans⟩, hpay, h⟩ := bind_eq_ok h
    cases h
    refine ⟨commands, payload, spans, length_of_mapM_eq_ok hcmds, hpay, ?_⟩
    rw [← hfirst]
    rfl

lemma exists_appended {p : Publication κ ι} {start : ℕ} (h : p.publish codec store = .ok store')
    (hseq : InSequence codec shardId start p.entries) (hceil : p.UnderCeiling codec) :
    ∃ rs rest, rs.flatMap entries = p.entries ∧ (∀ r ∈ rs, r.Readable codec) ∧
      Appended codec shardId store store' (rs.flatMap raw) rest ∧
      ∀ base, ((store.get (.walBlob shardId)).getD []).length = base →
        base + (rs.flatMap raw).length < 2 ^ 64 →
        List.Forall₂ (Locates shardId) rest (places base rs) := by
  cases p with
  | entry writer e =>
    obtain ⟨⟨receipt, s⟩, hpubd, h⟩ := bind_eq_ok h
    cases h
    obtain ⟨frame, m, hfr, rfl, hidx, hkey, hstart, hstop, hwrit⟩ := publishWalEntry_spec hpubd
    obtain rfl : e.shardId = shardId := hseq.shard e mem_cons_self
    refine ⟨[⟨frame, [e]⟩], [m], rfl, ?_, ?_, ?_⟩
    · exact forall_mem_singleton.mpr
        (readable_frame hfr (hseq.readsBack e mem_cons_self) (hceil frame hfr))
    · rw [flatMap_singleton]
      exact appended_appendBoth frame [m]
    · intro base hbase hsize
      rw [flatMap_singleton] at hsize
      rw [hbase] at hstart
      have hstop' : m.walBlobEndOffset.toNat = base + frame.length := by
        rw [hstop]
        exact u64SaturatingAdd_toNat hstart hsize
      refine .cons ⟨hidx, hkey, ?_, hstop', ?_⟩ .nil
      · rw [hstart, UInt64.toNat_ofNat']
        dsimp only at hsize ⊢
        omega
      · rw [hwrit, UInt64.toNat_ofNat']
        dsimp only at hsize ⊢
        omega
  | batch writer es =>
    obtain ⟨⟨reports, s⟩, hpubd, h⟩ := bind_eq_ok h
    cases h
    by_cases hne : es = []
    · subst hne
      cases hpubd
      exact ⟨[], [], rfl, by simp, ⟨by simp, by simp, id⟩, fun _ _ _ => .nil⟩
    · obtain ⟨commands, payload, spans, hlen, hpay, rfl⟩ :=
        publishWalEntriesBatch_spec hne hseq.shard hpubd
      obtain ⟨rs, hread, hents, rfl, rfl⟩ := walPayload_spec hpay hseq hceil
      refine ⟨rs, _, hents, hread, appended_appendBoth _ _, fun base hbase hsize => ?_⟩
      have hstart : (store.appendBlob (.walBlob shardId) (rs.flatMap raw)).1.startOffset =
          UInt64.ofNat base := by
        rw [appendBlob, hbase]
      have hcount : commands.length = (places 0 rs).length := by
        rw [hlen, ← hents, ← map_entry_places 0 rs, length_map]
      have hfits : ∀ p ∈ places 0 rs, base + (p.offset + p.raw.length) < 2 ^ 64 := by
        intro p hp
        have := (slice_place hp).2
        omega
      have hloc := locates_batchOffsetMetadata shardId hstart hcount hfits
      rwa [map_shift_places, map_entry_places, hents] at hloc

lemma published_publishAll {publications : List (Publication κ ι)} {first : ℕ}
    (hfresh : Fresh shardId store) (hpubd : publishAll codec store publications = .ok store')
    (hseq : InSequence codec shardId first (publications.flatMap Publication.entries))
    (hceil : ∀ p ∈ publications, p.UnderCeiling codec)
    (hsize : ((store'.get (.walBlob shardId)).getD []).length < 2 ^ 64) :
    ∃ records index, records.flatMap entries = publications.flatMap Publication.entries ∧
      Published codec shardId store' records index := by
  induction publications using reverseRecOn generalizing store' with
  | nil =>
    cases hpubd
    exact ⟨[], [], rfl, hfresh.published⟩
  | append_singleton publications p ih =>
    rw [publishAll, foldlM_append] at hpubd
    obtain ⟨middle, hmiddle, hpubd⟩ := bind_eq_ok hpubd
    obtain ⟨s, hlast, hpubd⟩ := bind_eq_ok hpubd
    cases hpubd
    rw [flatMap_append, flatMap_singleton] at hseq
    obtain ⟨hbef, hlastSeq⟩ := hseq.append
    obtain ⟨rs, rest, hlastEntries, hread, happ, hlocated⟩ := exists_appended hlast hlastSeq
      (hceil p (mem_append_right _ mem_cons_self))
    rw [happ.log, length_append] at hsize
    obtain ⟨records, index, hents, hpub⟩ := ih hmiddle hbef
      (fun q hq => hceil q (mem_append_left _ hq)) (by omega)
    have hbase := congrArg length hpub.log
    refine ⟨records ++ rs, index ++ rest, ?_,
      hpub.append happ hread (hlocated _ hbase (hbase ▸ hsize))⟩
    rw [flatMap_append, flatMap_append, flatMap_singleton, hents, hlastEntries]

end Published

end TemporalStore.Shared.Wire
