import TemporalStore.Shared.Writer

namespace TemporalStore.Shared

open Lib List Series

variable {κ : Type}

namespace SharedLog

variable (log : SharedLog κ)

/-- The offset index names `i`. -/
def Indexed (i : ℕ) : Prop := ∃ m ∈ log.offsets, m.1 = i

/-- The blob has a record of index `i`. -/
def Framed (i : ℕ) : Prop := ∃ e ∈ log.blob.flatten, e.walIndex = i

/-- There is an object of index `i`. -/
def Stored (i : ℕ) : Prop := ∃ o ∈ log.objects, o.1 = i

/-- Where replay looks for an index in each layout. -/
def Landed (mode : WalAppendMode) (i : ℕ) : Prop :=
  match mode with
  | .protobufAppendBlob => log.Indexed i
  | .jsonPerKey => log.Stored i

/-- The objects of the other layout do not exist. -/
def Plain (mode : WalAppendMode) : Prop :=
  match mode with
  | .protobufAppendBlob => log.objects = []
  | .jsonPerKey => log.blob = []

/-- All records are whole and of entries in `G`, and the offset index is right. -/
structure Genuine (G : WalEntry κ → Prop) (log : SharedLog κ) : Prop where
  objects : ∀ o ∈ log.objects, ∃ e, G e ∧ o = (e.walIndex, some e)
  blob : ∀ e ∈ log.blob.flatten, G e
  offsets : ∀ m ∈ log.offsets, ∃ record, log.blob[m.2]? = some record ∧
    ∃ e ∈ record, e.walIndex = m.1
  blobWhole : log.blobTorn = false
  offsetsWhole : log.offsetsTorn = false

variable {G G' : WalEntry κ → Prop} {log}

lemma genuine_empty : Genuine G (empty : SharedLog κ) where
  objects := by simp [empty]
  blob := by simp [empty]
  offsets := by simp [empty]
  blobWhole := rfl
  offsetsWhole := rfl

lemma Genuine.mono (h : Genuine G log) (hG : ∀ e, G e → G' e) : Genuine G' log where
  objects o ho := by
    obtain ⟨e, he, heq⟩ := h.objects o ho
    exact ⟨e, hG e he, heq⟩
  blob e he := hG e (h.blob e he)
  __ := h

lemma Genuine.framed_of_indexed (h : Genuine G log) {i : ℕ} (hi : log.Indexed i) :
    log.Framed i := by
  obtain ⟨m, hm, rfl⟩ := hi
  obtain ⟨record, hrec, e, he, hidx⟩ := h.offsets m hm
  exact ⟨e, mem_flatten.mpr ⟨record, mem_of_getElem? hrec, he⟩, hidx⟩

/-- When indexes tell the entries of `G` apart, the offset index reads back the right one. -/
lemma Genuine.read {shardId : ℕ} (h : Genuine G log)
    (hunique : ∀ e e', G e → G e' → e.walIndex = e'.walIndex → e = e')
    (hshard : ∀ e, G e → e.shardId = shardId) {m : ℕ × ℕ} (hm : m ∈ log.offsets) :
    ∃ e, G e ∧ e.walIndex = m.1 ∧ readWalEntryWithOffsetMetadata log shardId m = .ok e := by
  obtain ⟨record, hrec, e, he, hidx⟩ := h.offsets m hm
  have hG : ∀ x ∈ record, G x := fun x hx =>
    h.blob x (mem_flatten.mpr ⟨record, mem_of_getElem? hrec, hx⟩)
  refine ⟨e, hG e he, hidx, ?_⟩
  have hfind : (record.find? fun x => x.walIndex = m.1) = some e := by
    cases hfound : record.find? fun x => x.walIndex = m.1 with
    | none => exact absurd (find?_eq_none.mp hfound e he) (by simpa using hidx)
    | some e' =>
      have hidx' : e'.walIndex = m.1 := by simpa using find?_some hfound
      have hmem := mem_of_find?_eq_some hfound
      rw [hunique e' e (hG e' hmem) (hG e he) (hidx'.trans hidx.symm)]
  rw [readWalEntryWithOffsetMetadata, hrec]
  simp only [hfind]
  rw [if_neg (by simpa using hshard e (hG e he))]

lemma Genuine.putObject (h : Genuine G log) {e : WalEntry κ} (he : G e) :
    Genuine G (log.putObject e) where
  objects o ho := by
    rcases mem_of_mem_put ho with rfl | ho
    · exact ⟨e, he, rfl⟩
    · exact h.objects o ho
  __ := h

lemma stored_putObject (log : SharedLog κ) (e : WalEntry κ) (i : ℕ) :
    (log.putObject e).Stored i ↔ log.Stored i ∨ i = e.walIndex := by
  constructor
  · rintro ⟨o, ho, rfl⟩
    rcases mem_of_mem_put ho with rfl | ho
    · exact .inr rfl
    · exact .inl ⟨o, ho, rfl⟩
  · rintro (⟨o, ho, rfl⟩ | rfl)
    · by_cases hkey : o.1 = e.walIndex
      · exact ⟨(e.walIndex, some e), mem_put_self _ _ _, hkey.symm⟩
      · exact ⟨o, mem_put_of_ne _ ho hkey, rfl⟩
    · exact ⟨(e.walIndex, some e), mem_put_self _ _ _, rfl⟩

variable {records : List (List (WalEntry κ))}

lemma Genuine.appendBlob (h : Genuine G log) (hrecs : ∀ e ∈ records.flatten, G e) :
    Genuine G (log.appendBlob records) where
  __ := h
  blob e he := by
    rw [SharedLog.appendBlob, flatten_append, mem_append] at he
    exact he.elim (h.blob e) (hrecs e)
  offsets m hm := by
    obtain ⟨record, hrec, hent⟩ := h.offsets m hm
    have hlt : m.2 < log.blob.length := (List.getElem?_eq_some_iff.mp hrec).1
    refine ⟨record, ?_, hent⟩
    rw [SharedLog.appendBlob, getElem?_append_left hlt, hrec]

lemma indexes_metadataOf (records : List (List (WalEntry κ))) (start : ℕ) :
    (metadataOf records start).map Prod.fst = records.flatten.map WalEntry.walIndex := by
  induction records generalizing start with
  | nil => rfl
  | cons record records ih =>
    rw [metadataOf, map_append, ih, map_map, flatten_cons, map_append]
    rfl

lemma mem_metadataOf {start : ℕ} {m : ℕ × ℕ} (h : m ∈ metadataOf records start) :
    ∃ record, records[m.2 - start]? = some record ∧ start ≤ m.2 ∧
      ∃ e ∈ record, e.walIndex = m.1 := by
  induction records generalizing start with
  | nil => simp [metadataOf] at h
  | cons record records ih =>
    rw [metadataOf, mem_append, mem_map] at h
    rcases h with ⟨e, he, rfl⟩ | h
    · exact ⟨record, by simp, le_rfl, e, he, rfl⟩
    · obtain ⟨record', hget, hle, hent⟩ := ih h
      refine ⟨record', ?_, by omega, hent⟩
      have hsub : m.2 - start = (m.2 - (start + 1)) + 1 := by omega
      rw [hsub, getElem?_cons_succ, hget]

/-- The blob ends in `records`: what the receipt of their append vouches for. -/
def EndsIn (log : SharedLog κ) (records : List (List (WalEntry κ))) : Prop :=
  ∃ before, log.blob = before ++ records

lemma Genuine.appendOffsets (h : Genuine G log) (hends : log.EndsIn records) :
    Genuine G (log.appendOffsets records) where
  __ := h
  offsets m hm := by
    rw [SharedLog.appendOffsets, mem_append] at hm
    rcases hm with hm | hm
    · exact h.offsets m hm
    · obtain ⟨before, hblob⟩ := hends
      have hstart : log.blob.length - records.length = before.length := by
        rw [hblob, length_append]
        omega
      rw [hstart] at hm
      obtain ⟨record, hget, hle, hent⟩ := mem_metadataOf hm
      refine ⟨record, ?_, hent⟩
      change log.blob[m.2]? = some record
      rw [hblob, getElem?_append_right hle, hget]

lemma indexed_appendOffsets (log : SharedLog κ) (records : List (List (WalEntry κ))) (i : ℕ) :
    (log.appendOffsets records).Indexed i ↔
      log.Indexed i ∨ ∃ e ∈ records.flatten, e.walIndex = i := by
  have hnew : (∃ m ∈ metadataOf records (log.blob.length - records.length), m.1 = i) ↔
      ∃ e ∈ records.flatten, e.walIndex = i := by
    rw [← mem_map, ← mem_map, indexes_metadataOf]
  rw [← hnew]
  simp only [Indexed, SharedLog.appendOffsets, mem_append, or_and_right, exists_or]

end SharedLog

lemma WriterConfig.flatten_batchRecords (cfg : WriterConfig κ) (entries : List (WalEntry κ)) :
    (cfg.batchRecords entries).flatten = entries := by
  rw [WriterConfig.batchRecords]
  split_ifs
  · exact flatten_singleton
  · exact flatMap_singleton' entries

/-- The indexes that `p` holds of are those from 1 to `k`. -/
def Covers (p : ℕ → Prop) (k : ℕ) : Prop := ∀ i, p i ↔ 1 ≤ i ∧ i ≤ k

section Deliver

variable {log : SharedLog κ} {shardId : ℕ} {es : List (WalEntry κ)} {k : ℕ}

lemma covers_of_numbered (hes : Numbered WalEntry.walIndex 1 es) :
    Covers (fun i => ∃ e ∈ es, e.walIndex = i) es.length := by
  intro i
  change (∃ e ∈ es, e.walIndex = i) ↔ _
  rw [← mem_map, hes, mem_range'_1]
  omega

lemma mem_take_iff_of_numbered (hes : Numbered WalEntry.walIndex 1 es) {e : WalEntry κ}
    (he : e ∈ es) : e ∈ es.take k ↔ e.walIndex ≤ k := by
  have hfilter := hes.filter_le k
  rw [Nat.add_sub_cancel] at hfilter
  rw [← hfilter, mem_filter, decide_eq_true_eq]
  exact and_iff_right he

/-- Every log index from 1 to `k`, but no other, is where replay looks for it: the first `k` of the
entries `es` are delivered, or more of them if the offset index is empty. -/
lemma replayWal_of_covers {mode : WalAppendMode} (hes : Numbered WalEntry.walIndex 1 es)
    (hgen : log.Genuine fun e => e ∈ es ∧ e.shardId = shardId) (hplain : log.Plain mode)
    (hcov : Covers (log.Landed mode) k)
    (hframed : mode = .protobufAppendBlob → ∃ n, Covers log.Framed n) :
    ∃ n, k ≤ n ∧ replayWal mode log shardId 0 = .ok (es.take n) := by
  have hunique : ∀ e e' : WalEntry κ, (e ∈ es ∧ e.shardId = shardId) →
      (e' ∈ es ∧ e'.shardId = shardId) → e.walIndex = e'.walIndex → e = e' :=
    fun e e' he he' h => eq_of_walIndex_eq hes he.1 he'.1 h
  have hbnd {i n : ℕ} (hi : i ≤ n) {e : WalEntry κ} (he : e ∈ es) (hidx : e.walIndex = i) :
      e ∈ es.take n := (mem_take_iff_of_numbered hes he).mpr (by omega)
  have htake {n : ℕ} {e : WalEntry κ} (he : e ∈ es.take n) :
      e ∈ es ∧ 1 ≤ e.walIndex ∧ e.walIndex ≤ n :=
    have hmem := mem_of_mem_take he
    ⟨hmem, (hes.key_of_mem hmem).1, (mem_take_iff_of_numbered hes hmem).mp he⟩
  cases mode with
  | jsonPerKey =>
    have hblob : log.blob = [] := hplain
    refine ⟨k, le_rfl, replayWal_of_entries (hes.take k) (.inl rfl) hgen.blobWhole ?_ ?_ ?_⟩
    · intro o ho
      obtain ⟨e, ⟨he, -⟩, rfl⟩ := hgen.objects o ho
      have hle := ((hcov e.walIndex).mp ⟨_, ho, rfl⟩).2
      exact ⟨e, hbnd hle he rfl, rfl⟩
    · simp [hblob]
    · intro e he
      obtain ⟨hmem, hidx⟩ := htake he
      obtain ⟨o, ho, hkey⟩ := (hcov e.walIndex).mpr hidx
      obtain ⟨e', ⟨he', -⟩, rfl⟩ := hgen.objects o ho
      exact .inl (eq_of_walIndex_eq hes he' hmem hkey ▸ ho)
  | protobufAppendBlob =>
    have hobjs : log.objects = [] := hplain
    by_cases hoffs : log.offsets = []
    · -- nothing was indexed, so replay walks the blob
      obtain ⟨n, hn⟩ := hframed rfl
      have hk : k = 0 := by
        by_contra hne
        obtain ⟨m, hm, -⟩ := (hcov 1).mpr ⟨le_rfl, by omega⟩
        simp [hoffs] at hm
      refine ⟨n, by omega, replayWal_of_entries (hes.take n)
        (.inr ⟨hgen.offsetsWhole, hoffs⟩) hgen.blobWhole ?_ ?_ ?_⟩
      · simp [hobjs]
      · intro e he
        have hle := ((hn e.walIndex).mp ⟨e, he, rfl⟩).2
        exact hbnd hle (hgen.blob e he).1 rfl
      · intro e he
        obtain ⟨hmem, hbnds⟩ := htake he
        obtain ⟨e', he', hidx⟩ := (hn e.walIndex).mpr hbnds
        exact .inr (eq_of_walIndex_eq hes (hgen.blob e' he').1 hmem hidx ▸ he')
    · have hindexed := replayWalFromOffsetMetadata_of_offsets le_rfl (hes.take k) hobjs
        hgen.offsetsWhole hoffs (fun m hm => by
          obtain ⟨e, ⟨he, -⟩, hidx, hread⟩ := hgen.read hunique (fun e he => he.2) hm
          have hle := ((hcov m.1).mp ⟨m, hm, rfl⟩).2
          exact ⟨e, hbnd hle he hidx, hidx, hread⟩)
        fun e he => (hcov e.walIndex).mpr (htake he).2
      refine ⟨k, le_rfl, ?_⟩
      rw [filter_above_zero (hes.take k)] at hindexed
      rw [replayWal, hindexed]
      rfl

lemma mem_of_readWalEntry {m : ℕ × ℕ} {e : WalEntry κ}
    (h : readWalEntryWithOffsetMetadata log shardId m = .ok e) :
    e ∈ log.blob.flatten ∧ e.walIndex = m.1 := by
  rw [readWalEntryWithOffsetMetadata] at h
  split at h
  · cases h
  · next record hrec =>
    split at h
    · cases h
    · next e' hfound =>
      split_ifs at h
      cases h
      have hidx := find?_some hfound
      refine ⟨?_, by simpa using hidx⟩
      exact mem_flatten.mpr ⟨record, mem_of_getElem? hrec, mem_of_find?_eq_some hfound⟩

lemma head_of_checkNoGap {α : Type} {x : ℕ × α} {l : List (ℕ × α)}
    (h : checkNoGap (0 + 1) (x :: l) = .ok ()) : x.1 = 1 := (checkNoGap_eq_ok.mp h).tail.1

section Sound

variable {G : WalEntry κ → Prop}

lemma SharedLog.Genuine.of_replayIndexed (hgen : log.Genuine G)
    (h : replayWalFromOffsetMetadata log shardId 0 = .ok (some es)) :
    (∀ e ∈ es, G e) ∧ (es ≠ [] → ∃ e ∈ es, e.walIndex = 1) := by
  obtain ⟨metadata, -, h⟩ := bind_eq_ok h
  split_ifs at h
  · cases h
  · cases h
  · obtain ⟨⟨⟩, hgap, h⟩ := bind_eq_ok h
    obtain ⟨read, hread, h⟩ := bind_eq_ok h
    cases h
    refine ⟨fun e he => ?_, fun hne => ?_⟩
    · obtain ⟨m, -, hm⟩ := mem_of_mapM_eq_ok hread he
      exact hgen.blob e (mem_of_readWalEntry hm).1
    · obtain ⟨e, rest, rfl⟩ := exists_cons_of_ne_nil hne
      obtain ⟨m, ordered, hord, hm, -⟩ := cons_of_mapM_eq_ok hread
      rw [hord] at hgap
      refine ⟨e, mem_cons_self, ?_⟩
      exact (mem_of_readWalEntry hm).2.trans (head_of_checkNoGap hgap)

lemma SharedLog.Genuine.of_replayWalEntries (hgen : log.Genuine G)
    (h : replayWalEntries log 0 = .ok es) :
    (∀ e ∈ es, G e) ∧ (es ≠ [] → ∃ e ∈ es, e.walIndex = 1) := by
  obtain ⟨walEntries, hload, h⟩ := bind_eq_ok h
  obtain ⟨⟨⟩, hgap, h⟩ := bind_eq_ok h
  cases h
  have hpair : ∀ x ∈ walEntries, G x.2 ∧ x.1 = x.2.walIndex := by
    obtain ⟨objects, hobjs, hload⟩ := bind_eq_ok hload
    split_ifs at hload
    cases hload
    intro x hx
    have hx := mem_of_mem_inOrder hx
    rw [mem_append, mem_map] at hx
    rcases hx with hx | ⟨e, he, rfl⟩
    · obtain ⟨o, ho, hparse⟩ := mem_of_mapM_eq_ok hobjs hx
      obtain ⟨e, he, rfl⟩ := hgen.objects o ho
      cases hparse
      exact ⟨he, rfl⟩
    · exact ⟨hgen.blob e he, rfl⟩
  refine ⟨fun e he => ?_, fun hne => ?_⟩
  · obtain ⟨x, hx, rfl⟩ := mem_map.mp he
    exact (hpair x (mem_of_mem_filter hx)).1
  · obtain ⟨x, rest, hord⟩ := exists_cons_of_ne_nil (mt map_eq_nil_iff.mpr hne)
    rw [hord] at hgap ⊢
    have hx : x ∈ walEntries := mem_of_mem_filter (hord ▸ mem_cons_self)
    refine ⟨x.2, by simp, ?_⟩
    rw [← (hpair x hx).2]
    exact head_of_checkNoGap hgap

lemma SharedLog.Genuine.of_replayWal {mode : WalAppendMode} (hgen : log.Genuine G)
    (h : replayWal mode log shardId 0 = .ok es) :
    (∀ e ∈ es, G e) ∧ (es ≠ [] → ∃ e ∈ es, e.walIndex = 1) := by
  cases mode with
  | jsonPerKey => exact hgen.of_replayWalEntries h
  | protobufAppendBlob =>
    obtain ⟨indexed, hindexed, h⟩ := bind_eq_ok h
    cases indexed with
    | none => exact hgen.of_replayWalEntries h
    | some entries =>
      cases h
      exact hgen.of_replayIndexed hindexed

end Sound

end Deliver

end TemporalStore.Shared
