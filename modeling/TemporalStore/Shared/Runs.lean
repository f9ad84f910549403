import TemporalStore.EngineWal.RoundTrip
import TemporalStore.Shared.Entries
import TemporalStore.Shared.Published

namespace TemporalStore.Shared.Wire

open Lib List UInt64 Layout LogCodec LogRecord Series

variable {κ ι π : Type}

def WalOffsetMetadata.start (m : WalOffsetMetadata) : ℕ := m.walBlobStartOffset.toNat

def WalOffsetMetadata.stop (m : WalOffsetMetadata) : ℕ := m.walBlobEndOffset.toNat

/-- A place of a run lies in the range from the start of the run's first place to the end of its
last. -/
structure Within (first last m : WalOffsetMetadata) : Prop where
  key : m.walBlobKey = first.walBlobKey
  start : first.start ≤ m.start
  stop : m.stop ≤ last.stop

variable {previous : WalOffsetMetadata}

lemma walRunMayExtend_spec {next : WalOffsetMetadata} (h : walRunMayExtend previous next = true)
    (hvalid : previous.start ≤ previous.stop) :
    next.start ≤ next.stop ∧ previous.start ≤ next.start ∧ previous.stop ≤ next.stop := by
  rw [walRunMayExtend] at h
  split_ifs at h with hempty
  have hnext : next.start < next.stop := not_le.mp hempty
  rw [Bool.or_eq_true, Bool.and_eq_true, decide_eq_true_eq, decide_eq_true_eq,
    decide_eq_true_eq] at h
  rcases h with hfol | ⟨hstart, hstop⟩
  · have : next.start = previous.stop := congrArg toNat hfol
    omega
  · have : next.start = previous.start := congrArg toNat hstart
    have : next.stop = previous.stop := congrArg toNat hstop
    omega

lemma takeRun_spec {first : WalOffsetMetadata} {taken : ℕ} {rest run left : List WalOffsetMetadata}
    (h : takeRun first.walBlobKey taken previous rest = (run, left))
    (hvalid : previous.start ≤ previous.stop) (hfirst : first.start ≤ previous.start) :
    rest = run ++ left ∧ previous.stop ≤ ((previous :: run).getLast (by simp)).stop ∧
      ∀ m ∈ run, Within first ((previous :: run).getLast (by simp)) m := by
  induction rest generalizing taken previous run left with
  | nil =>
    cases h
    exact ⟨rfl, le_rfl, by simp⟩
  | cons next rest ih =>
    rw [takeRun] at h
    split_ifs at h with hnext
    · obtain ⟨hkey, hextend, -⟩ := hnext
      obtain ⟨hnextValid, hstart, hstop⟩ := walRunMayExtend_spec hextend hvalid
      cases h
      obtain ⟨hrest, hlast, hrun⟩ := ih rfl hnextValid (hfirst.trans hstart)
      refine ⟨by rw [cons_append, ← hrest], hstop.trans hlast, ?_⟩
      exact forall_mem_cons.mpr ⟨⟨hkey, hfirst.trans hstart, hlast⟩, hrun⟩
    · cases h
      exact ⟨rfl, le_rfl, by simp⟩

lemma cutRuns_spec {fuel : ℕ} {ordered : List WalOffsetMetadata} (hfuel : ordered.length ≤ fuel)
    (hvalid : ∀ m ∈ ordered, m.start ≤ m.stop) :
    (cutRuns fuel ordered).flatten = ordered ∧ ∀ run ∈ cutRuns fuel ordered,
      ∃ first rest, run = first :: rest ∧
        ∀ m ∈ run, Within first ((first :: rest).getLast (by simp)) m := by
  induction fuel generalizing ordered with
  | zero =>
    rw [eq_nil_of_length_eq_zero (Nat.le_zero.mp hfuel)]
    exact ⟨rfl, by simp [cutRuns]⟩
  | succ fuel ih =>
    cases ordered with
    | nil => exact ⟨rfl, by simp [cutRuns]⟩
    | cons first rest =>
      have hfirst := hvalid first mem_cons_self
      rw [cutRuns]
      cases htake : takeRun first.walBlobKey 1 first rest with
      | mk run left =>
        obtain ⟨hrest, hlast, hrun⟩ := takeRun_spec htake hfirst le_rfl
        rw [length_cons, hrest, length_append] at hfuel
        have hleft : left.length ≤ fuel := by omega
        obtain ⟨hflatten, hruns⟩ := ih hleft fun m hm =>
          hvalid m (mem_cons_of_mem first (hrest ▸ mem_append_right run hm))
        refine ⟨by rw [flatten_cons, hflatten, cons_append, ← hrest], ?_⟩
        intro r hr
        rcases mem_cons.mp hr with rfl | hr
        · refine ⟨first, run, rfl, ?_⟩
          exact forall_mem_cons.mpr ⟨⟨rfl, le_rfl, hlast⟩, hrun⟩
        · exact hruns r hr

section Read

variable {codec : LogCodec κ ι π} {store : ObjectStore} {shardId : UInt64} {object : Bytes}

lemma getRange_eq {key : ObjectKey} {offset length : ℕ} (hobj : store.get key = some object)
    (h : offset + length ≤ object.length) :
    store.getRange key offset length = .ok (slice object offset length) := by
  rw [ObjectStore.getRange, hobj]
  exact if_neg (by omega)

lemma toNat_walBlobLength {m : WalOffsetMetadata} (h : ¬m.walBlobEndOffset < m.walBlobStartOffset) :
    (m.walBlobEndOffset - m.walBlobStartOffset).toNat = m.stop - m.start ∧ m.start ≤ m.stop := by
  rw [lt_iff_toNat_lt, not_lt] at h
  exact ⟨UInt64.toNat_sub_of_le _ _ (UInt64.le_iff_toNat_le.mpr h), h⟩

lemma readWithinRun_eq {first last m : WalOffsetMetadata} (h : Within first last m)
    (hobj : store.get first.walBlobKey = some object) (hlast : last.stop ≤ object.length) :
    codec.readWithinRun shardId first (slice object first.start (last.stop - first.start)) m =
      codec.readWalEntryWithOffsetMetadata store shardId m := by
  rw [readWithinRun, LogCodec.readWalEntryWithOffsetMetadata]
  by_cases hrange : m.walBlobEndOffset < m.walBlobStartOffset
  · rw [if_pos hrange, if_pos hrange]
  · obtain ⟨hleng, hvalid⟩ := toNat_walBlobLength hrange
    have hstart := h.start
    have hstop := h.stop
    rw [if_neg hrange, if_neg hrange]
    by_cases hwrit : m.walBlobEndOffset - m.walBlobStartOffset ≠ m.walBlobBytesWritten
    · rw [if_pos hwrit, if_pos hwrit]
    · have hins : ¬m.walBlobStartOffset < first.walBlobStartOffset := by
        rw [lt_iff_toNat_lt, not_lt]
        exact hstart
      have hoff : (m.walBlobStartOffset - first.walBlobStartOffset).toNat = m.start - first.start :=
        UInt64.toNat_sub_of_le _ _ (UInt64.le_iff_toNat_le.mpr hstart)
      have hbytes : (slice object first.start (last.stop - first.start)).length =
          last.stop - first.start := slice_length (by omega)
      have hslice : slice (slice object first.start (last.stop - first.start))
          (m.start - first.start) (m.stop - m.start) = slice object m.start (m.stop - m.start) := by
        rw [slice_slice object (by omega)]
        congr 1
        omega
      rw [if_neg hwrit, if_neg hwrit, if_neg hins, hoff, hleng, if_neg (by omega), hslice, h.key]
      change _ = (store.getRange first.walBlobKey m.start (m.stop - m.start) >>= _)
      rw [getRange_eq hobj (by omega), ok_bind]

lemma readRun_eq {first : WalOffsetMetadata} {rest : List WalOffsetMetadata}
    (hwithin : ∀ m ∈ first :: rest, Within first ((first :: rest).getLast (by simp)) m)
    (hvalid : first.start ≤ first.stop) (hobj : store.get first.walBlobKey = some object)
    (hlast : ((first :: rest).getLast (by simp)).stop ≤ object.length) :
    codec.readRun store shardId (first :: rest) =
      (first :: rest).mapM (codec.readWalEntryWithOffsetMetadata store shardId) := by
  cases rest with
  | nil =>
    rfl
  | cons next rest =>
    rw [getLast_cons_cons] at hwithin hlast
    set last := (next :: rest).getLast (by simp) with hlastEq
    have hstop := (hwithin first mem_cons_self).stop
    have hspan : ¬last.walBlobEndOffset < first.walBlobStartOffset := by
      rw [lt_iff_toNat_lt, not_lt]
      exact hvalid.trans hstop
    have hleng : (last.walBlobEndOffset - first.walBlobStartOffset).toNat =
        last.stop - first.start :=
      UInt64.toNat_sub_of_le _ _ (UInt64.le_iff_toNat_le.mpr (hvalid.trans hstop))
    have hbytes : (slice object first.start (last.stop - first.start)).length =
        last.stop - first.start := slice_length (by omega)
    rw [readRun, readWalEntriesInRun, if_neg hspan]
    dsimp only
    rw [hleng]
    change (store.getRange first.walBlobKey first.start (last.stop - first.start) >>= _) = _
    rw [getRange_eq hobj (by omega), ok_bind, if_neg (not_not.mpr hbytes)]
    apply mapM_congr
    intro m hm
    exact readWithinRun_eq (hwithin m hm) hobj hlast

lemma mapM_readRun {runs : List (List WalOffsetMetadata)} {reads : List (WalEntry κ ι × UInt64)}
    (hruns : ∀ run ∈ runs, codec.readRun store shardId run =
      run.mapM (codec.readWalEntryWithOffsetMetadata store shardId))
    (hreads : runs.flatten.mapM (codec.readWalEntryWithOffsetMetadata store shardId) = .ok reads) :
    ∃ zipped, runs.mapM (fun run => do
        let read ← codec.readRun store shardId run
        .ok (run.zip read)) = .ok zipped ∧ zipped.flatten = runs.flatten.zip reads := by
  induction runs generalizing reads with
  | nil =>
    exact ⟨[], rfl, rfl⟩
  | cons run runs ih =>
    rw [flatten_cons, mapM_append] at hreads
    obtain ⟨read, hread, hreads⟩ := bind_eq_ok hreads
    obtain ⟨rest, hrest, hreads⟩ := bind_eq_ok hreads
    cases hreads
    obtain ⟨zipped, hzipped, hflatten⟩ := ih (fun r hr => hruns r (mem_cons_of_mem run hr)) hrest
    refine ⟨run.zip read :: zipped, ?_, ?_⟩
    · rw [mapM_cons, hruns run mem_cons_self, hread, hzipped]
      rfl
    · rw [flatten_cons, flatten_cons, hflatten, zip_append (length_of_mapM_eq_ok hread).symm]

end Read

namespace Delivery

variable (d : Delivery κ ι)

def taken : List (UInt64 × WalEntry κ ι) := d.delivered.flatten ++ d.window

lemma taken_flush : d.flush.delivered.flatten = d.taken := by
  rw [flush, taken]
  split_ifs with h
  · rw [h, append_nil]
  · rw [flatten_append, flatten_singleton]

lemma taken_push (x : WalOffsetMetadata × WalEntry κ ι × UInt64) :
    (d.push x).taken = d.taken ++ [(x.1.walIndex, x.2.1)] := by
  rw [push]
  split_ifs with hfull
  · rw [taken, taken_flush, flush, if_neg (by simp), taken, taken, append_nil, append_assoc]
  · rw [taken, taken, append_assoc]

lemma taken_foldl_push (xs : List (WalOffsetMetadata × WalEntry κ ι × UInt64)) :
    (xs.foldl push d).taken = d.taken ++ xs.map fun x => (x.1.walIndex, x.2.1) := by
  induction xs generalizing d with
  | nil => rw [foldl_nil, map_nil, append_nil]
  | cons x xs ih =>
    rw [foldl_cons, ih, taken_push, append_assoc, map_cons, singleton_append]

end Delivery

section Replay

variable {codec : LogCodec κ ι π} {shardId : UInt64} {store : ObjectStore}
  {records : List (LogRecord κ ι)} {index : List WalOffsetMetadata} {first : ℕ}

variable {ps : List (Place κ ι)}

lemma map_walIndex_located (h : List.Forall₂ (Locates shardId) index ps) :
    index.map (fun m => m.walIndex) = ps.map fun p => p.entry.walIndex := by
  induction h with
  | nil => rfl
  | cons hm _ ih => rw [map_cons, map_cons, hm.walIndex, ih]

variable {m : WalOffsetMetadata}

lemma exists_located (h : List.Forall₂ (Locates shardId) index ps) (hm : m ∈ index) :
    ∃ p ∈ ps, Locates shardId m p := by
  induction h with
  | nil => simp at hm
  | @cons m' p index ps hloc _ ih =>
    rcases mem_cons.mp hm with rfl | hm
    · exact ⟨p, mem_cons_self, hloc⟩
    · obtain ⟨q, hq, hloc'⟩ := ih hm
      exact ⟨q, mem_cons_of_mem p hq, hloc'⟩

section

variable (h : Published codec shardId store records index)
include h

lemma Published.loadWalOffsetMetadata
    (hnum : Numbered (fun m : WalOffsetMetadata => m.walIndex.toNat) first index) :
    codec.loadWalOffsetMetadata store shardId = .ok (index.map fun m => (m.walIndex.toNat, m)) := by
  have hkey : ∀ m ∈ index, m.walBlobKey = .walBlob shardId := by
    intro m hm
    obtain ⟨p, -, hp⟩ := exists_located h.located hm
    exact hp.key
  have hord : Series.inOrder (index.map fun m => (m.walIndex.toNat, m)) =
      index.map fun m => (m.walIndex.toNat, m) := by
    apply Series.inOrder_of_ordered
    apply Series.ordered_of_numbered
    rw [Numbered, map_map, length_map]
    exact hnum
  set encode := fun m => codec.encodeWalOffsetMetadataFrame m (.walBlob shardId) with henc
  have hwalk : walk readMetadataFrame (codec.decodeMetadataFrame (.walBlob shardId))
      ((index.flatMap encode).length + 1) 0 (index.flatMap encode) =
      .ok (some ((place encode 0 index).map fun x => (x.1, id x.2))) := by
    refine walk_records ?_ ?_ ?_ rfl (Nat.lt_succ_self _)
    · intro m _
      change 0 < (lengthPrefixed _).length
      rw [lengthPrefixed_length]
      omega
    · intro m hm rest
      exact readMetadataFrame_encode rest (hkey m hm)
    · intro m _
      exact decodeMetadataFrame_encode m _
  have hframes : ((place encode 0 index).map fun x => (x.1, id x.2)).map
      (fun x => (x.2.walIndex.toNat, x.2)) = index.map fun m => (m.walIndex.toNat, m) := by
    conv_rhs => rw [← map_snd_place encode 0 index]
    rw [map_map, map_map]
    rfl
  have hdec : codec.decodeWalOffsetMetadataBlob (index.flatMap encode) (.walBlob shardId) =
      .ok (index.map fun m => (m.walIndex.toNat, m)) := by
    rw [LogCodec.decodeWalOffsetMetadataBlob, hwalk, ok_bind]
    dsimp only
    rw [hframes, hord]
  have hoffs := h.offsets
  rw [LogCodec.loadWalOffsetMetadata]
  cases hget : store.get (.walOffsetIndex shardId) with
  | none =>
    -- no object, and no frames in it
    rw [hget] at hoffs
    rw [← hoffs] at hdec
    rw [← hdec]
    rfl
  | some bytes =>
    rw [hget, Option.getD_some] at hoffs
    rw [hoffs]
    exact hdec

lemma Published.get_log (hne : records.flatMap entries ≠ []) :
    store.get (.walBlob shardId) = some (records.flatMap raw) := by
  have hlog := h.log
  cases hget : store.get (.walBlob shardId) with
  | none =>
    -- an entry stands in a record, and no record is empty
    rw [hget] at hlog
    obtain ⟨e, he⟩ := exists_mem_of_ne_nil _ hne
    obtain ⟨r, hr, -⟩ := mem_flatMap.mp he
    have hpos := (h.readable r hr).pos
    rw [flatMap_eq_nil_iff.mp hlog.symm r hr, length_nil] at hpos
    omega
  | some bytes =>
    rw [hget, Option.getD_some] at hlog
    rw [hlog]

lemma Published.readWalEntryWithOffsetMetadata {p : Place κ ι} (hm : Locates shardId m p)
    (hp : p ∈ places 0 records) (hshard : p.entry.shardId = shardId) :
    ∃ length, codec.readWalEntryWithOffsetMetadata store shardId m = .ok (p.entry, length) := by
  obtain ⟨hslice, hfits⟩ := slice_place hp
  obtain ⟨before, r, after, hrecs, hraw, hent, -⟩ := of_mem_places hp
  have hreada : r.Readable codec := h.readable r (by rw [hrecs]; simp)
  have hstart := hm.start
  have hstop := hm.stop
  have hmem : p.entry ∈ records.flatMap entries := by
    rw [← map_entry_places 0 records]
    exact mem_map_of_mem hp
  have hobj := h.get_log (ne_nil_of_mem hmem)
  have hrange : ¬m.walBlobEndOffset < m.walBlobStartOffset := by
    rw [lt_iff_toNat_lt]
    omega
  have hleng : (m.walBlobEndOffset - m.walBlobStartOffset).toNat = p.raw.length := by
    rw [UInt64.toNat_sub_of_le _ _ (by rw [UInt64.le_iff_toNat_le]; omega)]
    omega
  have hwrit : m.walBlobEndOffset - m.walBlobStartOffset = m.walBlobBytesWritten := by
    rw [← UInt64.toNat_inj, hleng, hm.written]
  refine ⟨m.walBlobEndOffset - m.walBlobStartOffset, ?_⟩
  rw [LogCodec.readWalEntryWithOffsetMetadata, if_neg hrange]
  rw [if_neg (not_not.mpr hwrit), hleng, hstart, hm.key, getRange_eq hobj hfits, ok_bind, hslice,
    entryAtPlace, hm.walIndex, hraw, hreada.entry p.entry hent, ok_bind, if_neg (by simp [hshard])]

end

variable {ordered : List WalOffsetMetadata}

lemma Published.mapM_read (h : Published codec shardId store records index)
    (hlocated : List.Forall₂ (Locates shardId) ordered ps) (hps : ∀ p ∈ ps, p ∈ places 0 records)
    (hshard : ∀ p ∈ ps, p.entry.shardId = shardId) :
    ∃ reads, ordered.mapM (codec.readWalEntryWithOffsetMetadata store shardId) = .ok reads ∧
      (ordered.zip reads).map (fun x => (x.1.walIndex, x.2.1)) =
        ps.map fun p => (p.entry.walIndex, p.entry) := by
  induction hlocated with
  | nil => exact ⟨[], rfl, rfl⟩
  | @cons m p ordered ps hm _ ih =>
    obtain ⟨length, hread⟩ := h.readWalEntryWithOffsetMetadata hm (hps p mem_cons_self)
      (hshard p mem_cons_self)
    obtain ⟨reads, hreads, hmap⟩ := ih (fun q hq => hps q (mem_cons_of_mem p hq))
      (fun q hq => hshard q (mem_cons_of_mem p hq))
    refine ⟨(p.entry, length) :: reads, ?_, ?_⟩
    · rw [mapM_cons, hread, hreads]
      rfl
    · rw [zip_cons_cons, map_cons, map_cons, hmap, hm.walIndex]

lemma checkNoGap_of_numbered {expected : UInt64}
    (h : Numbered (fun m : WalOffsetMetadata => m.walIndex.toNat) expected.toNat ordered) :
    checkNoGap expected ordered = .ok () := by
  induction ordered generalizing expected with
  | nil => rfl
  | cons m rest ih =>
    obtain ⟨hm, hrest⟩ := h.tail
    rw [checkNoGap, if_neg (not_not.mpr (UInt64.toNat_inj.mp hm))]
    cases rest with
    | nil => rfl
    | cons next rest =>
      -- the next index is a 64-bit number, so that this one was not the last of them
      have hnext := hrest.tail.1
      have hlt := next.walIndex.toNat_lt
      apply ih
      rw [UInt64.toNat_add, show (1 : UInt64).toNat = 1 from rfl, Nat.mod_eq_of_lt (by omega)]
      exact hrest

section

variable (h : Published codec shardId store records index)
include h

lemma Published.place_bounds (hm : m ∈ index) : m.walBlobKey = .walBlob shardId ∧ m.start ≤ m.stop ∧
      m.stop ≤ (records.flatMap raw).length := by
  obtain ⟨p, hp, hloc⟩ := exists_located h.located hm
  have hfits := (slice_place hp).2
  have hstart : m.start = p.offset := hloc.start
  have hstop : m.stop = p.offset + p.raw.length := hloc.stop
  exact ⟨hloc.key, by omega, by omega⟩

lemma Published.mapM_readRun (hshard : ∀ e ∈ records.flatMap entries, e.shardId = shardId)
    (hne : records.flatMap entries ≠ []) (skipped : ℕ) :
    ∃ zipped, (cutRuns (index.drop skipped).length (index.drop skipped)).mapM (fun run => do
        let read ← codec.readRun store shardId run
        .ok (run.zip read)) = .ok zipped ∧
      zipped.flatten.map (fun x => (x.1.walIndex, x.2.1)) =
        ((records.flatMap entries).drop skipped).map fun e => (e.walIndex, e) := by
  obtain ⟨hflatten, hruns⟩ := cutRuns_spec (le_refl (index.drop skipped).length)
    fun m hm => (h.place_bounds (mem_of_mem_drop hm)).2.1
  have hread : ∀ run ∈ cutRuns (index.drop skipped).length (index.drop skipped),
      codec.readRun store shardId run =
        run.mapM (codec.readWalEntryWithOffsetMetadata store shardId) := by
    intro run hrun
    have hmem : ∀ m ∈ run, m ∈ index := fun m hm =>
      mem_of_mem_drop (hflatten ▸ mem_flatten.mpr ⟨run, hrun, hm⟩)
    obtain ⟨m, rest, rfl, hwithin⟩ := hruns run hrun
    obtain ⟨hkey, hvalid, -⟩ := h.place_bounds (hmem m mem_cons_self)
    exact readRun_eq hwithin hvalid (hkey ▸ h.get_log hne)
      (h.place_bounds (hmem _ (getLast_mem _))).2.2
  have hshardPlaces : ∀ p ∈ (places 0 records).drop skipped, p.entry.shardId = shardId := by
    intro p hp
    apply hshard
    rw [← map_entry_places 0 records]
    exact mem_map_of_mem (mem_of_mem_drop hp)
  obtain ⟨reads, hreads, hmap⟩ := h.mapM_read (forall₂_drop skipped h.located)
    (fun p hp => mem_of_mem_drop hp) hshardPlaces
  rw [← hflatten] at hreads
  obtain ⟨zipped, hzipped, hzip⟩ := Wire.mapM_readRun hread hreads
  refine ⟨zipped, hzipped, ?_⟩
  rw [hzip, hflatten, hmap, ← map_entry_places 0 records, ← map_drop, map_map]
  rfl

lemma Published.index_eq_nil : index = [] ↔ records.flatMap entries = [] := by
  rw [← length_eq_zero_iff, h.located.length_eq, ← length_map Place.entry, map_entry_places,
    length_eq_zero_iff]

lemma Published.holdsWalEntryAbove (after : UInt64) :
    store.holdsWalEntryAbove shardId after = false := by
  rw [ObjectStore.holdsWalEntryAbove, any_eq_false]
  intro o ho
  have hkeyless := h.keyless o ho
  split
  · next s walIndex hkey =>
    rw [hkey] at hkeyless
    intro habove
    rw [decide_eq_true_eq] at habove
    exact hkeyless walIndex (by rw [habove.1])
  · simp

end

variable {after : UInt64}

lemma toNat_succ (h : after.toNat + 1 < 2 ^ 64) : (after + 1).toNat = after.toNat + 1 := by
  rw [UInt64.toNat_add, show (1 : UInt64).toNat = 1 from rfl, Nat.mod_eq_of_lt h]

section

variable (h : Published codec shardId store records index)
  (hnum : Numbered (fun e : WalEntry κ ι => e.walIndex.toNat) first
    (records.flatMap entries))
include h hnum

lemma Published.numbered :
    Numbered (fun m : WalOffsetMetadata => m.walIndex.toNat) first index := by
  have hmap : index.map (fun m => m.walIndex) =
      (records.flatMap entries).map fun e => e.walIndex := by
    rw [map_walIndex_located h.located, ← map_entry_places 0 records, map_map]
    rfl
  have hlen : index.length = (records.flatMap entries).length := by
    rw [← length_map (fun m : WalOffsetMetadata => m.walIndex), hmap, length_map]
  have htoNat := congrArg (map toNat) hmap
  rw [map_map, map_map] at htoNat
  rw [Numbered, hlen, ← hnum]
  exact htoNat

lemma Published.replay_eq (hne : records.flatMap entries ≠ [])
    (hafter : after.toNat + 1 < 2 ^ 64) : codec.replayWalFromOffsetMetadata store shardId after =
      (codec.replayOrdered store shardId after (index.drop (after.toNat + 1 - first)) >>= fun d =>
        .ok (some d)) := by
  have hidx := h.numbered hnum
  have hord : ((index.map fun m => (m.walIndex.toNat, m)).filter fun x =>
      (after + 1).toNat ≤ x.1).map Prod.snd = index.drop (after.toNat + 1 - first) := by
    rw [← hidx.filter after.toNat, filter_map, map_map, toNat_succ hafter]
    exact map_id _
  have hloaded : (index.map fun m => (m.walIndex.toNat, m)) ≠ [] := by
    rw [Ne, map_eq_nil_iff, h.index_eq_nil]
    exact hne
  rw [LogCodec.replayWalFromOffsetMetadata, h.loadWalOffsetMetadata hidx, ok_bind, if_neg hloaded,
    h.holdsWalEntryAbove, if_neg (by simp)]
  rw [hord]

lemma Published.replay (hshard : ∀ e ∈ records.flatMap entries, e.shardId = shardId)
    (hne : records.flatMap entries ≠ []) (hafter : after.toNat + 1 < 2 ^ 64)
    (hfirst : first ≤ after.toNat + 1) :
    ∃ d, codec.replayWalFromOffsetMetadata store shardId after = .ok (some d) ∧
      d.delivered.flatten = ((records.flatMap entries).filter fun e =>
        after < e.walIndex).map fun e => (e.walIndex, e) := by
  have hgap : checkNoGap (after + 1) (index.drop (after.toNat + 1 - first)) = .ok () := by
    apply checkNoGap_of_numbered
    have hdrop := (h.numbered hnum).drop (after.toNat + 1 - first)
    rw [Nat.add_sub_cancel' hfirst] at hdrop
    rwa [toNat_succ hafter]
  obtain ⟨zipped, hzipped, hmap⟩ := h.mapM_readRun hshard hne (after.toNat + 1 - first)
  refine ⟨(zipped.flatten.foldl Delivery.push ⟨[], [], ⟨0, after, 0, 0⟩⟩).flush, ?_, ?_⟩
  · rw [h.replay_eq hnum hne hafter, replayOrdered, hgap, hzipped]
    rfl
  · have hfilter : ((records.flatMap entries).filter fun e => after < e.walIndex) =
        (records.flatMap entries).drop (after.toNat + 1 - first) := by
      rw [← hnum.filter after.toNat]
      apply filter_congr
      intro e _
      exact decide_eq_decide.mpr lt_iff_toNat_lt
    rw [Delivery.taken_flush, Delivery.taken_foldl_push, hmap, hfilter]
    rfl

lemma Published.replay_gap {e : WalEntry κ ι}
    (he : (records.flatMap entries).head? = some e) (hafter : after.toNat + 1 < first) :
    codec.replayWalFromOffsetMetadata store shardId after =
      .error (.replayGap (after + 1) e.walIndex) := by
  obtain ⟨rest, hents⟩ := head?_eq_some_iff.mp he
  have hne : records.flatMap entries ≠ [] := by
    rw [hents]
    exact cons_ne_nil e rest
  have hidxs : index.map (fun m => m.walIndex) = e.walIndex :: rest.map fun e => e.walIndex := by
    rw [map_walIndex_located h.located, ← map_cons, ← hents, ← map_entry_places 0 records, map_map]
    rfl
  have hlt : e.walIndex.toNat < 2 ^ 64 := e.walIndex.toNat_lt
  have hfirst : e.walIndex.toNat = first := hnum.key_head he
  cases index with
  | nil => cases hidxs
  | cons m index =>
    rw [map_cons, cons.injEq] at hidxs
    have hgap : m.walIndex ≠ after + 1 := by
      intro heq
      have := congrArg toNat heq
      rw [hidxs.1, toNat_succ (by omega)] at this
      omega
    rw [h.replay_eq hnum hne (by omega), Nat.sub_eq_zero_of_le hafter.le, drop_zero,
      replayOrdered, checkNoGap, if_pos hgap, hidxs.1]
    rfl

end

end Replay

section SharedLog

/-- An entry of the blob as an entry of the shared log, with all it holds for its command. -/
def WalEntry.logged (e : WalEntry κ ι) : Shared.WalEntry (WalEntry κ ι) :=
  ⟨e.shardId.toNat, e.walIndex.toNat, e⟩

/-- The shared log to which the records were published. -/
def sharedLog (records : List (LogRecord κ ι)) : SharedLog (WalEntry κ ι) :=
  let blob := records.map fun r => r.entries.map WalEntry.logged
  (SharedLog.empty.appendBlob blob).appendOffsets blob

def WireError.toReplayError : WireError → ReplayError
  | .replayGap expected actual => .gap expected.toNat actual.toNat
  | _ => .unreadable

variable {records : List (LogRecord κ ι)} {first : ℕ} {shardId : UInt64}

lemma flatten_logged : (records.map fun r => r.entries.map WalEntry.logged).flatten =
    (records.flatMap entries).map WalEntry.logged := by
  rw [map_flatMap, flatMap_def]

lemma map_fst_offsets_sharedLog : (sharedLog records).offsets.map Prod.fst =
    (records.flatMap entries).map fun e => e.walIndex.toNat := by
  have hindexes := SharedLog.indexes_metadataOf
    (records.map fun r => r.entries.map WalEntry.logged) 0
  rw [flatten_logged, map_map] at hindexes
  refine Eq.trans ?_ hindexes
  simp [sharedLog, SharedLog.appendOffsets, SharedLog.appendBlob, SharedLog.empty]

lemma genuine_sharedLog : (sharedLog records).Genuine (· ∈ (records.flatMap entries).map
    WalEntry.logged) :=
  (SharedLog.genuine_empty.appendBlob fun _ he => flatten_logged ▸ he).appendOffsets ⟨[], rfl⟩

section

variable (hnum : Numbered (fun e : WalEntry κ ι => e.walIndex.toNat) first
  (records.flatMap entries))
include hnum

lemma numbered_logged :
    Numbered Shared.WalEntry.walIndex first ((records.flatMap entries).map WalEntry.logged) := by
  rw [Numbered, map_map, length_map]
  exact hnum

lemma replay_sharedLog (hne : (sharedLog records).offsets ≠ [])
    (hshard : ∀ e ∈ records.flatMap entries, e.shardId = shardId) {after : ℕ}
    (hfirst : first ≤ after + 1) :
    Shared.replayWalFromOffsetMetadata (sharedLog records) shardId.toNat after =
      .ok (some (((records.flatMap entries).filter fun e => after < e.walIndex.toNat).map
        WalEntry.logged)) := by
  have hlogged := numbered_logged hnum
  rw [replayWalFromOffsetMetadata_of_offsets hfirst hlogged rfl rfl hne, filter_map]
  · rfl
  · intro m hm
    refine genuine_sharedLog.read (fun e e' he he' => eq_of_walIndex_eq hlogged he he') ?_ hm
    intro e he
    obtain ⟨x, hx, rfl⟩ := mem_map.mp he
    exact congrArg toNat (hshard x hx)
  · intro e he
    obtain ⟨x, hx, rfl⟩ := mem_map.mp he
    rw [← mem_map, map_fst_offsets_sharedLog]
    exact mem_map_of_mem hx

lemma replay_sharedLog_gap {e : WalEntry κ ι} (he : (records.flatMap entries).head? = some e)
    {after : ℕ} (hfirst : after + 1 < first) :
    Shared.replayWalFromOffsetMetadata (sharedLog records) shardId.toNat after =
      .error (.gap (after + 1) e.walIndex.toNat) := by
  have hkeys : (sharedLog records).offsets.map Prod.fst = _ := map_fst_offsets_sharedLog
  have hnumbered : Numbered Prod.fst first (sharedLog records).offsets := by
    rw [Numbered, ← length_map Prod.fst, hkeys, length_map]
    exact hnum
  obtain ⟨rest, hents⟩ := head?_eq_some_iff.mp he
  rw [hents] at hkeys
  have hkey : e.walIndex.toNat = first := hnum.key_head he
  cases hoffs : (sharedLog records).offsets with
  | nil => rw [hoffs] at hkeys; cases hkeys
  | cons m offsets =>
    rw [hoffs, map_cons, map_cons, cons.injEq] at hkeys
    have hgap : e.walIndex.toNat ≠ after + 1 := by omega
    have habove := hnumbered.filter after
    rw [Nat.sub_eq_zero_of_le hfirst.le, drop_zero, hoffs] at habove
    rw [Shared.replayWalFromOffsetMetadata, Shared.loadWalOffsetMetadata,
      inOrder_of_ordered (ordered_of_numbered hnumbered), hoffs]
    change (Shared.checkNoGap (after + 1) ((m :: offsets).filter fun m => after < m.1) >>= _) = _
    rw [habove, Shared.checkNoGap, hkeys.1, if_pos hgap]
    rfl

/-- What replay of the objects of a shard gives, an error included, is what replay of the shared
log of their records gives. -/
lemma Published.replay_refines {codec : LogCodec κ ι π} {store : ObjectStore}
    {index : List WalOffsetMetadata} {after : UInt64}
    (h : Published codec shardId store records index)
    (hshard : ∀ e ∈ records.flatMap entries, e.shardId = shardId)
    (hafter : after.toNat + 1 < 2 ^ 64) :
    Shared.replayWalFromOffsetMetadata (sharedLog records) shardId.toNat after.toNat =
      ((codec.replayWalFromOffsetMetadata store shardId after).mapError WireError.toReplayError).map
        (Option.map fun d => d.delivered.flatten.map fun x => x.2.logged) := by
  have hempty : (sharedLog records).offsets = [] ↔ records.flatMap entries = [] := by
    rw [← map_eq_nil_iff (f := Prod.fst), map_fst_offsets_sharedLog, map_eq_nil_iff]
  rcases eq_or_ne (records.flatMap entries) [] with hnil | hne
  · rw [LogCodec.replayWalFromOffsetMetadata, h.loadWalOffsetMetadata (h.numbered hnum),
      h.index_eq_nil.mpr hnil, Shared.replayWalFromOffsetMetadata, Shared.loadWalOffsetMetadata,
      hempty.mpr hnil]
    rfl
  rcases le_or_gt first (after.toNat + 1) with hfirst | hfirst
  · obtain ⟨d, hd, hentries⟩ := h.replay hnum hshard hne hafter hfirst
    rw [replay_sharedLog hnum (mt hempty.mp hne) hshard hfirst, hd]
    simp only [Except.mapError, Except.map, Option.map_some, hentries, map_map,
      Function.comp_def, lt_iff_toNat_lt]
  · obtain ⟨e, he⟩ := Option.isSome_iff_exists.mp (isSome_head?.mpr hne)
    rw [replay_sharedLog_gap hnum he hfirst, h.replay_gap hnum he hfirst]
    simp only [Except.mapError, Except.map, WireError.toReplayError, toNat_succ hafter]

end

end SharedLog

/-- Publications of a shard's entries with consecutive indexes, in whatever shapes, leave a log
object that decodes to the entries. Replay through the offset index delivers those above its
position in order, or finds a gap if that lies before the one in front of the first entry. -/
theorem replayWalFromOffsetMetadata_published (codec : LogCodec κ ι π) {shardId : UInt64}
    {store store' : ObjectStore} {publications : List (Publication κ ι)}
    {entries : List (WalEntry κ ι)} {first : ℕ}
    (hentries : publications.flatMap Publication.entries = entries) (hfresh : Fresh shardId store)
    (hpublish : publishAll codec store publications = .ok store')
    (hshard : ∀ e ∈ entries, e.shardId = shardId)
    (hnumbered : Numbered (fun e : WalEntry κ ι => e.walIndex.toNat) first entries)
    (hback : ∀ e ∈ entries, codec.ReadsBack e) (hceiling : ∀ p ∈ publications, p.UnderCeiling codec)
    (hsize : ((store'.get (.walBlob shardId)).getD []).length < 2 ^ 64) :
    codec.decodeWalProtoBlob ((store'.get (.walBlob shardId)).getD []) = .ok entries ∧
      ∀ after : UInt64, after.toNat + 1 < 2 ^ 64 → ∀ e, entries.head? = some e →
        (first ≤ after.toNat + 1 → ∃ d,
          codec.replayWalFromOffsetMetadata store' shardId after = .ok (some d) ∧
          d.delivered.flatten =
            (entries.filter fun e => after < e.walIndex).map fun e => (e.walIndex, e)) ∧
        (after.toNat + 1 < first → codec.replayWalFromOffsetMetadata store' shardId after =
          .error (.replayGap (after + 1) e.walIndex)) := by
  subst hentries
  obtain ⟨records, index, hrecords, hpublished⟩ :=
    published_publishAll hfresh hpublish ⟨hback, hshard, hnumbered⟩ hceiling hsize
  rw [← hrecords] at hshard hnumbered ⊢
  refine ⟨?_, ?_⟩
  · rw [hpublished.log]
    exact decodeWalProtoBlob_records hpublished.readable
  · intro after hafter e he
    have hne : records.flatMap entries ≠ [] := by
      intro hnil
      rw [hnil] at he
      cases he
    exact ⟨fun hfirst => hpublished.replay hnumbered hshard hne hafter hfirst,
      fun hbefore => hpublished.replay_gap hnumbered he hbefore⟩

section EngineItems

open EngineWal

def engineItemToProto (item : WalOutcomeItem) (shardId : UInt64) (length : Option ℕ)
    (key : Option String) : Except WireError V1.EngineWalItem :=
  (Codecs.itemToProto item shardId.toNat length key).mapError fun _ => .panicked

def engineItemFromProto (message : V1.EngineWalItem) (shardId : UInt64) (length : Option ℕ)
    (key : Option String) : Except WireError WalOutcomeItem :=
  (Codecs.itemFromProto message shardId.toNat length key).mapError fun _ => .panicked

/-- The results of the log are written and read by `wal_proto`. -/
structure LogCodec.EngineItems (codec : LogCodec κ WalOutcomeItem V1.EngineWalItem) : Prop where
  itemToProto : codec.itemToProto = engineItemToProto
  itemFromProto : codec.itemFromProto = engineItemFromProto

/-- An entry comes back if `wal_proto` spells the names of its results and the lengths of their
addresses as they were. -/
lemma LogCodec.EngineItems.readsBack {codec : LogCodec κ WalOutcomeItem V1.EngineWalItem}
    (h : codec.EngineItems) {entry : WalEntry κ WalOutcomeItem} (hcarries : entry.Carries)
    (hrestored : ∀ item ∈ entry.outcomes,
      restoredItem (impliedLength entry.outcomes.length entry.stagedBlocks) item = item) :
    codec.ReadsBack entry := by
  refine ⟨hcarries, fun item hitem message hmessage => ?_⟩
  rw [h.itemToProto, engineItemToProto] at hmessage
  obtain ⟨written, hwritten, rfl⟩ : ∃ written, Codecs.itemToProto item entry.shardId.toNat
      (impliedLength entry.outcomes.length entry.stagedBlocks) (codec.commandKey entry.command) =
        .ok written ∧ written = message := by
    cases hto : Codecs.itemToProto item entry.shardId.toNat
        (impliedLength entry.outcomes.length entry.stagedBlocks)
        (codec.commandKey entry.command) with
    | error fault =>
      rw [hto] at hmessage
      cases hmessage
    | ok written =>
      rw [hto] at hmessage
      exact ⟨written, rfl, Except.ok.inj hmessage⟩
  rw [h.itemFromProto, engineItemFromProto,
    Codecs.itemFromProto_itemToProto (fun _ => id) hwritten, hrestored item hitem]
  rfl

end EngineItems

namespace Plain

open EngineWal (WalOutcomeItem)

open EngineWal.V1

def stagedBlock : Layout StagedBlock :=
  (uint64.prod (byte.list.prod byte.list.option)).via
    (fun b => (b.objectId, b.bytes, b.elementName)) (fun x => ⟨x.1, x.2.1, x.2.2⟩) fun _ => rfl

def bool : Layout Bool :=
  byte.via (fun b => if b then 1 else 0) (fun x => decide (x = 1)) fun b => by cases b <;> rfl

lemma ofList_codes (s : String) :
    String.ofList ((s.toList.map Char.toNat).map Char.ofNat) = s := by
  have hcodes : Char.ofNat ∘ Char.toNat = id := funext Char.ofNat_toNat
  rw [map_map, hcodes, map_id, String.ofList_toList]

def text : Layout String :=
  nat.list.via (fun s => s.toList.map Char.toNat)
    (fun codes => String.ofList (codes.map Char.ofNat)) ofList_codes

def address : Layout WalBlockAddress :=
  (nat.prod (nat.prod (nat.prod (nat.option.prod (nat.option.prod nat.option))))).via
    (fun a => (a.blockSlabId, a.offset, a.length, a.blockId, a.objectId, a.generation))
    (fun (a, b, c, d, e, f) => ⟨a, b, c, d, e, f⟩) fun _ => rfl

def item : Layout EngineWalItem :=
  (text.option.prod (nat.option.prod (nat.option.prod (bool.prod (bool.prod (text.option.prod
    (address.option.prod (byte.list.option.prod (text.option.prod (nat.option.prod
      (nat.option.prod (nat.option.prod (bool.prod nat.option))))))))))))).via
    (fun m => (m.objectKey, m.objectId, m.ttlMs, m.deleted, m.metaLog, m.elementName, m.block,
      m.value, m.kindName, m.routingBucket, m.timestampMs, m.entryId, m.objectDeleted, m.kindCode))
    (fun (a, b, c, d, e, f, g, h, i, j, k, l, m, n) => ⟨a, b, c, d, e, f, g, h, i, j, k, l, m, n⟩)
    fun _ => rfl

def frame : Layout (WalFrameProto EngineWalItem) :=
  (uint64.prod (uint64.prod (byte.list.prod (uint64.prod
    (byte.list.prod (uint32.prod (stagedBlock.list.prod (item.list.prod
      (byte.list.prod (uint32.prod uint32)))))))))).via
    (fun m => (m.shardId, m.walIndex, m.commandPayload, m.commandByteSize, m.commandSha256,
      m.commandEncoding, m.stagedBlocks, m.items, m.commandDigest, m.frameFormat, m.commandCrc32c))
    (fun (a, b, c, d, e, f, g, h, i, j, k) => ⟨a, b, c, d, e, f, g, h, i, j, k⟩) fun _ => rfl

def batchEntry : Layout (WalBatchEntryProto EngineWalItem) :=
  (byte.list.prod (uint32.prod (uint32.prod (uint64.prod
    (stagedBlock.list.prod item.list))))).via
    (fun m => (m.commandPayload, m.commandCrc32c, m.commandEncodingPlusOne, m.walIndexPlusOne,
      m.stagedBlocks, m.items))
    (fun (a, b, c, d, e, f) => ⟨a, b, c, d, e, f⟩) fun _ => rfl

def batch : Layout (WalBatchProto EngineWalItem) :=
  (uint32.prod (uint64.prod (uint64.prod (uint32.prod
    batchEntry.list)))).via
    (fun m => (m.batchFormat, m.shardId, m.firstWalIndex, m.commandEncoding, m.entries))
    (fun (a, b, c, d, e) => ⟨a, b, c, d, e⟩) fun _ => rfl

def key : Layout ObjectKey :=
  (byte.prod (uint64.prod uint64)).via
    (fun
      | .walEntry s i => (0, s, i)
      | .walBlob s => (1, s, 0)
      | .walOffsetIndex s => (2, s, 0))
    (fun (tag, s, i) =>
      if tag = 0 then .walEntry s i else if tag = 1 then .walBlob s else .walOffsetIndex s)
    fun k => by cases k <;> rfl

def offsetMetadata : Layout WalOffsetMetadataProto :=
  (uint64.prod (uint64.prod (key.option.prod (uint64.prod (uint64.prod
    (uint64.prod (uint64.prod (uint64.prod (uint32.prod
      (uint64.prod uint64.option)))))))))).via
    (fun m => (m.shardId, m.walIndex, m.walBlobKey, m.walBlobStartOffset, m.walBlobEndOffset,
      m.walBlobBytesWritten, m.walBlobObjectLength, m.commandByteSize, m.commandEncoding,
      m.walBlobPhysicalSlabCount, m.walBlobFirstPhysicalOffset))
    (fun (a, b, c, d, e, f, g, h, i, j, k) => ⟨a, b, c, d, e, f, g, h, i, j, k⟩) fun _ => rfl

lemma offsetMetadata_length (m : WalOffsetMetadataProto) (h : m.walBlobKey = none) :
    (offsetMetadata.encode m).length < 2 ^ 32 := by
  have hkey : (key.option.encode m.walBlobKey).length = 1 := by
    rw [h]
    rfl
  have hphys : (uint64.option.encode m.walBlobFirstPhysicalOffset).length ≤ 10 := by
    cases m.walBlobFirstPhysicalOffset with
    | none => decide
    | some n =>
      change (1 :: (uint64.encode n ++ [0])).length ≤ 10
      rw [length_cons, length_append, uint64_length]
      decide
  have henc : offsetMetadata.encode m = uint64.encode m.shardId ++
      (uint64.encode m.walIndex ++ (key.option.encode m.walBlobKey ++
      (uint64.encode m.walBlobStartOffset ++ (uint64.encode m.walBlobEndOffset ++
      (uint64.encode m.walBlobBytesWritten ++ (uint64.encode m.walBlobObjectLength ++
      (uint64.encode m.commandByteSize ++ (uint32.encode m.commandEncoding ++
      (uint64.encode m.walBlobPhysicalSlabCount ++
        uint64.option.encode m.walBlobFirstPhysicalOffset))))))))) := rfl
  rw [henc]
  simp only [length_append, uint64_length, uint32_length]
  omega

/-- Commands are bytes and stand for themselves. -/
def codec : LogCodec UInt8 WalOutcomeItem EngineWalItem where
  commandPayload c := .ok [c]
  sdkCommand
    | [c] => .ok c
    | _ => .error .undecodable
  jsonCommand _ := .error .undecodable
  commandObjectKey _ := none
  itemToProto := engineItemToProto
  itemFromProto := engineItemFromProto
  sha256Hex _ := []
  frame := frame.alone .undecodable
  batch := batch.alone .undecodable
  offsetMetadata := offsetMetadata.alone .undecodable
  sdkCommand_commandPayload c payload h := by
    cases h
    rfl
  offsetMetadata_length := offsetMetadata_length

abbrev Entry := WalEntry UInt8 WalOutcomeItem

abbrev Publications := List (Publication UInt8 WalOutcomeItem)

def set (walIndex : UInt64) (command : UInt8) : Entry := ⟨7, walIndex, some command, [], []⟩

/-- A point of a feature, with the block that its address names. -/
def point (walIndex : UInt64) (name : String) : Entry :=
  ⟨7, walIndex, none, [⟨1, [5, 6], none⟩],
    [⟨"feature", "k", some name, EngineWal.stableBlockObjectId 7 "feature" "k", 3,
      some ⟨2, 9, 14, some 4, true⟩, none, none, false, false⟩]⟩

/-- A batch of two in a container, then a frame of the oldest format with results only. -/
def mixed : Publications :=
  [.batch ⟨frameFormatNoSize, true⟩ [set 1 10, set 2 20],
    .entry ⟨frameFormatHexDigest, false⟩ (point 3 "30")]

def published (publications : Publications) : ObjectStore :=
  match publishAll codec [] publications with
  | .ok store => store
  | .error _ => []

lemma publishAll_mixed : publishAll codec [] mixed = .ok (published mixed) := by
  decide +kernel

/-- The entries of `mixed` with the formats they would be framed in. -/
def framed : List (Entry × UInt32) :=
  [(set 1 10, frameFormatNoSize), (set 2 20, frameFormatNoSize),
    (point 3 "30", frameFormatHexDigest)]

lemma underCeiling_framed : ∀ x ∈ framed, ∀ frame,
    codec.encodeWalProtoFrame x.1 x.2 = .ok frame → frame.length < 4 + frameLengthCeiling := by
  intro x hx frame hfr
  have hall : framed.all (fun x => (codec.encodeWalProtoFrame x.1 x.2).toOption.all
      fun frame => frame.length < 4 + frameLengthCeiling) = true := by
    decide +kernel
  have h := all_eq_true.mp hall x hx
  rw [hfr] at h
  exact of_decide_eq_true h

lemma underCeiling_mixed : ∀ p ∈ mixed, p.UnderCeiling codec := by
  have hframed := @underCeiling_framed
  simp only [framed, forall_mem_cons] at hframed
  obtain ⟨hone, htwo, hthree, -⟩ := hframed
  refine forall_mem_cons.mpr ⟨fun _ => ?_, forall_mem_singleton.mpr hthree⟩
  exact forall_mem_cons.mpr ⟨hone, forall_mem_singleton.mpr htwo⟩

lemma readsBack_mixed : ∀ e ∈ mixed.flatMap Publication.entries, codec.ReadsBack e := by
  have hitems : codec.EngineItems := ⟨rfl, rfl⟩
  have hset (walIndex : UInt64) (command : UInt8) : codec.ReadsBack (set walIndex command) :=
    hitems.readsBack (.inl nofun) nofun
  have hpoint : codec.ReadsBack (point 3 "30") :=
    hitems.readsBack (.inr nofun) (forall_mem_singleton.mpr (by decide +kernel))
  exact forall_mem_cons.mpr ⟨hset 1 10,
    forall_mem_cons.mpr ⟨hset 2 20, forall_mem_singleton.mpr hpoint⟩⟩

/-- The first entry of the log has the index 5. -/
def late : Publications := [.entry ⟨frameFormatNoSize, false⟩ (set 5 50)]

def silent : Publications := [.entry ⟨frameFormatNoSize, false⟩ ⟨7, 1, none, [], []⟩]

/-- The point is named by a number with leading zeros. -/
def padded : Publications := [.entry ⟨frameFormatNoSize, false⟩ (point 1 "007")]

end Plain

theorem replayWalFromOffsetMetadata_published_mixed :
    ∃ d, Plain.codec.replayWalFromOffsetMetadata (Plain.published Plain.mixed) 7 1 = .ok (some d) ∧
      d.delivered.flatten = [(2, Plain.set 2 20), (3, Plain.point 3 "30")] := by
  have hnumbered : Numbered (fun e : Plain.Entry => e.walIndex.toNat) 1
      (Plain.mixed.flatMap Publication.entries) := rfl
  exact ((replayWalFromOffsetMetadata_published Plain.codec rfl ⟨rfl, rfl, by simp⟩
    Plain.publishAll_mixed (by decide) hnumbered Plain.readsBack_mixed Plain.underCeiling_mixed
    (by decide +kernel)).2 1 (by decide) _ rfl).1 (by decide)

/-- A replay from two positions before the first entry of a log is refused, one from the largest
position starts over, an entry that says nothing is published but not read, and a number with
leading zeros loses them. -/
theorem not_delivered_published :
    publishAll Plain.codec [] Plain.late = .ok (Plain.published Plain.late) ∧
      Plain.codec.replayWalFromOffsetMetadata (Plain.published Plain.late) 7 0 =
        .error (.replayGap 1 5) ∧
      Plain.codec.replayWalFromOffsetMetadata (Plain.published Plain.late) 7 0xffffffffffffffff =
        .error (.replayGap 0 5) ∧
      publishAll Plain.codec [] Plain.silent = .ok (Plain.published Plain.silent) ∧
      Plain.codec.replayWalFromOffsetMetadata (Plain.published Plain.silent) 7 0 =
        .error .undecodable ∧
      publishAll Plain.codec [] Plain.padded = .ok (Plain.published Plain.padded) ∧
      Plain.codec.decodeWalProtoBlob (((Plain.published Plain.padded).get (.walBlob 7)).getD []) =
        .ok [Plain.point 1 "7"] := by
  decide +kernel

end TemporalStore.Shared.Wire
