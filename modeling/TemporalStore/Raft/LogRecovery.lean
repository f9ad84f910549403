import TemporalStore.Lib.Numbered
import TemporalStore.Raft.LocalWal

namespace TemporalStore.Raft.LocalWal

open Lib List NodeFiles WalRecord NodeLog Bool

variable {μ τ σ : Type}

/-- Equal but for the telemetry. -/
structure WalRecord.SameDurable (record record' : WalRecord μ τ σ) : Prop where
  hardState : record.hardState = record'.hardState
  membership : record.membership = record'.membership
  installedSnapshot : record.installedSnapshot = record'.installedSnapshot
  entries : record.entries = record'.entries

/-- What decides whether a record is written, without the hash. -/
structure DurableFingerprint (μ : Type) where
  hardState : RaftHardState
  membership : μ
  installedSnapshot : Option RaftSnapshot
  entriesLen : ℕ
  ends : List (ℕ × ℕ)
  deriving DecidableEq

def durableFingerprint (record : RaftWalRecord μ τ) : DurableFingerprint μ :=
  ⟨record.hardState, record.membership, record.installedSnapshot, record.entries.length,
    (record.entries.head?.toList ++ record.entries.getLast?.toList).map fun e => (e.index, e.term)⟩

structure PersistedLog (μ τ : Type) where
  log : NodeLog μ τ
  lastDurableFingerprint : Option (DurableFingerprint μ)

def PersistedLog.empty : PersistedLog μ τ := ⟨⟨⟨[], fun _ => none⟩, none⟩, none⟩

/-- Raft hands a record over, or the process starts again. -/
inductive LogEvent (μ τ : Type) where
  | persist (record : RaftWalRecord μ τ)
  | reopen

def handedOver (events : List (LogEvent μ τ)) : List (RaftWalRecord μ τ) :=
  events.filterMap fun
    | .persist record => some record
    | .reopen => none

section

variable [DecidableEq μ] [DecidableEq τ] [Inhabited τ]

/-- One node's turn of `stage_configured_wal`, with its barrier. -/
def PersistedLog.persist (settings : LogSettings μ τ) (s : PersistedLog μ τ)
    (record : RaftWalRecord μ τ) : PersistedLog μ τ :=
  if s.lastDurableFingerprint = some (durableFingerprint record) then s
  else
    let (log, staged) := s.log.stageNodeSegmented settings record
    ⟨log.finishStaged staged, some (durableFingerprint record)⟩

def PersistedLog.step (settings : LogSettings μ τ) (s : PersistedLog μ τ) :
    LogEvent μ τ → PersistedLog μ τ
  | .persist record => s.persist settings record
  | .reopen => ⟨⟨s.log.files, none⟩, none⟩

def PersistedLog.run (settings : LogSettings μ τ) (s : PersistedLog μ τ)
    (events : List (LogEvent μ τ)) : PersistedLog μ τ :=
  events.foldl (step settings) s

end

/-- How a record follows one that was handed over before it. A node does not lose its snapshot, and
has one snapshot for a boundary. Logs that agree at an index agree below it, and a log that still
has the end of the earlier one does not start before it. -/
structure Follows (record later : RaftWalRecord μ τ) : Prop where
  marker : record.installedSnapshot.isSome → later.installedSnapshot.isSome
  snapshot : ∀ s ∈ record.installedSnapshot, ∀ s' ∈ later.installedSnapshot,
    s.lastIncludedIndex = s'.lastIncludedIndex → s = s'
  entries : ∀ e ∈ record.entries, ∀ e' ∈ later.entries, e.index = e'.index → e.term = e'.term →
    ∀ f ∈ record.entries, ∀ f' ∈ later.entries, f.index = f'.index → f.index ≤ e.index → f = f'
  start : ∀ e ∈ record.entries.getLast?, ∀ e' ∈ later.entries, e.index = e'.index →
    e.term = e'.term → record.logFirstIndex ≤ later.logFirstIndex

def Consecutive (entries : List RaftLogEntry) : Prop := ∃ start, Numbered (·.index) start entries

lemma logFirstIndex_eq {record : WalRecord μ τ σ} {start : ℕ}
    (h : Numbered (·.index) start record.entries) (hne : record.entries ≠ []) :
    record.logFirstIndex = start := by
  unfold logFirstIndex
  cases hhead : record.entries.head? with
  | none => exact absurd (head?_eq_none_iff.mp hhead) hne
  | some e => exact h.key_head hhead

variable {record later : RaftWalRecord μ τ}

section

variable (hfollows : Follows record later) (hrec : Consecutive record.entries)
    (hlater : Consecutive later.entries)
include hfollows hrec hlater

lemma fold_entries {last : RaftLogEntry}
    (hlast : record.entries.getLast? = some last) {entry : RaftLogEntry}
    (hent : entry ∈ later.entries) (hidx : last.index = entry.index)
    (hterm : last.term = entry.term) : (record.entries.takeWhile (·.index ≤ last.index) ++
        later.entries.dropWhile (·.index ≤ last.index)).dropWhile
      (·.index < later.logFirstIndex) = later.entries := by
  obtain ⟨start, hnum⟩ := hrec
  obtain ⟨start', hnum'⟩ := hlater
  have hmem : last ∈ record.entries := mem_of_getLast? hlast
  have hend := hnum.key_getLast hlast
  have hent' := hnum'.key_of_mem hent
  have hfirst := logFirstIndex_eq hnum (ne_nil_of_mem hmem)
  have hfirst' := logFirstIndex_eq hnum' (ne_nil_of_mem hent)
  have hstart : start ≤ start' := by
    rw [← hfirst, ← hfirst']
    exact hfollows.start last hlast entry hent hidx hterm
  -- the part the two logs share, read off each of them
  have hshared : record.entries.drop (start' - start) =
      later.entries.take (last.index + 1 - start') := by
    have hnumberedDrop := hnum.drop (start' - start)
    rw [Nat.add_sub_cancel' hstart] at hnumberedDrop
    apply hnumberedDrop.ext (hnum'.take _)
    · rw [length_drop, length_take]
      omega
    · intro f hf f' hf' heq
      have hf'' := mem_of_mem_take hf'
      refine hfollows.entries last hmem entry hent hidx hterm f (mem_of_mem_drop hf) f' hf'' heq ?_
      have := hnum.key_of_mem (mem_of_mem_drop hf)
      omega
  have hkept : record.entries.takeWhile (·.index ≤ last.index) = record.entries := by
    rw [hnum.takeWhile, take_of_length_le]
    omega
  have hne : (record.entries.drop (start' - start)).isEmpty = false := by
    rw [isEmpty_eq_false_iff, ne_eq, drop_eq_nil_iff]
    omega
  rw [hkept, hfirst', dropWhile_append, hnum.dropWhile, hne, if_neg Bool.false_ne_true,
    hshared, ← hnum'.takeWhile, takeWhile_append_dropWhile]

lemma sameDurable_of_fingerprint
    (h : durableFingerprint record = durableFingerprint later) : record.SameDurable later := by
  unfold durableFingerprint at h
  rw [DurableFingerprint.mk.injEq] at h
  obtain ⟨hhard, hmemb, hsnapshot, hleng, hends⟩ := h
  refine ⟨hhard, hmemb, hsnapshot, ?_⟩
  obtain ⟨start, hnum⟩ := hrec
  obtain ⟨start', hnum'⟩ := hlater
  cases hlast : record.entries.getLast? with
  | none =>
    have hnil := getLast?_eq_none_iff.mp hlast
    rw [hnil] at hleng ⊢
    exact (length_eq_zero_iff.mp hleng.symm).symm
  | some e =>
    cases hlast' : later.entries.getLast? with
    | none =>
      have hnil := getLast?_eq_none_iff.mp hlast'
      rw [hnil] at hleng ⊢
      exact length_eq_zero_iff.mp hleng
    | some e' =>
      -- the ends agree in index and term, so the logs agree below
      have hend : (e.index, e.term) = (e'.index, e'.term) := by
        rw [hlast, hlast', map_append, map_append] at hends
        exact cons.inj (append_inj_right' hends rfl) |>.1
      have hidx := congrArg Prod.fst hend
      have hkey := hnum.key_getLast hlast
      have hkey' := hnum'.key_getLast hlast'
      have hstart : start = start' := by omega
      subst hstart
      apply hnum.ext hnum' hleng
      intro f hf f' hf' heq
      refine hfollows.entries e (mem_of_getLast? hlast) e' (mem_of_getLast? hlast')
        hidx (congrArg Prod.snd hend) f hf f' hf' heq ?_
      have := hnum.key_of_mem hf
      omega

end

def allEnvelopes (segments : List (Segment μ τ)) : List (RaftWalEnvelope μ τ) :=
  segments.flatMap (·.envelopes)

variable {segments : List (Segment μ τ)} {id : ℕ}

lemma appendEnvelope_new (h : ∀ segment, segments.getLast? = some segment → segment.id ≠ id)
    (envelope : RaftWalEnvelope μ τ) :
    appendEnvelope segments id envelope = segments ++ [⟨id, [envelope], false⟩] := by
  unfold appendEnvelope
  split
  · rename_i segment hlast
    exact if_neg (h segment hlast)
  · rename_i hlast
    rw [getLast?_eq_none_iff.mp hlast]
    rfl

lemma appendEnvelope_last {segment : Segment μ τ} (h : segments.getLast? = some segment)
    (envelope : RaftWalEnvelope μ τ) : appendEnvelope segments segment.id envelope =
      segments.dropLast ++ [{ segment with envelopes := segment.envelopes ++ [envelope] }] := by
  unfold appendEnvelope
  rw [h]
  exact if_pos rfl

section

variable (segments : List (Segment μ τ)) (id : ℕ) (envelope : RaftWalEnvelope μ τ)

lemma appendEnvelope_cases :
    (∃ rest last, segments = rest ++ [last] ∧ appendEnvelope segments id envelope =
        rest ++ [{ last with envelopes := last.envelopes ++ [envelope] }]) ∨
      segments.getLast?.map (·.id) ≠ some id ∧
        appendEnvelope segments id envelope = segments ++ [⟨id, [envelope], false⟩] := by
  by_cases hid : segments.getLast?.map (·.id) = some id
  · obtain ⟨last, hlast, rfl⟩ := Option.map_eq_some_iff.mp hid
    obtain ⟨rest, rfl⟩ := getLast?_eq_some_iff.mp hlast
    exact .inl ⟨rest, last, rfl, by rw [appendEnvelope_last hlast, dropLast_concat]⟩
  · refine .inr ⟨hid, appendEnvelope_new ?_ envelope⟩
    intro segment hlast heq
    exact hid (by rw [hlast, ← heq]; rfl)

lemma allEnvelopes_appendEnvelope :
    allEnvelopes (appendEnvelope segments id envelope) = allEnvelopes segments ++ [envelope] := by
  rcases appendEnvelope_cases segments id envelope with ⟨rest, last, rfl, heq⟩ | ⟨-, heq⟩
  all_goals simp [heq, allEnvelopes]

end

/-- A segment without torn bytes that opens with a whole record. -/
structure Segment.Opened (segment : Segment μ τ) : Prop where
  untorn : segment.torn = false
  base : ∃ envelope rest, segment.envelopes = envelope :: rest ∧ envelope.delta = none

lemma opened_appendEnvelope {envelope : RaftWalEnvelope μ τ}
    (h : ∀ segment ∈ segments, segment.Opened)
    (hbase : envelope.delta = none ∨ segments.getLast?.map (·.id) = some id) :
    ∀ segment ∈ appendEnvelope segments id envelope, segment.Opened := by
  rcases appendEnvelope_cases segments id envelope with ⟨rest, last, rfl, heq⟩ | ⟨hid, heq⟩
  · rw [forall_mem_append, forall_mem_singleton] at h
    rw [heq, forall_mem_append, forall_mem_singleton]
    obtain ⟨hrest, huntorn, first, others, hfirst, hdelta⟩ := h
    exact ⟨hrest, huntorn, first, others ++ [envelope], by simp [hfirst], hdelta⟩
  · rw [heq, forall_mem_append, forall_mem_singleton]
    exact ⟨h, rfl, envelope, [], rfl, hbase.resolve_right hid⟩

section

variable [DecidableEq τ] [Inhabited τ]

lemma foldEnvelopes_append (last : Option (StoredRecord μ τ))
    (envelopes rest : List (RaftWalEnvelope μ τ)) :
    foldEnvelopes last (envelopes ++ rest) = foldEnvelopes (foldEnvelopes last envelopes) rest :=
  foldl_append

lemma foldEnvelopes_base (last : Option (StoredRecord μ τ))
    {envelope : RaftWalEnvelope μ τ} (h : envelope.delta = none)
    (rest : List (RaftWalEnvelope μ τ)) :
    foldEnvelopes last (envelope :: rest) = foldEnvelopes none (envelope :: rest) := by
  have hfold : ∀ last, foldEnvelope last envelope = envelope.record := by
    intro last
    unfold foldEnvelope
    rw [h]
  unfold foldEnvelopes
  rw [foldl_cons, foldl_cons, hfold, hfold]

variable {segments : List (Segment μ τ)}

section

variable (h : ∀ segment ∈ segments, segment.Opened)
include h

lemma scanSegments_of_opened (last : Option (StoredRecord μ τ)) :
    scanSegments last segments = (foldEnvelopes last (allEnvelopes segments), segments) := by
  induction segments generalizing last with
  | nil => rfl
  | cons segment segments ih =>
    unfold scanSegments
    rw [(h segment mem_cons_self).untorn, if_neg Bool.false_ne_true,
      ih fun other hother => h other (mem_cons_of_mem _ hother)]
    unfold allEnvelopes
    rw [flatMap_cons, foldEnvelopes_append]

/-- Whatever is read of the segments that are left, those that are dropped do not change it. -/
lemma foldEnvelopes_take_drop {remove n : ℕ} (hremove : remove < segments.length) (hn : 0 < n) :
    foldEnvelopes none ((allEnvelopes (segments.drop remove)).take n) =
      foldEnvelopes none ((allEnvelopes segments).take
        ((allEnvelopes (segments.take remove)).length + n)) := by
  have hsplit : allEnvelopes segments =
      allEnvelopes (segments.take remove) ++ allEnvelopes (segments.drop remove) := by
    unfold allEnvelopes
    rw [← flatMap_append, take_append_drop]
  rw [hsplit, take_length_add_append, foldEnvelopes_append]
  cases hdrop : segments.drop remove with
  | nil =>
    rw [drop_eq_nil_iff] at hdrop
    omega
  | cons first others =>
    have hmem : first ∈ segments.drop remove := hdrop ▸ mem_cons_self
    obtain ⟨envelope, rest, heq, hdelta⟩ := (h first (mem_of_mem_drop hmem)).base
    obtain ⟨n, rfl⟩ := Nat.exists_eq_succ_of_ne_zero (Nat.ne_of_gt hn)
    have hopen : (allEnvelopes (first :: others)).take (n + 1) =
        envelope :: (rest ++ allEnvelopes others).take n := by
      unfold allEnvelopes
      rw [flatMap_cons, heq, cons_append, take_succ_cons]
    rw [hopen]
    exact (foldEnvelopes_base _ hdelta _).symm

lemma foldEnvelopes_drop {remove : ℕ} (hremove : remove < segments.length) :
    foldEnvelopes none (allEnvelopes (segments.drop remove)) =
      foldEnvelopes none (allEnvelopes segments) := by
  have hlen := congrArg (fun l => (allEnvelopes l).length) (take_append_drop remove segments)
  dsimp only [allEnvelopes] at hlen
  rw [flatMap_append, length_append] at hlen
  have hall :=
    foldEnvelopes_take_drop h hremove (n := (allEnvelopes segments).length + 1) (by omega)
  rwa [take_of_length_le (by unfold allEnvelopes; omega), take_of_length_le (by omega)] at hall

end

end

lemma markerIndex_stored (record : RaftWalRecord μ τ) :
    record.stored.markerIndex = record.installedSnapshot.map (·.lastIncludedIndex) := by
  unfold markerIndex stored
  rw [Option.map_map]
  congr 1
  funext snapshot
  simp only [Function.comp_apply, storeSnapshot]
  split <;> rfl

/-- The cursor counts the segments and knows the last of them. -/
structure CursorShape (segments : List (Segment μ τ)) (cursor : NodeWalCursor) : Prop where
  length : cursor.segments.length = segments.length
  lastId : cursor.segments.getLast?.map (·.1) = segments.getLast?.map (·.id)
  base : cursor.hasBase = true → segments ≠ []

/-- The cursor speaks of the record written last. -/
structure CursorOf (last : Option (RaftWalRecord μ τ)) (cursor : NodeWalCursor) : Prop where
  marker : cursor.persistedMarkerIndex = last.bind (·.stored.markerIndex)
  based : cursor.hasBase = true → ∃ record, last = some record ∧
    cursor.persistedLastIndex = record.logLastIndex ∧ cursor.persistedLastTerm = record.logLastTerm

lemma CursorOf.of_deltaSafe {last : Option (RaftWalRecord μ τ)} {cursor : NodeWalCursor}
    (h : CursorOf last cursor) {later : StoredRecord μ τ} (hsafe : cursor.deltaSafe later = true) :
    ∃ record e e', last = some record ∧ record.entries.getLast? = some e ∧
      cursor.persistedLastIndex = e.index ∧ e' ∈ later.entries ∧ e.index = e'.index ∧
      e.term = e'.term := by
  unfold NodeWalCursor.deltaSafe at hsafe
  simp only [and_eq_true, decide_eq_true_eq, any_eq_true, beq_iff_eq] at hsafe
  obtain ⟨⟨⟨⟨⟨hbase, hpos⟩, -⟩, -⟩, -⟩, e', hmem, hidx', hterm'⟩ := hsafe
  obtain ⟨record, hrec, hidx, hterm⟩ := h.based hbase
  unfold logLastIndex at hidx
  unfold logLastTerm at hterm
  cases hlast : record.entries.getLast? with
  | none =>
    rw [hlast, Option.map_none, Option.getD_none] at hidx
    omega
  | some e =>
    rw [hlast] at hidx hterm
    exact ⟨record, e, e', hrec, hlast, hidx, hmem, hidx.symm.trans hidx'.symm,
      hterm.symm.trans hterm'.symm⟩

section

variable [DecidableEq τ] [Inhabited τ]

/-- Folding what is written onto what the log holds gives the record that was handed over. -/
lemma CursorOf.sameDurable_fold {last : Option (RaftWalRecord μ τ)}
    {cursor : NodeWalCursor} (h : CursorOf last cursor) {before : Option (StoredRecord μ τ)}
    (hbef : ∀ record, last = some record → ∃ x, before = some x ∧ x.SameDurable record.stored)
    {later : RaftWalRecord μ τ} (hfollows : ∀ record, last = some record →
      Follows record later ∧ Consecutive record.entries)
    (hlater : Consecutive later.entries) {asDelta : Bool}
    (hdelta : asDelta = true → cursor.deltaSafe later.stored = true) :
    (foldEnvelope before (cursor.encode later.stored asDelta)).SameDurable later.stored := by
  cases asDelta with
  | false => exact ⟨rfl, rfl, rfl, rfl⟩
  | true =>
    obtain ⟨record, e, e', rfl, hlast, hfrom, hmem, hidx, hterm⟩ := h.of_deltaSafe (hdelta rfl)
    obtain ⟨x, rfl, hsame⟩ := hbef record rfl
    obtain ⟨hfollows, hrec⟩ := hfollows record rfl
    refine ⟨rfl, rfl, ?_, ?_⟩
    · -- the marker: omitted where it did not change
      have hmarker := h.marker
      simp only [NodeWalCursor.encode, if_true, foldEnvelope, Option.bind_some,
        hsame.installedSnapshot, hmarker, markerIndex_stored]
      cases hs : record.installedSnapshot with
      | none =>
        rw [if_neg (by simp)]
        simp only [stored, hs, Option.map_none, Option.or_none]
      | some snapshot =>
        obtain ⟨snapshot', hs'⟩ := Option.isSome_iff_exists.mp (hfollows.marker (by rw [hs]; rfl))
        simp only [stored, hs, hs', Option.map_some]
        split
        · rename_i heq
          have hbnd := Option.some.inj heq.1
          rw [hfollows.snapshot snapshot hs snapshot' hs' hbnd.symm]
          rfl
        · rfl
    · have hents := fold_entries hfollows hrec hlater hlast hmem hidx hterm
      simp only [NodeWalCursor.encode, if_true, foldEnvelope, Option.map_some, Option.getD_some,
        hsame.entries, hfrom]
      exact hents

end

variable {segment : Segment μ τ}

lemma ids_concat (h : segments.Pairwise (·.id < ·.id)) {new : Segment μ τ}
    (hnew : ∀ segment, segments.getLast? = some segment → segment.id < new.id) :
    (segments ++ [new]).Pairwise (·.id < ·.id) := by
  rw [← pairwise_map (R := (· < ·)), ← isChain_iff_pairwise] at h ⊢
  rw [map_append, isChain_append]
  refine ⟨h, isChain_singleton _, ?_⟩
  simpa [getLast?_map] using hnew

lemma ids_appendEnvelope_last (h : segments.Pairwise (·.id < ·.id))
    (hlast : segments.getLast? = some segment) (envelope : RaftWalEnvelope μ τ) :
    (appendEnvelope segments segment.id envelope).Pairwise (·.id < ·.id) := by
  rw [appendEnvelope_last hlast]
  obtain ⟨rest, rfl⟩ := getLast?_eq_some_iff.mp hlast
  rw [dropLast_concat, ← pairwise_map (R := (· < ·)), map_append]
  rwa [← pairwise_map (R := (· < ·)), map_append] at h

variable {last : Option (RaftWalRecord μ τ)} {cursor : NodeWalCursor}
  {files : NodeFiles μ τ} {staged : StagedWalAppend} {record' : RaftWalRecord μ τ}

/-- The images come from records that were handed over, and the last of them has its own. -/
structure ImagesOf (images : ℕ → Option (List UInt8)) (handed : List (RaftWalRecord μ τ))
    (last : Option (RaftWalRecord μ τ)) : Prop where
  handed : ∀ index image, images index = some image →
    ∃ record ∈ handed, record.image = some (index, image)
  last : ∀ record index image, last = some record → record.image = some (index, image) →
    images index = some image

lemma image_eq_some_iff {index : ℕ} {image : List UInt8} :
    record.image = some (index, image) ↔ ∃ snapshot, record.installedSnapshot = some snapshot ∧
      snapshot.lastIncludedIndex = index ∧ snapshot.stateImage = some image := by
  unfold WalRecord.image
  cases record.installedSnapshot <;> simp [And.comm]

lemma Follows.image_eq {later : RaftWalRecord μ τ} (h : Follows record later) {index : ℕ}
    {image image' : List UInt8} (himg : record.image = some (index, image))
    (himg' : later.image = some (index, image')) : image = image' := by
  obtain ⟨s, hs, hidx, hstate⟩ := image_eq_some_iff.mp himg
  obtain ⟨s', hs', hidx', hstate'⟩ := image_eq_some_iff.mp himg'
  rw [h.snapshot s hs s' hs' (hidx.trans hidx'.symm), hstate'] at hstate
  exact (Option.some.inj hstate).symm

lemma segments_externalize (files : NodeFiles μ τ) (record : RaftWalRecord μ τ) :
    (files.externalizeStateImage record).segments = files.segments := by
  unfold externalizeStateImage
  split
  · rfl
  · split <;> rfl

lemma ImagesOf.externalize {handed : List (RaftWalRecord μ τ)}
    (h : ImagesOf files.images handed last) (hfollows : ∀ before ∈ handed, Follows before record) :
    ImagesOf (files.externalizeStateImage record).images (handed ++ [record]) (some record) := by
  have hold : ∀ index image, files.images index = some image →
      ∃ before ∈ handed ++ [record], before.image = some (index, image) := by
    intro index image himg
    obtain ⟨before, hmem, heq⟩ := h.handed index image himg
    exact ⟨before, mem_append_left _ hmem, heq⟩
  unfold externalizeStateImage
  split
  · rename_i hnone
    refine ⟨hold, ?_⟩
    rintro _ index image ⟨⟩ himg
    rw [hnone] at himg
    cases himg
  · rename_i index image hsome
    split
    · -- the file exists, with the image of a record of the same boundary
      rename_i hexists
      refine ⟨hold, ?_⟩
      rintro _ index' image' ⟨⟩ himg
      rw [hsome] at himg
      cases himg
      obtain ⟨image', himg'⟩ := Option.isSome_iff_exists.mp hexists
      obtain ⟨before, hmem, hbef⟩ := h.handed index image' himg'
      rw [himg', (hfollows before hmem).image_eq hbef hsome]
    · refine ⟨?_, ?_⟩
      · intro index' image' himg
        unfold pruneImages writeImage at himg
        dsimp only at himg
        split at himg
        · cases himg
        · by_cases heq : index' = index
          · subst heq
            rw [Function.update_self] at himg
            cases himg
            exact ⟨record, mem_append_right _ (mem_singleton_self _), hsome⟩
          · rw [Function.update_of_ne heq] at himg
            exact hold index' image' himg
      · rintro _ index' image' ⟨⟩ himg
        rw [hsome] at himg
        cases himg
        unfold pruneImages writeImage
        dsimp only
        rw [if_neg (Nat.lt_irrefl _), Function.update_self]

lemma removable_lt (hkeep : 1 ≤ staged.minKeepSegments) (hpos : 0 < cursor.segments.length) :
    cursor.removable staged < cursor.segments.length := by
  unfold NodeWalCursor.removable
  dsimp only
  split <;> omega

lemma WalRecord.SameDurable.stored (h : record.SameDurable record') :
    record.stored.SameDurable record'.stored :=
  ⟨h.hardState, h.membership, congrArg (Option.map storeSnapshot) h.installedSnapshot, h.entries⟩

lemma WalRecord.SameDurable.trans {a b c : WalRecord μ τ σ} (h : a.SameDurable b)
    (h' : b.SameDurable c) : a.SameDurable c :=
  ⟨h.hardState.trans h'.hardState, h.membership.trans h'.membership,
    h.installedSnapshot.trans h'.installedSnapshot, h.entries.trans h'.entries⟩

/-- Where a record goes: to the last segment, or as a whole record to a new one behind it. -/
def Placement.FitsTo (placement : Placement μ τ) (segments : List (Segment μ τ)) : Prop :=
  (placement.rotate = false ∧ ∃ segment, segments.getLast? = some segment ∧
      placement.segmentId = segment.id) ∨
    (placement.envelope.delta = none ∧
      (∀ segment, segments.getLast? = some segment → segment.id < placement.segmentId) ∧
      (placement.rotate = true ∨ segments = []))

lemma CursorOf.appended (h : CursorOf last cursor) (settings : LogSettings μ τ)
    (hmarker : ∀ before, last = some before → Follows before record) (placement : Placement μ τ) :
    CursorOf (some record) (cursor.appended settings record.stored placement) := by
  refine ⟨?_, fun _ => ⟨record, rfl, rfl, rfl⟩⟩
  change record.stored.markerIndex.or cursor.persistedMarkerIndex = record.stored.markerIndex
  rw [h.marker]
  cases hlast : last with
  | none => exact Option.or_none
  | some before =>
    rw [Option.bind_some, markerIndex_stored, markerIndex_stored]
    -- a node that had a snapshot has one
    cases hs : before.installedSnapshot with
    | none => exact Option.or_none
    | some snapshot =>
      obtain ⟨snapshot', hs'⟩ := Option.isSome_iff_exists.mp
        ((hmarker before hlast).marker (by rw [hs]; rfl))
      rw [hs']
      rfl

lemma CursorShape.appended (h : CursorShape segments cursor) (settings : LogSettings μ τ)
    (record : StoredRecord μ τ) {placement : Placement μ τ} (hfits : placement.FitsTo segments) :
    CursorShape (appendEnvelope segments placement.segmentId placement.envelope)
      (cursor.appended settings record placement) := by
  have hsizes : (cursor.segments = [] ↔ segments = []) := by
    rw [← length_eq_zero_iff, ← length_eq_zero_iff, h.length]
  rcases hfits with ⟨hrot, segment, hlast, hid⟩ | ⟨-, hnew, hrot⟩
  · obtain ⟨sizes, ⟨lastId, lastSize⟩, hcur⟩ :
        ∃ sizes lastSize, cursor.segments = sizes ++ [lastSize] := by
      have hne : cursor.segments ≠ [] := by
        rw [ne_eq, hsizes]
        rintro rfl
        cases hlast
      exact ⟨_, _, (dropLast_append_getLast hne).symm⟩
    have hsame := h.lastId
    have hleng := h.length
    rw [hcur, hlast, getLast?_concat, Option.map_some, Option.map_some, Option.some.injEq] at hsame
    rw [hcur, length_append, length_singleton] at hleng
    rw [hid, appendEnvelope_last hlast]
    refine ⟨?_, ?_, fun _ => by simp⟩
    · simp only [NodeWalCursor.appended, appendSize, hcur, getLast?_concat, hrot, false_eq_true,
        if_false, dropLast_concat, length_append, length_singleton, length_dropLast]
      omega
    · simp only [NodeWalCursor.appended, appendSize, hcur, getLast?_concat, hrot,
        false_eq_true, if_false, Option.map_some]
      exact congrArg some hsame
  · rw [appendEnvelope_new fun segment hlast => Nat.ne_of_lt (hnew segment hlast)]
    have hsize : (cursor.appended settings record placement).segments =
        cursor.segments ++ [(placement.segmentId, settings.size placement.envelope)] := by
      simp only [NodeWalCursor.appended, appendSize]
      rcases hrot with hrot | hnil
      · split
        · rw [hrot, if_pos rfl]
        · rename_i hlast
          rw [getLast?_eq_none_iff.mp hlast]
          rfl
      · rw [hsizes.mpr hnil]
        rfl
    refine ⟨?_, ?_, fun _ => by simp⟩
    · rw [hsize, length_append, length_append, h.length]
      rfl
    · rw [hsize, getLast?_concat, getLast?_concat]
      rfl

/-- Every segment opens with a whole record and none is torn, the images lie in files of their own,
and the cursor is that of the segments. -/
structure Shaped (log : NodeLog μ τ) : Prop where
  opened : ∀ segment ∈ log.files.segments, segment.Opened
  ids : log.files.segments.Pairwise (·.id < ·.id)
  stored : ∀ envelope ∈ allEnvelopes log.files.segments,
    ∀ snapshot ∈ envelope.record.installedSnapshot, ∃ whole, snapshot = storeSnapshot whole
  shape : ∀ cursor, log.cursor = some cursor → CursorShape log.files.segments cursor

section

variable {log : NodeLog μ τ} (h : Shaped log)
include h

lemma Shaped.externalize (record : RaftWalRecord μ τ) :
    Shaped ⟨log.files.externalizeStateImage record, log.cursor⟩ := by
  refine ⟨?_, ?_, ?_, ?_⟩ <;> dsimp only <;> rw [segments_externalize]
  exacts [h.opened, h.ids, h.stored, h.shape]

lemma Shaped.untorn : ∀ segment ∈ log.files.segments.dropLast, segment.torn = false :=
  fun segment hseg => (h.opened segment (dropLast_subset _ hseg)).untorn

lemma Shaped.finish {staged : StagedWalAppend} (hkeep : 1 ≤ staged.minKeepSegments) :
    Shaped (log.finishStaged staged) := by
  unfold finishStaged
  split
  · exact h
  · rename_i cursor hcur
    have hshape := h.shape cursor hcur
    refine ⟨fun segment hseg => h.opened segment (mem_of_mem_drop hseg),
      h.ids.sublist (drop_sublist _ _), fun envelope henv => ?_, ?_⟩
    · obtain ⟨segment, hseg, henv⟩ := mem_flatMap.mp henv
      exact h.stored envelope (mem_flatMap.mpr ⟨segment, mem_of_mem_drop hseg, henv⟩)
    · rintro _ ⟨⟩
      have hlen := hshape.length
      by_cases hpos : 0 < cursor.segments.length
      · have hlt := removable_lt hkeep hpos
        refine ⟨?_, ?_, fun _ hnil => ?_⟩
        · rw [length_drop, length_drop, hlen]
        · rw [getLast?_drop, if_neg (by omega), getLast?_drop, if_neg (by omega), hshape.lastId]
        · rw [drop_eq_nil_iff] at hnil
          omega
      · have hnil : cursor.segments = [] := length_eq_zero_iff.mp (by omega)
        have hnil' : log.files.segments = [] := length_eq_zero_iff.mp (by omega)
        refine ⟨by simp [hnil, hnil'], by simp [hnil, hnil'], fun hbase => ?_⟩
        exact absurd hnil' (hshape.base hbase)

end

section

variable [Inhabited τ]

lemma CursorShape.fitsTo_place (h : CursorShape segments cursor) (settings : LogSettings μ τ)
    (record : StoredRecord μ τ) : (cursor.place settings record).FitsTo segments := by
  unfold Placement.FitsTo
  cases hlast : segments.getLast? with
  | none =>
    -- the first record of the log
    have hnil := getLast?_eq_none_iff.mp hlast
    have hunsafe : cursor.deltaSafe record = false := by
      rw [eq_false_iff]
      intro hsafe
      unfold NodeWalCursor.deltaSafe at hsafe
      simp only [and_eq_true] at hsafe
      exact h.base hsafe.1.1.1.1.1 hnil
    refine .inr ⟨?_, nofun, .inr hnil⟩
    simp only [NodeWalCursor.place, hunsafe, Bool.false_and, NodeWalCursor.encode]
    rfl
  | some segment =>
    have hid := h.lastId
    rw [hlast, Option.map_some] at hid
    cases hrot : (cursor.place settings record).rotate with
    | false =>
      refine .inl ⟨rfl, segment, rfl, ?_⟩
      unfold NodeWalCursor.place at hrot ⊢
      dsimp only at hrot ⊢
      rw [hrot, if_neg Bool.false_ne_true, hid, Option.getD_some]
    | true =>
      refine .inr ⟨?_, ?_, .inl rfl⟩
      · unfold NodeWalCursor.place at hrot ⊢
        dsimp only at hrot ⊢
        rw [hrot, Bool.not_true, Bool.and_false]
        rfl
      · rintro _ ⟨⟩
        unfold NodeWalCursor.place at hrot ⊢
        dsimp only at hrot ⊢
        rw [hrot, hid]
        exact Nat.lt_succ_self _

lemma stored_encode (cursor : NodeWalCursor) (record : RaftWalRecord μ τ)
    (asDelta : Bool) : ∀ snapshot ∈ (cursor.encode record.stored asDelta).record.installedSnapshot,
      ∃ whole, snapshot = storeSnapshot whole := by
  have hrecord : ∀ snapshot ∈ record.stored.installedSnapshot,
      ∃ whole, snapshot = storeSnapshot whole := by
    intro snapshot hsnap
    obtain ⟨whole, -, rfl⟩ := Option.map_eq_some_iff.mp hsnap
    exact ⟨whole, rfl⟩
  unfold NodeWalCursor.encode
  split
  · dsimp only
    split
    · exact nofun
    · exact hrecord
  · exact hrecord

variable [DecidableEq τ]

/-- The segments and the cursor hold the record that was handed over last. -/
structure Reflects (log : NodeLog μ τ) (last : Option (RaftWalRecord μ τ)) : Prop
    extends Shaped log where
  fold : ∀ record, last = some record → ∃ x,
    foldEnvelopes none (allEnvelopes log.files.segments) = some x ∧ x.SameDurable record.stored
  cursor : ∀ cursor, log.cursor = some cursor → CursorOf last cursor
  start : last = none → log.files.segments = []

variable {log : NodeLog μ τ}

section

variable (h : Shaped log)
include h

lemma Shaped.seeded (settings : LogSettings μ τ) : (log.seeded settings).1 = log.files ∧
      CursorShape log.files.segments (log.seeded settings).2 := by
  have hscan := scanSegments_of_opened h.opened none
  unfold NodeLog.seeded
  split
  · rename_i cursor hcur
    exact ⟨rfl, h.shape cursor hcur⟩
  · refine ⟨?_, ?_, ?_, nofun⟩
    · simp only [recoverNodeSegmentedScan, hscan]
    · simp only [seedNodeCursor, recoverNodeSegmentedScan, hscan, length_map]
    · simp only [seedNodeCursor, recoverNodeSegmentedScan, hscan, getLast?_map, Option.map_map]
      rfl

section

variable (settings : LogSettings μ τ)

lemma Shaped.files_stage (record : RaftWalRecord μ τ) :
    (log.stageNodeSegmented settings record).1.files =
      ⟨appendEnvelope log.files.segments (log.placement settings record).segmentId
          (log.placement settings record).envelope,
        (log.files.externalizeStateImage record).images⟩ := by
  obtain ⟨hseeded, -⟩ := (h.externalize record).seeded settings
  simp only [stageNodeSegmented, placement, stagingCursor, hseeded, segments_externalize]

lemma Shaped.staging (record : RaftWalRecord μ τ) :
    CursorShape log.files.segments (log.stagingCursor settings record) := by
  obtain ⟨-, hcur⟩ := (h.externalize record).seeded settings
  rw [segments_externalize] at hcur
  exact hcur

lemma Shaped.fitsTo_placement (record : RaftWalRecord μ τ) :
    (log.placement settings record).FitsTo log.files.segments :=
  (h.staging settings record).fitsTo_place settings record.stored

lemma Shaped.stage (record : RaftWalRecord μ τ) :
    Shaped (log.stageNodeSegmented settings record).1 := by
  have hplace := h.fitsTo_placement settings record
  have hsegs := congrArg segments (h.files_stage settings record)
  refine ⟨?_, ?_, ?_, ?_⟩
  · rw [hsegs]
    apply opened_appendEnvelope h.opened
    rcases hplace with ⟨-, segment, hlast, hid⟩ | ⟨hdelta, -⟩
    · right
      rw [hlast, hid]
      rfl
    · exact .inl hdelta
  · rw [hsegs]
    rcases hplace with ⟨-, segment, hlast, hid⟩ | ⟨-, hnew, -⟩
    · rw [hid]
      exact ids_appendEnvelope_last h.ids hlast _
    · rw [appendEnvelope_new fun segment hlast => Nat.ne_of_lt (hnew segment hlast)]
      exact ids_concat h.ids hnew
  · rw [hsegs, allEnvelopes_appendEnvelope]
    exact forall_mem_append.mpr ⟨h.stored, forall_mem_singleton.mpr (stored_encode _ _ _)⟩
  · rintro _ ⟨⟩
    rw [hsegs]
    exact (h.staging settings record).appended settings record.stored hplace

end

end

lemma Reflects.segments_ne_nil (h : Reflects log last) (hlast : last ≠ none) :
    log.files.segments ≠ [] := by
  obtain ⟨record, rfl⟩ := Option.ne_none_iff_exists'.mp hlast
  obtain ⟨x, hfold, -⟩ := h.fold record rfl
  intro hnil
  rw [hnil] at hfold
  cases hfold

lemma Reflects.seeded (h : Reflects log last) (settings : LogSettings μ τ) :
    CursorOf last (log.seeded settings).2 := by
  have hscan := scanSegments_of_opened h.opened none
  unfold NodeLog.seeded
  split
  · rename_i cursor hcur
    exact h.cursor cursor hcur
  · refine ⟨?_, nofun⟩
    simp only [seedNodeCursor, recoverNodeSegmentedScan, hscan]
    cases hlast : last with
    | none =>
      rw [h.start hlast]
      rfl
    | some record =>
      obtain ⟨x, hfold, hsame⟩ := h.fold record hlast
      rw [hfold, Option.bind_some, markerIndex, hsame.installedSnapshot]
      rfl

section

variable (h : Reflects log last)
include h

lemma Reflects.externalize (record : RaftWalRecord μ τ) :
    Reflects ⟨log.files.externalizeStateImage record, log.cursor⟩ last := by
  refine ⟨h.toShaped.externalize record, ?_, h.cursor, ?_⟩ <;> dsimp only <;>
    rw [segments_externalize]
  exacts [h.fold, h.start]

lemma Reflects.stage (settings : LogSettings μ τ)
    (hrec : Consecutive record.entries) (hfollows : ∀ before, last = some before →
      Follows before record ∧ Consecutive before.entries) :
    Reflects (log.stageNodeSegmented settings record).1 (some record) := by
  have hcur : CursorOf last (log.stagingCursor settings record) :=
    (h.externalize record).seeded settings
  have hfollowsOnly : ∀ before, last = some before → Follows before record :=
    fun before hbef => (hfollows before hbef).1
  have hsegs := congrArg segments (h.files_stage settings record)
  refine ⟨h.toShaped.stage settings record, ?_, ?_,
    fun hnone => absurd hnone (Option.some_ne_none record)⟩
  · rintro _ ⟨⟩
    rw [hsegs, allEnvelopes_appendEnvelope, foldEnvelopes_append]
    refine ⟨_, rfl, ?_⟩
    apply hcur.sameDurable_fold h.fold hfollows hrec
    intro hdelta
    exact (and_eq_true_iff.mp hdelta).1
  · rintro _ ⟨⟩
    exact hcur.appended settings hfollowsOnly _

end

lemma Reflects.finish (h : Reflects log (some record)) (hkeep : 1 ≤ staged.minKeepSegments) :
    Reflects (log.finishStaged staged) (some record) := by
  have hshaped := h.toShaped.finish hkeep
  unfold finishStaged at hshaped ⊢
  split at hshaped
  · exact h
  · rename_i cursor hcur
    have hpos : 0 < log.files.segments.length :=
      length_pos_iff.mpr (h.segments_ne_nil (Option.some_ne_none record))
    have hlt : cursor.removable staged < log.files.segments.length := by
      rw [← (h.shape cursor hcur).length] at hpos ⊢
      exact removable_lt hkeep hpos
    refine ⟨hshaped, ?_, ?_, fun hnone => absurd hnone (Option.some_ne_none record)⟩
    · intro before hbef
      rw [foldEnvelopes_drop h.opened hlt]
      exact h.fold before hbef
    · rintro _ ⟨⟩
      have hof := h.cursor cursor hcur
      exact ⟨hof.marker, hof.based⟩

lemma Reflects.congr (h : Reflects log (some record)) (hsame : record.SameDurable record') :
    Reflects log (some record') := by
  refine ⟨h.toShaped, ?_, ?_, fun hnone => absurd hnone (Option.some_ne_none record')⟩
  · rintro _ ⟨⟩
    obtain ⟨x, hfold, hx⟩ := h.fold record rfl
    exact ⟨x, hfold, hx.trans hsame.stored⟩
  · intro cursor hcur
    have hof := h.cursor cursor hcur
    refine ⟨?_, ?_⟩
    · rw [hof.marker, Option.bind_some, Option.bind_some, markerIndex_stored, markerIndex_stored,
        hsame.installedSnapshot]
    · intro hbase
      obtain ⟨_, ⟨⟩, hidx, hterm⟩ := hof.based hbase
      refine ⟨record', rfl, ?_, ?_⟩
      · rw [hidx, logLastIndex, logLastIndex, hsame.entries]
      · rw [hterm, logLastTerm, logLastTerm, hsame.entries]

lemma scanSegments_fst (h : ∀ segment ∈ segments.dropLast, segment.torn = false)
    (last : Option (StoredRecord μ τ)) :
    (scanSegments last segments).1 = foldEnvelopes last (allEnvelopes segments) := by
  induction segments generalizing last with
  | nil => rfl
  | cons segment rest ih =>
    unfold scanSegments allEnvelopes
    rw [flatMap_cons, foldEnvelopes_append]
    cases rest with
    | nil =>
      split <;> rfl
    | cons next rest =>
      rw [h segment mem_cons_self]
      exact ih (fun other hother => h other (mem_cons_of_mem _ hother)) _

/-- What the files give back is the record, telemetry apart. -/
def NodeFiles.Recovers (files : NodeFiles μ τ) (record : RaftWalRecord μ τ) : Prop :=
  ∃ recovered, files.recoverNodeSegmented = .ok (some recovered) ∧ recovered.SameDurable record

/-- The image of the record has its file. -/
def NodeFiles.KeepsImage (files : NodeFiles μ τ) (record : RaftWalRecord μ τ) : Prop :=
  ∀ index image, record.image = some (index, image) → files.images index = some image

omit [DecidableEq τ] [Inhabited τ] in
lemma reattachStateImage_eq_ok_iff (files : NodeFiles μ τ) (whole snapshot : RaftSnapshot) :
    files.reattachStateImage (storeSnapshot whole) = .ok snapshot ↔
      storeSnapshot whole = storeSnapshot snapshot ∧ ∀ image, snapshot.stateImage = some image →
        files.images snapshot.lastIncludedIndex = some image := by
  obtain ⟨shardId, term, index, entries, state⟩ := whole
  obtain ⟨shardId', term', index', entries', state'⟩ := snapshot
  unfold reattachStateImage storeSnapshot
  cases state with
  | none => cases state' <;> simp
  | some image =>
    cases state' with
    | none => cases files.images index <;> simp
    | some image' => cases hfile : files.images index <;> grind

/-- What comes back is what the envelopes fold to, with the image of its file. -/
lemma recovers_iff (huntorn : ∀ segment ∈ files.segments.dropLast, segment.torn = false)
    {x : StoredRecord μ τ} (hfold : foldEnvelopes none (allEnvelopes files.segments) = some x)
    (hstored : ∀ snapshot ∈ x.installedSnapshot, ∃ whole, snapshot = storeSnapshot whole) :
    files.Recovers record ↔ x.SameDurable record.stored ∧ files.KeepsImage record := by
  have hkeeps : files.KeepsImage record ↔ ∀ snapshot, record.installedSnapshot = some snapshot →
      ∀ image, snapshot.stateImage = some image →
        files.images snapshot.lastIncludedIndex = some image := by
    constructor
    · intro h snapshot hs image himg
      exact h _ image (image_eq_some_iff.mpr ⟨snapshot, hs, rfl, himg⟩)
    · intro h index image himg
      obtain ⟨snapshot, hs, rfl, hstate⟩ := image_eq_some_iff.mp himg
      exact h snapshot hs image hstate
  rw [hkeeps]
  unfold NodeFiles.Recovers recoverNodeSegmented recoverNodeSegmentedScan
  rw [scanSegments_fst huntorn, hfold]
  dsimp only
  cases hsnap : x.installedSnapshot with
  | none =>
    constructor
    · rintro ⟨_, ⟨⟩, hsame⟩
      have hnone : record.installedSnapshot = none := hsame.installedSnapshot.symm
      refine ⟨⟨hsame.hardState, hsame.membership, ?_, hsame.entries⟩, by simp [hnone]⟩
      rw [hsnap, stored, hnone]
      rfl
    · rintro ⟨hsame, -⟩
      have hnone := hsnap.symm.trans hsame.installedSnapshot
      exact ⟨_, rfl, hsame.hardState, hsame.membership,
        (Option.map_eq_none_iff.mp hnone.symm).symm, hsame.entries⟩
  | some snapshot =>
    obtain ⟨whole, rfl⟩ := hstored snapshot hsnap
    constructor
    · rintro ⟨recovered, hrecov, hsame⟩
      dsimp only at hrecov
      cases hattach : files.reattachStateImage (storeSnapshot whole) with
      | error e =>
        rw [hattach] at hrecov
        cases hrecov
      | ok snapshot =>
        rw [hattach] at hrecov
        cases hrecov
        have hsome : record.installedSnapshot = some snapshot := hsame.installedSnapshot.symm
        obtain ⟨hsnapshot, himg⟩ := (reattachStateImage_eq_ok_iff files _ _).mp hattach
        refine ⟨⟨hsame.hardState, hsame.membership, ?_, hsame.entries⟩, ?_⟩
        · rw [hsnap, hsnapshot, stored, hsome]
          rfl
        · rintro _ hsnapshot'
          cases hsome.symm.trans hsnapshot'
          exact himg
    · rintro ⟨hsame, himg⟩
      obtain ⟨snapshot, hsome, hsnapshot⟩ :=
        Option.map_eq_some_iff.mp (hsame.installedSnapshot.symm.trans hsnap)
      dsimp only
      rw [(reattachStateImage_eq_ok_iff files _ _).mpr ⟨hsnapshot.symm, himg snapshot hsome⟩]
      exact ⟨_, rfl, hsame.hardState, hsame.membership, hsome.symm, hsame.entries⟩

lemma recovers_of_fold (huntorn : ∀ segment ∈ files.segments.dropLast, segment.torn = false)
    {x : StoredRecord μ τ} (hfold : foldEnvelopes none (allEnvelopes files.segments) = some x)
    (hx : x.SameDurable record.stored) (himg : files.KeepsImage record) :
    files.Recovers record := by
  refine (recovers_iff huntorn hfold fun snapshot hsnap => ?_).mpr ⟨hx, himg⟩
  obtain ⟨whole, -, rfl⟩ := Option.map_eq_some_iff.mp (hx.installedSnapshot.symm.trans hsnap)
  exact ⟨whole, rfl⟩

end

section

variable [DecidableEq μ] [DecidableEq τ] [Inhabited τ]

structure PersistedLog.Holds (s : PersistedLog μ τ) (handed : List (RaftWalRecord μ τ)) : Prop where
  reflects : Reflects s.log handed.getLast?
  images : ImagesOf s.log.files.images handed handed.getLast?
  fingerprint : ∀ fingerprint, s.lastDurableFingerprint = some fingerprint →
    ∃ record, handed.getLast? = some record ∧ fingerprint = durableFingerprint record

omit [DecidableEq μ] in
lemma holds_empty : (PersistedLog.empty : PersistedLog μ τ).Holds [] where
  reflects := ⟨⟨fun _ h => absurd h not_mem_nil, .nil, fun _ h => absurd h not_mem_nil, nofun⟩,
    nofun, nofun, fun _ => rfl⟩
  images := ⟨nofun, nofun⟩
  fingerprint := nofun

variable {s : PersistedLog μ τ} {handed : List (RaftWalRecord μ τ)}

lemma PersistedLog.Holds.persist (h : s.Holds handed) (settings : LogSettings μ τ)
    {record : RaftWalRecord μ τ} (hcons : ∀ before ∈ handed ++ [record], Consecutive before.entries)
    (hfollows : ∀ before ∈ handed, Follows before record) :
    (s.persist settings record).Holds (handed ++ [record]) := by
  have hrec := hcons record (mem_append_right _ (mem_singleton_self _))
  have hlast : ∀ before, handed.getLast? = some before →
      Follows before record ∧ Consecutive before.entries := by
    intro before hbef
    have hmem := mem_of_getLast? hbef
    exact ⟨hfollows before hmem, hcons before (mem_append_left _ hmem)⟩
  unfold PersistedLog.persist
  split
  · -- nothing durable changed, and nothing is written
    rename_i hskip
    obtain ⟨before, hbef, hfing⟩ := h.fingerprint _ hskip
    have hsame := sameDurable_of_fingerprint (hlast before hbef).1 (hlast before hbef).2
      hrec hfing.symm
    have hrefl := h.reflects
    rw [hbef] at hrefl
    refine ⟨?_, ⟨?_, ?_⟩, ?_⟩
    · rw [getLast?_concat]
      exact hrefl.congr hsame
    · intro index image himg
      obtain ⟨q, hq, hqimage⟩ := h.images.handed index image himg
      exact ⟨q, mem_append_left _ hq, hqimage⟩
    · rw [getLast?_concat]
      rintro _ index image ⟨⟩ himg
      apply h.images.last before index image hbef
      rw [← himg, WalRecord.image, WalRecord.image, hsame.installedSnapshot]
    · rw [getLast?_concat]
      intro fingerprint hsome
      rw [hskip] at hsome
      exact ⟨record, rfl, (Option.some.inj hsome).symm⟩
  · have hstage := h.reflects.stage settings hrec hlast
    have himgs := h.images.externalize hfollows
    have hfiles : ∀ staged,
        ((s.log.stageNodeSegmented settings record).1.finishStaged staged).files.images =
        (s.log.files.externalizeStateImage record).images := by
      intro staged
      simp only [stageNodeSegmented, seeded]
      split <;> rfl
    refine ⟨?_, ?_, ?_⟩
    · rw [getLast?_concat]
      exact hstage.finish (Nat.le_max_right _ _)
    · rw [getLast?_concat, hfiles]
      exact himgs
    · rw [getLast?_concat]
      rintro _ ⟨⟩
      exact ⟨record, rfl, rfl⟩

omit [DecidableEq μ] in
lemma PersistedLog.Holds.reopen (h : s.Holds handed) :
    PersistedLog.Holds ⟨⟨s.log.files, none⟩, none⟩ handed :=
  ⟨⟨⟨h.reflects.opened, h.reflects.ids, h.reflects.stored, nofun⟩, h.reflects.fold, nofun,
    h.reflects.start⟩, h.images, nofun⟩

lemma PersistedLog.Holds.run (h : s.Holds handed) (settings : LogSettings μ τ)
    {events : List (LogEvent μ τ)}
    (hcons : ∀ record ∈ handed ++ handedOver events, Consecutive record.entries)
    (hfollows : (handed ++ handedOver events).Pairwise Follows) :
    (s.run settings events).Holds (handed ++ handedOver events) := by
  induction events generalizing s handed with
  | nil =>
    rw [show handedOver ([] : List (LogEvent μ τ)) = [] from rfl, append_nil]
    exact h
  | cons event events ih =>
    cases event with
    | reopen => exact ih h.reopen hcons hfollows
    | persist record =>
      have hsplit : handed ++ handedOver (.persist record :: events) =
          (handed ++ [record]) ++ handedOver events := by
        rw [append_assoc]
        rfl
      rw [hsplit] at hcons hfollows ⊢
      refine ih (h.persist settings ?_ ?_) hcons hfollows
      · exact fun before hmem => hcons before (mem_append_left _ hmem)
      · intro before hmem
        exact (pairwise_append.mp (pairwise_append.mp hfollows).1).2.2 before hmem record
          (mem_singleton_self _)

lemma holds_run (settings : LogSettings μ τ) {events : List (LogEvent μ τ)}
    (hcons : ∀ record ∈ handedOver events, Consecutive record.entries)
    (hfollows : (handedOver events).Pairwise Follows) :
    (PersistedLog.empty.run settings events).Holds (handedOver events) :=
  holds_empty.run settings hcons hfollows

/-- Whatever the segment size and the retention, recovery gives the last record that was handed
over, if each record follows the ones before it. -/
theorem recovers_last_record (settings : LogSettings μ τ) (events : List (LogEvent μ τ))
    (hconsecutive : ∀ record ∈ handedOver events, Consecutive record.entries)
    (hfollows : (handedOver events).Pairwise Follows) (record : RaftWalRecord μ τ)
    (hlast : (handedOver events).getLast? = some record) :
    ∃ recovered, (PersistedLog.empty.run settings events).log.files.recoverNodeSegmented =
      .ok (some recovered) ∧ recovered.SameDurable record := by
  have h := holds_run settings hconsecutive hfollows
  have hreflects := h.reflects
  rw [hlast] at hreflects
  obtain ⟨x, hfold, hx⟩ := hreflects.fold record rfl
  exact recovers_of_fold hreflects.untorn hfold hx fun index image =>
    h.images.last record index image hlast

end

def plainRecord (installedSnapshot : Option RaftSnapshot) (entries : List RaftLogEntry) :
    RaftWalRecord Unit Unit :=
  ⟨⟨1, some 1, 0⟩, (), installedSnapshot, (), entries⟩

def unitSettings : LogSettings Unit Unit := ⟨fun _ => 1, 2, 1⟩

abbrev withImage := plainRecord (some ⟨0, 1, 1, [], some [7]⟩)

/-- A base, a delta, a start of the process, and a snapshot that takes the first entry. -/
def compactingRun : List (LogEvent Unit Unit) :=
  [.persist (plainRecord none [⟨1, 1, []⟩]), .persist (plainRecord none [⟨1, 1, []⟩, ⟨2, 1, []⟩]),
    .reopen, .persist (withImage [⟨2, 1, []⟩])]

theorem recovers_compactingRun : ∃ recovered,
    (PersistedLog.empty.run unitSettings compactingRun).log.files.recoverNodeSegmented =
      .ok (some recovered) ∧ recovered.SameDurable (withImage [⟨2, 1, []⟩]) := by
  apply recovers_last_record unitSettings compactingRun
  · exact forall_mem_cons.mpr ⟨⟨1, rfl⟩,
      forall_mem_cons.mpr ⟨⟨1, rfl⟩, forall_mem_singleton.mpr ⟨2, rfl⟩⟩⟩
  · refine .cons (forall_mem_cons.mpr ⟨?_, forall_mem_singleton.mpr ?_⟩)
      (.cons (forall_mem_singleton.mpr ?_) (pairwise_singleton _ _))
    all_goals exact ⟨by decide, by decide, by decide, by decide⟩
  · rfl

/-- A snapshot of entries, and a state image for the same boundary. -/
def sameBoundaryRun : List (LogEvent Unit Unit) :=
  [.persist (plainRecord (some ⟨0, 1, 1, [⟨1, 1, []⟩], none⟩) [⟨2, 1, []⟩]),
    .persist (withImage [⟨2, 1, []⟩])]

/-- The marker of the delta is taken for unchanged, and recovery gives the first snapshot. -/
theorem not_recovers_sameBoundaryRun :
    (∀ record ∈ handedOver sameBoundaryRun, Consecutive record.entries) ∧
    (∀ record ∈ handedOver sameBoundaryRun, ∀ later ∈ handedOver sameBoundaryRun,
      ∀ e ∈ record.entries, ∀ e' ∈ later.entries, e.index = e'.index → e.term = e'.term → e = e') ∧
    (handedOver sameBoundaryRun).getLast? = some (withImage [⟨2, 1, []⟩]) ∧ ¬ ∃ recovered,
      (PersistedLog.empty.run unitSettings sameBoundaryRun).log.files.recoverNodeSegmented =
        .ok (some recovered) ∧ recovered.SameDurable (withImage [⟨2, 1, []⟩]) := by
  refine ⟨?_, by decide, rfl, ?_⟩
  · exact forall_mem_cons.mpr ⟨⟨2, rfl⟩, forall_mem_singleton.mpr ⟨2, rfl⟩⟩
  · rintro ⟨recovered, hrecovered, hsame⟩
    have hfirst :
        (PersistedLog.empty.run unitSettings sameBoundaryRun).log.files.recoverNodeSegmented =
          .ok (some (plainRecord (some ⟨0, 1, 1, [⟨1, 1, []⟩], none⟩) [⟨2, 1, []⟩])) := rfl
    cases hrecovered
    have hsnapshot := hsame.installedSnapshot
    revert hsnapshot
    decide

end TemporalStore.Raft.LocalWal
