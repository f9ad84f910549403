import TemporalStore.Raft.LogRecovery

namespace TemporalStore.Raft.LocalWal

open Option NodeFiles Function Nat

open List

variable {μ τ : Type}

inductive FileOp (μ τ : Type) where
  | writeImage (index : ℕ) (image : List UInt8)
  | removeImage (index : ℕ)
  | scan
  | openSegment (id : ℕ)
  | writePart
  | writeRest (envelope : RaftWalEnvelope μ τ)
  | removeSegment

/-- Opening a segment to append creates the file where it is missing. -/
def openSegment (segments : List (Segment μ τ)) (id : ℕ) : List (Segment μ τ) :=
  if segments.getLast?.map (·.id) = some id then segments else segments ++ [⟨id, [], false⟩]

def onLast (segments : List (Segment μ τ)) (f : Segment μ τ → Segment μ τ) : List (Segment μ τ) :=
  segments.dropLast ++ (segments.getLast?.map f).toList

section

variable [DecidableEq τ] [Inhabited τ]

def NodeFiles.apply (files : NodeFiles μ τ) : FileOp μ τ → NodeFiles μ τ
  | .writeImage index image => files.writeImage index image
  | .removeImage index => files.removeImage index
  | .scan => files.recoverNodeSegmentedScan.2
  | .openSegment id => { files with segments := openSegment files.segments id }
  | .writePart =>
    { files with segments := onLast files.segments fun segment => { segment with torn := true } }
  | .writeRest envelope =>
    { files with
      segments := onLast files.segments fun segment =>
        ⟨segment.id, segment.envelopes ++ [envelope], false⟩ }
  | .removeSegment => { files with segments := files.segments.tail }

def NodeFiles.applyAll (files : NodeFiles μ τ) (ops : List (FileOp μ τ)) : NodeFiles μ τ :=
  ops.foldl apply files

end

/-- The steps of `externalize_state_image`. `listing` is the order the directory is read in. -/
def imageOps (files : NodeFiles μ τ) (listing : List ℕ) (record : RaftWalRecord μ τ) :
    List (FileOp μ τ) :=
  match record.image with
  | none => []
  | some (index, image) =>
    if (files.images index).isSome then []
    else .writeImage index image :: (listing.filter (· < index)).map .removeImage

/-- The write of a record, which a crash may cut anywhere. -/
def writeOps (id : ℕ) (envelope : RaftWalEnvelope μ τ) : List (FileOp μ τ) :=
  [.openSegment id, .writePart, .writeRest envelope]

section

variable [DecidableEq μ] [DecidableEq τ] [Inhabited τ]

/-- What `persist` does to the files, step by step. -/
def PersistedLog.persistOps (settings : LogSettings μ τ) (s : PersistedLog μ τ) (listing : List ℕ)
    (record : RaftWalRecord μ τ) : List (FileOp μ τ) :=
  if s.lastDurableFingerprint = some (durableFingerprint record) then []
  else
    let placement := s.log.placement settings record
    let (_, staged) := s.log.stageNodeSegmented settings record
    let cursor := (s.log.stagingCursor settings record).appended settings record.stored
      placement
    imageOps s.log.files listing record ++ ((if s.log.cursor = none then [.scan] else []) ++
      (writeOps placement.segmentId placement.envelope ++
        .replicate (cursor.removable staged) .removeSegment))

end

section

variable [DecidableEq τ] [Inhabited τ]

lemma applyAll_append (files : NodeFiles μ τ) (ops ops' : List (FileOp μ τ)) :
    files.applyAll (ops ++ ops') = (files.applyAll ops).applyAll ops' :=
  foldl_append

lemma applyAll_removeImage (files : NodeFiles μ τ) (removed : List ℕ) :
    files.applyAll (removed.map .removeImage) =
      { files with images := fun old => if old ∈ removed then none else files.images old } := by
  induction removed generalizing files with
  | nil => rfl
  | cons index removed ih =>
    change (files.removeImage index).applyAll _ = _
    rw [ih]
    unfold removeImage
    dsimp only
    congr 1
    funext old
    by_cases hold : old = index
    · rw [hold, update_self, ite_self, if_pos mem_cons_self]
    · rw [update_of_ne hold]
      simp only [mem_cons, hold, false_or]

/-- The directory lists every image. -/
def NodeFiles.Lists (files : NodeFiles μ τ) (listing : List ℕ) : Prop :=
  ∀ index, (files.images index).isSome → index ∈ listing

variable {files : NodeFiles μ τ}

lemma applyAll_imageOps {listing : List ℕ} (h : files.Lists listing) (record : RaftWalRecord μ τ) :
    files.applyAll (imageOps files listing record) = files.externalizeStateImage record := by
  unfold imageOps externalizeStateImage
  cases record.image with
  | none => rfl
  | some new =>
    obtain ⟨index, image⟩ := new
    dsimp only
    by_cases hexists : (files.images index).isSome
    · rw [if_pos hexists, if_pos hexists]
      rfl
    · rw [if_neg hexists, if_neg hexists]
      change (files.writeImage index image).applyAll _ = _
      rw [applyAll_removeImage]
      unfold pruneImages writeImage
      congr 1
      funext old
      simp only [mem_filter, decide_eq_true_eq]
      by_cases hold : old < index
      · rw [if_pos hold]
        by_cases hlisted : old ∈ listing
        · exact if_pos ⟨hlisted, hold⟩
        · -- what is not listed was not there
          rw [if_neg fun hboth => hlisted hboth.1, update_of_ne (Nat.ne_of_lt hold)]
          by_contra hsome
          exact hlisted (h old (isSome_iff_ne_none.mpr hsome))
      · rw [if_neg hold, if_neg fun hboth => hold hboth.2]

lemma take_imageOps (files : NodeFiles μ τ) (listing : List ℕ)
    (record : RaftWalRecord μ τ) (n : ℕ) :
    (files.applyAll ((imageOps files listing record).take n)).segments = files.segments ∧
      ∀ index image, files.images index = some image →
        (∀ new newImage, record.image = some (new, newImage) → files.images new = none →
          new ≤ index) →
        (files.applyAll ((imageOps files listing record).take n)).images index = some image := by
  unfold imageOps
  split
  · rw [take_nil]
    exact ⟨rfl, fun index image himg _ => himg⟩
  · rename_i new newImage hnew
    split
    · rw [take_nil]
      exact ⟨rfl, fun index image himg _ => himg⟩
    · rename_i habs
      rw [Bool.not_eq_true, isSome_eq_false_iff, isNone_iff_eq_none] at habs
      cases n with
      | zero => exact ⟨rfl, fun index image himg _ => himg⟩
      | succ n =>
        rw [take_succ_cons, ← map_take]
        change ((files.writeImage new newImage).applyAll _).segments = _ ∧ _
        have happly := applyAll_removeImage (files.writeImage new newImage)
          ((listing.filter (· < new)).take n)
        refine ⟨by rw [happly]; rfl, fun index image himg hle => ?_⟩
        change ((files.writeImage new newImage).applyAll _).images index = _
        have hidx := hle new newImage hnew habs
        rw [happly]
        dsimp only
        rw [if_neg]
        · rw [writeImage]
          dsimp only
          rw [update_of_ne, himg]
          rintro rfl
          rw [habs] at himg
          cases himg
        · intro hrem
          have := (mem_filter.mp (mem_of_mem_take hrem)).2
          rw [decide_eq_true_eq] at this
          omega

lemma applyAll_removeSegment (files : NodeFiles μ τ) (n : ℕ) :
    files.applyAll (.replicate n .removeSegment) =
      { files with segments := files.segments.drop n } := by
  induction n generalizing files with
  | zero => rfl
  | succ n ih =>
    change ({ files with segments := files.segments.tail } : NodeFiles μ τ).applyAll _ = _
    rw [ih, drop_tail]

omit [DecidableEq τ] [Inhabited τ] in
lemma onLast_concat (rest : List (Segment μ τ)) (segment : Segment μ τ)
    (f : Segment μ τ → Segment μ τ) : onLast (rest ++ [segment]) f = rest ++ [f segment] := by
  unfold onLast
  rw [dropLast_concat, getLast?_concat]
  rfl

omit [DecidableEq τ] [Inhabited τ] in
lemma openSegment_cases (segments : List (Segment μ τ)) (id : ℕ) :
    (∃ rest segment, segments = rest ++ [segment] ∧ segment.id = id ∧
        openSegment segments id = rest ++ [segment]) ∨
      ((∀ segment, segments.getLast? = some segment → segment.id ≠ id) ∧
        openSegment segments id = segments ++ [⟨id, [], false⟩]) := by
  by_cases hid : segments.getLast?.map (·.id) = some id
  · left
    obtain ⟨segment, hlast, heq⟩ := map_eq_some_iff.mp hid
    obtain ⟨rest, rfl⟩ := getLast?_eq_some_iff.mp hlast
    exact ⟨rest, segment, rfl, heq, if_pos hid⟩
  · refine .inr ⟨?_, if_neg hid⟩
    intro segment hlast heq
    exact hid (by rw [hlast, ← heq]; rfl)

section

variable (h : ∀ segment ∈ files.segments, segment.torn = false) (id : ℕ)
    (envelope : RaftWalEnvelope μ τ)
include h

lemma applyAll_writeOps : files.applyAll (writeOps id envelope) =
      { files with segments := appendEnvelope files.segments id envelope } := by
  change ({ files with segments := onLast (onLast (openSegment files.segments id) _) _ } :
    NodeFiles μ τ) = _
  rcases openSegment_cases files.segments id with ⟨rest, segment, hsegs, rfl, hopen⟩ | ⟨hid, hopen⟩
  · have huntorn := h segment (by rw [hsegs]; exact mem_concat_self)
    rw [hopen, onLast_concat, onLast_concat, hsegs, appendEnvelope_last getLast?_concat,
      dropLast_concat, huntorn]
  · rw [hopen, onLast_concat, onLast_concat, appendEnvelope_new hid]
    rfl

lemma take_writeOps {n : ℕ} (hn : n < 3) :
    (∀ segment ∈ (files.applyAll ((writeOps id envelope).take n)).segments.dropLast,
        segment.torn = false) ∧
      allEnvelopes (files.applyAll ((writeOps id envelope).take n)).segments =
        allEnvelopes files.segments ∧
      (files.applyAll ((writeOps id envelope).take n)).images = files.images := by
  have hopened : (∀ segment ∈ openSegment files.segments id, segment.torn = false) ∧
      allEnvelopes (openSegment files.segments id) = allEnvelopes files.segments ∧
      ∃ rest segment, openSegment files.segments id = rest ++ [segment] := by
    rcases openSegment_cases files.segments id with
      ⟨rest, segment, hsegs, -, hopen⟩ | ⟨-, hopen⟩
    · rw [hopen, ← hsegs]
      exact ⟨h, rfl, rest, segment, hsegs⟩
    · rw [hopen, forall_mem_append, forall_mem_singleton]
      exact ⟨⟨h, rfl⟩, by simp [allEnvelopes], files.segments, _, rfl⟩
  obtain ⟨huntorn, henvs, rest, last, hopen⟩ := hopened
  obtain rfl | rfl | rfl : n = 0 ∨ n = 1 ∨ n = 2 := by omega
  · exact ⟨fun segment hseg => h segment (dropLast_subset _ hseg), rfl, rfl⟩
  · exact ⟨fun segment hseg => huntorn segment (dropLast_subset _ hseg), henvs, rfl⟩
  · change (∀ segment ∈ (onLast (openSegment files.segments id) _).dropLast, _) ∧
      allEnvelopes (onLast (openSegment files.segments id) _) = _ ∧ _
    rw [hopen] at huntorn henvs ⊢
    rw [onLast_concat, dropLast_concat]
    refine ⟨fun segment hseg => huntorn segment (mem_append_left _ hseg), ?_, rfl⟩
    rw [← henvs]
    simp [allEnvelopes]

end

/-- The image of the record goes when the later record's image comes. -/
def NodeFiles.DropsImage (files : NodeFiles μ τ) (record later : RaftWalRecord μ τ) : Prop :=
  ∃ new newImage old image, later.image = some (new, newImage) ∧ files.images new = none ∧
    record.image = some (old, image) ∧ old < new

variable {record : RaftWalRecord μ τ}

lemma not_recovers_of_missing (huntorn : ∀ segment ∈ files.segments.dropLast, segment.torn = false)
    {x : StoredRecord μ τ} (hfold : foldEnvelopes none (allEnvelopes files.segments) = some x)
    (hstored : ∀ snapshot ∈ x.installedSnapshot, ∃ whole, snapshot = storeSnapshot whole)
    (hx : x.SameDurable record.stored) {index : ℕ} {image : List UInt8}
    (himg : record.image = some (index, image)) (hmiss : files.images index = none)
    (other : RaftWalRecord μ τ) : ¬ files.Recovers other := by
  rw [recovers_iff huntorn hfold hstored]
  rintro ⟨hother, hkeeps⟩
  obtain ⟨snapshot, hs, rfl, hstate⟩ := image_eq_some_iff.mp himg
  have hsnap := hother.installedSnapshot.symm.trans hx.installedSnapshot
  rw [WalRecord.stored, WalRecord.stored, hs, map_some] at hsnap
  obtain ⟨snapshot', hs', heq⟩ := map_eq_some_iff.mp hsnap
  obtain ⟨hidx, image', hstate'⟩ : snapshot'.lastIncludedIndex = snapshot.lastIncludedIndex ∧
      ∃ image', snapshot'.stateImage = some image' := by
    unfold storeSnapshot at heq
    rw [hstate] at heq
    cases hstate' : snapshot'.stateImage with
    | none => rw [hstate'] at heq; cases heq
    | some image' =>
      rw [hstate'] at heq
      exact ⟨congrArg (·.snapshot.lastIncludedIndex) heq, image', rfl⟩
  rw [hkeeps _ image' (image_eq_some_iff.mpr ⟨snapshot', hs', hidx, hstate'⟩)] at hmiss
  cases hmiss

variable {later : RaftWalRecord μ τ}

lemma keepsImage_take_imageOps (himg : files.KeepsImage record)
    (hkeeps : ¬ files.DropsImage record later) (listing : List ℕ) (n : ℕ) :
    (files.applyAll ((imageOps files listing later).take n)).KeepsImage record := by
  intro index image hrec
  apply (take_imageOps files listing later n).2 index image (himg index image hrec)
  intro new newImage hnew habs
  by_contra hlt
  exact hkeeps ⟨new, newImage, index, image, hnew, habs, hrec, Nat.lt_of_not_le hlt⟩

omit [DecidableEq τ] [Inhabited τ] in
lemma images_externalize {snapshot : RaftSnapshot} {image : List UInt8}
    (hsnap : later.installedSnapshot = some snapshot) (hstate : snapshot.stateImage = some image) :
    (files.externalizeStateImage later).images snapshot.lastIncludedIndex =
      some ((files.images snapshot.lastIncludedIndex).getD image) := by
  unfold externalizeStateImage
  rw [image_eq_some_iff.mpr ⟨snapshot, hsnap, rfl, hstate⟩]
  dsimp only
  split
  · next hsome =>
    obtain ⟨old, hold⟩ := isSome_iff_exists.mp hsome
    rw [hold, getD_some]
  · next hnone =>
    rw [Bool.not_eq_true, isSome_eq_false_iff, isNone_iff_eq_none] at hnone
    rw [hnone, getD_none, pruneImages, writeImage]
    dsimp only
    rw [if_neg (Nat.lt_irrefl _), update_self]

lemma NodeFiles.Recovers.congr {record' : RaftWalRecord μ τ} (h : files.Recovers record)
    (hsame : record.SameDurable record') : files.Recovers record' := by
  obtain ⟨recovered, hrecov, hrec⟩ := h
  exact ⟨recovered, hrecov, hrec.trans hsame⟩

lemma NodeFiles.Recovers.unique {record' : RaftWalRecord μ τ} (h : files.Recovers record)
    (h' : files.Recovers record') : record.SameDurable record' := by
  obtain ⟨recovered, hrecov, hrec⟩ := h
  obtain ⟨_, hrecov', hrec'⟩ := h'
  rw [hrecov] at hrecov'
  cases hrecov'
  exact ⟨hrec.hardState.symm.trans hrec'.hardState, hrec.membership.symm.trans hrec'.membership,
    hrec.installedSnapshot.symm.trans hrec'.installedSnapshot,
    hrec.entries.symm.trans hrec'.entries⟩

variable {log : NodeLog μ τ}

/-- What is folded has its image in a file of its own. -/
lemma stored_foldEnvelopes {envelopes : List (RaftWalEnvelope μ τ)}
    (h : ∀ envelope ∈ envelopes, ∀ snapshot ∈ envelope.record.installedSnapshot,
      ∃ whole, snapshot = storeSnapshot whole) {x : StoredRecord μ τ}
    (hx : foldEnvelopes none envelopes = some x) :
    ∀ snapshot ∈ x.installedSnapshot, ∃ whole, snapshot = storeSnapshot whole := by
  refine foldlRecOn (motive := fun last : Option (StoredRecord μ τ) =>
    ∀ x ∈ last, ∀ snapshot ∈ x.installedSnapshot, ∃ whole, snapshot = storeSnapshot whole)
    envelopes _ (fun _ hx => absurd hx (Option.not_mem_none _)) ?_ x hx
  intro last hlast envelope henv y hy snapshot hsnap
  obtain rfl := Option.some.inj hy
  unfold foldEnvelope at hsnap
  split at hsnap
  · exact h envelope henv snapshot hsnap
  · rcases or_eq_some_iff.mp hsnap with hown | ⟨-, hold⟩
    · exact h envelope henv snapshot hown
    · obtain ⟨y, hy, hold⟩ := bind_eq_some_iff.mp hold
      exact hlast y hy snapshot hold

lemma Shaped.fold_of_recovers (h : Shaped log) (hrec : log.files.Recovers record) :
    ∃ x, foldEnvelopes none (allEnvelopes log.files.segments) = some x ∧
      x.SameDurable record.stored ∧ log.files.KeepsImage record := by
  cases hfold : foldEnvelopes none (allEnvelopes log.files.segments) with
  | none =>
    obtain ⟨recovered, hrecov, -⟩ := hrec
    unfold recoverNodeSegmented recoverNodeSegmentedScan at hrecov
    rw [scanSegments_fst h.untorn, hfold] at hrecov
    cases hrecov
  | some x =>
    have hstored := stored_foldEnvelopes h.stored hfold
    exact ⟨x, rfl, (recovers_iff h.untorn hfold hstored).mp hrec⟩

section

variable (h : Shaped log)
include h

lemma Shaped.applyAll_take_scan (n : ℕ) :
    log.files.applyAll ((if log.cursor = none then [FileOp.scan] else []).take n) = log.files := by
  have hscan : log.files.apply .scan = log.files := by
    change (⟨(scanSegments none log.files.segments).2, log.files.images⟩ : NodeFiles μ τ) = _
    rw [scanSegments_of_opened h.opened]
  split
  · cases n with
    | zero => rfl
    | succ n =>
      rw [take_succ_cons, take_nil]
      exact hscan
  · rw [take_nil]
    rfl

/-- The retention keeps a segment. -/
lemma Shaped.removable_stage (settings : LogSettings μ τ) (later : RaftWalRecord μ τ) :
    ((log.stagingCursor settings later).appended settings later.stored
      (log.placement settings later)).removable (log.stageNodeSegmented settings
          later).2 < (log.stageNodeSegmented settings later).1.files.segments.length := by
  have hlen := ((h.staging settings later).appended settings later.stored
    (h.fitsTo_placement settings later)).length
  rw [h.files_stage]
  dsimp only
  rw [← hlen]
  refine removable_lt (le_max_right _ _) ?_
  rw [hlen, length_pos_iff]
  rcases appendEnvelope_cases log.files.segments
    (log.placement settings later).segmentId
    (log.placement settings later).envelope with
    ⟨_, _, -, heq⟩ | ⟨-, heq⟩ <;> simp [heq]

lemma Shaped.recovers_drop {x : StoredRecord μ τ}
    (hfold : foldEnvelopes none (allEnvelopes log.files.segments) = some x)
    (hx : x.SameDurable record.stored) (himg : log.files.KeepsImage record) {n : ℕ}
    (hn : n < log.files.segments.length) :
    NodeFiles.Recovers ⟨log.files.segments.drop n, log.files.images⟩ record := by
  refine recovers_of_fold ?_ ?_ hx himg
  · intro segment hseg
    exact (h.opened segment (mem_of_mem_drop (dropLast_subset _ hseg))).untorn
  · rw [foldEnvelopes_drop h.opened hn, hfold]

end

section

variable (settings : LogSettings μ τ) (log : NodeLog μ τ)
  (record later : RaftWalRecord μ τ)

/-- The later record's own snapshot, with the image that its file has. -/
def NodeLog.ownSnapshot : Option RaftSnapshot :=
  later.installedSnapshot.map fun snapshot =>
    { snapshot with
      stateImage := snapshot.stateImage.map (log.files.images snapshot.lastIncludedIndex).getD }

/-- The later record is written as a delta. -/
def NodeLog.AsDelta : Prop :=
  (log.placement settings later).envelope.delta ≠ none

instance : Decidable (log.AsDelta settings later) :=
  inferInstanceAs (Decidable (_ ≠ none))

/-- A delta does not repeat a boundary that the cursor knows. -/
def NodeLog.OmitsMarker : Prop :=
  later.stored.markerIndex = (log.stagingCursor settings later).persistedMarkerIndex ∧
    (log.stagingCursor settings later).persistedMarkerIndex.isSome

instance : Decidable (log.OmitsMarker settings later) :=
  inferInstanceAs (Decidable (_ ∧ _))

/-- The entries that a delta leaves behind those of the record. -/
def NodeLog.deltaEntries : List RaftLogEntry :=
  let persisted := (log.stagingCursor settings later).persistedLastIndex
  (record.entries.takeWhile (·.index ≤ persisted) ++
    later.entries.dropWhile (·.index ≤ persisted)).dropWhile (·.index < later.logFirstIndex)

/-- What the log says once the later record is written behind the record. -/
def NodeLog.readBack : RaftWalRecord μ τ :=
  if log.AsDelta settings later then
    { later with
      installedSnapshot := if log.OmitsMarker settings later then record.installedSnapshot
        else (log.ownSnapshot later).or record.installedSnapshot
      entries := log.deltaEntries settings record later }
  else { later with installedSnapshot := log.ownSnapshot later }

/-- The log says the later record: an image that already has a file is the later record's, and a
delta leaves out nothing but what the record has. -/
structure NodeLog.Restores : Prop where
  image : ∀ index image, later.image = some (index, image) →
    ∀ old, log.files.images index = some old → old = image
  marker : log.AsDelta settings later → log.OmitsMarker settings later →
    later.installedSnapshot = record.installedSnapshot
  kept : log.AsDelta settings later → later.installedSnapshot = none →
    record.installedSnapshot = none
  entries : log.AsDelta settings later → log.deltaEntries settings record later = later.entries

omit [DecidableEq τ] [Inhabited τ] in
lemma ownSnapshot_eq_iff : log.ownSnapshot later = later.installedSnapshot ↔
      ∀ index image, later.image = some (index, image) →
        ∀ old, log.files.images index = some old → old = image := by
  unfold NodeLog.ownSnapshot WalRecord.image
  cases later.installedSnapshot with
  | none => simp
  | some snapshot =>
    obtain ⟨groupId, lastTerm, lastIncludedIndex, entries, stateImage⟩ := snapshot
    cases stateImage with
    | none => simp
    | some image => cases hfile : log.files.images lastIncludedIndex <;> simp [hfile, eq_comm]

omit [DecidableEq τ] [Inhabited τ] in
lemma or_ownSnapshot_eq_iff (other : Option RaftSnapshot) :
    (log.ownSnapshot later).or other = later.installedSnapshot ↔
      log.ownSnapshot later = later.installedSnapshot ∧
        (later.installedSnapshot = none → other = none) := by
  unfold NodeLog.ownSnapshot
  cases later.installedSnapshot <;> simp

omit [DecidableEq τ] [Inhabited τ] in
lemma map_storeSnapshot_ownSnapshot :
    (log.ownSnapshot later).map storeSnapshot = later.installedSnapshot.map storeSnapshot := by
  unfold NodeLog.ownSnapshot
  rw [Option.map_map]
  congr 1
  funext snapshot
  simp only [comp_apply, storeSnapshot]
  cases hstate : snapshot.stateImage with
  | none =>
    obtain ⟨shardId, term, index, entries, image⟩ := snapshot
    cases hstate
    rfl
  | some image => rfl

variable {log record} in
lemma readBack_sameDurable_iff (himg : log.files.KeepsImage record) :
    (log.readBack settings record later).SameDurable later ↔
      log.Restores settings record later := by
  have hown := ownSnapshot_eq_iff log later
  have hor := or_ownSnapshot_eq_iff log later record.installedSnapshot
  unfold NodeLog.readBack
  by_cases hdelta : log.AsDelta settings later
  · rw [if_pos hdelta]
    by_cases hmarker : log.OmitsMarker settings later
    · rw [if_pos hmarker]
      constructor
      · intro hsame
        have hsnap : record.installedSnapshot = later.installedSnapshot := hsame.installedSnapshot
        refine ⟨?_, fun _ _ => hsnap.symm, fun _ hnone => hsnap.trans hnone, fun _ => hsame.entries⟩
        intro index image hlater old hold
        rw [WalRecord.image, ← hsnap] at hlater
        rw [himg index image hlater] at hold
        exact (Option.some.inj hold).symm
      · intro h
        exact ⟨rfl, rfl, (h.marker hdelta hmarker).symm, h.entries hdelta⟩
    · rw [if_neg hmarker]
      constructor
      · intro hsame
        obtain ⟨hsnap, hnone⟩ := hor.mp hsame.installedSnapshot
        exact ⟨hown.mp hsnap, fun _ homits => absurd homits hmarker, fun _ => hnone,
          fun _ => hsame.entries⟩
      · intro h
        exact ⟨rfl, rfl, hor.mpr ⟨hown.mpr h.image, h.kept hdelta⟩, h.entries hdelta⟩
  · rw [if_neg hdelta]
    constructor
    · intro hsame
      exact ⟨hown.mp hsame.installedSnapshot, fun h => absurd h hdelta, fun h => absurd h hdelta,
        fun h => absurd h hdelta⟩
    · intro h
      exact ⟨rfl, rfl, hown.mpr h.image, rfl⟩

variable {record} in
lemma sameDurable_readBack {x : StoredRecord μ τ} (hx : x.SameDurable record.stored) :
    (foldEnvelope (some x) (log.placement settings
      later).envelope).SameDurable (log.readBack settings record later).stored := by
  obtain ⟨asDelta, henv⟩ : ∃ asDelta, (log.placement settings
      later).envelope = (log.stagingCursor settings later).encode later.stored asDelta :=
    ⟨_, rfl⟩
  have hdelta : log.AsDelta settings later ↔ asDelta = true := by
    unfold NodeLog.AsDelta
    rw [henv]
    cases asDelta <;> simp [NodeWalCursor.encode]
  rw [henv]
  unfold NodeLog.readBack
  cases asDelta with
  | false =>
    rw [if_neg (by rw [hdelta]; exact Bool.false_ne_true)]
    exact ⟨rfl, rfl, (map_storeSnapshot_ownSnapshot log later).symm, rfl⟩
  | true =>
    rw [if_pos (hdelta.mpr rfl)]
    refine ⟨rfl, rfl, ?_, ?_⟩
    · simp only [NodeWalCursor.encode, if_true, foldEnvelope, Option.bind_some,
        hx.installedSnapshot]
      by_cases hmarker : log.OmitsMarker settings later
      · have hsame := hmarker
        unfold NodeLog.OmitsMarker at hsame
        rw [if_pos hsame, WalRecord.stored, WalRecord.stored, if_pos hmarker]
        rfl
      · have hother := hmarker
        unfold NodeLog.OmitsMarker at hother
        rw [if_neg hother, WalRecord.stored, WalRecord.stored, WalRecord.stored, if_neg hmarker]
        dsimp only
        rw [map_or, map_storeSnapshot_ownSnapshot]
    · simp only [NodeWalCursor.encode, if_true, foldEnvelope, Option.map_some, Option.getD_some,
        hx.entries]
      rfl

end

lemma keepsImage_readBack (settings : LogSettings μ τ)
    (himg : (log.files.externalizeStateImage later).KeepsImage record) :
    (log.files.externalizeStateImage later).KeepsImage (log.readBack settings record later) := by
  intro index image hread
  obtain ⟨snapshot, hsnap, rfl, hstate⟩ := image_eq_some_iff.mp hread
  have hfrom :
      log.ownSnapshot later = some snapshot ∨ record.installedSnapshot = some snapshot := by
    unfold NodeLog.readBack at hsnap
    split at hsnap
    · dsimp only at hsnap
      split at hsnap
      · exact .inr hsnap
      · rcases or_eq_some_iff.mp hsnap with hown | ⟨-, hold⟩
        · exact .inl hown
        · exact .inr hold
    · exact .inl hsnap
  rcases hfrom with hown | hold
  · obtain ⟨own, hlater, rfl⟩ := map_eq_some_iff.mp hown
    obtain ⟨ownImage, hownImage, rfl⟩ := map_eq_some_iff.mp hstate
    have hfile : (log.files.externalizeStateImage later).images own.lastIncludedIndex = _ :=
      images_externalize hlater hownImage
    exact hfile
  · exact himg _ image (image_eq_some_iff.mpr ⟨snapshot, hold, rfl, hstate⟩)

/-- The write of a record and the removal of old segments, cut anywhere. `next` is the log with the
record in it, which says `other`. -/
lemma Shaped.crash_write {next : NodeLog μ τ} (h : Shaped log) (hnext : Shaped next)
    {x y : StoredRecord μ τ} {other : RaftWalRecord μ τ}
    (hfold : foldEnvelopes none (allEnvelopes log.files.segments) = some x)
    (hx : x.SameDurable record.stored) (himg : log.files.KeepsImage record)
    (hfold' : foldEnvelopes none (allEnvelopes next.files.segments) = some y)
    (hy : y.SameDurable other.stored) (himg' : next.files.KeepsImage other) {id : ℕ}
    {envelope : RaftWalEnvelope μ τ}
    (hfiles : next.files = ⟨appendEnvelope log.files.segments id envelope, log.files.images⟩)
    {remove : ℕ} (hremove : remove < next.files.segments.length) (n : ℕ) :
    (n < 3 → (log.files.applyAll ((writeOps id envelope ++
        .replicate remove .removeSegment).take n)).Recovers record) ∧
      (3 ≤ n → (log.files.applyAll ((writeOps id envelope ++
        .replicate remove .removeSegment).take n)).Recovers other) := by
  have huntorn : ∀ segment ∈ log.files.segments, segment.torn = false :=
    fun segment hseg => (h.opened segment hseg).untorn
  rw [take_append, applyAll_append]
  constructor
  · intro hn
    obtain ⟨huntorn', henvs, himgs⟩ := take_writeOps huntorn id envelope hn
    have hrest : n - (writeOps id envelope).length = 0 := Nat.sub_eq_zero_of_le (Nat.le_of_lt hn)
    rw [hrest]
    rw [← henvs] at hfold
    refine recovers_of_fold huntorn' hfold hx ?_
    intro index image hrec
    exact (congrFun himgs index).trans (himg index image hrec)
  · intro hn
    have hwhole : (writeOps id envelope).take n = writeOps id envelope := take_of_length_le hn
    rw [hwhole, applyAll_writeOps huntorn, take_replicate, applyAll_removeSegment, ← hfiles]
    exact hnext.recovers_drop hfold' hy himg' (lt_of_le_of_lt (min_le_right _ _) hremove)

end

section

variable [DecidableEq μ] [DecidableEq τ] [Inhabited τ]

/-- Wherever a crash stops the later record, one of the two records is recovered. -/
def PersistedLog.CrashSafe (settings : LogSettings μ τ) (s : PersistedLog μ τ) (listing : List ℕ)
    (record later : RaftWalRecord μ τ) : Prop :=
  ∀ n, (s.log.files.applyAll ((s.persistOps settings listing later).take n)).Recovers record ∨
    (s.log.files.applyAll ((s.persistOps settings listing later).take n)).Recovers later

/-- The files of a log keep their shape whatever records it is handed. -/
lemma shaped_run (settings : LogSettings μ τ) (events : List (LogEvent μ τ)) :
    Shaped (PersistedLog.empty.run settings events).log := by
  refine foldlRecOn (motive := fun s : PersistedLog μ τ => Shaped s.log) events _
    ⟨nofun, .nil, nofun, nofun⟩ ?_
  intro s h event _
  cases event with
  | reopen => exact ⟨h.opened, h.ids, h.stored, nofun⟩
  | persist record =>
    change Shaped (s.persist settings record).log
    unfold PersistedLog.persist
    split
    · exact h
    · exact (h.stage settings record).finish (Nat.le_max_right _ _)

variable {s : PersistedLog μ τ} {record later : RaftWalRecord μ τ} {listing : List ℕ}

section

variable (h : Shaped s.log) (settings : LogSettings μ τ)
include h

lemma Shaped.applyAll_persistOps (hlist : s.log.files.Lists listing) (record : RaftWalRecord μ τ) :
    s.log.files.applyAll (s.persistOps settings listing record) =
      (s.persist settings record).log.files := by
  have hext := h.externalize record
  have hscan := hext.applyAll_take_scan 1
  rw [take_of_length_le (by split <;> simp)] at hscan
  have huntorn : ∀ segment ∈ (s.log.files.externalizeStateImage record).segments,
      segment.torn = false := fun segment hseg => (hext.opened segment hseg).untorn
  unfold PersistedLog.persistOps PersistedLog.persist
  split
  · rfl
  · dsimp only
    rw [applyAll_append, applyAll_imageOps hlist, applyAll_append, hscan, applyAll_append,
      applyAll_writeOps huntorn, applyAll_removeSegment, segments_externalize, ← h.files_stage]
    rfl

variable (hrec : s.log.files.Recovers record) (hlist : s.log.files.Lists listing)
  (hnew : s.lastDurableFingerprint ≠ some (durableFingerprint later))
include hrec hlist hnew

/-- Up to the last byte of the later record the earlier one is recovered, and from there on what
the log then says. -/
lemma Shaped.crash (hkeeps : ¬ s.log.files.DropsImage record later) : ∃ whole, ∀ n,
      (n < whole → (s.log.files.applyAll
        ((s.persistOps settings listing later).take n)).Recovers record) ∧
      (whole ≤ n → (s.log.files.applyAll ((s.persistOps settings listing later).take n)).Recovers
        (s.log.readBack settings record later)) := by
  obtain ⟨x, hfold, hx, himg⟩ := h.fold_of_recovers hrec
  have himgs := keepsImage_take_imageOps himg hkeeps listing
  have hext := h.externalize later
  have hfiles := applyAll_imageOps hlist later
  have himg' := himgs (imageOps s.log.files listing later).length
  rw [take_length, hfiles] at himg'
  have hfoldExt := hfold
  rw [← segments_externalize s.log.files later] at hfoldExt
  -- the log with the record in it
  have hnext := h.stage settings later
  have hnextFiles := h.files_stage settings later
  have hnextFold := congrArg (fun files => foldEnvelopes none (allEnvelopes files.segments))
    hnextFiles
  dsimp only at hnextFold
  rw [allEnvelopes_appendEnvelope, foldEnvelopes_append, hfold] at hnextFold
  rw [← segments_externalize s.log.files later] at hnextFiles
  have hnextImages := keepsImage_readBack settings himg'
  have hwrite := hext.crash_write hnext hfoldExt hx himg' hnextFold
    (sameDurable_readBack settings s.log later hx) (by rw [hnextFiles]; exact hnextImages)
    hnextFiles (h.removable_stage settings later)
  unfold PersistedLog.persistOps
  rw [if_neg hnew]
  dsimp only
  refine ⟨(imageOps s.log.files listing later).length +
    (if s.log.cursor = none then [FileOp.scan] else [] : List (FileOp μ τ)).length + 3,
    fun n => ?_⟩
  rw [take_append, applyAll_append]
  rcases lt_or_ge n (imageOps s.log.files listing later).length with hn | hn
  · -- the record is not begun
    refine ⟨fun _ => ?_, fun hle => by omega⟩
    rw [Nat.sub_eq_zero_of_le (Nat.le_of_lt hn)]
    obtain ⟨hsegs, -⟩ := take_imageOps s.log.files listing later n
    have huntorn := h.untorn
    rw [← hsegs] at hfold huntorn
    exact recovers_of_fold huntorn hfold hx (himgs n)
  · rw [take_of_length_le hn, hfiles, take_append, applyAll_append, hext.applyAll_take_scan]
    refine ⟨fun hlt => (hwrite _).1 (by omega), fun hle => (hwrite _).2 (by omega)⟩

/-- Behind the removal of the images, and before the record is written, nothing is recovered. -/
lemma Shaped.not_crashSafe (hdrops : s.log.files.DropsImage record later) :
    ¬ s.CrashSafe settings listing record later := by
  obtain ⟨new, newImage, old, image, hlater, habs, hold, hlt⟩ := hdrops
  obtain ⟨x, hfold, hx, -⟩ := h.fold_of_recovers hrec
  have hstored := stored_foldEnvelopes h.stored hfold
  rw [← segments_externalize s.log.files later] at hfold
  have hops : (s.persistOps settings listing later).take
      (imageOps s.log.files listing later).length = imageOps s.log.files listing later := by
    unfold PersistedLog.persistOps
    rw [if_neg hnew]
    exact take_left
  have hmiss : (s.log.files.externalizeStateImage later).images old = none := by
    unfold externalizeStateImage
    rw [hlater]
    dsimp only
    rw [habs]
    exact if_pos hlt
  intro hsafe
  have hcut := hsafe (imageOps s.log.files listing later).length
  rw [hops, applyAll_imageOps hlist] at hcut
  have hnone := not_recovers_of_missing (h.externalize later).untorn hfold hstored hx hold hmiss
  exact hcut.elim (hnone record) (hnone later)

end

/-- A crash is safe exactly if nothing is written, or the later record brings no image that takes
the file of the earlier record's image, and the log then says the later record or still the earlier
one. -/
theorem crashSafe_iff (settings : LogSettings μ τ) (events : List (LogEvent μ τ))
    (listing : List ℕ) (record later : RaftWalRecord μ τ)
    (hrecord : (PersistedLog.empty.run settings events).log.files.Recovers record)
    (hlisting : (PersistedLog.empty.run settings events).log.files.Lists listing) :
    (PersistedLog.empty.run settings events).CrashSafe settings listing record later ↔
      (PersistedLog.empty.run settings events).lastDurableFingerprint =
          some (durableFingerprint later) ∨
        ¬ (PersistedLog.empty.run settings events).log.files.DropsImage record later ∧
          ((PersistedLog.empty.run settings events).log.Restores settings record later ∨
            ((PersistedLog.empty.run settings events).log.readBack settings record
              later).SameDurable record) := by
  generalize hs : PersistedLog.empty.run settings events = s at hrecord hlisting ⊢
  have h : Shaped s.log := hs ▸ shaped_run settings events
  by_cases hnew : s.lastDurableFingerprint = some (durableFingerprint later)
  · -- nothing durable changed, and nothing is written
    refine iff_of_true (fun n => .inl ?_) (.inl hnew)
    unfold PersistedLog.persistOps
    rw [if_pos hnew, take_nil]
    exact hrecord
  obtain ⟨-, -, -, himg⟩ := h.fold_of_recovers hrecord
  rw [← readBack_sameDurable_iff settings later himg]
  constructor
  · intro hsafe
    have hkeeps : ¬ s.log.files.DropsImage record later := fun hdrops =>
      h.not_crashSafe settings hrecord hlisting hnew hdrops hsafe
    obtain ⟨whole, hcrash⟩ := h.crash settings hrecord hlisting hnew hkeeps
    have hread := (hcrash whole).2 le_rfl
    refine .inr ⟨hkeeps, ?_⟩
    rcases hsafe whole with hold | hlater
    · exact .inr (hread.unique hold)
    · exact .inl (hread.unique hlater)
  · rintro (hskip | ⟨hkeeps, hread⟩) n
    · exact absurd hskip hnew
    obtain ⟨whole, hcrash⟩ := h.crash settings hrecord hlisting hnew hkeeps
    rcases lt_or_ge n whole with hn | hn
    · exact .inl ((hcrash n).1 hn)
    · rcases hread with hlater | hold
      · exact .inr (((hcrash n).2 hn).congr hlater)
      · exact .inl (((hcrash n).2 hn).congr hold)

end

def imageRecord : RaftWalRecord Unit Unit :=
  withImage [⟨2, 1, []⟩, ⟨3, 1, []⟩]

def imageLog : PersistedLog Unit Unit := PersistedLog.empty.run unitSettings [.persist imageRecord]

lemma lists_imageLog : imageLog.log.files.Lists [1] := by
  intro index hsome
  by_contra hne
  rw [mem_singleton] at hne
  have habs : imageLog.log.files.images index = none := by
    change (if index < 1 then none
      else update (fun _ : ℕ => (none : Option (List UInt8))) 1 (some [7]) index) = none
    rw [update_of_ne hne, ite_self]
  rw [habs] at hsome
  cases hsome

def entriesRecord : RaftWalRecord Unit Unit :=
  plainRecord (some ⟨0, 1, 1, [⟨1, 1, []⟩], none⟩) []

def entriesLog : PersistedLog Unit Unit :=
  PersistedLog.empty.run unitSettings [.persist entriesRecord]

/-- The log grows under the same snapshot; and an image replaces the entries of a snapshot, with
no log to write a delta on. -/
theorem crashSafe_grown : imageLog.CrashSafe unitSettings [1] imageRecord
      (withImage [⟨2, 1, []⟩, ⟨3, 1, []⟩, ⟨4, 1, []⟩]) ∧
    entriesLog.CrashSafe unitSettings [] entriesRecord (withImage []) := by
  constructor
  · refine (crashSafe_iff unitSettings [.persist imageRecord] [1] imageRecord _
      ⟨_, rfl, rfl, rfl, rfl, rfl⟩ lists_imageLog).mpr (.inr ⟨?_, .inl ⟨?_, ?_, ?_, ?_⟩⟩)
    · rintro ⟨new, newImage, -, -, ⟨⟩, habsent, -⟩
      revert habsent
      decide
    · rintro _ _ ⟨⟩ _ ⟨⟩
      rfl
    · exact fun _ _ => rfl
    · exact fun _ hnone => by cases hnone
    · exact fun _ => rfl
  · refine (crashSafe_iff unitSettings [.persist entriesRecord] [] entriesRecord _
      ⟨_, rfl, rfl, rfl, rfl, rfl⟩ nofun).mpr (.inr ⟨?_, .inl ⟨?_, ?_, ?_, ?_⟩⟩)
    · rintro ⟨-, -, -, -, -, -, ⟨⟩, -⟩
    · rintro _ _ ⟨⟩ _ ⟨⟩
    all_goals exact fun hdelta => absurd hdelta (by decide)

def nextImageRecord : RaftWalRecord Unit Unit :=
  plainRecord (some ⟨0, 1, 2, [], some [8]⟩) [⟨3, 1, []⟩]

/-- The image at 2 has its file, the one at 1 is gone, and the last record still refers to it. -/
theorem not_crashSafe_nextImageRecord :
    Consecutive imageRecord.entries ∧ Consecutive nextImageRecord.entries ∧
    Follows imageRecord nextImageRecord ∧ imageLog.log.files.Recovers imageRecord ∧
    imageLog.log.files.Lists [1] ∧
      ¬ imageLog.CrashSafe unitSettings [1] imageRecord nextImageRecord := by
  refine ⟨⟨2, rfl⟩, ⟨3, rfl⟩, ⟨by decide, by decide, by decide, by decide⟩,
    ⟨_, rfl, rfl, rfl, rfl, rfl⟩, lists_imageLog, ?_⟩
  intro hsafe
  have hcut : (imageLog.log.files.applyAll ((imageLog.persistOps unitSettings [1]
      nextImageRecord).take 2)).recoverNodeSegmented =
      .error "snapshot image file missing for index 1" := rfl
  rcases hsafe 2 with ⟨recovered, hrecovered, -⟩ | ⟨recovered, hrecovered, -⟩ <;> cases hrecovered

end TemporalStore.Raft.LocalWal
