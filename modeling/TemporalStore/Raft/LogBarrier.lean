import TemporalStore.FlushGate
import TemporalStore.Raft.LogRecovery

/-! # Barriers of the raft log (`finish_staged`) -/

namespace TemporalStore.Raft.LocalWal

open List Nat Function NodeFiles FlushGate

variable {μ τ : Type}

/-- An append that is staged. While the writer runs a barrier, `barrier` is the ticket it counts up
to, and how many records its file held when it began. -/
structure Writer where
  ticket : ℕ
  staged : StagedWalAppend
  barrier : Option (ℕ × ℕ)
  deriving DecidableEq

/-- The log as it was written, and how many records of each segment are on disk. -/
structure WriterState (μ τ : Type) where
  log : NodeLog μ τ
  synced : ℕ → ℕ
  gate : GateState
  writers : List Writer

inductive WriterEvent (μ τ : Type) where
  | stage (record : RaftWalRecord μ τ)
  | claim (ticket : ℕ)
  | barrier (ticket : ℕ) (succeeds : Bool)
  | finish (ticket : ℕ)

def stagedRecords (events : List (WriterEvent μ τ)) : List (RaftWalRecord μ τ) :=
  events.filterMap fun
    | .stage record => some record
    | _ => none

/-- How many records the file of a segment holds. -/
def NodeFiles.recordCount (files : NodeFiles μ τ) (id : ℕ) : ℕ :=
  ((files.segments.find? (·.id == id)).map (·.envelopes.length)).getD 0

namespace WriterState

/-- A process that opens the files of an earlier one, all on disk. -/
def opened (files : NodeFiles μ τ) : WriterState μ τ :=
  ⟨⟨files, none⟩, files.recordCount, ⟨0, 0, false⟩, []⟩

/-- The other writers, and what becomes of the one with the ticket. -/
def onWriter (s : WriterState μ τ) (ticket : ℕ) (f : Writer → Option Writer) : List Writer :=
  s.writers.filterMap fun writer => if writer.ticket = ticket then f writer else some writer

section

variable [DecidableEq τ] [Inhabited τ]

def stage (settings : LogSettings μ τ) (s : WriterState μ τ)
    (record : RaftWalRecord μ τ) : WriterState μ τ :=
  let (log, staged) := s.log.stageNodeSegmented settings record
  { log := log
    -- nothing of a file that is created is on disk
    synced :=
      if s.log.files.segments.any (·.id == staged.segmentId) then s.synced
      else update s.synced staged.segmentId 0
    gate := s.gate.registerWrite
    writers := s.writers ++ [⟨s.gate.issued + 1, staged, none⟩] }

/-- What a writer can do next; `none` where it has to wait. -/
def step (settings : LogSettings μ τ) (s : WriterState μ τ) :
    WriterEvent μ τ → Option (WriterState μ τ)
  | .stage record => some (s.stage settings record)
  | .claim ticket =>
    (s.writers.find? (·.ticket == ticket)).bind fun writer =>
      -- not durable yet, and no other barrier runs: take one for every ticket handed out
      if writer.barrier = none ∧ s.gate.durable < ticket ∧ s.gate.inFlight = false then
        some { s with
          gate := s.gate.take
          writers := s.onWriter ticket fun writer => some { writer with
            barrier := some (s.gate.issued, s.log.files.recordCount writer.staged.segmentId) } }
      else none
  | .barrier ticket succeeds =>
    (s.writers.find? (·.ticket == ticket)).bind fun writer => writer.barrier.map fun barrier =>
      if succeeds then
        { s with
          synced := update s.synced writer.staged.segmentId
            (max (s.synced writer.staged.segmentId) barrier.2)
          gate := s.gate.finish barrier.1 true
          writers := s.onWriter ticket fun writer => some { writer with barrier := none } }
      else
        -- the finish returns the error
        { s with
          gate := s.gate.finish barrier.1 false
          writers := s.onWriter ticket fun _ => none }
  | .finish ticket =>
    (s.writers.find? (·.ticket == ticket)).bind fun writer =>
      if writer.barrier = none ∧ ticket ≤ s.gate.durable then
        some { s with
          log := s.log.finishStaged writer.staged
          writers := s.onWriter ticket fun _ => none }
      else none

def run (settings : LogSettings μ τ) : WriterState μ τ → List (WriterEvent μ τ) →
    Option (WriterState μ τ)
  | s, [] => some s
  | s, event :: events => (s.step settings event).bind fun next => next.run settings events

end

end WriterState

/-- A file after a crash: what was synced, and of the rest as much as happened to be written. -/
def Segment.crash (segment : Segment μ τ) (synced keep : ℕ) (torn : Bool) : Segment μ τ :=
  let kept := max synced keep
  ⟨segment.id, segment.envelopes.take kept, torn && decide (kept < segment.envelopes.length)⟩

def WriterState.crash (s : WriterState μ τ) (keep : ℕ → ℕ) (torn : ℕ → Bool) : NodeFiles μ τ :=
  ⟨s.log.files.segments.map fun segment =>
      segment.crash (s.synced segment.id) (keep segment.id) (torn segment.id),
    s.log.files.images⟩

/-- A new image takes the file of an earlier one. -/
def NodeFiles.RemovesImage (files : NodeFiles μ τ) (record : RaftWalRecord μ τ) : Prop :=
  ∃ new newImage old, record.image = some (new, newImage) ∧ files.images new = none ∧
    (files.images old).isSome ∧ old < new

section

variable [DecidableEq τ] [Inhabited τ]

/-- An append does not remove an image, and opens a new segment only when every append before it is
finished and durable. -/
structure WriterState.CarefulStage (settings : LogSettings μ τ) (s : WriterState μ τ)
    (record : RaftWalRecord μ τ) : Prop where
  image : ¬ s.log.files.RemovesImage record
  segment : (s.log.placement settings record).rotate = true →
    s.writers = [] ∧ s.gate.durable = s.gate.issued

/-- Every append of the run is careful. -/
def WriterState.Careful (settings : LogSettings μ τ) :
    WriterState μ τ → List (WriterEvent μ τ) → Prop
  | _, [] => True
  | s, event :: events =>
    (∀ record, event = .stage record → s.CarefulStage settings record) ∧
      ∀ next, s.step settings event = some next → next.Careful settings events

end

section

variable [DecidableEq τ] [Inhabited τ]

/-- The record `back` before the last one is what the segments give without their last `back`
records, and its image has its file. -/
structure HoldsAt (files : NodeFiles μ τ) (records : List (RaftWalRecord μ τ)) (back : ℕ)
    (record : RaftWalRecord μ τ) : Prop where
  position : records[records.length - 1 - back]? = some record
  fold : ∃ x, foldEnvelopes none ((allEnvelopes files.segments).take
    ((allEnvelopes files.segments).length - back)) = some x ∧ x.SameDurable record.stored
  image : ∀ index image, record.image = some (index, image) → files.images index = some image

/-- The log after the records of earlier processes and of this one. Each of the appends of this
process can be undone. -/
structure Traced (log : NodeLog μ τ) (earlier records : List (RaftWalRecord μ τ)) : Prop where
  reflects : Reflects log (earlier ++ records).getLast?
  images : ImagesOf log.files.images (earlier ++ records) (earlier ++ records).getLast?
  back : ∀ back ≤ records.length, back < (allEnvelopes log.files.segments).length →
    ∃ record, HoldsAt log.files (earlier ++ records) back record

variable {record : RaftWalRecord μ τ}

omit [DecidableEq τ] [Inhabited τ] in
lemma image_externalize {files : NodeFiles μ τ} (h : ¬ files.RemovesImage record) {index : ℕ}
    {image : List UInt8} (himg : files.images index = some image) :
    (files.externalizeStateImage record).images index = some image := by
  unfold externalizeStateImage
  split
  · exact himg
  · rename_i new newImage hnew
    split
    · exact himg
    · rename_i habs
      rw [Bool.not_eq_true, Option.isSome_eq_false_iff, Option.isNone_iff_eq_none] at habs
      have hle : ¬ index < new := fun hlt =>
        h ⟨new, newImage, index, hnew, habs, by rw [himg]; rfl, hlt⟩
      have hne : index ≠ new := by
        rintro rfl
        rw [habs] at himg
        cases himg
      unfold pruneImages writeImage
      dsimp only
      rw [if_neg hle, update_of_ne hne, himg]

lemma Traced.stage {log : NodeLog μ τ} (h : Traced log earlier records) (settings : LogSettings μ τ)
    (himg : ¬ log.files.RemovesImage record)
    (hcons : ∀ before ∈ earlier ++ (records ++ [record]), Consecutive before.entries)
    (hfol : ∀ before ∈ earlier ++ records, Follows before record) :
    Traced (log.stageNodeSegmented settings record).1 earlier (records ++ [record]) := by
  rw [← append_assoc] at hcons
  have hrec := hcons record (mem_append_right _ (mem_singleton_self _))
  have hlast : ∀ before, (earlier ++ records).getLast? = some before →
      Follows before record ∧ Consecutive before.entries := by
    intro before hbef
    have hmem := mem_of_getLast? hbef
    exact ⟨hfol before hmem, hcons before (mem_append_left _ hmem)⟩
  have hfiles := h.reflects.files_stage settings record
  have hstage := h.reflects.stage settings hrec hlast
  have himgs := h.images.externalize hfol
  refine ⟨?_, ?_, ?_⟩
  · rw [← append_assoc, getLast?_concat]
    exact hstage
  · rw [← append_assoc, getLast?_concat, hfiles]
    exact himgs
  · intro back hback hlt
    rw [← append_assoc]
    cases back with
    | zero =>
      obtain ⟨x, hfold, hx⟩ := hstage.fold record rfl
      refine ⟨record, ?_, ⟨x, ?_, hx⟩, ?_⟩
      · rw [length_append]
        exact getElem?_concat_length
      · rw [Nat.sub_zero, take_length, hfold]
      · intro index image hidx
        rw [hfiles]
        exact himgs.last record index image rfl hidx
    | succ back =>
      -- the append is undone, and what was before it holds
      rw [hfiles, allEnvelopes_appendEnvelope, length_append] at hlt
      rw [length_append] at hback
      obtain ⟨before, hbef, ⟨x, hfold, hx⟩, hkept⟩ :=
        h.back back (le_of_succ_le_succ hback) (lt_of_succ_lt_succ hlt)
      refine ⟨before, ?_, ⟨x, ?_, hx⟩, ?_⟩
      · have hposi : (earlier ++ records ++ [record]).length - 1 - (back + 1) =
            (earlier ++ records).length - 1 - back := by
          rw [length_append, length_singleton]
          omega
        rw [hposi, getElem?_append_left, hbef]
        exact (List.getElem?_eq_some_iff.mp hbef).1
      · rw [hfiles, allEnvelopes_appendEnvelope, length_append, length_singleton,
          Nat.add_sub_add_right, take_append_of_le_length (Nat.sub_le _ _), hfold]
      · intro index image hidx
        rw [hfiles]
        exact image_externalize himg (hkept index image hidx)

lemma Traced.finish {log : NodeLog μ τ} (h : Traced log earlier records) (hrecs : records ≠ [])
    {staged : StagedWalAppend} (hkeep : 1 ≤ staged.minKeepSegments) :
    Traced (log.finishStaged staged) earlier records := by
  obtain ⟨record, hlast⟩ : ∃ record, (earlier ++ records).getLast? = some record :=
    ⟨_, getLast?_eq_some_getLast (append_ne_nil_of_right_ne_nil earlier hrecs)⟩
  have hrefl := h.reflects
  rw [hlast] at hrefl
  have hfinish := hrefl.finish hkeep
  unfold NodeLog.finishStaged at hfinish ⊢
  split
  · exact h
  · rename_i cursor hcur
    rw [hcur] at hfinish
    have hcursorOf := hrefl.shape cursor hcur
    have hremove : cursor.removable staged < log.files.segments.length := by
      rw [← hcursorOf.length]
      apply removable_lt hkeep
      rw [hcursorOf.length]
      exact length_pos_iff.mpr (hrefl.segments_ne_nil (Option.some_ne_none record))
    refine ⟨?_, h.images, ?_⟩
    · rw [hlast]
      exact hfinish
    · intro back hback hlt
      have hsplit : (allEnvelopes log.files.segments).length =
          (allEnvelopes (log.files.segments.take (cursor.removable staged))).length +
            (allEnvelopes (log.files.segments.drop (cursor.removable staged))).length := by
        unfold allEnvelopes
        rw [← length_append, ← flatMap_append, take_append_drop]
      dsimp only at hlt
      obtain ⟨before, hbef, ⟨x, hfold, hx⟩, hkept⟩ := h.back back hback (by omega)
      refine ⟨before, hbef, ⟨x, ?_, hx⟩, hkept⟩
      rw [foldEnvelopes_take_drop hrefl.opened hremove (Nat.sub_pos_of_lt hlt), ← hfold]
      congr 2
      omega

end

/-- A writer whose record is in the last segment. -/
structure Writer.InLast (writer : Writer) (issued : ℕ) (last : Segment μ τ) : Prop where
  segment : writer.staged.segmentId = last.id
  keep : 1 ≤ writer.staged.minKeepSegments
  positive : 1 ≤ writer.ticket
  behind : issued < writer.ticket + last.envelopes.length
  within : writer.ticket ≤ issued
  barrier : ∀ target covered, writer.barrier = some (target, covered) →
    1 ≤ covered ∧ target + (last.envelopes.length - covered) ≤ issued

/-- All segments but the last are on disk, and what is not of the last one is behind every ticket
that counts as durable. -/
structure WriterState.Synced (s : WriterState μ τ) (front : List (Segment μ τ))
    (last : Segment μ τ) : Prop where
  segments : s.log.files.segments = front ++ [last]
  onDisk : ∀ segment ∈ front, segment.envelopes.length ≤ s.synced segment.id
  durable : s.gate.durable + (last.envelopes.length - s.synced last.id) ≤ s.gate.issued
  begun : 1 ≤ s.gate.durable → front ≠ [] ∨ 1 ≤ s.synced last.id
  writers : ∀ writer ∈ s.writers, writer.InLast s.gate.issued last

structure WriterState.Unwritten (s : WriterState μ τ) : Prop where
  segments : s.log.files.segments = []
  durable : s.gate.durable = 0
  writers : s.writers = []

/-- The state of a run that is careful so far. -/
structure WriterState.Inv [DecidableEq τ] [Inhabited τ] (s : WriterState μ τ)
    (earlier records : List (RaftWalRecord μ τ)) : Prop where
  traced : Traced s.log earlier records
  issued : s.gate.issued = records.length
  segments : s.Unwritten ∨ ∃ front last, s.Synced front last

lemma WriterState.Synced.onWriter {s : WriterState μ τ} {front : List (Segment μ τ)}
    {last : Segment μ τ} (h : s.Synced front last) {ticket : ℕ} {f : Writer → Option Writer}
    (hf : ∀ before after, before.InLast s.gate.issued last → f before = some after →
      after.InLast s.gate.issued last) :
    ∀ writer ∈ s.onWriter ticket f, writer.InLast s.gate.issued last := by
  intro writer hwr
  obtain ⟨before, hbef, heq⟩ := mem_filterMap.mp hwr
  split at heq
  · exact hf before writer (h.writers before hbef) heq
  · cases heq
    exact h.writers _ hbef

lemma recordCount_of_mem {files : NodeFiles μ τ}
    (hids : files.segments.Pairwise (·.id < ·.id)) {segment : Segment μ τ}
    (hseg : segment ∈ files.segments) :
    files.recordCount segment.id = segment.envelopes.length := by
  unfold recordCount
  obtain ⟨before, after, hsplit⟩ := append_of_mem hseg
  rw [hsplit] at hids ⊢
  have hbef : before.find? (·.id == segment.id) = none := by
    rw [find?_eq_none]
    intro other hother
    have := (pairwise_append.mp hids).2.2 other hother segment mem_cons_self
    simp only [beq_iff_eq]
    omega
  rw [find?_append, hbef]
  simp

lemma Writer.InLast.append {writer : Writer} {issued : ℕ} {last : Segment μ τ}
    (h : writer.InLast issued last) (envelope : RaftWalEnvelope μ τ) :
    writer.InLast (issued + 1) { last with envelopes := last.envelopes ++ [envelope] } := by
  have hlen : (last.envelopes ++ [envelope]).length = last.envelopes.length + 1 := length_append
  refine ⟨h.segment, h.keep, h.positive, ?_, le_succ_of_le h.within, ?_⟩
  · have := h.behind
    dsimp only
    omega
  · intro target covered hbarrier
    obtain ⟨hcov, htarget⟩ := h.barrier target covered hbarrier
    dsimp only
    omega

section

variable [DecidableEq τ] [Inhabited τ]

variable {s : WriterState μ τ} {front : List (Segment μ τ)} {record : RaftWalRecord μ τ}
  {envelope : RaftWalEnvelope μ τ}

lemma WriterState.Synced.stage_last {last : Segment μ τ} (h : s.Synced front last)
    (settings : LogSettings μ τ) (hsegs : (s.stage settings record).log.files.segments =
      appendEnvelope s.log.files.segments last.id envelope)
    (hid : (s.log.stageNodeSegmented settings record).2.segmentId = last.id) :
    (s.stage settings record).Synced front
      { last with envelopes := last.envelopes ++ [envelope] } := by
  have hlast : s.log.files.segments.getLast? = some last := by
    rw [h.segments, getLast?_concat]
  have hsync : (s.stage settings record).synced = s.synced := by
    unfold WriterState.stage
    dsimp only
    rw [if_pos]
    rw [any_eq_true]
    exact ⟨last, mem_of_getLast? hlast, by rw [hid, beq_self_eq_true]⟩
  have hlen : (last.envelopes ++ [envelope]).length = last.envelopes.length + 1 := length_append
  refine ⟨?_, ?_, ?_, ?_, ?_⟩
  · rw [hsegs, appendEnvelope_last hlast, h.segments, dropLast_concat]
  · rw [hsync]
    exact h.onDisk
  · rw [hsync]
    have := h.durable
    change s.gate.durable + _ ≤ s.gate.issued + 1
    dsimp only
    omega
  · rw [hsync]
    exact h.begun
  · refine forall_mem_append.mpr ⟨fun writer hwr => (h.writers writer hwr).append envelope,
      forall_mem_singleton.mpr ⟨hid, le_max_right _ _, succ_le_succ (zero_le _), ?_,
        le_refl _, nofun⟩⟩
    change s.gate.issued + 1 < s.gate.issued + 1 + _
    dsimp only
    omega

lemma WriterState.synced_stage_new (settings : LogSettings μ τ) {id : ℕ}
    (hsegs : (s.stage settings record).log.files.segments =
      s.log.files.segments ++ [⟨id, [envelope], false⟩])
    (hid : (s.log.stageNodeSegmented settings record).2.segmentId = id)
    (hnew : ∀ segment ∈ s.log.files.segments, segment.id ≠ id)
    (honDisk : ∀ segment ∈ s.log.files.segments, segment.envelopes.length ≤ s.synced segment.id)
    (hbegun : 1 ≤ s.gate.durable → s.log.files.segments ≠ [])
    (hdur : s.gate.durable ≤ s.gate.issued) (hwriters : s.writers = []) :
    (s.stage settings record).Synced s.log.files.segments ⟨id, [envelope], false⟩ := by
  have hsync : (s.stage settings record).synced = update s.synced id 0 := by
    unfold WriterState.stage
    dsimp only
    rw [hid, if_neg]
    simp only [any_eq_true, beq_iff_eq, not_exists, not_and]
    exact hnew
  refine ⟨hsegs, ?_, ?_, fun hpos => .inl (hbegun hpos), ?_⟩
  · intro segment hseg
    rw [hsync, update_of_ne (hnew segment hseg)]
    exact honDisk segment hseg
  · rw [hsync, update_self]
    exact succ_le_succ hdur
  · intro writer hwr
    change writer ∈ s.writers ++ _ at hwr
    rw [hwriters, nil_append, mem_singleton] at hwr
    rw [hwr]
    exact ⟨hid, le_max_right _ _, succ_le_succ (zero_le _), lt_succ_self _, le_refl _, nofun⟩

variable {earlier records : List (RaftWalRecord μ τ)} {ticket : ℕ}

omit [DecidableEq τ] [Inhabited τ] in
lemma WriterState.of_find {writer : Writer}
    (h : s.writers.find? (·.ticket == ticket) = some writer) :
    writer ∈ s.writers ∧ writer.ticket = ticket := by
  have hticket := find?_some h
  exact ⟨mem_of_find?_eq_some h, beq_iff_eq.mp hticket⟩

omit [DecidableEq τ] [Inhabited τ] in
lemma Shaped.segments_finish {log : NodeLog μ τ} (h : Shaped log) {staged : StagedWalAppend}
    (hkeep : 1 ≤ staged.minKeepSegments) {segment : Segment μ τ}
    (hsegs : log.files.segments = front ++ [segment]) :
    ∃ remove, (log.finishStaged staged).files.segments = front.drop remove ++ [segment] := by
  unfold NodeLog.finishStaged
  split
  · exact ⟨0, hsegs⟩
  · rename_i cursor hcur
    have hlen := (h.shape cursor hcur).length
    rw [hsegs, length_append, length_singleton] at hlen
    have hremove : cursor.removable staged < cursor.segments.length := removable_lt hkeep (by omega)
    refine ⟨cursor.removable staged, ?_⟩
    rw [hsegs, drop_append_of_le_length]
    omega

lemma inv_opened {log : NodeLog μ τ} (h : Reflects log earlier.getLast?)
    (himgs : ImagesOf log.files.images earlier earlier.getLast?) :
    (WriterState.opened log.files).Inv earlier [] := by
  refine ⟨⟨?_, ?_, ?_⟩, rfl, ?_⟩
  · rw [append_nil]
    exact ⟨⟨h.opened, h.ids, h.stored, nofun⟩, h.fold, nofun, h.start⟩
  · rw [append_nil]
    exact himgs
  · intro back hback hlt
    cases le_zero.mp hback
    rw [append_nil]
    cases hlast : earlier.getLast? with
    | none =>
      have hnil := h.start hlast
      change 0 < (allEnvelopes log.files.segments).length at hlt
      rw [hnil] at hlt
      cases hlt
    | some record =>
      obtain ⟨x, hfold, hx⟩ := h.fold record hlast
      refine ⟨record, ?_, ⟨x, ?_, hx⟩, fun index image => himgs.last record index image hlast⟩
      · rw [Nat.sub_zero, ← getLast?_eq_getElem?, hlast]
      · rw [Nat.sub_zero, take_length]
        exact hfold
  · cases hlast : log.files.segments.getLast? with
    | none => exact .inl ⟨getLast?_eq_none_iff.mp hlast, rfl, rfl⟩
    | some last =>
      obtain ⟨front, hsegs⟩ := getLast?_eq_some_iff.mp hlast
      have hcount : ∀ segment ∈ log.files.segments,
          (WriterState.opened log.files).synced segment.id = segment.envelopes.length :=
        fun segment hseg => recordCount_of_mem h.ids hseg
      refine .inr ⟨front, last, hsegs, ?_, ?_, nofun, fun writer hwr => absurd hwr not_mem_nil⟩
      · intro segment hseg
        exact le_of_eq (hcount segment (hsegs ▸ mem_append_left _ hseg)).symm
      · rw [hcount last (mem_of_getLast? hlast), Nat.sub_self]
        exact le_refl _

omit [DecidableEq τ] [Inhabited τ] in
lemma WriterState.Synced.crash {last : Segment μ τ} (h : s.Synced front last)
    (huntorn : ∀ segment ∈ s.log.files.segments, segment.torn = false) (keep : ℕ → ℕ)
    (torn : ℕ → Bool) : ∃ kept, s.synced last.id ≤ kept ∧
      (s.crash keep torn).segments = front ++ [last.crash (s.synced last.id) (keep last.id)
        (torn last.id)] ∧ allEnvelopes (s.crash keep torn).segments =
        (allEnvelopes s.log.files.segments).take ((allEnvelopes s.log.files.segments).length -
          (last.envelopes.length - kept)) := by
  have hfront : front.map (fun segment => segment.crash (s.synced segment.id) (keep segment.id)
      (torn segment.id)) = front := by
    refine (map_congr_left (g := id) ?_).trans (map_id front)
    intro segment hseg
    have hdisk := le_trans (h.onDisk segment hseg) (le_max_left _ (keep segment.id))
    have htorn := huntorn segment (h.segments ▸ mem_append_left _ hseg)
    unfold Segment.crash
    dsimp only
    rw [take_of_length_le hdisk, decide_eq_false (Nat.not_lt_of_le hdisk), Bool.and_false, ← htorn]
    rfl
  have hsegs : (s.crash keep torn).segments = front ++ [last.crash (s.synced last.id)
      (keep last.id) (torn last.id)] := by
    unfold WriterState.crash
    rw [h.segments, map_append, hfront]
    rfl
  refine ⟨max (s.synced last.id) (keep last.id), le_max_left _ _, hsegs, ?_⟩
  have hleft : allEnvelopes (front ++ [last.crash (s.synced last.id) (keep last.id)
      (torn last.id)]) = allEnvelopes front ++
        last.envelopes.take (max (s.synced last.id) (keep last.id)) := by
    simp [allEnvelopes, Segment.crash]
  have hright : allEnvelopes (front ++ [last]) = allEnvelopes front ++ last.envelopes := by
    simp [allEnvelopes]
  rw [hsegs, h.segments, hleft, hright, length_append, take_append]
  congr 1
  · rw [take_of_length_le]
    omega
  · rw [take_eq_take_iff]
    omega

variable (h : s.Inv earlier records)
include h

lemma WriterState.Inv.durable_le : s.gate.durable ≤ s.gate.issued := by
  rcases h.segments with hnone | ⟨front, last, hsync⟩
  · rw [hnone.durable]
    exact zero_le _
  · have := hsync.durable
    omega

variable {settings : LogSettings μ τ}

lemma WriterState.Inv.stage (hcare : s.CarefulStage settings record)
    (hcons : ∀ before ∈ earlier ++ (records ++ [record]), Consecutive before.entries)
    (hfol : ∀ before ∈ earlier ++ records, Follows before record) :
    (s.stage settings record).Inv earlier (records ++ [record]) := by
  have hrefl := h.traced.reflects
  have hsegs := congrArg NodeFiles.segments (hrefl.files_stage settings record)
  refine ⟨h.traced.stage settings hcare.image hcons hfol, ?_, .inr ?_⟩
  · rw [length_append, ← h.issued]
    rfl
  rcases hrefl.fitsTo_placement settings record with
    ⟨-, segment, hlast, hid⟩ | ⟨-, hlt, hrot⟩
  · rcases h.segments with hnone | ⟨front, last, hsync⟩
    · rw [hnone.segments] at hlast
      cases hlast
    · rw [hsync.segments, getLast?_concat] at hlast
      cases hlast
      rw [hid] at hsegs
      exact ⟨_, _, hsync.stage_last settings hsegs hid⟩
  · -- a new segment: what was written before is on disk
    rw [appendEnvelope_new fun segment hlast => Nat.ne_of_lt (hlt segment hlast)] at hsegs
    have hnew : ∀ segment ∈ s.log.files.segments, segment.id ≠
        (s.log.placement settings record).segmentId := by
      have hids : (s.log.files.segments ++ [(⟨_, [], false⟩ : Segment μ τ)]).Pairwise
        (·.id < ·.id) := ids_concat hrefl.ids hlt
      intro segment hseg
      exact Nat.ne_of_lt ((pairwise_append.mp hids).2.2 segment hseg _ (mem_singleton_self _))
    rcases h.segments with hnone | ⟨front, last, hsync⟩
    · have hdur := hnone.durable
      refine ⟨_, _, WriterState.synced_stage_new settings hsegs rfl hnew ?_ ?_ h.durable_le
        hnone.writers⟩
      · rw [hnone.segments]
        exact fun segment hseg => absurd hseg not_mem_nil
      · omega
    · have hne : s.log.files.segments ≠ [] := by
        rw [hsync.segments]
        exact concat_ne_nil _ _
      obtain ⟨hwriters, hdur⟩ := hcare.segment (hrot.resolve_right hne)
      refine ⟨_, _, WriterState.synced_stage_new settings hsegs rfl hnew ?_ (fun _ => hne)
        h.durable_le hwriters⟩
      have := hsync.durable
      rw [hsync.segments, forall_mem_append, forall_mem_singleton]
      exact ⟨hsync.onDisk, by omega⟩

lemma WriterState.Inv.of_writer {writer : Writer} (hwr : writer ∈ s.writers) :
    ∃ front last, s.Synced front last ∧ writer.InLast s.gate.issued last := by
  rcases h.segments with hnone | ⟨front, last, hsync⟩
  · rw [hnone.writers] at hwr
    cases hwr
  · exact ⟨front, last, hsync, hsync.writers writer hwr⟩

variable {next : WriterState μ τ}

lemma WriterState.Inv.claim (hstep : s.step settings (.claim ticket) = some next) :
    next.Inv earlier records ∧ next.gate.durable = s.gate.durable := by
  obtain ⟨writer, hfind, hstep⟩ := Option.bind_eq_some_iff.mp hstep
  obtain ⟨hmem, -⟩ := WriterState.of_find hfind
  obtain ⟨front, last, hsync, -⟩ := h.of_writer hmem
  split at hstep
  · cases hstep
    refine ⟨⟨h.traced, h.issued, .inr ⟨front, last, hsync.segments, hsync.onDisk,
      hsync.durable, hsync.begun, hsync.onWriter ?_⟩⟩, rfl⟩
    rintro before _ hin ⟨⟩
    refine ⟨hin.segment, hin.keep, hin.positive, hin.behind, hin.within, ?_⟩
    rintro _ _ ⟨⟩
    -- the barrier is for what the last segment holds
    have hlast : last ∈ s.log.files.segments := by
      rw [hsync.segments]
      exact mem_concat_self
    rw [hin.segment, recordCount_of_mem h.traced.reflects.ids hlast, Nat.sub_self]
    have := hin.behind
    have := hin.within
    exact ⟨by omega, le_refl _⟩
  · cases hstep

lemma WriterState.Inv.barrier {succeeds : Bool}
    (hstep : s.step settings (.barrier ticket succeeds) = some next) :
    next.Inv earlier records ∧ s.gate.durable ≤ next.gate.durable := by
  obtain ⟨writer, hfind, hstep⟩ := Option.bind_eq_some_iff.mp hstep
  obtain ⟨hmem, -⟩ := WriterState.of_find hfind
  obtain ⟨front, last, hsync, hin⟩ := h.of_writer hmem
  obtain ⟨⟨target, covered⟩, hbarrier, rfl⟩ := Option.map_eq_some_iff.mp hstep
  obtain ⟨hcov, htarget⟩ := hin.barrier target covered hbarrier
  have hdur := hsync.durable
  cases succeeds with
  | true =>
    refine ⟨⟨h.traced, h.issued, .inr ⟨front, last, hsync.segments, ?_, ?_, ?_, ?_⟩⟩,
      le_max_left _ _⟩
    · intro segment hseg
      have hdisk := hsync.onDisk segment hseg
      simp only [if_true]
      by_cases hid : segment.id = writer.staged.segmentId
      · rw [hid, update_self, ← hid]
        exact le_trans hdisk (le_max_left _ _)
      · rw [update_of_ne hid]
        exact hdisk
    · simp only [GateState.finish, if_true, hin.segment, update_self]
      omega
    · intro _
      simp only [if_true, hin.segment, update_self]
      exact .inr (le_trans hcov (le_max_right _ _))
    · apply hsync.onWriter
      rintro before _ hin ⟨⟩
      exact ⟨hin.segment, hin.keep, hin.positive, hin.behind, hin.within, by simp⟩
  | false =>
    exact ⟨⟨h.traced, h.issued, .inr ⟨front, last, hsync.segments, hsync.onDisk,
      hsync.durable, hsync.begun, hsync.onWriter (by simp)⟩⟩, le_refl _⟩

lemma WriterState.Inv.finish (hstep : s.step settings (.finish ticket) = some next) :
    next.Inv earlier records ∧ next.gate.durable = s.gate.durable ∧ 1 ≤ ticket ∧
      ticket ≤ s.gate.durable := by
  obtain ⟨writer, hfind, hstep⟩ := Option.bind_eq_some_iff.mp hstep
  obtain ⟨hmem, rfl⟩ := WriterState.of_find hfind
  obtain ⟨front, last, hsync, hin⟩ := h.of_writer hmem
  split at hstep
  · rename_i hready
    cases hstep
    have hrecs : records ≠ [] := by
      rintro rfl
      have hissued : s.gate.issued = 0 := h.issued
      have := hin.positive
      have := hin.within
      omega
    obtain ⟨remove, hsegs⟩ := h.traced.reflects.segments_finish hin.keep hsync.segments
    refine ⟨⟨h.traced.finish hrecs hin.keep, h.issued, .inr ⟨front.drop remove, last,
      hsegs, ?_, hsync.durable, ?_, hsync.onWriter fun _ _ _ => nofun⟩⟩, rfl, hin.positive,
      hready.2⟩
    · exact fun segment hseg => hsync.onDisk segment (mem_of_mem_drop hseg)
    · -- its own record is on disk, which opens the last segment or is behind that
      intro _
      have := hsync.durable
      have := hin.behind
      right
      change 1 ≤ s.synced last.id
      omega
  · cases hstep

lemma WriterState.Inv.step {event : WriterEvent μ τ} (hstep : s.step settings event = some next)
    (hcare : ∀ record, event = .stage record → s.CarefulStage settings record)
    (hcons : ∀ record ∈ earlier ++ (records ++ stagedRecords [event]), Consecutive record.entries)
    (hfol : (earlier ++ (records ++ stagedRecords [event])).Pairwise Follows) :
    next.Inv earlier (records ++ stagedRecords [event]) ∧ s.gate.durable ≤ next.gate.durable ∧
      ∀ ticket, event = .finish ticket → 1 ≤ ticket ∧ ticket ≤ next.gate.durable := by
  cases event with
  | stage record =>
    cases hstep
    refine ⟨h.stage (hcare record rfl) hcons ?_, le_refl _, nofun⟩
    intro before hbef
    rw [← append_assoc] at hfol
    exact (pairwise_append.mp hfol).2.2 before hbef record (mem_singleton_self _)
  | claim ticket =>
    obtain ⟨hnext, hdur⟩ := h.claim hstep
    exact ⟨by simpa [stagedRecords] using hnext, le_of_eq hdur.symm, nofun⟩
  | barrier ticket succeeds =>
    obtain ⟨hnext, hdur⟩ := h.barrier hstep
    exact ⟨by simpa [stagedRecords] using hnext, hdur, nofun⟩
  | finish ticket =>
    obtain ⟨hnext, hdur, hpos, hle⟩ := h.finish hstep
    refine ⟨by simpa [stagedRecords] using hnext, le_of_eq hdur.symm, ?_⟩
    rintro _ ⟨⟩
    exact ⟨hpos, hdur ▸ hle⟩

lemma WriterState.Inv.run {state : WriterState μ τ}
    {events : List (WriterEvent μ τ)} (hrun : s.run settings events = some state)
    (hcare : s.Careful settings events)
    (hcons : ∀ record ∈ earlier ++ (records ++ stagedRecords events), Consecutive record.entries)
    (hfol : (earlier ++ (records ++ stagedRecords events)).Pairwise Follows) :
    state.Inv earlier (records ++ stagedRecords events) ∧ s.gate.durable ≤ state.gate.durable ∧
      ∀ ticket, .finish ticket ∈ events → 1 ≤ ticket ∧ ticket ≤ state.gate.durable := by
  induction events generalizing s records with
  | nil =>
    cases hrun
    exact ⟨by simpa [stagedRecords] using h, le_refl _, fun _ hmem => absurd hmem not_mem_nil⟩
  | cons event events ih =>
    obtain ⟨next, hstep, hrun⟩ := Option.bind_eq_some_iff.mp hrun
    obtain ⟨hevent, hrest⟩ := hcare
    have hsplit : records ++ stagedRecords (event :: events) =
        records ++ stagedRecords [event] ++ stagedRecords events := by
      rw [append_assoc]
      unfold stagedRecords
      rw [← filterMap_append]
      rfl
    rw [hsplit] at hcons hfol ⊢
    rw [← append_assoc] at hcons hfol
    obtain ⟨hnext, hdur, hfinish⟩ := h.step hstep hevent
      (fun record hrec => hcons record (mem_append_left _ hrec))
      (pairwise_append.mp hfol).1
    rw [append_assoc] at hcons hfol
    obtain ⟨hstate, hdur', hfinish'⟩ := ih hnext hrun (hrest next hstep) hcons hfol
    refine ⟨hstate, le_trans hdur hdur', ?_⟩
    intro ticket hmem
    rcases mem_cons.mp hmem with rfl | hmem
    · obtain ⟨hpos, hle⟩ := hfinish ticket rfl
      exact ⟨hpos, le_trans hle hdur'⟩
    · exact hfinish' ticket hmem

/-- After a crash the files give a record that is not older than any ticket that is durable. -/
lemma WriterState.Inv.crash (hpos : 1 ≤ s.gate.durable) (keep : ℕ → ℕ)
    (torn : ℕ → Bool) : ∃ position record, earlier.length + s.gate.durable ≤ position + 1 ∧
      (earlier ++ records)[position]? = some record ∧ (s.crash keep torn).Recovers record := by
  rcases h.segments with hnone | ⟨front, last, hsync⟩
  · have := hnone.durable
    omega
  · have hopened := h.traced.reflects.opened
    have hissued := h.issued
    have hdur := hsync.durable
    obtain ⟨kept, hkept, hsegs, henvs⟩ :=
      hsync.crash (fun segment hseg => (hopened segment hseg).untorn) keep torn
    have hwhole : (allEnvelopes s.log.files.segments).length =
        (allEnvelopes front).length + last.envelopes.length := by
      rw [hsync.segments]
      simp [allEnvelopes]
    have hnon : ∀ segment ∈ s.log.files.segments, 0 < segment.envelopes.length := by
      intro segment hseg
      obtain ⟨envelope, rest, heq, -⟩ := (hopened segment hseg).base
      rw [heq]
      exact succ_pos _
    -- the crash does not take the only record there is
    have hsome : last.envelopes.length - kept < (allEnvelopes s.log.files.segments).length := by
      rcases hsync.begun hpos with hfront | hone
      · obtain ⟨segment, rest, rfl⟩ := exists_cons_of_ne_nil hfront
        have hfirst := hnon segment (by rw [hsync.segments]; simp)
        have : (allEnvelopes (segment :: rest)).length =
            segment.envelopes.length + (allEnvelopes rest).length := by
          simp [allEnvelopes]
        omega
      · have hlast := hnon last (by rw [hsync.segments]; exact mem_concat_self)
        omega
    obtain ⟨record, hrec, ⟨x, hfold, hx⟩, himg⟩ :=
      h.traced.back (last.envelopes.length - kept) (by omega) hsome
    refine ⟨_, record, ?_, hrec, recovers_of_fold ?_ ?_ hx himg⟩
    · rw [length_append]
      omega
    · intro segment hseg
      rw [hsegs, dropLast_concat] at hseg
      exact (hopened segment (hsync.segments ▸ mem_append_left _ hseg)).untorn
    · rw [henvs, hfold]

end

/-- A finish that returns means that the record of the append, or a later one, is recovered after
every crash from then on, if the appends are careful. -/
theorem finished_survives_crash [DecidableEq μ] [DecidableEq τ] [Inhabited τ]
    (settings : LogSettings μ τ) (previous : List (LogEvent μ τ))
    (events : List (WriterEvent μ τ)) (state : WriterState μ τ)
    (hrun : (WriterState.opened (PersistedLog.empty.run settings previous).log.files).run settings
      events = some state) (hcareful : (WriterState.opened
      (PersistedLog.empty.run settings previous).log.files).Careful settings events)
    (hconsecutive : ∀ record ∈ handedOver previous ++ stagedRecords events,
      Consecutive record.entries)
    (hfollows : (handedOver previous ++ stagedRecords events).Pairwise Follows)
    (ticket : ℕ) (hfinish : .finish ticket ∈ events) (keep : ℕ → ℕ) (torn : ℕ → Bool) :
    ∃ position record, (handedOver previous).length + ticket ≤ position + 1 ∧
      (handedOver previous ++ stagedRecords events)[position]? = some record ∧
      (state.crash keep torn).Recovers record := by
  have hprevious := holds_run settings (fun record hrecord => hconsecutive record
    (mem_append_left _ hrecord)) (pairwise_append.mp hfollows).1
  have hopened := inv_opened hprevious.reflects hprevious.images
  obtain ⟨hstate, -, hfinished⟩ := hopened.run hrun hcareful hconsecutive hfollows
  obtain ⟨hpos, hdurable⟩ := hfinished ticket hfinish
  obtain ⟨position, record, hposition, hrecord, hrecovers⟩ :=
    hstate.crash (le_trans hpos hdurable) keep torn
  refine ⟨position, record, ?_, hrecord, hrecovers⟩
  omega

def grownRecord (last : ℕ) : RaftWalRecord Unit Unit :=
  plainRecord none ((range' 1 last).map fun index => ⟨index, 1, []⟩)

lemma follows_grownRecord : [grownRecord 1, grownRecord 2, grownRecord 3].Pairwise Follows := by
  refine .cons (forall_mem_cons.mpr ⟨?_, forall_mem_singleton.mpr ?_⟩)
    (.cons (forall_mem_singleton.mpr ?_) (pairwise_singleton _ _))
  all_goals exact ⟨by decide, by decide, by decide, by decide⟩

/-- The second append opens a segment, after the first is finished. -/
def orderlyWriters : List (WriterEvent Unit Unit) :=
  [.stage (grownRecord 2), .claim 1, .barrier 1 true, .finish 1, .stage (grownRecord 3)]

lemma orderlyWriters_careful : (WriterState.opened (PersistedLog.empty.run unitSettings
    [.persist (grownRecord 1)]).log.files).Careful unitSettings orderlyWriters := by
  refine ⟨?_, ?_⟩
  · rintro _ ⟨⟩
    refine ⟨?_, ?_⟩
    · rintro ⟨new, newImage, old, hnone, -⟩
      cases hnone
    · intro hrot
      decide
  rintro _ ⟨⟩
  refine ⟨nofun, ?_⟩
  rintro _ ⟨⟩
  refine ⟨nofun, ?_⟩
  rintro _ ⟨⟩
  refine ⟨nofun, ?_⟩
  rintro _ ⟨⟩
  refine ⟨?_, fun _ _ => trivial⟩
  rintro _ ⟨⟩
  refine ⟨?_, fun _ => ⟨rfl, rfl⟩⟩
  rintro ⟨new, newImage, old, hnone, -⟩
  cases hnone

theorem orderlyWriters_survive : ∃ state, (WriterState.opened
      (PersistedLog.empty.run unitSettings [.persist (grownRecord 1)]).log.files).run
      unitSettings orderlyWriters = some state ∧
    ∀ keep torn, ∃ position record, 1 + 1 ≤ position + 1 ∧
      ([grownRecord 1] ++ [grownRecord 2, grownRecord 3])[position]? = some record ∧
      (state.crash keep torn).Recovers record := by
  refine ⟨_, rfl, fun keep torn => finished_survives_crash unitSettings
    [.persist (grownRecord 1)] orderlyWriters _ rfl orderlyWriters_careful ?_ ?_ 1
    (by simp [orderlyWriters]) keep torn⟩
  · exact forall_mem_cons.mpr ⟨⟨1, rfl⟩,
      forall_mem_cons.mpr ⟨⟨1, rfl⟩, forall_mem_singleton.mpr ⟨1, rfl⟩⟩⟩
  · exact follows_grownRecord

/-- The second append opens a segment while the first is not finished. The barrier of the second is
counted for both. -/
def racingWriters : List (WriterEvent Unit Unit) :=
  [.stage (grownRecord 1), .stage (grownRecord 2), .claim 2, .barrier 2 true, .finish 1]

/-- The first finish has returned, its record is torn by the crash, and recovery stops there. -/
theorem racingWriters_lose : ∃ state,
    (WriterState.opened (PersistedLog.empty.run ⟨fun _ => 1, 1, 2⟩ []).log.files).run
      ⟨fun _ => 1, 1, 2⟩ racingWriters = some state ∧
    (∀ record ∈ stagedRecords racingWriters, Consecutive record.entries) ∧
    (stagedRecords racingWriters).Pairwise Follows ∧ .finish 1 ∈ racingWriters ∧
    ∃ keep torn, ¬ ∃ position record, 1 ≤ position + 1 ∧
      (stagedRecords racingWriters)[position]? = some record ∧
      (state.crash keep torn).Recovers record := by
  refine ⟨_, rfl, ?_, ?_, by simp [racingWriters], fun _ => 0, fun _ => true, ?_⟩
  · exact forall_mem_cons.mpr ⟨⟨1, rfl⟩, forall_mem_singleton.mpr ⟨1, rfl⟩⟩
  · exact Pairwise.take (i := 2) follows_grownRecord
  · -- nothing is recovered
    rintro ⟨-, record, -, -, recovered, hrecovered, -⟩
    cases hrecovered

end TemporalStore.Raft.LocalWal
