import TemporalStore.Wal.RefineAppend

namespace TemporalStore.Wal

open Lib LogFraming Log Wal

variable {β ρ : Type} {cfg : WalConfig} {codec : WalCodec β ρ} {s : WalStore} {l : Log β}

/-- When an append of a record that takes the next sequence keeps the log well formed. -/
structure Log.CanAppend (codec : WalCodec β ρ) (l : Log β) (body : β) (now : ℕ) : Prop where
  sequence : l.lastSequence < u64Max
  place : (l.ensured codec).AppendOk codec (l.next body) now

variable {record : WalRecord β} {now : ℕ}

lemma Log.WF.placed (hwf : l.WF codec) (hseq : l.lastSequence < record.sequence)
    (hok : (l.ensured codec).AppendOk codec record now) :
    ((l.ensured codec).place codec record now).WF codec :=
  hwf.ensured.place hwf.sealed_of_ensured_blank (by rw [lastSequence_ensured]; exact hseq) hok

variable {body : β}

lemma Log.CanAppend.lt_next (h : l.CanAppend codec body now) :
    l.lastSequence < (l.next body).sequence := by
  rw [sequence_next h.sequence]
  exact Nat.lt_succ_self _

lemma Log.WF.appended (hwf : l.WF codec) (hok : l.CanAppend codec body now) (cfg : WalConfig)
    (stop : RollEnd) : (l.appended codec cfg body now stop).WF codec :=
  (hwf.placed hok.lt_next hok.place).rolled cfg stop

lemma Log.nextLogId_eq (l : Log β) (record : WalRecord β) (now : ℕ) :
    l.current.base + ((l.reportFor codec record now).offset - l.current.header.length) =
      l.nextLogId codec record now := by
  simp only [reportFor, nextLogId, recordEnd]
  omega

lemma Follows.logIdAt (h : Follows cfg codec s l) (hwf : l.WF codec) (offset : ℕ) :
    logIdAt s offset = .ok (l.current.base + (offset - l.current.header.length)) := by
  rw [Wal.logIdAt, h.readWalBase_active hwf]
  rfl

lemma Follows.logIdAt_placed (h : Follows cfg codec s (l.place codec record now))
    (hwf : (l.place codec record now).WF codec) :
    Wal.logIdAt s (l.reportFor codec record now).offset = .ok (l.nextLogId codec record now) := by
  rw [h.logIdAt hwf, ← nextLogId_eq]
  rfl

/-- What every append of one record comes to, once the record is written: the roll and what is
remembered. -/
lemma AppendKind.run_eq (kind : AppendKind) {s₁ s₂ : WalStore} {last recordEnd logId : ℕ}
    (hens : ensureActiveWalSegment s = .ok s₁)
    (hres : resolveLastSequenceForAppend cfg codec s₁ = .ok (s₂, last, recordEnd))
    (hwrite : ∀ cached known, (∀ n, known = some n → n = recordEnd) → ∃ s₃ report,
      appendRecordLocked cfg codec { s₂ with lastSequence := cached } (nextRecord last body)
        known now = .ok (s₃, report) ∧ Follows cfg codec s₃ l ∧
      report.persistentBytes = l.recordEnd codec ∧
      l.current.base + (report.offset - l.current.header.length) = logId) (hwf : l.WF codec)
    (hlast : l.lastSequence = (nextRecord last body).sequence) (stop : RollEnd) :
    ∃ s', kind.run cfg codec s body now stop = .ok (s', nextRecord last body, logId) ∧
      Stored cfg codec s' (l.rolled codec cfg stop) ∧
      (stop = .complete → Represents cfg codec s' (l.rolled codec cfg stop)) := by
  cases kind with
  | durable =>
    obtain ⟨s₃, report, happ, h₃, hend, hid⟩ := hwrite (some last) (some recordEnd)
      (by rintro n ⟨⟩; rfl)
    obtain ⟨s₄, hdone, hrest⟩ := h₃.setBase.finishAppend hwf stop
    refine ⟨s₄, ?_, hrest⟩
    rw [AppendKind.run, append, hens, ok_bind, hres, ok_bind]
    dsimp only
    rw [happ, ok_bind]
    rw [cachedWalBase_eq (h₃.readWalBase_active hwf) h₃.base, ok_bind]
    rw [hend, ← hlast, hdone, hid]
    rfl
  | groupCommit =>
    obtain ⟨s₃, report, happ, h₃, hend, hid⟩ := hwrite (some last) none (by simp)
    obtain ⟨s₄, hdone, hrest⟩ := h₃.finishAppend hwf stop
    refine ⟨s₄, ?_, hrest⟩
    rw [AppendKind.run, appendForGroupCommit, hens, ok_bind, hres, ok_bind]
    dsimp only
    rw [happ, ok_bind]
    rw [h₃.logIdAt hwf, hid, hend, ← hlast, hdone]
    rfl
  | batchAsOne =>
    obtain ⟨s₃, report, happ, h₃, hend, hid⟩ := hwrite s₂.lastSequence none (by simp)
    have h₃' : Follows cfg codec { s₃ with lastSequence := some l.lastSequence } l := { h₃ with }
    obtain ⟨s₄, hdone, hrest⟩ := h₃'.finishAppend hwf stop
    refine ⟨s₄, ?_, hrest⟩
    rw [AppendKind.run, appendBatchAsOneRecord, hens, ok_bind, hres, ok_bind]
    dsimp only
    rw [happ, ok_bind]
    rw [h₃.logIdAt hwf, hid, hend, ← hlast, hdone]
    rfl

lemma Follows.appendBatchRecords (h : Follows cfg codec s l) (hwf : l.WF codec)
    (hblank : l.current.IsBlank → l.sealed = []) {bodies : List β}
    (hok : l.AppendAllOk codec now bodies) (batchEnd : ℕ)
    (hend : bodies = [] → batchEnd = l.recordEnd codec) :
    ∃ s', appendBatchRecords cfg codec now s l.lastSequence batchEnd bodies =
        .ok (s', (l.placeAll codec now bodies).lastSequence,
          (l.placeAll codec now bodies).recordEnd codec, l.batchRecords codec now bodies) ∧
      Follows cfg codec s' (l.placeAll codec now bodies) := by
  induction bodies generalizing s l batchEnd with
  | nil =>
    rw [hend rfl]
    exact ⟨s, rfl, h⟩
  | cons body bodies ih =>
    obtain ⟨hlast, happendOk, hrest⟩ := hok
    have hseq : l.lastSequence < (l.next body).sequence := by
      rw [sequence_next hlast]
      exact Nat.lt_succ_self _
    have hplaced := hwf.place hblank hseq happendOk
    obtain ⟨s₁, happ, h₁, -⟩ := h.appendRecordLocked hwf (l.next body) none (by simp) now
    have hfilled : (l.place codec (l.next body) now).current.IsBlank →
        (l.place codec (l.next body) now).sealed = [] := by
      intro hnow
      simp [place_current, Piece.IsBlank] at hnow
    obtain ⟨s₂, hmore, h₂⟩ := ih h₁ hplaced hfilled hrest
      (l.reportFor codec (l.next body) now).persistentBytes (fun _ => rfl)
    rw [lastSequence_place] at hmore
    refine ⟨s₂, ?_, h₂⟩
    rw [Wal.appendBatchRecords]
    rw [show nextRecord l.lastSequence body = l.next body from rfl, happ, ok_bind]
    dsimp only
    rw [h₁.logIdAt_placed hplaced, hmore]
    rfl

/-- When the records of a batch may be appended. -/
def Log.CanAppendAll (codec : WalCodec β ρ) (l : Log β) (bodies : List β) (now : ℕ) : Prop :=
  (l.ensured codec).AppendAllOk codec now bodies

lemma Log.next_ensured (l : Log β) (body : β) : (l.ensured codec).next body = l.next body := by
  rw [next, next, lastSequence_ensured]

/-- When a record that brings its own sequence may be appended. -/
def Log.CanReplay (codec : WalCodec β ρ) (l : Log β) (record : WalRecord β) (now : ℕ) : Prop :=
  l.lastSequence < record.sequence → (l.ensured codec).AppendOk codec record now

lemma Log.WF.replayed (hwf : l.WF codec) (hok : l.CanReplay codec record now) :
    (l.replayed codec record now).WF codec := by
  unfold Log.replayed
  split
  · exact hwf.ensured
  · next hlt => exact hwf.placed (Nat.lt_of_not_le hlt) (hok (Nat.lt_of_not_le hlt))

/-- A process that starts knows the files and nothing else. -/
def WalStore.reopened (s : WalStore) : WalStore :=
  { WalStore.empty with sealed := s.sealed, active := s.active }

lemma Stored.reopened (h : Stored cfg codec s l) : Represents cfg codec s.reopened l.reopened where
  __ := h
  verifiedLen := by simp [WalStore.reopened, WalStore.empty]
  base := by simp [WalStore.reopened, WalStore.empty]
  blockMode := rfl
  blockLastRecord := rfl
  floor := rfl
  lastSequence := by simp [WalStore.reopened, WalStore.empty]

variable (h : Represents cfg codec s l) (hwf : l.WF codec)
include h hwf

/-- The part before the write: the active piece has its header, and the last sequence and the end
of the records are known. -/
lemma Represents.prepare :
    ∃ s₁ s₂, Wal.ensureActiveWalSegment s = .ok s₁ ∧ Wal.resolveLastSequenceForAppend cfg codec s₁ =
        .ok (s₂, l.lastSequence, (l.ensured codec).recordEnd codec) ∧
      Represents cfg codec s₁ (l.ensured codec) ∧ Represents cfg codec s₂ (l.ensured codec) := by
  obtain ⟨s₁, hens, h₁⟩ := h.ensureActiveWalSegment hwf
  obtain ⟨s₂, hres, h₂⟩ := h₁.resolveLastSequenceForAppend hwf.ensured
  rw [lastSequence_ensured] at hres
  exact ⟨s₁, s₂, hens, hres, h₁, h₂⟩

lemma Represents.run (kind : AppendKind)
    (hok : l.CanAppend codec body now) (stop : RollEnd) : ∃ s', kind.run cfg codec s body now stop =
        .ok (s', l.next body, (l.ensured codec).nextLogId codec (l.next body) now) ∧
      Stored cfg codec s' (l.appended codec cfg body now stop) ∧
      (stop = .complete → Represents cfg codec s' (l.appended codec cfg body now stop)) := by
  obtain ⟨s₁, s₂, hens, hres, -, h₂⟩ := h.prepare hwf
  refine kind.run_eq hens hres ?_ (hwf.placed hok.lt_next hok.place)
    (lastSequence_place _ _ now) stop
  intro cached known hknown
  have h₂' : Follows cfg codec { s₂ with lastSequence := cached } (l.ensured codec) :=
    { h₂.toFollows with }
  obtain ⟨s₃, happ, h₃, -⟩ := h₂'.appendRecordLocked hwf.ensured (l.next body) known hknown now
  refine ⟨s₃, _, happ, h₃, rfl, ?_⟩
  exact nextLogId_eq (l.ensured codec) (l.next body) now

lemma Represents.append_within (hensd : l.ensured codec = l) (body : β) (now : ℕ) (stop : RollEnd)
    (hbase : ∀ reserve, readWalBase
        (some ((l.place codec (l.next body) now).current.bytes codec reserve)) =
      .ok (l.current.base, l.current.header.length)) (hsmall : cfg.segmentBytes = 0 ∨
      cellsLen codec (l.place codec (l.next body) now).current.cells < cfg.segmentBytes) :
    ∃ s', append cfg codec s body now stop =
        .ok (s', l.next body, l.nextLogId codec (l.next body) now) ∧
      Represents cfg codec s' (l.place codec (l.next body) now) := by
  obtain ⟨s₁, s₂, hens, hres, -, h₂⟩ := h.prepare hwf
  rw [hensd] at hres h₂
  have h₂' : Follows cfg codec { s₂ with lastSequence := some l.lastSequence } l :=
    { h₂.toFollows with }
  obtain ⟨s₃, happ, h₃, -⟩ := h₂'.appendRecordLocked hwf (l.next body)
    (some (l.recordEnd codec)) (by rintro n ⟨⟩; rfl) now
  set l' := l.place codec (l.next body) now with hl'
  have hread : readWalBase s₃.active = .ok (l'.current.base, l'.current.header.length) := by
    rcases h₃.active_cases with ⟨-, hl⟩ | ⟨reserve, hs, -⟩
    · simp [hl', Log.place] at hl
    · rw [hs, hbase reserve]
      rfl
  obtain ⟨s₄, hroll, h₄, -⟩ := h₃.setBase.rollWalSegmentIfDue_small hread hsmall stop
  refine ⟨{ s₄ with
    lastSequence := some (l.next body).sequence
    verifiedLen := some (l'.recordEnd codec) }, ?_, ?_⟩
  · rw [append, hens, ok_bind, hres, ok_bind]
    dsimp only
    rw [show nextRecord l.lastSequence body = l.next body from rfl, happ, ok_bind]
    rw [cachedWalBase_eq hread h₃.base, ok_bind]
    rw [finishAppend, show (l.reportFor codec (l.next body) now).persistentBytes =
      l'.recordEnd codec from rfl, hroll, ← nextLogId_eq]
    rfl
  · exact
      { h₄ with
        verifiedLen := by rintro n ⟨⟩; rfl
        lastSequence := by rintro n ⟨⟩; exact (lastSequence_place l _ now).symm }

lemma Represents.appendBatchAtomic
    {bodies : List β} (hok : l.CanAppendAll codec bodies now) (stop : RollEnd) :
    ∃ s', appendBatchAtomic cfg codec s bodies now stop =
        .ok (s', (l.ensured codec).batchRecords codec now bodies) ∧
      Stored cfg codec s' (l.appendedBatch codec cfg bodies now stop) ∧
      (stop = .complete → Represents cfg codec s' (l.appendedBatch codec cfg bodies now stop)) := by
  unfold Wal.appendBatchAtomic
  split
  · exact ⟨s, rfl, h.toStored, fun _ => h⟩
  · next body =>
    -- A batch of one is a single append.
    obtain ⟨hlast, hplace, -⟩ := hok
    rw [lastSequence_ensured] at hlast
    rw [next_ensured] at hplace
    obtain ⟨s', happ, hrest⟩ := h.run hwf .durable ⟨hlast, hplace⟩ stop
    have hbatch : l.appendedBatch codec cfg [body] now stop =
        l.appended codec cfg body now stop := by
      rw [appendedBatch, placeAll, next_ensured]
      · rfl
      · simp
    rw [AppendKind.run] at happ
    rw [hbatch, happ]
    refine ⟨s', ?_, hrest⟩
    rw [batchRecords, next_ensured]
    rfl
  · next _ hnil _ =>
    obtain ⟨s₁, hens, h₁⟩ := h.ensureActiveWalSegment hwf
    have hmax : max (s₁.lastSequence.getD 0) (l.ensured codec).lastSequence =
        (l.ensured codec).lastSequence := by
      cases hcached : s₁.lastSequence with
      | none => simp
      | some n => simp [h₁.lastSequence n hcached]
    obtain ⟨s₂, hrecs, h₂⟩ := h₁.toFollows.appendBatchRecords hwf.ensured
      hwf.sealed_of_ensured_blank hok 0 (fun hempty => absurd hempty hnil)
    have hplaced := hwf.ensured.placeAll hwf.sealed_of_ensured_blank hok
    have h₂' : Follows cfg codec
        { s₂ with lastSequence := some ((l.ensured codec).placeAll codec now bodies).lastSequence }
        ((l.ensured codec).placeAll codec now bodies) := { h₂ with }
    obtain ⟨s₃, rolled, hroll, hstored, hfol, -, hlast⟩ := h₂'.rollWalSegmentIfDue hplaced stop
    have hbatch : l.appendedBatch codec cfg bodies now stop =
        ((l.ensured codec).placeAll codec now bodies).rolled codec cfg stop := by
      rw [appendedBatch]
      exact hnil
    rw [hbatch]
    refine ⟨s₃, ?_, hstored, ?_⟩
    · rw [hens, ok_bind, h₁.lastWalSequenceAt_eq hwf.ensured, ok_bind]
      dsimp only
      rw [hmax, hrecs, ok_bind]
      rw [hroll]
      rfl
    · intro hcomp
      exact
        { hfol hcomp with
          lastSequence := by
            intro n hn
            rw [hlast] at hn
            rw [lastSequence_rolled]
            exact (Option.some.inj hn).symm }

/-- A replayed record is written, and reported as such, if and only if its sequence is new. -/
lemma Represents.appendReplayedRecord (record : WalRecord β) (now : ℕ) :
    ∃ s' report, appendReplayedRecord cfg codec s record now = .ok (s', report) ∧
      Represents cfg codec s' (l.replayed codec record now) ∧
      (report.appended = true ↔ l.lastSequence < record.sequence) ∧
      (l.lastSequence < record.sequence →
        report = (l.ensured codec).reportFor codec record now) := by
  obtain ⟨s₁, hens, h₁⟩ := h.ensureActiveWalSegment hwf
  have hlast : s₁.lastSequence.elim (Prod.fst <$> lastWalSequenceAt cfg codec s₁) pure =
      .ok l.lastSequence := by
    cases hcached : s₁.lastSequence with
    | some n =>
      rw [h₁.lastSequence n hcached, lastSequence_ensured]
      rfl
    | none =>
      rw [h₁.lastWalSequenceAt_eq hwf.ensured, lastSequence_ensured]
      rfl
  have h₂ : Represents cfg codec { s₁ with lastSequence := some l.lastSequence }
      (l.ensured codec) :=
    { h₁ with lastSequence := by rintro n ⟨⟩; exact (lastSequence_ensured l).symm }
  rw [Wal.appendReplayedRecord, hens, ok_bind, hlast, ok_bind]
  by_cases hseq : record.sequence ≤ l.lastSequence
  · rw [if_pos hseq, replayed, if_pos hseq]
    exact ⟨_, _, rfl, h₂, by simp [hseq], fun hlt => absurd hlt (by omega)⟩
  · obtain ⟨s₃, happ, h₃, -⟩ := h₂.toFollows.appendRecordLocked hwf.ensured record none (by simp)
      now
    rw [if_neg hseq, replayed, if_neg hseq, happ]
    refine ⟨_, _, rfl, ?_, ⟨fun _ => by omega, fun _ => rfl⟩, fun _ => rfl⟩
    exact { h₃ with lastSequence := by rintro n ⟨⟩; exact (lastSequence_place _ record now).symm }

end TemporalStore.Wal
