import TemporalStore.IndexLog.Steps

namespace TemporalStore.IndexLog

open Lib BlockEntry LogFraming LogCodecs List
open Option hiding sequence

inductive Event (J : Type) where
  | append (config : WriterConfig) (threshold : ℕ) (entry : Entry J)
  | interrupted (config : WriterConfig) (threshold : ℕ) (entry : Entry J) (count : ℕ)
  | gcBefore (retainFromSequence maxEntriesPerRound : ℕ)
  | gcReflected (walAnchor metaSequence minReclaimableBytes : ℕ)
  | reopen

variable {J : Type}

/-- A sweep retains the records from here on. -/
def Event.floor : Event J → Option ℕ
  | .gcBefore retainFromSequence _ => some retainFromSequence
  | .gcReflected _ metaSequence _ => some metaSequence
  | _ => none

namespace LogCodecs

variable (K : LogCodecs J) (shardId : ℕ)

/-- The state afterwards, and the sequence of the record that was appended. -/
def step (state : LogState) : Event J → LogState × Option ℕ
  | .append config threshold entry =>
    let (state, result) := K.append config threshold shardId state entry
    (state, result.toOption)
  | .interrupted config threshold entry count =>
    (K.interrupted config threshold shardId state entry count, none)
  | .gcBefore retainFromSequence maxEntriesPerRound =>
    ((K.gcBeforeSequenceLimited retainFromSequence maxEntriesPerRound state).1, none)
  | .gcReflected walAnchor metaSequence minReclaimableBytes =>
    ((K.gcReflectedBeforeAnchor walAnchor metaSequence minReclaimableBytes state).1, none)
  | .reopen => (reopen state, none)

/-- The state after all events, and the sequences of the records in the order of their appends. -/
def run (events : List (Event J)) : LogState × List ℕ :=
  events.foldl (fun run event =>
    let (state, sequence) := K.step shardId run.1 event
    (state, run.2 ++ sequence.toList)) (LogState.empty, [])

lemma run_concat (events : List (Event J)) (event : Event J) : K.run shardId (events ++ [event]) =
      ((K.step shardId (K.run shardId events).1 event).1,
        (K.run shardId events).2 ++ (K.step shardId (K.run shardId events).1 event).2.toList) := by
  rw [run, foldl_append]
  rfl

/-- No sweep has its floor above the sequence appended last. -/
def FloorsBelow (events : List (Event J)) : Prop :=
  ∀ before event after, events = before ++ event :: after →
    ∀ floor ∈ event.floor, ∀ last ∈ (K.run shardId before).2.getLast?, floor ≤ last

end LogCodecs

namespace Log

variable {K : LogCodecs J} {log log' : Log K}

lemma step_state (shardId : ℕ) (log : Log K) (event : Event J) (hroom : log.current + 1 < u64Max) :
    ∃ log' : Log K, (K.step shardId log.state event).1 = log'.state ∧
      (log.Adds log' (K.step shardId log.state event).2 ∨
        (K.step shardId log.state event).2 = none ∧
          ∃ floor ∈ event.floor, log.Leaves (·.sequence < floor) log') := by
  cases event with
  | append config threshold entry =>
    exact (log.append_state config threshold shardId entry hroom).imp fun _ => .imp_right .inl
  | interrupted config threshold entry count =>
    exact (log.interrupted_state config threshold shardId entry count).imp fun _ => .imp_right .inl
  | gcBefore retainFromSequence maxEntriesPerRound =>
    obtain ⟨log', hstate, hleaves⟩ :=
      log.gcBeforeSequenceLimited_state retainFromSequence maxEntriesPerRound
    exact ⟨log', hstate, .inr ⟨rfl, retainFromSequence, rfl, hleaves⟩⟩
  | gcReflected walAnchor metaSequence minReclaimableBytes =>
    obtain ⟨log', hstate, hleaves⟩ :=
      log.gcReflectedBeforeAnchor_state walAnchor metaSequence minReclaimableBytes
    exact ⟨log', hstate, .inr ⟨rfl, metaSequence, rfl, hleaves.imp fun _ h => h.1⟩⟩
  | reopen => exact log.reopen_state.imp fun _ => .imp_right .inl

lemma top_of_records (h : log'.records = log.records) : log'.top = log.top := by
  rw [top, top, h]

lemma top_concat {stored : Stored K} (h : log'.records = log.records ++ [stored]) :
    log'.top = max log.top stored.sequence := by
  rw [top, h, map_append, foldl_append]
  rfl

lemma top_le_top (h : log'.records.Sublist log.records) : log'.top ≤ log.top :=
  log'.top_le_iff.mpr fun stored hstored => log.top_le_iff.mp le_rfl stored (h.subset hstored)

lemma exists_top (h : 0 < log.top) : ∃ stored ∈ log.records, stored.sequence = log.top := by
  refine exists_eq_foldl_max Stored.sequence fun hnil => ?_
  rw [top, hnil] at h
  exact absurd h (lt_irrefl 0)

/-- The log ends where the appends have come to. -/
structure Tracks (log : Log K) (sequences : List ℕ) : Prop where
  rise : sequences.Pairwise (· < ·)
  le_last : ∀ sequence ∈ sequences, sequence ≤ sequences.getLastD 0
  last_le : sequences.getLastD 0 ≤ sequences.length
  top : log.top = sequences.getLastD 0
  known : ∀ last, log.lastSequence = some last → last = sequences.getLastD 0

section

variable {sequences : List ℕ} (h : log.Tracks sequences)
include h

lemma Tracks.current : log.current = sequences.getLastD 0 := by
  cases hlast : log.lastSequence with
  | none =>
    rw [Log.current, hlast]
    exact h.top
  | some last => exact (current_of_known hlast).trans (h.known last hlast)

lemma Tracks.adds {sequence : Option ℕ}
    (hadds : log.Adds log' sequence) : log'.Tracks (sequences ++ sequence.toList) := by
  cases hadds with
  | record stored next records known =>
    have hlast : stored.sequence = sequences.getLastD 0 + 1 := by rw [next, h.current]
    have hend : (sequences ++ [stored.sequence]).getLastD 0 = stored.sequence := by simp
    have hle := h.last_le
    refine ⟨?_, ?_, ?_, ?_, ?_⟩
    · refine pairwise_append.mpr ⟨h.rise, pairwise_singleton _ _, fun a ha => ?_⟩
      rw [toList_some, forall_mem_singleton, hlast]
      exact Nat.lt_succ_of_le (h.le_last a ha)
    · rw [toList_some, hend, forall_mem_append, forall_mem_singleton]
      refine ⟨fun a ha => ?_, le_rfl⟩
      have := h.le_last a ha
      omega
    · rw [toList_some, length_append, length_singleton]
      omega
    · rw [toList_some, top_concat records, h.top]
      omega
    · intro last hknown
      rw [toList_some, hend]
      exact Option.some.inj (hknown.symm.trans known)
  | nothing records known =>
    rw [toList_none, append_nil]
    refine ⟨h.rise, h.le_last, h.last_le, (top_of_records records).trans h.top, ?_⟩
    intro last hknown
    rw [known last hknown, h.current]

lemma Tracks.leaves {floor : ℕ} (hleaves : log.Leaves (·.sequence < floor) log')
    (hfloor : ∀ last ∈ sequences.getLast?, floor ≤ last) : log'.Tracks sequences := by
  have hlow : log'.top ≤ log.top := top_le_top hleaves.records.sublist
  have hhigh : log.top ≤ log'.top := by
    rcases Nat.eq_zero_or_pos log.top with hzero | hpos
    · omega
    · -- the last record is not below the floor
      obtain ⟨stored, hstored, hseq⟩ := exists_top hpos
      have hlast : sequences.getLast? = some log.top := by
        rw [h.top] at hpos ⊢
        rw [getLastD_eq_getLast?] at hpos ⊢
        cases hend : sequences.getLast? with
        | none =>
          rw [hend] at hpos
          exact absurd hpos (lt_irrefl 0)
        | some last => rfl
      have hkept := hleaves.records.mem hstored (by
        rw [hseq]
        exact not_lt.mpr (hfloor _ hlast))
      rw [← hseq]
      exact log'.top_le_iff.mp le_rfl stored hkept
  exact ⟨h.rise, h.le_last, h.last_le, (hlow.antisymm hhigh).trans h.top,
    fun last hknown => h.known last (hleaves.lastSequence ▸ hknown)⟩

end

end Log

namespace LogCodecs

variable (K : LogCodecs J) (shardId : ℕ)

lemma exists_tracks (events : List (Event J)) (hlen : events.length < u64Max)
    (hfloors : K.FloorsBelow shardId events) :
    ∃ log : Log K, (K.run shardId events).1 = log.state ∧ log.Tracks (K.run shardId events).2 ∧
      (K.run shardId events).2.length ≤ events.length := by
  induction events using reverseRecOn with
  | nil =>
    exact ⟨Log.empty K, rfl, ⟨.nil, nofun, le_rfl, rfl, nofun⟩, le_rfl⟩
  | append_singleton events event ih =>
    rw [length_append, length_singleton] at hlen ⊢
    obtain ⟨log, hstate, htracks, hcount⟩ := ih (by omega) fun before e after heq =>
      hfloors before e (after ++ [event]) (by rw [heq, append_assoc]; rfl)
    have hroom : log.current + 1 < u64Max := by
      have := htracks.last_le
      rw [htracks.current]
      omega
    obtain ⟨log', hstep, hmoves⟩ := log.step_state shardId event hroom
    rw [run_concat, hstate]
    refine ⟨log', hstep, ?_, ?_⟩
    · rcases hmoves with hadds | ⟨hnone, floor, hfloor, hleaves⟩
      · exact htracks.adds hadds
      · rw [hnone, toList_none, append_nil]
        exact htracks.leaves hleaves (hfloors events event [] rfl floor hfloor)
    · rw [length_append]
      have := length_toList_le (o := (K.step shardId log.state event).2)
      omega

/-- Every append gets a sequence above those of all records appended before, over any appends,
rolls, interruptions, sweeps and openings, if no sweep has its floor above the sequence appended
last. -/
theorem sequences_rise (events : List (Event J)) (hlength : events.length < 2 ^ 64 - 1)
    (hfloors : K.FloorsBelow shardId events) : (K.run shardId events).2.Pairwise (· < ·) := by
  obtain ⟨log, -, htracks, -⟩ := K.exists_tracks shardId events hlength hfloors
  exact htracks.rise

variable {K shardId}

lemma append_first {config : WriterConfig} {entry : Entry J} {payload : Bytes}
    {active : Option Bytes} (hpay : K.entryPayload config shardId 1 entry = .ok payload)
    (hact : active = none ∨ active = some []) : K.append config 0 shardId ⟨[], active, none⟩ entry =
      (⟨[], some (encodeFrame payload), some 1⟩, .ok 1) := by
  have hprobe : K.probe ⟨[], active, none⟩ = .ok (0, ⟨[], active, some 0⟩) := by
    rcases hact with rfl | rfl
    · simp [probe, lastSequenceAt, LogState.segments, sortByKey]
    · simp [probe, lastSequenceAt, LogState.segments, sortByKey, frames, framesFrom, readFrame]
  have hlast : saturatingSucc 0 = 1 := rfl
  rw [append, prepare, hprobe]
  dsimp only
  rw [hlast, hpay]
  rcases hact with rfl | rfl <;> rfl

def oneRecord (stored : Stored K) (h : 0 < stored.sequence ∧ stored.sequence < u64Max) : Log K where
  pieces := []
  active := some ⟨[stored], [], readFrame_nil K⟩
  lastSequence := none
  ordered := pairwise_singleton _ _
  bounds _ hother := mem_singleton.mp hother ▸ h
  known := nofun

lemma sweep_one {drop : List SealedPiece → List SealedPiece} (hdrop : drop [] = [])
    {step : Sweep → ℕ × Bytes → Except IndexLogError Sweep} {stored : Stored K}
    (hseq : 0 < stored.sequence ∧ stored.sequence < u64Max) {bytes : ℕ}
    (hstep : step ⟨[], 0, 0⟩ stored.frame = .ok ⟨[], 1, bytes⟩) (last : Option ℕ) :
    (K.sweep drop step 0 ⟨[], some (encodeFrame stored.payload), last⟩).1 =
      ⟨[], some [], last⟩ := by
  have hbytes : encoded [stored] = encodeFrame stored.payload := append_nil _
  have hprobe : K.lastSequenceAt ⟨[], some (encodeFrame stored.payload), last⟩ =
      .ok ((oneRecord stored hseq).top, some (encodeFrame stored.payload)) := by
    have h := (oneRecord stored hseq).lastSequenceAt_state
    rw [Log.state, oneRecord, map_some, map_some, Tail.bytes, append_nil, hbytes] at h
    exact h
  have hsegs : (⟨[], some (encodeFrame stored.payload), last⟩ : LogState).segments = [] :=
    mergeSort_nil
  rw [sweep, hsegs, hdrop]
  dsimp only
  rw [hprobe]
  dsimp only
  rw [← hbytes, frames_whole]
  simp [hstep]

end LogCodecs

def anchorOnly : Entry Bool := .delta [] [] (some 0) none false

def anchorRecord : IndexDeltaRecord Bool := ⟨1, 1, [], none, some 0, false, [], none⟩

/-- Rows with that record written as nothing. -/
def shortRows : Coding String AnyRow :=
  @Coding.shortened _ _ (Encodable.decidableEqOfEncodable AnyRow) (unary "not a row")
    (.delta (deltaRow anchorRecord))

def shortLog : LogCodecs Bool := rowLog shortRows

lemma entryPayload_anchorOnly : shortLog.entryPayload plainConfig 1 1 anchorOnly = .ok [0x11] := by
  have hencoded : shortLog.encodeEntry plainConfig 1 1 anchorOnly = .ok [0x11] := rfl
  rw [entryPayload, hencoded, ok_bind, if_neg (by decide)]

lemma append_anchorOnly {active : Option Bytes} (h : active = none ∨ active = some []) :
    shortLog.append plainConfig 0 1 ⟨[], active, none⟩ anchorOnly =
      (⟨[], some (encodeFrame [0x11]), some 1⟩, .ok 1) :=
  append_first entryPayload_anchorOnly h

/-- An append, a sweep that retains it, an opening, and an append. -/
def keptRun : List (Event Bool) :=
  [.append plainConfig 0 anchorOnly, .gcReflected 0 1 0, .reopen, .append plainConfig 0 anchorOnly]

theorem sequences_rise_keptRun : (shortLog.run 1 keptRun).2.Pairwise (· < ·) := by
  apply shortLog.sequences_rise 1 keptRun (by decide)
  intro before event after heq floor hfloor last hlast
  match before, heq with
  | [], heq =>
    cases heq
    cases hfloor
  | [_], heq =>
    cases heq
    cases hfloor
    rw [run, foldl_cons, LogState.empty, step, append_anchorOnly (.inl rfl)] at hlast
    cases hlast
    exact le_rfl
  | [_, _], heq =>
    cases heq
    cases hfloor
  | [_, _, _], heq =>
    cases heq
    cases hfloor
  | _ :: _ :: _ :: _ :: before, heq =>
    simp [keptRun] at heq

/-- An append, a sweep of the whole log, an opening, and an append. -/
def sweptRun : List (Event Bool) :=
  [.append plainConfig 0 anchorOnly, .gcBefore 2 0, .reopen, .append plainConfig 0 anchorOnly]

/-- Both records have the sequence 1. -/
theorem not_sequences_rise : ¬(shortLog.run 1 sweptRun).2.Pairwise (· < ·) := by
  obtain ⟨stored, hpayload, hsequence⟩ := exists_stored shortLog entryPayload_anchorOnly
  have hstep : shortLog.coveredStep 2 0 ⟨[], 0, 0⟩ stored.frame =
      .ok ⟨[], 1, 0 + stored.frame.1⟩ := by
    rw [coveredStep, Stored.frame, stored.not_blank, if_neg Bool.false_ne_true,
      stored.decodeHead_eq, ok_bind, if_neg]
    rw [Stored.sequence] at hsequence
    omega
  have hsweep : (shortLog.gcBeforeSequenceLimited 2 0
      ⟨[], some (encodeFrame [0x11]), some 1⟩).1 = ⟨[], some [], some 1⟩ := by
    rw [← hpayload]
    exact sweep_one rfl (hsequence ▸ (by decide)) hstep _
  have hrun : (shortLog.run 1 sweptRun).2 = [1, 1] := by
    simp only [run, sweptRun, LogState.empty, foldl_cons, foldl_nil, step,
      append_anchorOnly (.inl rfl), hsweep, reopen, append_anchorOnly (.inr rfl)]
    rfl
  rw [hrun]
  decide

end TemporalStore.IndexLog
