import TemporalStore.IndexLog.Stored

namespace TemporalStore.IndexLog

open Lib BlockEntry LogFraming LogCodecs List Stored Tail

variable {J : Type} {K : LogCodecs J}

lemma Stored.lastSequenceStep_frame (stored : Stored K) (last : ℕ) :
    K.lastSequenceStep last stored.frame = .ok (max last stored.sequence) := by
  rw [lastSequenceStep, frame, stored.not_blank, stored.decodeHead_eq]
  rfl

lemma Named.stop_le_iff {span : IndexSegmentSpan} {records : List (Stored K)}
    (h : Named span records) {n : ℕ} :
    span.stop - 1 ≤ n ↔ ∀ stored ∈ records, stored.sequence ≤ n := by
  obtain ⟨last, hlast, hstop⟩ := h.last
  constructor
  · intro hle stored hstored
    have := h.below stored hstored
    omega
  · intro hall
    have := hall last hlast
    omega

namespace Log

lemma lastSequenceAt_state (log : Log K) : K.lastSequenceAt log.state =
      .ok (log.top, log.active.map fun tail => encoded tail.records) := by
  have hnamed : log.state.segments.foldl (fun last piece => max last (piece.span.stop - 1)) 0 =
      ((log.pieces.flatMap Piece.records).map sequence).foldl max 0 := by
    have hstops : log.state.segments.foldl (fun last piece => max last (piece.span.stop - 1)) 0 =
        (log.pieces.map fun piece => piece.span.stop - 1).foldl max 0 := by
      rw [segments_state, foldl_map, foldl_map]
      rfl
    rw [hstops]
    apply eq_of_forall_ge_iff
    intro n
    simp only [foldl_max_le_iff, forall_mem_map, forall_mem_flatMap, (Piece.named _).stop_le_iff]
  have htop : log.top = ((log.active.elim [] Tail.records).map Stored.sequence).foldl max
      (((log.pieces.flatMap Piece.records).map Stored.sequence).foldl max 0) := by
    rw [top, records, recordsOf, map_append, foldl_append]
  rw [LogCodecs.lastSequenceAt, hnamed, htop]
  cases hact : log.active with
  | none =>
    rw [state, hact]
    rfl
  | some tail =>
    have hframes : K.frames tail.bytes = _ := frames_encoded tail.records tail.torn_end
    have hbytes : tail.bytes.take (encoded tail.records).length = encoded tail.records := take_left
    rw [state, hact, Option.map_some]
    dsimp only
    rw [hframes, foldlM_map, foldlM_eq_ok fun stored _ last => stored.lastSequenceStep_frame last,
      ok_bind, ok_bind, sum_frames, hbytes]
    simp only [foldl_map, Option.elim_some, Option.map_some]

lemma probe_state (log : Log K) :
    ∃ log' : Log K, K.probe log.state = .ok (log.current, log'.state) ∧
      log'.records = log.records ∧ log'.lastSequence = some log.current := by
  cases hlast : log.lastSequence with
  | some last =>
    have hcurr := current_of_known hlast
    refine ⟨log, ?_, rfl, hlast.trans (congrArg some hcurr.symm)⟩
    rw [probe, state, hlast, hcurr]
  | none =>
    have hcurr : log.current = log.top := by rw [current, hlast, Option.getD_none]
    have hrecs : recordsOf log.pieces (log.active.map trimmed) = log.records := by
      rw [records]
      cases log.active <;> rfl
    refine ⟨log.thin log.pieces (log.active.map trimmed) (some log.current)
      (hrecs ▸ List.Sublist.refl _) ?_, ?_, hrecs, rfl⟩
    · rintro last ⟨rfl⟩
      refine ⟨le_rfl, fun tail htail => ?_⟩
      obtain ⟨old, -, rfl⟩ := Option.map_eq_some_iff.mp htail
      rfl
    · have hnone : log.state.lastSequence = none := hlast
      have hbytes : (log.active.map trimmed).map bytes =
          log.active.map fun tail => encoded tail.records := by
        rw [Option.map_map]
        exact congrArg (Option.map · log.active) (funext trimmed_bytes)
      rw [probe, hnone]
      rw [lastSequenceAt_state, ← hcurr, ← hbytes]
      rfl

end Log

lemma Stored.reflectedBy_iff {stored : Stored K} {applied : ℕ}
    (h : stored.head.appliedWalSequence = some applied) {anchor : ℕ} :
    stored.ReflectedBy anchor ↔ applied ≤ anchor := by
  have hreads := stored.reads
  rw [Stored.ReflectedBy]
  cases hbody : stored.body with
  | whole =>
    rw [hbody] at hreads
    exact absurd (h.symm.trans hreads.2) (Option.some_ne_none applied)
  | unreadable e =>
    rw [hbody] at hreads
    exact absurd (h.symm.trans hreads.2.2) (Option.some_ne_none applied)
  | delta record =>
    rw [hbody] at hreads
    dsimp only
    rw [hreads.2.2.2, h]

lemma Stored.reflectedBy_of_not_carries {stored : Stored K}
    (h : stored.head.appliedWalSequence = none)
    (hcarr : K.deltaRecordCarriesContent stored.payload = .ok false) (anchor : ℕ) :
    stored.ReflectedBy anchor := by
  have hreads := stored.reads
  rw [Stored.ReflectedBy]
  cases hbody : stored.body with
  | whole => trivial
  | unreadable e =>
    rw [hbody] at hreads
    rw [deltaRecordCarriesContent, if_neg hreads.1, hreads.2.1] at hcarr
    cases hcarr
  | delta record =>
    rw [hbody] at hreads
    rw [deltaRecordCarriesContent, if_neg hreads.1, hreads.2.1] at hcarr
    dsimp only
    rw [hreads.2.2.2, h]
    exact Except.ok.inj hcarr

/-- What a walk over the records has found. -/
structure Scanned (records : List (Stored K)) (scan : SpanScan) : Prop where
  first : scan.first = records.head?.map sequence
  last : scan.last = (records.map sequence).foldl max 0
  reflected : scan.unreflected = false → ∀ stored ∈ records, stored.ReflectedBy scan.maxAppliedWal

lemma Scanned.step {records : List (Stored K)} {stored : Stored K} {scan scan' : SpanScan}
    (h : Scanned records scan) (hstep : K.spanStep scan stored.frame = .ok scan') :
    Scanned (records ++ [stored]) scan' := by
  have hfirst : scan.first.or (some stored.head.sequence) =
      (records ++ [stored]).head?.map sequence := by
    rw [h.first, head?_append, Option.map_or]
    rfl
  have hlast : max scan.last stored.head.sequence =
      ((records ++ [stored]).map sequence).foldl max 0 := by
    rw [h.last, map_append, foldl_append]
    rfl
  rw [spanStep, frame, stored.not_blank, stored.decodeHead_eq, ok_bind] at hstep
  cases happl : stored.head.appliedWalSequence with
  | some applied =>
    simp only [happl] at hstep
    cases hstep
    refine ⟨hfirst, hlast, fun hrefd => forall_mem_append.mpr ⟨fun other hother => ?_, ?_⟩⟩
    · exact (h.reflected hrefd other hother).mono (le_max_left _ _)
    · exact forall_mem_singleton.mpr ((reflectedBy_iff happl).mpr (le_max_right _ _))
  | none =>
    simp only [happl] at hstep
    cases hunr : scan.unreflected with
    | true =>
      rw [hunr] at hstep
      cases hstep
      exact ⟨hfirst, hlast, fun hrefd => absurd hrefd.symm Bool.false_ne_true⟩
    | false =>
      rw [hunr] at hstep
      obtain ⟨carries, hcarr, hstep⟩ := bind_eq_ok hstep
      cases hstep
      refine ⟨hfirst, hlast, fun hrefd => forall_mem_append.mpr ⟨h.reflected hunr, ?_⟩⟩
      exact forall_mem_singleton.mpr (reflectedBy_of_not_carries happl (hrefd ▸ hcarr) _)

lemma named_of_span {records : List (Stored K)} {span : IndexSegmentSpan}
    (hbelow : ∀ stored ∈ records, stored.sequence < u64Max)
    (h : K.indexLogSegmentSpanOf (encoded records) = .ok (some span)) : Named span records := by
  rw [indexLogSegmentSpanOf, frames_whole] at h
  dsimp only at h
  rw [foldlM_map] at h
  obtain ⟨scan, hscan, h⟩ := bind_eq_ok h
  have hscanned : Scanned records scan :=
    foldlM_invariant Scanned (fun _ _ _ _ hdone hstep => hdone.step hstep)
      ⟨rfl, rfl, fun _ _ hstored => absurd hstored not_mem_nil⟩ hscan
  obtain ⟨start, hstart, hspan⟩ := Option.map_eq_some_iff.mp (Except.ok.inj h)
  rw [hscanned.first] at hstart
  subst hspan
  have hle : ∀ n, scan.last ≤ n ↔ ∀ stored ∈ records, stored.sequence ≤ n := by
    intro n
    rw [hscanned.last, foldl_max_le_iff, forall_mem_map]
    exact and_iff_right (Nat.zero_le n)
  -- the walk ends at a record, since there is one
  have hne : records ≠ [] := by
    rintro rfl
    cases hstart
  obtain ⟨last, hmem, hseq⟩ := exists_eq_foldl_max sequence hne
  rw [← hscanned.last] at hseq
  have hstop : saturatingSucc scan.last = scan.last + 1 := by
    rw [← hseq]
    exact Nat.min_eq_left (hbelow last hmem)
  refine ⟨hstart, fun stored hstored => ?_, ⟨last, hmem, ?_⟩, fun hname => ?_⟩
  · rw [hstop]
    exact Nat.lt_succ_of_le ((hle _).mp le_rfl stored hstored)
  · rw [hstop, hseq]
  · cases hunr : scan.unreflected with
    | true =>
      rw [hunr] at hname
      exact absurd rfl hname
    | false =>
      exact hscanned.reflected hunr

namespace Log

def written (log : Log K) : List (Stored K) := log.active.elim [] Tail.records

lemma active_of_known {log : Log K} {last : ℕ} (h : log.lastSequence = some last) :
    log.state.active.getD [] = encoded log.written := by
  rw [state, written]
  cases hact : log.active with
  | none => rfl
  | some tail =>
    rw [Option.map_some, bytes, (log.known last h).2 tail hact, append_nil]
    rfl

lemma roll_state {log : Log K} {last threshold : ℕ} {state' : LogState}
    (hlast : log.lastSequence = some last)
    (h : K.rollIndexLogSegmentAt threshold log.state = .ok state') :
    ∃ log' : Log K, state' = log'.state ∧ log'.records = log.records ∧
      log'.lastSequence = some last := by
  rw [rollIndexLogSegmentAt, active_of_known hlast] at h
  split_ifs at h
  · cases h
    exact ⟨log, rfl, rfl, hlast⟩
  · obtain ⟨found, hfound, h⟩ := bind_eq_ok h
    cases found with
    | none =>
      cases h
      exact ⟨log, rfl, rfl, hlast⟩
    | some span =>
      cases h
      have hnamed : Named span log.written :=
        named_of_span (fun stored hstored =>
          (log.bounds stored (mem_append_right _ hstored)).2) hfound
      -- no other piece starts at the same sequence
      have hnew : log.state.pieces.filter (·.span != span) = log.state.pieces := by
        refine filter_eq_self.mpr fun file hfile => ?_
        obtain ⟨piece, hpiece, rfl⟩ := mem_map.mp hfile
        obtain ⟨a, ha, hastart⟩ := piece.named.start_mem
        obtain ⟨b, hb, hbstart⟩ := hnamed.start_mem
        have hlt := (pairwise_append.mp log.ordered).2.2 a
          (mem_flatMap.mpr ⟨piece, hpiece, ha⟩) b hb
        refine bne_iff_ne.mpr fun hspan => hlt.ne ?_
        rw [hastart, hbstart, ← hspan]
        rfl
      let piece : Piece K := ⟨span, log.written, hnamed⟩
      have hrecs : recordsOf (log.pieces ++ [piece]) none = log.records := by
        rw [recordsOf, flatMap_append, flatMap_singleton]
        exact append_nil _
      refine ⟨log.thin (log.pieces ++ [piece]) none (some last) (hrecs ▸ List.Sublist.refl _) ?_,
        ?_, hrecs, rfl⟩
      · rintro other ⟨rfl⟩
        exact ⟨(current_of_known hlast).le, by simp⟩
      · rw [hnew]
        simp only [thin, state, map_append, map_singleton, Option.map_none, hlast]
        rfl

section

variable (config : WriterConfig) (threshold shardId : ℕ) (log : Log K) (entry : Entry J)

lemma prepare_state :
    ∃ log' : Log K, log'.records = log.records ∧ log'.lastSequence = some log.current ∧
      ((∃ e, K.prepare config threshold shardId log.state entry = (log'.state, .error e)) ∨
        ∃ stored : Stored K, stored.sequence = saturatingSucc log.current ∧
          K.prepare config threshold shardId log.state entry =
            (log'.state, .ok (stored.sequence, stored.payload))) := by
  obtain ⟨probed, hprobe, hrecs, hlast⟩ := log.probe_state
  rw [prepare, hprobe]
  dsimp only
  cases hroll : K.rollIndexLogSegmentAt threshold probed.state with
  | error e => exact ⟨probed, hrecs, hlast, .inl ⟨e, rfl⟩⟩
  | ok rolled =>
    obtain ⟨log', rfl, hrecs', hlast'⟩ := roll_state hlast hroll
    refine ⟨log', hrecs'.trans hrecs, hlast', ?_⟩
    cases hpay : K.entryPayload config shardId (saturatingSucc log.current) entry with
    | error e => exact .inl ⟨e, rfl⟩
    | ok payload =>
      obtain ⟨stored, rfl, hsequ⟩ := exists_stored K hpay
      refine .inr ⟨stored, hsequ, ?_⟩
      rw [hsequ]
      rfl

/-- What an append, an append that is interrupted, and an opening do: a record with the next
sequence is added, or none. -/
inductive Adds (log log' : Log K) : Option ℕ → Prop
  | record (stored : Stored K) (next : stored.sequence = log.current + 1)
      (records : log'.records = log.records ++ [stored])
      (known : log'.lastSequence = some stored.sequence) : Adds log log' (some stored.sequence)
  | nothing (records : log'.records = log.records)
      (known : ∀ last, log'.lastSequence = some last → last = log.current) : Adds log log' none

lemma append_state (hroom : log.current + 1 < u64Max) :
    ∃ log' : Log K, (K.append config threshold shardId log.state entry).1 = log'.state ∧
      log.Adds log' (K.append config threshold shardId log.state entry).2.toOption := by
  obtain ⟨ready, hrecs, hlast, ⟨e, hprepare⟩ | ⟨stored, hsequ, hprepare⟩⟩ :=
    log.prepare_state config threshold shardId entry
  all_goals rw [append, hprepare]
  · exact ⟨ready, rfl, .nothing hrecs fun last h => Option.some.inj (h.symm.trans hlast)⟩
  · have hnext : stored.sequence = log.current + 1 := hsequ.trans (Nat.min_eq_left hroom.le)
    have hafter : ∀ other ∈ ready.records, other.sequence < stored.sequence := by
      intro other hother
      rw [hnext]
      exact Nat.lt_succ_of_le (log.le_current (hrecs ▸ hother))
    have hrecs' : recordsOf ready.pieces (some ⟨ready.written ++ [stored], [], rfl⟩) =
        ready.records ++ [stored] := (append_assoc _ _ _).symm
    refine ⟨⟨ready.pieces, some ⟨ready.written ++ [stored], [], rfl⟩, some stored.sequence, ?_, ?_,
      ?_⟩, ?_, .record stored hnext (hrecs'.trans (congrArg (· ++ [stored]) hrecs)) rfl⟩
    · rw [hrecs']
      exact pairwise_append.mpr ⟨ready.ordered, pairwise_singleton _ _, fun other hother =>
        forall_mem_singleton.mpr (hafter other hother)⟩
    · rw [hrecs', forall_mem_append, forall_mem_singleton, hnext]
      exact ⟨ready.bounds, Nat.succ_pos _, hroom⟩
    · rintro last ⟨rfl⟩
      rw [hrecs', forall_mem_append, forall_mem_singleton]
      refine ⟨⟨fun other hother => (hafter other hother).le, le_rfl⟩, fun tail htail => ?_⟩
      cases htail
      rfl
    · dsimp only
      rw [active_of_known hlast, state, state, Option.map_some, bytes, append_nil, encoded,
        encoded, flatMap_append, flatMap_singleton]

lemma interrupted_state (count : ℕ) :
    ∃ log' : Log K, K.interrupted config threshold shardId log.state entry count = log'.state ∧
      log.Adds log' none := by
  obtain ⟨ready, hrecs, hlast, ⟨e, hprepare⟩ | ⟨stored, -, hprepare⟩⟩ :=
    log.prepare_state config threshold shardId entry
  all_goals rw [interrupted, hprepare]
  · exact ⟨ready.thin ready.pieces ready.active none (List.Sublist.refl _) (by simp), rfl,
      .nothing hrecs (by simp [thin])⟩
  · have hpos := encodeFrame_length_pos stored.payload
    have htorn : readFrame K.sha256DigestHex ((encodeFrame stored.payload).take
        (min count ((encodeFrame stored.payload).length - 1))) = .ok none :=
      readFrame_torn _ stored.length_lt_u64 (by omega)
    refine ⟨ready.thin ready.pieces (some ⟨ready.written, _, htorn⟩) none (List.Sublist.refl _)
      (by simp), ?_, .nothing hrecs (by simp [thin])⟩
    dsimp only
    rw [active_of_known hlast]
    rfl

end

lemma reopen_state (log : Log K) :
    ∃ log' : Log K, reopen log.state = log'.state ∧ log.Adds log' none :=
  ⟨log.thin log.pieces log.active none (List.Sublist.refl _) (by simp), rfl,
    .nothing rfl (by simp [thin])⟩

/-- Only records with a property are left out. -/
structure Leaves (P : Stored K → Prop) (log log' : Log K) : Prop where
  pieces : Thinned (fun piece => ∀ stored ∈ piece.records, P stored) log.pieces log'.pieces
  written : Thinned P log.written log'.written
  lastSequence : log'.lastSequence = log.lastSequence

lemma Leaves.imp {P Q : Stored K → Prop} {log log' : Log K} (h : Leaves P log log')
    (hPQ : ∀ stored, P stored → Q stored) : Leaves Q log log' :=
  ⟨h.pieces.imp fun _ hpiece stored hstored => hPQ stored (hpiece stored hstored),
    h.written.imp hPQ, h.lastSequence⟩

lemma Leaves.records {P : Stored K → Prop} {log log' : Log K} (h : Leaves P log log') :
    Thinned P log.records log'.records :=
  h.pieces.flatMap.append h.written

lemma sweep_state {P : Stored K → Prop} {drop : List SealedPiece → List SealedPiece}
    {step : Sweep → ℕ × Bytes → Except IndexLogError Sweep} (log : Log K)
    (hdrop : ∃ kept, drop (log.pieces.map Piece.file) = kept.map Piece.file ∧
      Thinned (fun piece => ∀ stored ∈ piece.records, P stored) log.pieces kept)
    (hstep : ∀ {records : List (Stored K)} {result},
      (records.map frame).foldlM step ⟨[], 0, 0⟩ = .ok result →
        ∃ kept, result.retained = kept.map payload ∧ Thinned P records kept)
    (minReclaimableBytes : ℕ) :
    ∃ log' : Log K, (K.sweep drop step minReclaimableBytes log.state).1 = log'.state ∧
      log.Leaves P log' := by
  obtain ⟨kept, hkept, hpieces⟩ := hdrop
  rw [sweep, segments_state, hkept]
  split_ifs with hfiles
  · exact ⟨log, rfl, Thinned.refl _ _, Thinned.refl _ _, rfl⟩
  have hsub : ∀ active, Thinned P log.written (active.elim [] Tail.records) →
      (recordsOf kept active).Sublist log.records := fun active h =>
    (hpieces.flatMap.append h).sublist
  obtain ⟨top, hprobe⟩ : ∃ top, K.lastSequenceAt { log.state with pieces := kept.map Piece.file } =
      .ok (top, log.active.map fun tail => encoded tail.records) :=
    ⟨_, (log.thin kept log.active log.lastSequence (hsub _ (Thinned.refl P log.written))
      fun last h =>
      ⟨(current_of_known h).le, (log.known last h).2⟩).lastSequenceAt_state⟩
  -- the log with these pieces and these records in the piece being written
  have hlog : ∀ records, Thinned P log.written records → ∃ log' : Log K,
      { log.state with pieces := kept.map Piece.file, active := some (encoded records) } =
        log'.state ∧ log.Leaves P log' := by
    intro records h
    refine ⟨log.thin kept (some ⟨records, [], rfl⟩) log.lastSequence
      (hsub (some ⟨records, [], rfl⟩) h)
      fun last hlast => ⟨(current_of_known hlast).le, ?_⟩, ?_, hpieces, h, rfl⟩
    · rintro tail ⟨rfl⟩
      rfl
    · rw [state, state, thin, Option.map_some, bytes, append_nil]
  dsimp only
  rw [hprobe]
  cases htail : log.active with
  | none =>
    have hwrit : Thinned P log.written [] := by
      rw [written, htail]
      exact .nil
    exact ⟨log.thin kept none log.lastSequence (hsub none hwrit) fun last h =>
      ⟨(current_of_known h).le, by simp⟩, rfl, hpieces, hwrit, rfl⟩
  | some tail =>
    have hwrit : log.written = tail.records := by
      rw [written, htail]
      rfl
    rw [Option.map_some]
    dsimp only
    rw [frames_whole]
    cases hfold : (tail.records.map frame).foldlM step ⟨[], 0, 0⟩ with
    | error e => exact hlog tail.records (hwrit ▸ Thinned.refl P log.written)
    | ok result =>
      rw [ok_bind, ok_bind]
      dsimp only
      split_ifs
      · exact hlog tail.records (hwrit ▸ Thinned.refl P log.written)
      · obtain ⟨retained, hret, hthinned⟩ := hstep hfold
        rw [hret, flatMap_payloads]
        exact hlog retained (hwrit ▸ hthinned)

variable {P : Stored K → Prop} {records : List (Stored K)} {sweep : Sweep}

/-- What a walk retains of the records it has gone through. -/
def Retains (P : Stored K → Prop) (records : List (Stored K)) (sweep : Sweep) : Prop :=
  ∃ kept, sweep.retained = kept.map payload ∧ Thinned P records kept

lemma Retains.keep (h : Retains P records sweep) (stored : Stored K) :
    Retains P (records ++ [stored])
      { sweep with retained := sweep.retained ++ [stored.payload] } := by
  obtain ⟨kept, hkept, hthinned⟩ := h
  refine ⟨kept ++ [stored], ?_, hthinned.append (Thinned.refl P [stored])⟩
  rw [hkept, map_append]
  rfl

lemma Retains.drop (h : Retains P records sweep) {stored : Stored K} (hstored : P stored)
    (removed bytes : ℕ) : Retains P (records ++ [stored]) ⟨sweep.retained, removed, bytes⟩ := by
  obtain ⟨kept, hkept, hthinned⟩ := h
  have happ := hthinned.append (.drop hstored .nil)
  rw [append_nil] at happ
  exact ⟨kept, hkept, happ⟩

lemma retains_of_foldlM {step : Sweep → ℕ × Bytes → Except IndexLogError Sweep}
    (hstep : ∀ records stored sweep sweep', Retains P records sweep →
      step sweep stored.frame = .ok sweep' → Retains P (records ++ [stored]) sweep')
    (h : (records.map frame).foldlM step ⟨[], 0, 0⟩ = .ok sweep) : Retains P records sweep := by
  rw [foldlM_map] at h
  exact foldlM_invariant (Retains P) hstep ⟨[], rfl, .nil⟩ h

lemma gcBeforeSequenceLimited_state (retainFromSequence maxEntriesPerRound : ℕ) (log : Log K) :
    ∃ log' : Log K,
      (K.gcBeforeSequenceLimited retainFromSequence maxEntriesPerRound log.state).1 = log'.state ∧
        log.Leaves (·.sequence < retainFromSequence) log' := by
  apply sweep_state
  · refine ⟨_, dropWhile_map, Thinned.dropWhile (fun piece hpiece stored hstored => ?_) _⟩
    exact (piece.named.below stored hstored).trans_le (of_decide_eq_true hpiece)
  · refine retains_of_foldlM fun records stored sweep sweep' hretains h => ?_
    rw [coveredStep, frame, stored.not_blank, if_neg Bool.false_ne_true, stored.decodeHead_eq,
      ok_bind] at h
    split_ifs at h with hkeep
    · cases h
      exact hretains.keep stored
    · cases h
      exact hretains.drop (Nat.lt_of_not_le fun hle => hkeep (.inl hle)) _ _

/-- What the sweep after a dump may remove. At the largest anchor it does not tell what no base
reflects. -/
def SweptBy (walAnchor metaSequence : ℕ) (stored : Stored K) : Prop :=
  stored.sequence < metaSequence ∧ (walAnchor < u64Max → stored.ReflectedBy walAnchor)

lemma gcReflectedBeforeAnchor_state (walAnchor metaSequence minReclaimableBytes : ℕ) (log : Log K) :
    ∃ log' : Log K,
      (K.gcReflectedBeforeAnchor walAnchor metaSequence minReclaimableBytes log.state).1 =
        log'.state ∧ log.Leaves (SweptBy walAnchor metaSequence) log' := by
  apply sweep_state
  · refine ⟨_, dropWhile_map, Thinned.dropWhile (fun piece hpiece stored hstored => ?_) _⟩
    obtain ⟨hstop, hanchor⟩ := of_decide_eq_true hpiece
    refine ⟨(piece.named.below stored hstored).trans_le hstop, fun hlt => ?_⟩
    exact (piece.named.reflected (hanchor.trans_lt hlt).ne stored hstored).mono hanchor
  · refine retains_of_foldlM fun records stored sweep sweep' hretains h => ?_
    rw [reflectedStep, frame, stored.not_blank, stored.decodeHead_eq, ok_bind] at h
    have hdecided : ∀ reflected : Bool, (reflected = true → stored.ReflectedBy walAnchor) →
        (if metaSequence ≤ stored.head.sequence ∨ reflected = false then
          .ok { sweep with retained := sweep.retained ++ [stored.payload] }
        else .ok ⟨sweep.retained, sweep.removed + 1, sweep.reclaimableBytes + stored.frame.1⟩ :
          Except IndexLogError Sweep) = .ok sweep' →
        Retains (SweptBy walAnchor metaSequence) (records ++ [stored]) sweep' := by
      intro reflected hrefd h
      split_ifs at h with hkeep
      · cases h
        exact hretains.keep stored
      · cases h
        rw [not_or, not_le, Bool.not_eq_false] at hkeep
        exact hretains.drop ⟨hkeep.1, fun _ => hrefd hkeep.2⟩ _ _
    cases happl : stored.head.appliedWalSequence with
    | some applied =>
      simp only [happl, ok_bind] at h
      exact hdecided _ (fun hle => (reflectedBy_iff happl).mpr (of_decide_eq_true hle)) h
    | none =>
      simp only [happl] at h
      obtain ⟨carries, hcarr, h⟩ := bind_eq_ok h
      refine hdecided _ (fun hnot => ?_) h
      rw [Bool.not_eq_true'] at hnot
      exact reflectedBy_of_not_carries happl (hnot ▸ hcarr) _

end Log

end TemporalStore.IndexLog
