import TemporalStore.Wal.Torn

namespace TemporalStore.Wal

open Lib LogFraming List Piece History

variable {β ρ : Type} {cfg : WalConfig} {codec : WalCodec β ρ}

namespace TornPiece

variable {p : Piece β} {t : Tear β}

lemma stopsAtTear (h : TornPiece codec p t) (hunread : ∀ raw, readRawRecord (t.left codec) =
    .ok (some raw) → ∃ e, decodeWalLine codec raw = .error e) (readAhead : ℕ → ℕ) :
    StopsAtTear codec p t readAhead := by
  rcases Nat.eq_zero_or_pos t.written with hnone | hpos
  · exact h.stopsAtTear_unwritten hnone readAhead
  intro fuel last pos hskip
  have hins := h.agree.inside
  have hdrop := p.drop_tornBytes codec t
  obtain ⟨size, hlow, -, hread⟩ := readRawRecord_torn t.reserve
    (encode_length_lt_u64 codec t.cell.record) hpos h.proper
  rw [← frameOf, ← Tear.left] at hread
  rw [lastSequenceLoop]
  simp only [hskip]
  rw [if_neg (by omega), readStep, hdrop]
  by_cases hshort : t.written + t.reserve < size
  · -- the file ends inside the frame
    rw [if_pos hshort] at hread
    simp only [hread, h.blockIsClosed_at_tear]
  · rw [if_neg hshort] at hread
    set raw := (t.left codec).take size with hraw
    obtain ⟨e, herror⟩ := hunread raw hread
    have hproper := h.proper
    have hlen : raw.length = size := by
      rw [length_take, Tear.left, length_append, length_take, zeros_length]
      omega
    obtain ⟨rest, hrest⟩ : ∃ rest, raw = frameMagicV3 :: rest := by
      rw [← head?_eq_some_iff, head?_take, if_neg (by omega), Tear.head_left hpos]
    have hblank : ¬raw.all isAsciiWhitespace = true := by
      rw [hrest]
      simp [isAsciiWhitespace, frameMagicV3]
    have hne : raw ≠ [] := by
      rw [hrest]
      simp
    have hbeh : (slice (p.tornBytes codec t) (p.tearAt codec t + raw.length)
        (max 1 (readAhead (p.tearAt codec t + raw.length)))).all (· == 0) = true := by
      have hzeros : (p.tornBytes codec t).drop (p.tearAt codec t + raw.length) =
          zeros (t.reserve - (raw.length - t.written)) := by
        have htorn : ((frameOf codec t.cell.record).take t.written).length = t.written := by
          rw [length_take]
          omega
        rw [← drop_drop, hdrop, Tear.left, drop_append, drop_eq_nil_of_le (by omega),
          nil_append, drop_zeros, htorn]
      rw [slice, hzeros, take_zeros, all_eq_true]
      intro b hb
      simp [mem_zeros hb]
    simp only [hread, if_neg hne, if_neg hblank, herror, if_pos hbeh]

lemma lastWrittenFooter_isSome (h : TornPiece codec p t) :
    (lastWrittenFooter (p.tornBytes codec t) p.header.length).isSome =
      (gapsFrom codec 0 (p.cells ++ [t.cell])).any fun g => decide g.OnGrid := by
  refine Wal.lastWrittenFooter_isSome h.slots fun g hg => ⟨?_, fun hgrid => ?_⟩
  · have hins := h.agree.inside
    have hstop := stop_le_of_mem_gapsFrom_concat hg
    rw [tearAt] at hins
    omega
  · rw [h.footerInSlot_of_gap hg hgrid]
    rfl

end TornPiece

/-- A record written at the start of a torn frame, over at least as many bytes as are there. -/
lemma writeRecord_over (pre : Bytes) {torn frame : Bytes} (hpre : cfg.preallocate = true)
    (reserve : ℕ) (hcov : torn.length ≤ frame.length) :
    ∃ reserve', writeRecord cfg (pre ++ (torn ++ zeros reserve)) none pre.length frame =
      pre ++ (frame ++ zeros reserve') := by
  have hgrown (physical : ℕ) : ∃ k, (if (pre ++ (torn ++ zeros reserve)).length < physical then
        setLen (pre ++ (torn ++ zeros reserve)) physical else pre ++ (torn ++ zeros reserve)) =
      pre ++ (torn ++ zeros k) := by
    split
    · next hlt =>
      simp only [length_append, zeros_length] at hlt
      refine ⟨physical - (pre ++ torn).length, ?_⟩
      rw [← append_assoc, setLen_zeros (pre ++ torn) (by rw [length_append]; omega), append_assoc]
    · exact ⟨reserve, rfl⟩
  simp only [writeRecord, hpre, if_true, Option.elim_none]
  obtain ⟨k, hk⟩ := hgrown (reservedLen cfg (pre ++ (torn ++ zeros reserve)).length
    (pre.length + frame.length))
  refine ⟨k - (frame.length - torn.length), ?_⟩
  rw [hk, writeAt]
  have htake : (pre ++ (torn ++ zeros k) ++
      zeros (pre.length - (pre ++ (torn ++ zeros k)).length)).take pre.length = pre := by
    rw [append_assoc, take_left]
  have hdrop : (pre ++ (torn ++ zeros k)).drop (pre.length + frame.length) =
      zeros (k - (frame.length - torn.length)) := by
    rw [drop_length_add_append, drop_append, drop_eq_nil_of_le hcov, nil_append, drop_zeros]
  rw [htake, hdrop, append_assoc]

namespace Log

variable (codec) (l : Log β) (c : Crash β)

/-- Whether the torn piece has a footer on its grid. -/
def tornUsesBlocks : Bool :=
  (gapsFrom codec 0 (l.current.cells ++ [(l.tear codec c).cell])).any fun g => decide g.OnGrid

/-- Where the torn record starts in its file. -/
abbrev tornAt : ℕ := l.current.tearAt codec (l.tear codec c)

/-- The same in the pieces' own addresses. -/
abbrev tornPos : ℕ :=
  cellsLen codec l.current.cells + (l.tear codec c).cell.gapBytes.length

/-- The cell of the next record in the place of the torn one. -/
abbrev cellOver (body : β) : Cell β :=
  ⟨l.gapFor codec c.record c.now, l.next body⟩

/-- The log with the next record written over the torn one, by a process that has just started. -/
def overwritten (body : β) : Log β :=
  { sealed := l.sealed
    active := some (l.current.concat (l.cellOver codec c body))
    blockMode := some (l.tornUsesBlocks codec c)
    lastRecord :=
      if l.tornUsesBlocks codec c then some (l.tornAt codec c, (l.next body).sequence) else none
    floor := none }

variable {codec} in
lemma tornAt_sub : l.tornAt codec c - l.current.header.length = l.tornPos codec c := by
  rw [tornAt, tearAt, Nat.add_sub_cancel_left]

variable {codec} in
lemma current_overwritten (body : β) :
    (l.overwritten codec c body).current = l.current.concat (l.cellOver codec c body) := rfl

/-- The first append over a torn record leaves nothing of it: there is a reservation, the torn bytes
do not pass for a record, and the new record covers them and stays in the block. -/
structure Repairs (cfg : WalConfig) (l : Log β) (c : Crash β) (body : β) : Prop where
  preallocate : cfg.preallocate = true
  headed : l.current.IsBlank → l.sealed = []
  footer : ∀ g, l.gapFor codec c.record c.now = some g →
    g.slot.footer.lastRecordSequence = l.lastSequence
  unread : ∀ raw, readRawRecord ((l.tear codec c).left codec) = .ok (some raw) →
    ∃ e, decodeWalLine codec raw = .error e
  sequence : l.lastSequence < u64Max
  covers : c.written ≤ (frameOf codec (l.next body)).length
  stays : closedBlock (l.tornUsesBlocks codec c) (l.tornPos codec c)
    (frameOf codec (l.next body)).length = none
  mimic : ∀ index, l.tornPos codec c < blockFooterAt index + walBlockFooterBytes →
    ¬SlotDecodes codec (l.current.cells ++ [l.cellOver codec c body]) index

namespace Repairs

variable {codec l c} {body : β} {s : WalStore}

section

variable (h : l.Repairs codec cfg c body)
include h

lemma lt_next : l.lastSequence < (l.next body).sequence := by
  rw [sequence_next h.sequence]
  exact Nat.lt_succ_self _

lemma concatOk (htorn : TornPiece codec l.current (l.tear codec c)) :
    ConcatOk codec l.current.cells (l.cellOver codec c body) where
  grid := fun _ hg => onGrid_of_gapFor hg
  close := by
    intro g hg g' hg'
    have hmem : g' ∈ gapsFrom codec 0 (l.current.cells ++ [(l.tear codec c).cell]) := by
      rw [gapsFrom_concat]
      exact mem_append_left _ hg'
    rcases htorn.sound.legible.gaps g' hmem with hgrid | hfind
    · exact .inl hgrid
    · right
      intro hblk
      -- the footer of the torn record would close the block of the displaced one
      apply hfind.2.2
      refine ⟨⟨cellsLen codec l.current.cells, g⟩, ?_, onGrid_of_gapFor hg, hblk.symm⟩
      have hgap : (l.tear codec c).cell.gap = some g := hg
      rw [concat_cells, gapsFrom_concat, hgap]
      simp
  mimic := h.mimic

lemma wf (htorn : l.Torn codec c s) : (l.overwritten codec c body).WF codec := by
  refine htorn.wf.concat (c := l.cellOver codec c body) h.headed h.lt_next ?_
    (h.concatOk htorn.piece) rfl rfl ?_
  · intro g hg
    rw [h.footer g hg]
    exact h.lt_next.le
  · intro r hr
    simp only [overwritten] at hr
    split at hr
    · rw [Option.some.injEq] at hr
      rw [← hr]
    · simp at hr

end

lemma lastSequence_overwritten :
    (l.overwritten codec c body).lastSequence = (l.next body).sequence := by
  have hcells : (l.overwritten codec c body).cells = l.cells ++ [l.cellOver codec c body] := by
    rw [cells_eq, cells_eq, append_assoc]
    rfl
  rw [lastSequence, hcells, lastSequenceOf_concat]

section

variable (h : l.Repairs codec cfg c body) (htorn : l.Torn codec c s)
include h htorn

lemma lastWalSequenceAt : lastWalSequenceAt cfg codec s =
      .ok (l.lastSequence, l.tornAt codec c) := by
  obtain ⟨sequence, hlast, hcases⟩ := htorn.piece.lastWalSequenceIn
    (htorn.wf.ordered_piece l.current_mem_pieces) (htorn.piece.stopsAtTear h.unread cfg.readAhead)
  rw [Wal.lastWalSequenceAt, htorn.active, hlast, ok_bind]
  dsimp only
  have hcells := cells_eq l
  have hknown : 0 < sequence → sequence = l.lastSequence := by
    intro hpos
    rcases hcases with rfl | ⟨g, hg, rfl⟩
    · rw [lastSequence, hcells, Stored.lastSequenceOf_append_of_ne_nil]
      intro hnil
      rw [hnil] at hpos
      exact absurd hpos (Nat.lt_irrefl 0)
    · exact h.footer g hg
  by_cases hpos : 0 < sequence
  · rw [if_pos hpos, hknown hpos]
    rfl
  · -- nothing in the active piece says, so the sealed ones do
    have hempty : l.current.cells = [] ∨ l.lastSequence = 0 := by
      rcases hcases with rfl | ⟨g, hg, rfl⟩
      · by_contra hne
        rw [not_or] at hne
        exact hpos (Stored.lastSequenceOf_pos hne.1 fun c hc =>
          htorn.wf.positive c (mem_cells l.current_mem_pieces hc))
      · rw [← h.footer g hg]
        omega
    have hsame : lastSequenceOf (l.sealed.flatMap Piece.cells) = l.lastSequence := by
      rcases hempty with hnil | hzero
      · rw [hnil, append_nil] at hcells
        rw [lastSequence, hcells]
      · have hnone : l.cells = [] := by
          by_contra hne
          have := Stored.lastSequenceOf_pos hne htorn.wf.positive
          rw [lastSequence] at hzero
          omega
        rw [hnone, eq_comm, append_eq_nil_iff] at hcells
        rw [hcells.1, hzero]
        rfl
    rw [if_neg hpos, htorn.lastSequenceOfPieces, hsame]
    rfl

lemma putRecord {base : Option (ℕ × ℕ)}
    (hbase : ∀ b, base = some b → b = (l.current.base, l.current.header.length))
    (hrec : s.blockLastRecord = none) (hfloor : s.blockRetentionFloor = none) :
    ∃ s' report, putRecord cfg codec
        { s with blockMode := some (l.tornUsesBlocks codec c), base := base }
        (l.next body) none (l.tornAt codec c) = (s', report) ∧
      Follows cfg codec s' (l.overwritten codec c body) ∧
      report.persistentBytes =
        (l.overwritten codec c body).recordEnd codec ∧
      report.offset = l.tornAt codec c := by
  set pre := l.current.header ++ (cellsBytes codec l.current.cells ++
    (l.tear codec c).cell.gapBytes) with hpre
  have hlen : l.tornAt codec c = pre.length := by
    rw [hpre, length_append, length_append]
    rfl
  have hfile : s.active.getD [] = pre ++ ((frameOf codec c.record).take c.written ++
      zeros c.reserve) := by
    rw [htorn.active, tornBytes]
    simp [hpre, Tear.left, cellFor]
  have hcov : ((frameOf codec c.record).take c.written).length ≤
      (frameOf codec (l.next body)).length := (length_take_le _ _).trans h.covers
  obtain ⟨reserve', hwrit⟩ := writeRecord_over pre h.preallocate c.reserve hcov
  have hplaced : (l.overwritten codec c body).current.bytes codec reserve' =
      pre ++ (frameOf codec (l.next body) ++ zeros reserve') := by
    rw [current_overwritten, bytes, pieceBytes, concat_cells, cellsBytes_append, cellsBytes_cons]
    simp [hpre, Cell.bytes, Cell.gapBytes, cellFor]
  have hend : (l.overwritten codec c body).recordEnd codec =
      l.tornAt codec c + (frameOf codec (l.next body)).length := by
    rw [recordEnd, current_overwritten, concat_header, concat_cells, cellsLen_append,
      cellsLen_cons, cellsLen_nil, Cell.bytes_length, tornAt, tearAt]
    simp only [Cell.gapBytes, cellFor]
    omega
  rw [← hfile, ← hlen, ← hplaced] at hwrit
  simp only [Wal.putRecord, hwrit, h.preallocate, if_true]
  refine ⟨_, _, rfl, ?_, hend.symm, rfl⟩
  exact
    { sealed := htorn.sealed
      present := rfl
      active := ⟨reserve', rfl, by simp [h.preallocate], by simp [overwritten, current]⟩
      verifiedLen := by
        rintro n ⟨⟩
        exact hend.symm
      base := hbase
      blockMode := rfl
      blockLastRecord := by
        simp only [Option.getD_some, overwritten, hrec]
      floor := hfloor }

lemma appendRecordLocked (hver : s.verifiedLen = some (l.tornAt codec c))
    (hbase : s.base = none) (hmode : s.blockMode = none) (hrec : s.blockLastRecord = none)
    (hfloor : s.blockRetentionFloor = none) (known : Option ℕ)
    (hknown : ∀ n, known = some n → n = l.tornAt codec c) (now' : ℕ) :
    ∃ s' report, appendRecordLocked cfg codec s (l.next body) known now' = .ok (s', report) ∧
      Follows cfg codec s' (l.overwritten codec c body) ∧ report.persistentBytes =
        (l.overwritten codec c body).recordEnd codec ∧ report.offset = l.tornAt codec c := by
  have hins := htorn.piece.agree.inside
  have hread := htorn.piece.readWalBase
  rw [← htorn.active] at hread
  have hoff : known.elim (appendOffset cfg codec s) pure = .ok (l.tornAt codec c) := by
    cases hk : known with
    | none =>
      rw [Option.elim_none, appendOffset, hver, h.preallocate]
    | some n =>
      rw [hknown n hk]
      rfl
  have hblks : shardUsesBlocks s = .ok ({ s with
      blockMode := some (l.tornUsesBlocks codec c) }, l.tornUsesBlocks codec c) := by
    have hmodeOf : (if (s.active.getD []).length ≤ l.current.header.length then true
        else (lastWrittenFooter (s.active.getD []) l.current.header.length).isSome) =
        l.tornUsesBlocks codec c := by
      rw [htorn.active, Option.getD_some, if_neg (by rw [tearAt] at hins; omega),
        htorn.piece.lastWrittenFooter_isSome]
      rfl
    rw [shardUsesBlocks, hmode]
    rw [hread, ok_bind]
    dsimp only
    rw [hmodeOf]
    rfl
  obtain ⟨base, hbaseOf, hhdr⟩ := blockHeaderLen_eq hread (by simp [hbase])
    (l.tornUsesBlocks codec c)
  have hstays : (if (if l.tornUsesBlocks codec c then l.current.header.length else 0) ≤
        l.tornAt codec c then
      closedBlock (l.tornUsesBlocks codec c) (l.tornAt codec c -
          (if l.tornUsesBlocks codec c then l.current.header.length else 0))
        (frameOf codec (l.next body)).length
      else none) = none := by
    have hclosed := h.stays
    cases hblks : l.tornUsesBlocks codec c with
    | false => simp [closedBlock]
    | true =>
      rw [hblks] at hclosed
      rw [if_pos rfl, tornAt_sub, hclosed, ite_self]
  have hput := h.putRecord htorn hbaseOf hrec hfloor
  obtain ⟨s', report, hput, hrest⟩ := hput
  refine ⟨s', report, ?_, hrest⟩
  rw [Wal.appendRecordLocked, hoff, ok_bind, appendRecordAt, hblks, ok_bind]
  dsimp only
  rw [hhdr, ok_bind]
  rw [hstays]
  exact congrArg Except.ok hput

lemma run (kind : AppendKind) (now' : ℕ) (stop : RollEnd) :
    ∃ s', kind.run cfg codec s.reopened body now' stop = .ok (s', l.next body,
        l.current.base + (l.tornAt codec c - l.current.header.length)) ∧
      Stored cfg codec s' ((l.overwritten codec c body).rolled codec cfg stop) ∧
      (stop = .complete → Represents cfg codec s'
        ((l.overwritten codec c body).rolled codec cfg stop)) := by
  have hins := htorn.piece.agree.inside
  have hact : s.reopened.active = _ := htorn.active
  have hreop : l.Torn codec c s.reopened :=
    { htorn with }
  have hens : ensureActiveWalSegment s.reopened = .ok s.reopened := by
    rw [ensureActiveWalSegment, fileLen, hact, Option.getD_some, if_pos (by omega)]
  have hres : resolveLastSequenceForAppend cfg codec s.reopened = .ok
      ({ s.reopened with
          verifiedLen := some (l.tornAt codec c)
          preallocPhysical := some (s.active.getD []).length }, l.lastSequence,
        l.tornAt codec c) := by
    have hmin : min (l.tornAt codec c) (s.reopened.active.getD []).length = l.tornAt codec c := by
      rw [hact]
      exact min_eq_left hins.le
    have hcold : s.reopened.verifiedLen = none ∧ s.reopened.lastSequence = none := ⟨rfl, rfl⟩
    rw [resolveLastSequenceForAppend]
    simp only [hcold.1, hcold.2, Option.bind_eq_bind, Option.bind_none, h.lastWalSequenceAt hreop,
      ok_bind, hmin, h.preallocate, if_true, Option.getD_none, Nat.zero_max]
    rfl
  refine kind.run_eq hens hres ?_ (h.wf htorn) lastSequence_overwritten stop
  intro cached known hknown
  obtain ⟨s₃, report, happ, h₃, hend, hoff⟩ := h.appendRecordLocked
    (s := { s.reopened with
      lastSequence := cached
      verifiedLen := some (l.tornAt codec c)
      preallocPhysical := some (s.active.getD []).length })
    { htorn with } rfl rfl rfl rfl rfl known hknown now'
  refine ⟨s₃, report, happ, h₃, hend, ?_⟩
  rw [hoff]
  rfl

end

end Repairs

end Log

structure Append (β : Type) where
  kind : AppendKind
  body : β
  now : ℕ
  stop : RollEnd

def Append.op (a : Append β) : Op β := .append a.kind a.body a.now a.stop

lemma AppendKind.body_of_run {kind : AppendKind} {s s' : WalStore} {body : β} {now logId : ℕ}
    {stop : RollEnd} {record : WalRecord β}
    (h : kind.run cfg codec s body now stop = .ok (s', record, logId)) : record.body = body := by
  cases kind
  all_goals
    obtain ⟨s₁, -, h⟩ := bind_eq_ok h
    obtain ⟨found, -, h⟩ := bind_eq_ok h
    obtain ⟨put, -, h⟩ := bind_eq_ok h
    obtain ⟨id, -, h⟩ := bind_eq_ok h
    obtain ⟨s₂, -, h⟩ := bind_eq_ok h
    simp only [pure_eq_ok, Except.ok.injEq, Prod.mk.injEq] at h
    rw [← h.2.1]
    rfl

lemma History.run_appends {shardId : ℕ} {h h' : History β} {appends : List (Append β)}
    (hrun : h.run cfg codec shardId (appends.map Append.op) = .ok h') :
    ∃ new, h'.given = h.given ++ new ∧ h'.live = h.live ++ new ∧
      new.map (fun r => r.2.body) = appends.map Append.body := by
  induction appends generalizing h with
  | nil =>
    cases hrun
    exact ⟨[], by simp⟩
  | cons a appends ih =>
    obtain ⟨h₁, hstep, hrest⟩ := bind_eq_ok (show (h.step cfg codec shardId a.op >>= fun h₁ =>
      h₁.run cfg codec shardId (appends.map Append.op)) = .ok h' from hrun)
    obtain ⟨⟨s, record, logId⟩, happ, hstep⟩ := bind_eq_ok hstep
    simp only [pure_eq_ok, Except.ok.injEq] at hstep
    obtain ⟨new, hgiven, hlive, hbodies⟩ := ih hrest
    refine ⟨(logId, record) :: new, ?_, ?_, ?_⟩
    · rw [hgiven, ← hstep, History.record]
      simp
    · rw [hlive, ← hstep, History.record]
      simp
    · rw [map_cons, map_cons, hbodies, AppendKind.body_of_run happ]

/-- The first append after a crash, and the log it makes. Either the crash left nothing in the files
and the append is an ordinary one, or the append repairs the torn record. -/
inductive Resumes (cfg : WalConfig) (codec : WalCodec β ρ) (l : Log β) (c : Crash β)
    (s : WalStore) (a : Append β) : Log β → Prop where
  | untouched (hwf : l.WF codec) (hstored : Stored cfg codec s l)
      (hok : l.reopened.CanAppend codec a.body a.now) :
      Resumes cfg codec l c s a
        ((l.reopened.appended codec cfg a.body a.now a.stop).settled a.stop)
  | repaired (htorn : l.Torn codec c s)
      (hok : l.Repairs codec cfg c a.body) :
      Resumes cfg codec l c s a
        (((l.overwritten codec c a.body).rolled codec cfg a.stop).settled a.stop)

/-- The history of a process that opens the files of `s`, which held the records of `l` before. -/
def History.resumed (codec : WalCodec β ρ) (l : Log β) (s : WalStore) : History β :=
  ⟨s.reopened, l.records codec, l.records codec, []⟩

lemma Log.records_overwritten (l : Log β) (c : Crash β) (body : β) :
    (l.overwritten codec c body).records codec = l.records codec ++
      [(l.current.base + (l.tornAt codec c - l.current.header.length), l.next body)] := by
  rw [records_eq, records_eq, current_overwritten, Piece.records, Piece.concat_cells,
    recordsFrom_concat, tornAt_sub, append_assoc, Nat.add_assoc]
  rfl

lemma tracks_records {l : Log β} {s : WalStore} (hwf : l.WF codec)
    (hrep : Represents cfg codec s l) :
    Tracks cfg codec ⟨s, l.records codec, l.records codec, []⟩ l where
  wf := hwf
  represents := hrep
  live := rfl
  reclaimed := by simp
  rising := hwf.sequences
  last := fun _ hr => hwf.sequence_le hr
  kept := fun _ hr => .inl hr
  known := fun _ hr => hr

lemma Resumes.tracks {l l' : Log β} {c : Crash β}
    {s : WalStore} {a : Append β} (h : Resumes cfg codec l c s a l')
    (shardId : ℕ) : ∃ h', (resumed codec l s).step cfg codec shardId a.op = .ok h' ∧
      Tracks cfg codec h' l' := by
  cases h with
  | untouched hwf hstored hok =>
    have ht : Tracks cfg codec (resumed codec l s) l.reopened :=
      tracks_records hwf.reopened hstored.reopened
    exact ht.append hok
  | repaired htorn hok =>
    obtain ⟨s', hrun, hstored, hcomp⟩ := hok.run htorn a.kind a.now a.stop
    refine ⟨_, by rw [Append.op, step, resumed, hrun]; rfl, ?_⟩
    have hrecs : l.records codec ++
        [(l.current.base + (l.tornAt codec c - l.current.header.length), l.next a.body)] =
        (((l.overwritten codec c a.body).rolled codec cfg a.stop).settled
          a.stop).records codec := by
      rw [Log.records_settled, Log.records_rolled, Log.records_overwritten]
    rw [record]
    rw [hrecs]
    exact tracks_records (((hok.wf htorn).rolled cfg a.stop).settled a.stop)
      (hstored.settled a.stop hcomp)

/-- After a crash in the middle of an append, appends that start by repairing the torn record leave
a log whose scan returns the records before the crash and then theirs. -/
theorem scanDecoded_resumed {shardId : ℕ} {l l' : Log β} {c : Crash β} {s : WalStore}
    {a : Append β} {more : List (Append β)} (hfirst : Resumes cfg codec l c s a l')
    (hmore : l'.AllowsAll cfg codec shardId (more.map Append.op)) :
    ∃ h new, (History.resumed codec l s).run cfg codec shardId ((a :: more).map Append.op) = .ok h ∧
      scanDecoded cfg codec h.store = .ok (codec.readEach (l.records codec ++ new)) ∧
      new.map (fun r => r.2.body) = (a :: more).map Append.body := by
  obtain ⟨h₁, hstep, ht₁⟩ := hfirst.tracks shardId
  obtain ⟨h, hrun, ht⟩ := ht₁.run hmore
  have hall : (resumed codec l s).run cfg codec shardId ((a :: more).map Append.op) = .ok h := by
    rw [map_cons, run, foldlM_cons, hstep, ok_bind]
    exact hrun
  obtain ⟨new, -, hlive, hbodies⟩ := run_appends hall
  refine ⟨h, new, hall, ?_, hbodies⟩
  rw [ht.represents.toStored.scanDecoded ht.wf, ← ht.live, hlive]
  rfl

lemma repairs_tornSecond : oneRecord.Repairs blockCodec .default (secondCrash 1) smallBlock := by
  have hfirst := frameOf_smallBlock_length 0
  have hsecond := frameOf_smallBlock_length 1
  have hroom : blockFooterAt 0 = 130944 := blockFooterAt_eq 0
  have hgap : oneRecord.gapFor blockCodec (nextRecord 1 smallBlock) 0 = none :=
    short_oneRecord.gapFor (by omega) 0
  have hplaced : (oneRecord.place blockCodec (nextRecord 1 smallBlock) 0).Short blockCodec _ :=
    short_oneRecord.place (by omega) 0
  have hread : readRawRecord ((oneRecord.tear blockCodec (secondCrash 1)).left blockCodec) =
      .ok (some [0xB3, 0, 0, 0, 0, 0]) := by decide +kernel
  have hblks : oneRecord.tornUsesBlocks blockCodec (secondCrash 1) = false := by
    rfl
  refine ⟨rfl, fun _ => rfl, by simp [secondCrash, hgap], ?_, by decide, hsecond.1.le, ?_, ?_⟩
  · intro raw hraw
    rw [hread, Except.ok.injEq, Option.some.injEq] at hraw
    rw [← hraw]
    exact ⟨_, rfl⟩
  · rw [hblks]
    simp [closedBlock]
  · intro index _
    have hleng := hplaced.length
    exact not_slotDecodes_behind (hleng.trans ((by omega : _ ≤ blockFooterAt 0).trans
      (blockFooterAt_zero_le index)))

def smallAppend : Append StagedBlock := ⟨.durable, smallBlock, 0, .complete⟩

theorem scanDecoded_repairedSecond :
    ∃ h new, (History.resumed blockCodec oneRecord (tornSecond 1)).run .default blockCodec 0
        ([smallAppend].map Append.op) = .ok h ∧ scanDecoded .default blockCodec h.store =
        .ok (blockCodec.readEach (oneRecord.records blockCodec ++ new)) ∧
      new.map (fun r => r.2.body) = [smallAppend].map Append.body := by
  have hfirst :
      Resumes .default blockCodec oneRecord (secondCrash 1) (tornSecond 1) smallAppend _ :=
    .repaired (torn_tornSecond le_rfl) repairs_tornSecond
  exact scanDecoded_resumed hfirst trivial

/-- A block whose bytes hold a line. -/
def lineBlock : StagedBlock :=
  ⟨7, replicate 40 97 ++ [newline, 1], smallBlock.objectId_lt, by decide⟩

/-- All but the last byte of its record, in front of reserved zeros. -/
def tornLine : WalStore :=
  { WalStore.empty with
    active := some ((frameOf blockCodec (nextRecord 0 lineBlock)).take 63 ++ zeros 4033) }

/-- A shorter record is written over the start of the torn one, and a later scan meets the rest. -/
theorem scanDecoded_shorterRecord :
    ∃ h, (History.resumed blockCodec Log.empty tornLine).run .default blockCodec 0
        ([smallAppend].map Append.op) = .ok h ∧
      ∀ records, scanDecoded .default blockCodec h.store ≠ .ok records := by
  have hcheck : (((resumed blockCodec Log.empty tornLine).run .default blockCodec 0
      ([smallAppend].map Append.op)).toOption.map fun h =>
        (scanDecoded .default blockCodec h.store).toOption.isSome) = some false := by
    decide +kernel
  cases hrun : (resumed blockCodec Log.empty tornLine).run .default blockCodec 0
      ([smallAppend].map Append.op) with
  | error e =>
    rw [hrun] at hcheck
    simp [Except.toOption] at hcheck
  | ok h =>
    refine ⟨h, rfl, ?_⟩
    intro records hscan
    rw [hrun] at hcheck
    simp [hscan, Except.toOption] at hcheck

end TemporalStore.Wal
