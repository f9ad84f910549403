import TemporalStore.Wal.RefineOps

namespace TemporalStore.Wal

open Lib LogFraming List Log

variable {β ρ : Type} {cfg : WalConfig} {codec : WalCodec β ρ} {s : WalStore} {l : Log β}

lemma Piece.Sound.segmentIsCovered (cfg : WalConfig) {p : Piece β} (h : p.Sound codec)
    (hord : Ordered p.cells) {next : Option Bytes} {cells : List (Cell β)}
    (hnext : Wal.firstWalSequenceIn codec next = .ok (firstSequenceOf cells)) (retain : ℕ) :
    Wal.segmentIsCovered cfg codec (p.bytes codec 0) next retain =
      .ok (decide ((firstSequenceOf cells).any (· ≤ retain) ∨
        lastSequenceOf p.cells = 0 ∨ lastSequenceOf p.cells < retain)) := by
  simp only [Wal.segmentIsCovered, hnext, h.lastWalSequenceIn hord, ok_bind]
  cases hfirst : firstSequenceOf cells with
  | none =>
    simp
  | some first =>
    by_cases hle : first ≤ retain <;> simp [hle]

lemma dropCoveredWalSegments_eq (cfg : WalConfig) {p : Piece β} {active : Option Bytes}
    (hfirst : firstWalSequenceIn codec active = .ok (firstSequenceOf p.cells)) (retain : ℕ)
    (ps : List (Piece β)) (hsound : ∀ q ∈ ps, q.Sound codec) (hord : ∀ q ∈ ps, Ordered q.cells)
    (dropped freed : ℕ) : ∃ dropped' freed', dropCoveredWalSegments cfg codec active retain
        (ps.map fun q => ⟨q.base, q.bytes codec 0⟩) dropped freed =
      .ok ((dropCovered cfg p retain ps dropped).map fun q => ⟨q.base, q.bytes codec 0⟩,
        dropped', freed') := by
  induction ps generalizing dropped freed with
  | nil => exact ⟨dropped, freed, rfl⟩
  | cons q ps ih =>
    have hq : q ∈ q :: ps := mem_cons_self
    have hnext : firstWalSequenceIn codec
        (((ps.map fun q => (⟨q.base, q.bytes codec 0⟩ : SealedPiece)).head?.map
          (·.bytes)).orElse fun _ => active) =
        .ok (firstSequenceOf (ps.head?.getD p).cells) := by
      cases ps with
      | nil => exact hfirst
      | cons r rest => exact (hsound r (by simp)).firstWalSequenceIn fun _ => rfl
    have hcov := (hsound q hq).segmentIsCovered cfg (hord q hq) hnext retain
    rw [map_cons, dropCoveredWalSegments, dropCovered]
    dsimp only
    rw [hcov, ok_bind]
    by_cases hcap : 0 < cfg.reclaimMaxSegmentsPerPass ∧ cfg.reclaimMaxSegmentsPerPass ≤ dropped
    · rw [if_pos hcap, if_pos hcap]
      exact ⟨dropped, freed, rfl⟩
    rw [if_neg hcap, if_neg hcap]
    by_cases hdrop : (firstSequenceOf (ps.head?.getD p).cells).any (· ≤ retain) ∨
        lastSequenceOf q.cells = 0 ∨ lastSequenceOf q.cells < retain
    · rw [if_pos (decide_eq_true hdrop), if_pos hdrop]
      exact ih (fun r hr => hsound r (mem_cons_of_mem q hr))
        (fun r hr => hord r (mem_cons_of_mem q hr)) _ _
    · rw [if_neg (by simpa using hdrop), if_neg hdrop]
      exact ⟨dropped, freed, rfl⟩

lemma retained_cons (retain : ℕ) (c : Cell β) (cells : List (Cell β)) :
    retained retain (c :: cells) = if retain ≤ c.record.sequence then ⟨none, c.record⟩ :: cells
      else retained retain cells := by
  by_cases h : retain ≤ c.record.sequence
  · rw [if_pos h, retained, dropWhile_cons_of_neg (by simpa using h)]
  · rw [if_neg h, retained, retained, dropWhile_cons_of_pos (by simpa using h)]

lemma retained_split (codec : WalCodec β ρ) (retain pos : ℕ) (cells : List (Cell β)) :
    ∃ cut : Bytes, cellsBytes codec cells = cut ++ cellsBytes codec (retained retain cells) ∧
      (firstRetained retain (recordsFrom codec pos cells)).getD (pos + cellsLen codec cells) =
        pos + cut.length := by
  induction cells generalizing pos with
  | nil => exact ⟨[], rfl, rfl⟩
  | cons c cells ih =>
    rw [recordsFrom, firstRetained_cons, retained_cons]
    by_cases hkeep : retain ≤ c.record.sequence
    · rw [if_pos hkeep, if_pos hkeep]
      refine ⟨c.gapBytes, ?_, rfl⟩
      rw [cellsBytes_cons, cellsBytes_cons, Cell.bytes, append_assoc]
      rfl
    · rw [if_neg hkeep, if_neg hkeep]
      obtain ⟨cut, hbytes, hsplit⟩ := ih (pos + (c.bytes codec).length)
      refine ⟨c.bytes codec ++ cut, by rw [cellsBytes_cons, hbytes, append_assoc], ?_⟩
      rw [cellsLen_cons, ← Nat.add_assoc, hsplit, length_append, Nat.add_assoc]

lemma Piece.Sound.reclaimLoop {p : Piece β} (h : p.Sound codec) (retain reserve : ℕ) :
    ∃ seen kept, reclaimLoop codec (p.bytes codec reserve) p.header.length
        (p.header.length + cellsLen codec p.cells) retain ((p.bytes codec reserve).length + 1)
        ⟨0, 0, none, p.header.length⟩ =
      .ok ⟨seen, kept, firstRetained retain (recordsFrom codec p.header.length p.cells),
        p.header.length + cellsLen codec p.cells⟩ := by
  have hlen := p.bytes_length codec reserve
  obtain ⟨n, hpath⟩ := path_of_legible (show p.bytes codec reserve = _ from rfl) h.legible
    le_rfl (by omega) [] p.cells rfl
  have hsteps := hpath.steps_le
  exact reclaimLoop_of_path retain hpath rfl (by omega) ⟨0, 0, none, p.header.length⟩ rfl

lemma Represents.gcBeforeSequenceUnchecked (h : Represents cfg codec s l) (hwf : l.WF codec)
    (retain : ℕ) : ∃ s' report, gcBeforeSequenceUnchecked cfg codec s retain = .ok (s', report) ∧
      Represents cfg codec s' (l.reclaimed codec cfg retain) ∧
      report.baseOffset = (l.reclaimed codec cfg retain).current.base := by
  rcases h.active_cases with ⟨hs, hl⟩ | ⟨reserve, hs, hl, hnor, hres⟩
  · rw [Wal.gcBeforeSequenceUnchecked, hs, reclaimed, if_pos (by simp [hl])]
    refine ⟨s, _, rfl, h, ?_⟩
    rw [current, hl]
    rfl
  have hsound := hwf.sound_current
  have hfirst := h.firstWalSequenceIn_active hwf
  have hlast := h.lastWalSequenceIn_active hwf
  rw [hs] at hfirst hlast
  obtain ⟨dropped, freed, hdrop⟩ := dropCoveredWalSegments_eq cfg hfirst
    (l.effectiveRetain retain) l.sealed (fun q hq => hwf.sound q (mem_pieces_of_sealed hq))
    (fun q hq => hwf.ordered_piece (mem_pieces_of_sealed hq)) 0 0
  obtain ⟨seen, kept, hwalk⟩ := hsound.reclaimLoop (l.effectiveRetain retain) reserve
  obtain ⟨cut, hcut, hsplit⟩ := retained_split codec (l.effectiveRetain retain)
    l.current.header.length l.current.cells
  have hkept : cellsLen codec l.current.cells = cut.length + cellsLen codec (l.kept retain) := by
    rw [cellsLen, hcut, length_append]
    rfl
  have hrem : l.removedLen codec retain = cut.length := by
    rw [removedLen]
    omega
  have hrest : l.current.header.length + cellsLen codec l.current.cells -
      (l.current.header.length + cut.length) = cellsLen codec (l.kept retain) := by
    omega
  have hslice : slice (l.current.bytes codec reserve) (l.current.header.length + cut.length)
      (cellsLen codec (l.kept retain)) = cellsBytes codec (l.kept retain) := by
    rw [Piece.bytes, pieceBytes, hcut, slice_append_right, append_assoc]
    exact slice_at_length cut (cellsBytes codec (l.kept retain)) (zeros reserve)
  rw [Wal.gcBeforeSequenceUnchecked, hs]
  dsimp only
  rw [h.lastWalSequenceAt_eq hwf, ok_bind]
  rw [h.sealed, h.floor, show min (min retain l.lastSequence) (l.floor.getD u64Max) =
    l.effectiveRetain retain from rfl, hdrop, ok_bind]
  rw [hsound.readWalBase reserve, ok_bind, hlast, ok_bind]
  rw [hwalk, ok_bind]
  rw [hsplit, hrest, hslice, Nat.add_sub_cancel_left, ← hrem]
  have hrecl : l.reclaimed codec cfg retain =
      { l with
        sealed := dropCovered cfg l.current (l.effectiveRetain retain) l.sealed 0
        active := some (l.rewritten codec cfg retain) } := if_neg (by simp [hl])
  have hseq := hwf.lastSequence_reclaimed cfg retain
  rw [hrecl] at hseq ⊢
  cases hworth : l.rewrites codec cfg retain with
  | false =>
    have hcurr : l.rewritten codec cfg retain = l.current := if_neg (by simp [hworth])
    rw [hcurr] at hseq ⊢
    rw [rewrites] at hworth
    rw [hworth]
    refine ⟨_, _, rfl, ?_, rfl⟩
    exact
      { h with
        sealed := rfl
        present := rfl
        active := ⟨reserve, rfl, hnor, hres⟩
        floor := rfl
        lastSequence := fun n hn => hseq ▸ h.lastSequence n hn }
  | true =>
    have hcurr : l.rewritten codec cfg retain =
        ⟨true, l.current.base + l.removedLen codec retain, l.kept retain⟩ := if_pos hworth
    rw [hcurr] at hseq ⊢
    rw [rewrites] at hworth
    rw [hworth]
    refine ⟨_, _, rfl, ?_, rfl⟩
    exact
      { h with
        sealed := rfl
        present := rfl
        active := ⟨0, by simp [current, Piece.bytes, pieceBytes, Piece.header],
          fun _ => rfl, fun _ => rfl⟩
        verifiedLen := by
          rintro n ⟨⟩
          exact length_append
        base := by rintro b ⟨⟩; rfl
        floor := rfl
        lastSequence := fun n hn => hseq ▸ h.lastSequence n hn }

lemma Represents.gcBeforeSequence (h : Represents cfg codec s l) (hwf : l.WF codec)
    (shardId retain : ℕ) (anchor : DurableIndexAnchor) :
    ∃ s' report, gcBeforeSequence cfg codec s shardId retain anchor = .ok (s', report) ∧
      Represents cfg codec s' (l.reclaimed codec cfg (min retain (anchor.ceiling shardId))) ∧
      report.baseOffset =
        (l.reclaimed codec cfg (min retain (anchor.ceiling shardId))).current.base := by
  obtain ⟨s', report, hgc, hrep, hbase⟩ :=
    h.gcBeforeSequenceUnchecked hwf (min retain (anchor.ceiling shardId))
  rw [Wal.gcBeforeSequence, hgc]
  exact ⟨s', _, rfl, hrep, hbase⟩

end TemporalStore.Wal
