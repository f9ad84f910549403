import TemporalStore.Lib.Lists
import TemporalStore.Wal.Ops
import TemporalStore.Wal.Reader

namespace TemporalStore.Wal

open Lib LogFraming List Nat

variable {β ρ : Type} {codec : WalCodec β ρ}

variable {file : Bytes} {pos headerLen : ℕ}

lemma lt_length_of_readStep_record {raw : Bytes} {len : ℕ}
    (h : readStep file headerLen len pos = .ok (.record raw)) : pos < file.length := by
  by_contra hle
  have hdrop : file.drop pos = [] := drop_eq_nil_of_le (by omega)
  rw [readStep, hdrop] at h
  simp only [readRawRecord] at h
  split at h <;> simp at h

/-- The largest of `last` and the sequences of the records. -/
def maxSequence (last : ℕ) (records : List (ℕ × WalRecord β)) : ℕ :=
  records.foldl (fun m r => max m r.2.sequence) last

variable {steps stop : ℕ} {records : List (ℕ × WalRecord β)}

lemma lastSequenceLoop_along (readAhead : ℕ → ℕ)
    (hpath : Path codec file headerLen file.length steps pos records stop) (fuel last : ℕ) :
    lastSequenceLoop codec readAhead file headerLen (steps + fuel) last pos =
      lastSequenceLoop codec readAhead file headerLen fuel (maxSequence last records) stop := by
  induction hpath generalizing last with
  | nil pos => rw [zero_add]; rfl
  | closed hstay _ hstep _ ih =>
    have hlt := lt_of_readStep_closed hstep
    rw [add_right_comm, lastSequenceLoop]
    simp only [hstay, hstep]
    rw [if_neg (by omega), ih]
  | @record _ _ at' _ record _ hto hstep _ ih =>
    have hlt := lt_length_of_readStep_record hstep
    rw [add_right_comm, lastSequenceLoop]
    simp only [hto, hstep, decodeWalLine_frameOf]
    rw [if_neg (by omega), if_neg (frameOf_not_blank codec record), ih]
    rfl

variable {fuel : ℕ}

lemma lastSequenceLoop_of_path {at' : ℕ} (readAhead : ℕ → ℕ)
    (hpath : Path codec file headerLen file.length steps pos records stop)
    (hskip : skipBlockFooterIfDue file stop headerLen = at')
    (hdone : readStep file headerLen file.length at' = .ok .done) (hfuel : steps < fuel)
    (last : ℕ) : lastSequenceLoop codec readAhead file headerLen fuel last pos =
      .ok (maxSequence last records, at') := by
  obtain ⟨rest, rfl⟩ := Nat.exists_eq_add_of_lt hfuel
  rw [add_assoc, lastSequenceLoop_along readAhead hpath, lastSequenceLoop]
  simp only [hskip, hdone]
  split <;> rfl

lemma lastWrittenFooterFrom_eq_some {index i : ℕ} {footer : BlockFooter}
    (h : lastWrittenFooterFrom file headerLen index = some (i, footer)) :
    footerInSlot file headerLen i = some footer := by
  induction index with
  | zero =>
    simp only [lastWrittenFooterFrom, Option.map_eq_some_iff, Prod.mk.injEq] at h
    obtain ⟨f, hf, rfl, rfl⟩ := h
    exact hf
  | succ index ih =>
    rw [lastWrittenFooterFrom] at h
    cases hf : footerInSlot file headerLen (index + 1) with
    | none =>
      rw [hf] at h
      exact ih h
    | some f =>
      rw [hf, Option.elim_some] at h
      obtain ⟨rfl, rfl⟩ := h
      exact hf

lemma lastWrittenFooter_eq_some {i : ℕ} {footer : BlockFooter}
    (h : lastWrittenFooter file headerLen = some (i, footer)) :
    footerInSlot file headerLen i = some footer := by
  rw [lastWrittenFooter] at h
  split at h
  · simp at h
  · exact lastWrittenFooterFrom_eq_some h

/-- Sequences rise from cell to cell, and a footer knows of none above the record behind it. -/
structure Ordered (cells : List (Cell β)) : Prop where
  sequences : (cells.map fun c => c.record.sequence).Pairwise (· < ·)
  footers : ∀ c ∈ cells, ∀ g, c.gap = some g →
    g.slot.footer.lastRecordSequence ≤ c.record.sequence

def lastSequenceOf (cells : List (Cell β)) : ℕ :=
  (cells.map fun c => c.record.sequence).getLastD 0

lemma maxSequence_recordsFrom (last pos : ℕ) (cells : List (Cell β)) :
    maxSequence last (recordsFrom codec pos cells) =
      (cells.map fun c => c.record.sequence).foldl max last := by
  have hmap : (recordsFrom codec pos cells).map (fun r => r.2.sequence) =
      cells.map fun c => c.record.sequence := by
    have := congrArg (map WalRecord.sequence) (recordsFrom_map_snd codec pos cells)
    rwa [map_map, map_map] at this
  rw [maxSequence, ← hmap, foldl_map]

variable {before after : List (Cell β)}

lemma Ordered.suffix (h : Ordered (before ++ after)) : Ordered after where
  sequences := by
    have := h.sequences
    rw [map_append, pairwise_append] at this
    exact this.2.1
  footers := fun c hc => h.footers c (mem_append_right before hc)

lemma lastSequenceOf_append_cons (before : List (Cell β)) (c : Cell β) (after : List (Cell β)) :
    lastSequenceOf (before ++ c :: after) =
      (after.map fun d => d.record.sequence).getLastD c.record.sequence := by
  simp [lastSequenceOf, getLastD_eq_getLast?, getLast?_append, getLast?_cons]

lemma maxSequence_of_ordered {cells : List (Cell β)} (h : Ordered cells) (pos : ℕ) :
    maxSequence 0 (recordsFrom codec pos cells) = lastSequenceOf cells := by
  rw [maxSequence_recordsFrom, foldl_max_of_pairwise h.sequences fun _ _ => zero_le _,
    lastSequenceOf]

lemma maxSequence_from_footer {cells : List (Cell β)} {c : Cell β} (h : Ordered cells)
    (hcells : cells = before ++ c :: after) {known : ℕ} (hknown : known ≤ c.record.sequence)
    (at' pos : ℕ) :
    maxSequence known ((at', c.record) :: recordsFrom codec pos after) = lastSequenceOf cells := by
  have hsuffix : Ordered (c :: after) := Ordered.suffix (hcells ▸ h)
  have hrise := hsuffix.sequences
  rw [map_cons, pairwise_cons] at hrise
  have hbelow : ∀ x ∈ (c :: after).map (fun d => d.record.sequence), known ≤ x := by
    intro x hx
    rw [map_cons, mem_cons] at hx
    rcases hx with rfl | hx
    · exact hknown
    · exact le_trans hknown (hrise.1 x hx).le
  have hmax : maxSequence known ((at', c.record) :: recordsFrom codec pos after) =
      ((c :: after).map fun d => d.record.sequence).foldl max known := by
    rw [maxSequence, foldl_cons, map_cons, foldl_cons, ← maxSequence_recordsFrom, maxSequence]
  rw [hmax, foldl_max_of_pairwise hsuffix.sequences hbelow, hcells, lastSequenceOf_append_cons,
    map_cons, getLastD_cons]

section

variable {header : Bytes} {cells : List (Cell β)} {reserve : ℕ}
  (hfile : file = pieceBytes codec header cells reserve)
include hfile

lemma skip_at_end (hleg : Legible codec cells) :
    skipBlockFooterIfDue file (header.length + cellsLen codec cells) header.length =
      header.length + cellsLen codec cells :=
  skip_outside_gaps hfile hleg outside_gaps_at_end

lemma lastSequenceLoop_piece (readAhead : ℕ → ℕ) (hleg : Legible codec cells)
    (hpath : Path codec file header.length file.length steps pos records
      (header.length + cellsLen codec cells)) (known : ℕ) :
    lastSequenceLoop codec readAhead file header.length (file.length + 1) known pos =
      .ok (maxSequence known records, header.length + cellsLen codec cells) := by
  have hlen := pieceBytes_length codec header cells reserve
  rw [← hfile] at hlen
  have hsteps := hpath.steps_le
  exact lastSequenceLoop_of_path readAhead hpath (skip_at_end hfile hleg)
    (readStep_at_end hfile hleg) (by omega) known

section Starts

omit hfile

variable {base : ℕ} (readAhead : ℕ → ℕ) (hbase : readWalBase (some file) = .ok (base, headerLen))

include hbase

lemma lastWalSequenceForward_eq (hlong : headerLen < file.length) :
    lastWalSequenceForward codec readAhead file =
      lastSequenceLoop codec readAhead file headerLen (file.length + 1) 0 headerLen := by
  rw [lastWalSequenceForward, hbase, ok_bind]
  dsimp only
  rw [if_neg (by omega)]

lemma lastWalSequenceIn_of_none (hfoot : lastWrittenFooter file headerLen = none) :
    lastWalSequenceIn codec readAhead (some file) =
      lastWalSequenceForward codec readAhead file := by
  rw [lastWalSequenceIn, footerTailHint, hbase, ok_bind]
  dsimp only
  rw [hfoot]
  rfl

lemma lastWalSequenceIn_of_some {index : ℕ} {footer : BlockFooter}
    (hfoot : lastWrittenFooter file headerLen = some (index, footer))
    (hins : headerLen + (index + 1) * walBlockBytes < file.length) :
    lastWalSequenceIn codec readAhead (some file) =
      lastSequenceLoop codec readAhead file headerLen (file.length + 1)
        footer.lastRecordSequence (headerLen + (index + 1) * walBlockBytes) := by
  rw [lastWalSequenceIn, footerTailHint, hbase, ok_bind]
  dsimp only
  rw [hfoot, Option.map_some, pure_eq_ok, ok_bind]
  dsimp only
  rw [lastWalSequenceForwardFrom, if_neg (by omega), hbase, ok_bind]

end Starts

section

variable (readAhead : ℕ → ℕ) (hleg : Legible codec cells) (hord : Ordered cells) {base : ℕ}
  (hbase : readWalBase (some file) = .ok (base, header.length))
include hleg hord hbase

lemma lastWalSequenceForward_piece : lastWalSequenceForward codec readAhead file =
      .ok (lastSequenceOf cells, header.length + cellsLen codec cells) := by
  have hlen := pieceBytes_length codec header cells reserve
  rw [← hfile] at hlen
  by_cases hempty : file.length ≤ header.length
  · obtain rfl : cells = [] := (cellsLen_eq_zero codec).mp (by omega)
    rw [lastWalSequenceForward, hbase, ok_bind]
    dsimp only
    rw [if_pos hempty, min_eq_right (by omega)]
    rfl
  · obtain ⟨n, hpath⟩ := path_of_legible hfile hleg (by omega) le_rfl [] cells rfl
    rw [cellsLen_nil, add_zero] at hpath
    rw [lastWalSequenceForward_eq readAhead hbase (by omega),
      lastSequenceLoop_piece hfile readAhead hleg hpath, maxSequence_of_ordered hord]

lemma lastWalSequenceIn_piece : lastWalSequenceIn codec readAhead (some file) =
      .ok (lastSequenceOf cells, header.length + cellsLen codec cells) := by
  have hlen := pieceBytes_length codec header cells reserve
  rw [← hfile] at hlen
  cases hfoot : lastWrittenFooter file header.length with
  | none =>
    rw [lastWalSequenceIn_of_none readAhead hbase hfoot]
    exact lastWalSequenceForward_piece hfile readAhead hleg hord hbase
  | some found =>
    obtain ⟨index, footer⟩ := found
    have hslot := lastWrittenFooter_eq_some hfoot
    obtain ⟨g, hg, hgrid, rfl⟩ :=
      hleg.slots index (slotDecodes_of_footerInSlot hfile (by rw [hslot]; rfl))
    have hsame := footerInSlot_of_onGrid hfile hg hgrid
    rw [hslot, Option.some.injEq] at hsame
    subst hsame
    obtain ⟨before, c, after, hcells, hgap, hstart⟩ := exists_cell_of_mem_gapsFrom codec hg
    have hbnds := bounds_of_mem_gapsFrom codec hg
    rw [PlacedGap.OnGrid] at hgrid
    have hstop : header.length + (blockOf g.start + 1) * walBlockBytes =
        header.length + (cellsLen codec before + c.gapBytes.length) := by
      have hgapLen : c.gapBytes.length = g.gap.pad + walBlockFooterBytes := by
        simp [Cell.gapBytes, hgap, Gap.bytes_length]
      rw [PlacedGap.stop] at hgrid
      omega
    obtain ⟨n, hrest⟩ := path_of_legible hfile hleg (by omega) le_rfl (before ++ [c]) after
      (by simp [hcells])
    have hpath := path_to_record hfile hcells
      (skip_outside_gaps hfile hleg (outside_gaps_at_record hcells)) hrest
    rw [lastWalSequenceIn_of_some readAhead hbase hfoot (by omega), hstop,
      lastSequenceLoop_piece hfile readAhead hleg hpath,
      maxSequence_from_footer hord hcells (hord.footers c (by simp [hcells]) g.gap hgap)]

end

end

/-- What a scan without limits makes of a record at a position of its piece. -/
def entryAt (codec : WalCodec β ρ) (base headerLen : ℕ) (r : ℕ × WalRecord β) : ScanEntry ρ :=
  ⟨base + (r.1 - headerLen), frameOf codec r.2, some (codec.read r.2)⟩

lemma scanPieceLoop_along (base : ℕ)
    (hpath : Path codec file headerLen file.length steps pos records stop) (fuel : ℕ)
    (st : ScanState ρ) :
    ∃ total, scanPieceLoop codec .whole file base headerLen (steps + fuel) pos st =
      scanPieceLoop codec .whole file base headerLen fuel stop
        ⟨st.entries ++ records.map (entryAt codec base headerLen), total, st.stopped⟩ := by
  induction hpath generalizing st with
  | nil pos =>
    refine ⟨st.total, ?_⟩
    rw [zero_add, map_nil, append_nil]
  | closed hstay _ hstep _ ih =>
    obtain ⟨total, htotal⟩ := ih st
    refine ⟨total, ?_⟩
    rw [add_right_comm, scanPieceLoop]
    simp only [hstay, hstep]
    exact htotal
  | @record _ _ at' _ record _ hto hstep _ ih =>
    obtain ⟨total, htotal⟩ := ih
      { st with
        entries := st.entries ++
          [⟨base + (at' - headerLen), frameOf codec record, some (codec.read record)⟩]
        total := st.total + (frameOf codec record).length }
    refine ⟨total, ?_⟩
    rw [add_right_comm, scanPieceLoop]
    simp only [hto, hstep, ScanWindow.whole, exceeds, not_lt_zero,
      if_neg (length_pos_iff.mp (frameOf_length_pos codec record)),
      if_neg (frameOf_not_blank codec record), decodeWalLine_frameOf]
    simpa [entryAt, ScanWindow.whole] using htotal

lemma scanPieceLoop_of_path {at' : ℕ} (base : ℕ)
    (hpath : Path codec file headerLen file.length steps pos records stop)
    (hskip : skipBlockFooterIfDue file stop headerLen = at')
    (hdone : readStep file headerLen file.length at' = .ok .done) (hfuel : steps < fuel)
    (st : ScanState ρ) : ∃ total, scanPieceLoop codec .whole file base headerLen fuel pos st =
      .ok ⟨st.entries ++ records.map (entryAt codec base headerLen), total, st.stopped⟩ := by
  obtain ⟨rest, rfl⟩ := Nat.exists_eq_add_of_lt hfuel
  obtain ⟨total, hscan⟩ := scanPieceLoop_along base hpath (rest + 1) st
  refine ⟨total, ?_⟩
  rw [add_assoc, hscan, scanPieceLoop]
  simp only [hskip, hdone]

/-- The position of the first record to retain. -/
def firstRetained (retain : ℕ) (records : List (ℕ × WalRecord β)) : Option ℕ :=
  (records.find? fun r => decide (retain ≤ r.2.sequence)).map Prod.fst

lemma firstRetained_cons (retain : ℕ) (r : ℕ × WalRecord β) (records : List (ℕ × WalRecord β)) :
    firstRetained retain (r :: records) =
      if retain ≤ r.2.sequence then some r.1 else firstRetained retain records := by
  by_cases h : retain ≤ r.2.sequence <;> simp [firstRetained, h]

lemma reclaimLoop_of_path {len : ℕ} (retain : ℕ)
    (hpath : Path codec file headerLen len steps pos records stop) (hlen : len = stop)
    (hfuel : steps < fuel) (w : ReclaimWalk) (hcur : w.cursor = pos) :
    ∃ seen kept, reclaimLoop codec file headerLen len retain fuel w =
      .ok ⟨seen, kept, w.split.orElse fun _ => firstRetained retain records, stop⟩ := by
  induction hpath generalizing fuel w with
  | nil pos =>
    obtain ⟨fuel, rfl⟩ := exists_eq_succ_of_ne_zero (ne_zero_of_lt hfuel)
    obtain ⟨seen, kept, split, cursor⟩ := w
    rw [reclaimLoop, if_pos (by omega)]
    simp only at hcur
    cases split <;> simp [firstRetained, hcur]
  | closed hstay _ hstep hrest ih =>
    obtain ⟨fuel, rfl⟩ := exists_eq_succ_of_ne_zero (ne_zero_of_lt hfuel)
    have hlt := lt_of_readStep_closed hstep
    subst hcur
    rw [reclaimLoop, if_neg (by omega)]
    simp only [hstay, hstep]
    rw [if_neg (by omega)]
    exact ih hlen (by omega) _ rfl
  | @record _ _ at' _ record _ hto hstep hrest ih =>
    obtain ⟨fuel, rfl⟩ := exists_eq_succ_of_ne_zero (ne_zero_of_lt hfuel)
    have hle := le_skipBlockFooterIfDue file w.cursor headerLen
    have hsteps := hrest.steps_le
    have hfr := frameOf_length_pos codec record
    subst hcur
    rw [reclaimLoop, if_neg (by omega)]
    simp only [hto, hstep, recordBody_frameOf, decodeWalLine_frameOf, WalCodec.read,
      firstRetained_cons]
    rw [if_neg (by omega)]
    cases hsplit : w.split with
    | some p =>
      exact ih hlen (by omega) ⟨w.recordsBefore + 1, w.recordsAfter + 1, some p, _⟩ rfl
    | none =>
      by_cases hkept : retain ≤ record.sequence
      · simp only [hkept, if_true]
        exact ih hlen (by omega) ⟨w.recordsBefore + 1, w.recordsAfter + 1, some at', _⟩ rfl
      · simp only [hkept, if_false]
        exact ih hlen (by omega) ⟨w.recordsBefore + 1, w.recordsAfter, none, _⟩ rfl

lemma decodeWalBase_encodeBaseHeader (base : ℕ) :
    decodeWalBase (encodeBaseHeader base) = .ok (base, (encodeBaseHeader base).length) := by
  rw [decodeWalBase, if_neg (by simp [encodeBaseHeader, baseHeaderMagic]),
    decodeBaseHeader_encodeBaseHeader]

lemma readWalBase_headed (base : ℕ) (rest : Bytes) :
    readWalBase (some (encodeBaseHeader base ++ rest)) =
      .ok (base, (encodeBaseHeader base).length) := by
  obtain ⟨line, hline, hnl⟩ := encodeBaseHeader_eq_line base
  have hfile : encodeBaseHeader base ++ rest = line ++ newline :: rest := by simp [hline]
  by_cases hprobe : line.length < walBaseHeaderProbeBytes
  · have hscan : (encodeBaseHeader base ++ rest).take walBaseHeaderProbeBytes =
        line ++ newline :: rest.take (walBaseHeaderProbeBytes - line.length - 1) := by
      rw [hfile, take_append, take_of_length_le (by omega)]
      obtain ⟨n, hn⟩ : ∃ n, walBaseHeaderProbeBytes - line.length = n + 1 :=
        ⟨walBaseHeaderProbeBytes - line.length - 1, by omega⟩
      rw [hn, take_succ_cons, Nat.add_sub_cancel]
    simp only [readWalBase, hscan, takeLine_append _ hnl, ← hline, decodeWalBase_encodeBaseHeader]
  · -- a header longer than the probe is read again as a whole
    have hscan : (encodeBaseHeader base ++ rest).take walBaseHeaderProbeBytes =
        line.take walBaseHeaderProbeBytes := by
      rw [hfile, take_append_of_le_length (by omega)]
    have hnone : takeLine (line.take walBaseHeaderProbeBytes) = none :=
      takeLine_eq_none fun h => hnl (mem_of_mem_take h)
    have hlen : ¬(line.take walBaseHeaderProbeBytes).length < walBaseHeaderProbeBytes := by
      rw [length_take]
      omega
    have hmagic : baseHeaderMagic.isPrefixOf (line.take walBaseHeaderProbeBytes) = true := by
      rw [← hscan, isPrefixOf_iff_prefix, prefix_take_iff]
      exact ⟨⟨_, by rw [encodeBaseHeader, append_assoc]⟩, by decide⟩
    simp only [readWalBase, hscan, hnone, if_neg hlen, hmagic, if_true]
    rw [readWalBaseBuffered, hfile, takeLine_append _ hnl, Option.getD_some, ← hline,
      decodeWalBase_encodeBaseHeader]

lemma head_of_takeLine {bytes line : Bytes} (h : takeLine bytes = some line) :
    line.head? = bytes.head? := by
  obtain ⟨text, behind, -, rfl, rfl⟩ := exists_of_takeLine h
  cases text <;> rfl

lemma not_baseHeaderMagic {line : Bytes} (h : line.head? ≠ some 35) :
    ¬baseHeaderMagic.isPrefixOf line = true := by
  intro hmagic
  obtain ⟨rest, rfl⟩ := isPrefixOf_iff_prefix.mp hmagic
  simp [baseHeaderMagic] at h

lemma decodeWalBase_headerless {line : Bytes} (h : line.head? ≠ some 35) :
    decodeWalBase line = .ok (0, 0) := by
  have hnone : decodeBaseHeader line = .ok none := if_pos (not_baseHeaderMagic h)
  rw [decodeWalBase, hnone]
  split <;> rfl

lemma readWalBase_headerless (h : file.head? ≠ some 35) : readWalBase (some file) = .ok (0, 0) := by
  have hscan : (file.take walBaseHeaderProbeBytes).head? ≠ some 35 := by
    cases file with
    | nil => simp
    | cons b file => simpa [walBaseHeaderProbeBytes] using h
  rw [readWalBase]
  cases hline : takeLine (file.take walBaseHeaderProbeBytes) with
  | some line => exact decodeWalBase_headerless (by rw [head_of_takeLine hline]; exact hscan)
  | none =>
    simp only [not_baseHeaderMagic hscan]
    split
    · exact decodeWalBase_headerless hscan
    · rfl

end TemporalStore.Wal
