import TemporalStore.Wal.FirstBlock

namespace TemporalStore.Wal

open Lib LogFraming List Piece ScanWindow Nat

variable {β ρ : Type} {cfg : WalConfig} {codec : WalCodec β ρ}

/-- Two files that are the same up to `stop`, which lies inside the second, and show footers in the
same slots. -/
structure Agree (a b : Bytes) (headerLen stop : ℕ) : Prop where
  take : a.take stop = b.take stop
  inside : stop < b.length
  slots : ∀ index, (footerInSlot a headerLen index).isSome = (footerInSlot b headerLen index).isSome

variable {file : Bytes} {pos : ℕ}

namespace Agree

variable {a b : Bytes} {headerLen stop : ℕ}

section

variable (h : Agree a b headerLen stop)
include h

lemma skipBlockFooterIfDue (pos : ℕ) :
    skipBlockFooterIfDue a pos headerLen = skipBlockFooterIfDue b pos headerLen := by
  simp only [Wal.skipBlockFooterIfDue, h.slots]

lemma readStep_record {pos : ℕ} {record : WalRecord β}
    (hstep : readStep a headerLen a.length pos = .ok (.record (frameOf codec record)))
    (hle : pos + (frameOf codec record).length ≤ stop) :
    readStep b headerLen b.length pos = .ok (.record (frameOf codec record)) := by
  have hraw : readRawRecord (a.drop pos) = .ok (some (frameOf codec record)) := by
    unfold readStep at hstep
    split at hstep
    · simp at hstep
    · next raw hraw =>
      simp only [Except.ok.injEq, Step.record.injEq] at hstep
      rw [hraw, hstep]
    · split at hstep <;> simp at hstep
  have hfr : slice a pos (frameOf codec record).length = frameOf codec record :=
    (prefix_iff_eq_take.mp (isPrefix_of_readRawRecord hraw)).symm
  have hdrop : b.drop pos =
      frameOf codec record ++ (b.drop pos).drop (frameOf codec record).length := by
    rw [slice_congr h.take hle] at hfr
    nth_rewrite 1 [← hfr]
    exact (take_append_drop _ _).symm
  rw [readStep, hdrop, readRawRecord_frameOf]

lemma blockIsClosed {pos next : ℕ}
    (hclosed : blockIsClosed a pos headerLen a.length = some next) (hle : next ≤ stop) :
    blockIsClosed b pos headerLen b.length = some next := by
  have hins := h.inside
  rw [Wal.blockIsClosed] at hclosed ⊢
  by_cases hpos : pos < headerLen
  · rw [if_pos hpos] at hclosed
    simp at hclosed
  rw [if_neg hpos] at hclosed ⊢
  dsimp only at hclosed ⊢
  set index := blockOf (pos - headerLen) with hidx
  have hslot : headerLen + blockFooterAt index + walBlockFooterBytes =
      headerLen + (index + 1) * walBlockBytes := by
    rw [blockFooterAt_eq, walBlockBytes_eq]
    simp only [walBlockFooterBytes]
    omega
  by_cases hgrid : (footerInSlot a headerLen index).isSome
  · have hfit : headerLen + blockFooterAt index + walBlockFooterBytes ≤ a.length := by
      by_contra hfit
      rw [footerInSlot, if_neg hfit] at hgrid
      simp at hgrid
    rw [if_pos ⟨hfit, hgrid⟩] at hclosed
    split at hclosed
    · simp at hclosed
    · rw [Option.some.injEq] at hclosed
      rw [if_pos ⟨by omega, by rw [← h.slots]; exact hgrid⟩, if_neg (by omega), hclosed]
  · rw [if_neg fun hboth => hgrid hboth.2] at hclosed
    rw [if_neg fun hboth => hgrid (by rw [h.slots]; exact hboth.2)]
    rw [displacedBlockFooterEnd_eq_some le_rfl] at hclosed ⊢
    obtain ⟨hroom, hfoot, hnext, hlt⟩ := hclosed
    have hfirst := findIdx_congr h.take (show pos + (a.drop pos).findIdx (· ≠ 0) < stop by
      simp only [walBlockFooterBytes] at hnext; omega)
    rw [hfirst, ← slice_congr h.take (by omega)]
    exact ⟨by omega, hfoot, hnext, by omega⟩

lemma path {steps pos last : ℕ} {records : List (ℕ × WalRecord β)}
    (hpath : Path codec a headerLen a.length steps pos records last) (hle : last ≤ stop) :
    Path codec b headerLen b.length steps pos records last := by
  induction hpath with
  | nil pos => exact .nil pos
  | @closed _ pos next _ _ hskip hzero hstep hrest ih =>
    have hnext := hrest.steps_le
    have hlt := lt_of_readStep_closed hstep
    have hclosed : Wal.blockIsClosed a pos headerLen a.length = some next := by
      rw [readStep, readRawRecord_of_zero hzero] at hstep
      dsimp only at hstep
      split at hstep
      · next found hfound =>
        simp only [Except.ok.injEq, Step.closed.injEq] at hstep
        rw [hfound, hstep]
      · simp at hstep
    have hzero' : b[pos]? = some 0 := by rw [← getElem?_congr h.take (by omega), hzero]
    refine .closed (by rw [← h.skipBlockFooterIfDue, hskip]) hzero' ?_ (ih hle)
    rw [readStep, readRawRecord_of_zero hzero']
    simp only [h.blockIsClosed hclosed (by omega)]
  | @record _ pos at' _ record _ hskip hstep hrest ih =>
    have hnext := hrest.steps_le
    exact .record (by rw [← h.skipBlockFooterIfDue, hskip])
      (h.readStep_record hstep (by omega)) (ih hle)

end

end Agree

lemma Path.init {headerLen len steps stop at' : ℕ} {all records : List (ℕ × WalRecord β)}
    {record : WalRecord β} (h : Path codec file headerLen len steps pos all stop)
    (hall : all = records ++ [(at', record)]) :
    ∃ n last, Path codec file headerLen len n pos records last ∧
      skipBlockFooterIfDue file last headerLen = at' := by
  induction h generalizing records with
  | nil pos => simp at hall
  | closed hskip hzero hstep _ ih =>
    obtain ⟨n, last, hpath, hlast⟩ := ih hall
    exact ⟨_, last, .closed hskip hzero hstep hpath, hlast⟩
  | @record _ pos _ _ _ _ hskip hstep _ ih =>
    cases records with
    | nil =>
      simp only [nil_append, cons.injEq, Prod.mk.injEq] at hall
      exact ⟨0, pos, .nil pos, by rw [hskip, hall.1.1]⟩
    | cons r records =>
      simp only [cons_append, cons.injEq] at hall
      obtain ⟨rfl, hall⟩ := hall
      obtain ⟨n, last, hpath, hlast⟩ := ih hall
      exact ⟨_, last, .record hskip hstep hpath, hlast⟩

def Piece.concat (p : Piece β) (cell : Cell β) : Piece β := { p with cells := p.cells ++ [cell] }

@[simp] lemma Piece.concat_header (p : Piece β) (cell : Cell β) :
    (p.concat cell).header = p.header := rfl

@[simp] lemma Piece.concat_cells (p : Piece β) (cell : Cell β) :
    (p.concat cell).cells = p.cells ++ [cell] := rfl

/-- An append that a crash cut short after `written` bytes of the frame, in front of `reserve`
zeros. -/
structure Tear (β : Type) where
  cell : Cell β
  written : ℕ
  reserve : ℕ

/-- What there is of the frame. -/
def Tear.left (codec : WalCodec β ρ) (t : Tear β) : Bytes :=
  (frameOf codec t.cell.record).take t.written ++ zeros t.reserve

/-- Where the frame of the torn append to the piece starts in the file. -/
def Piece.tearAt (codec : WalCodec β ρ) (p : Piece β) (t : Tear β) : ℕ :=
  p.header.length + (cellsLen codec p.cells + t.cell.gapBytes.length)

/-- The file of the piece: the records before, the footer if the append closed a block, and what
there is of the frame. -/
def Piece.tornBytes (codec : WalCodec β ρ) (p : Piece β) (t : Tear β) : Bytes :=
  p.header ++ (cellsBytes codec p.cells ++ (t.cell.gapBytes ++ t.left codec))

/-- A torn append whose completion would have left a legible piece, and whose bytes do not look like
a footer in any slot but those the writer closed. -/
structure TornPiece (codec : WalCodec β ρ) (p : Piece β) (t : Tear β) : Prop where
  sound : (p.concat t.cell).Sound codec
  proper : t.written < (frameOf codec t.cell.record).length
  inside : 0 < t.written + t.reserve
  slots : ∀ index, (footerInSlot (p.tornBytes codec t) p.header.length
    index).isSome → ClosesBlock (gapsFrom codec 0 (p.cells ++ [t.cell])) index

section

variable (p : Piece β) (codec : WalCodec β ρ)

lemma Piece.tornBytes_length {t : Tear β} (h : t.written ≤ (frameOf codec t.cell.record).length) :
    (p.tornBytes codec t).length = p.tearAt codec t + (t.written + t.reserve) := by
  simp only [tornBytes, tearAt, Tear.left, cellsLen, length_append, length_take, zeros_length]
  omega

variable (t : Tear β)

lemma Piece.drop_tornBytes : (p.tornBytes codec t).drop (p.tearAt codec t) = t.left codec := by
  rw [tornBytes, tearAt, drop_length_add_append, cellsLen, drop_length_add_append, drop_left]

lemma Piece.take_tornBytes (reserve : ℕ) :
    ((p.concat t.cell).bytes codec reserve).take (p.tearAt codec t) =
      (p.tornBytes codec t).take (p.tearAt codec t) := by
  have hlen : p.tearAt codec t =
      (p.header ++ (cellsBytes codec p.cells ++ t.cell.gapBytes)).length := by
    rw [length_append, length_append]
    rfl
  have hwhole : (p.concat t.cell).bytes codec reserve =
      (p.header ++ (cellsBytes codec p.cells ++ t.cell.gapBytes)) ++
        (frameOf codec t.cell.record ++ zeros reserve) := by
    simp [bytes, pieceBytes, cellsBytes_append, cellsBytes_cons, Cell.bytes]
  have htorn : p.tornBytes codec t =
      (p.header ++ (cellsBytes codec p.cells ++ t.cell.gapBytes)) ++ t.left codec := by
    simp [tornBytes]
  rw [hwhole, htorn, hlen, take_left, take_left]

variable {codec t} in
lemma Tear.head_left (h : 0 < t.written) : (t.left codec).head? = some frameMagicV3 := by
  obtain ⟨n, hn⟩ := Nat.exists_eq_add_of_lt h
  simp [left, hn, frameOf, encodeFrame]

end

lemma recordsFrom_concat (pos : ℕ) (cells : List (Cell β)) (cell : Cell β) :
    recordsFrom codec pos (cells ++ [cell]) = recordsFrom codec pos cells ++
      [(pos + cellsLen codec cells + cell.gapBytes.length, cell.record)] := by
  rw [recordsFrom_append]
  rfl

lemma stop_le_of_mem_gapsFrom_concat {cells : List (Cell β)} {cell : Cell β} {g : PlacedGap}
    (h : g ∈ gapsFrom codec 0 (cells ++ [cell])) :
    g.stop ≤ cellsLen codec cells + cell.gapBytes.length := by
  rw [gapsFrom_concat, mem_append] at h
  rcases h with h | h
  · have := bounds_of_mem_gapsFrom codec h
    omega
  · simp only [mem_map, Option.mem_toList] at h
    obtain ⟨gap, hgap, rfl⟩ := h
    simp only [Cell.gapBytes, hgap, Option.elim_some, Gap.bytes_length, PlacedGap.stop]
    omega

/-- A frame does not start like a footer: the length it would declare is too large for a slot. -/
lemma decodeBlockFooter_of_frame {slot : Bytes} (hhead : slot.head? = some frameMagicV3)
    (hlen : slot.length ≤ walBlockFooterBytes) : decodeBlockFooter slot = none := by
  obtain ⟨rest, rfl⟩ := head?_eq_some_iff.mp hhead
  rw [decodeBlockFooter]
  split
  · rfl
  have hdecl : 179 ≤ leNat ((frameMagicV3 :: rest).take 2) := by
    rw [take_succ_cons, leNat]
    have hmagic : frameMagicV3.toNat = 179 := by decide
    omega
  rw [if_pos]
  simp only [walBlockFooterBytes] at hlen
  omega

namespace TornPiece

variable {p : Piece β} {t : Tear β}

lemma footerInSlot_of_gap (h : TornPiece codec p t) {g : PlacedGap}
    (hg : g ∈ gapsFrom codec 0 (p.cells ++ [t.cell])) (hgrid : g.OnGrid) :
    footerInSlot (p.tornBytes codec t) p.header.length (blockOf g.start) =
      some g.gap.slot.footer := by
  have hwhole : footerInSlot ((p.concat t.cell).bytes codec 0) p.header.length (blockOf g.start) =
      some g.gap.slot.footer := footerInSlot_of_onGrid rfl hg hgrid
  have hstop : p.header.length + blockFooterAt (blockOf g.start) + walBlockFooterBytes ≤
      p.tearAt codec t := by
    have hbef := stop_le_of_mem_gapsFrom_concat hg
    rw [PlacedGap.OnGrid, walBlockBytes_eq] at hgrid
    rw [tearAt, blockFooterAt_eq]
    simp only [walBlockFooterBytes]
    omega
  have hlen := p.tornBytes_length codec h.proper.le
  have hfits : p.tearAt codec t ≤ ((p.concat t.cell).bytes codec 0).length := by
    rw [bytes_length, concat_cells, cellsLen_append, cellsLen_cons, Cell.bytes_length,
      concat_header, tearAt]
    omega
  rw [footerInSlot, if_pos (by omega), slice_congr (p.take_tornBytes codec t 0) hstop] at hwhole
  rw [footerInSlot, if_pos (by omega), hwhole]

lemma agree (h : TornPiece codec p t) :
    Agree ((p.concat t.cell).bytes codec 0) (p.tornBytes codec t)
      p.header.length (p.tearAt codec t) where
  take := p.take_tornBytes codec t 0
  inside := by
    have hins := h.inside
    rw [p.tornBytes_length codec h.proper.le]
    omega
  slots := by
    intro index
    rw [Bool.eq_iff_iff]
    constructor
    · intro hslot
      obtain ⟨g, hg, hgrid, rfl⟩ :=
        h.sound.legible.slots index (slotDecodes_of_footerInSlot rfl hslot)
      rw [h.footerInSlot_of_gap hg hgrid]
      rfl
    · intro hslot
      obtain ⟨g, hg, hgrid, rfl⟩ := h.slots index hslot
      have hwhole : footerInSlot ((p.concat t.cell).bytes codec 0) p.header.length
          (blockOf g.start) = some g.gap.slot.footer :=
        footerInSlot_of_onGrid rfl hg hgrid
      rw [hwhole]
      rfl

variable (codec p t) in
/-- A walk from `pos` reads the records and comes to the torn frame. -/
def Reaches (pos : ℕ) (records : List (ℕ × WalRecord β)) : Prop :=
  ∃ n last, Path codec (p.tornBytes codec t) p.header.length
      (p.tornBytes codec t).length n pos records last ∧
    skipBlockFooterIfDue (p.tornBytes codec t) last p.header.length =
      p.tearAt codec t

variable {records : List (ℕ × WalRecord β)}

lemma path_of_whole (h : TornPiece codec p t) {steps pos stop : ℕ}
    (hpath : Path codec ((p.concat t.cell).bytes codec 0) p.header.length
      ((p.concat t.cell).bytes codec 0).length steps pos
      (records ++ [(p.tearAt codec t, t.cell.record)]) stop) : Reaches codec p t pos records := by
  obtain ⟨n, last, hinit, hlast⟩ := hpath.init rfl
  have hle := le_skipBlockFooterIfDue ((p.concat t.cell).bytes codec 0) last p.header.length
  refine ⟨n, last, h.agree.path hinit (by omega), ?_⟩
  rw [← h.agree.skipBlockFooterIfDue, hlast]

/-- The tail walk ends at the torn frame, whatever it has found before. -/
def StopsAtTear (codec : WalCodec β ρ) (p : Piece β) (t : Tear β) (readAhead : ℕ → ℕ) : Prop :=
  ∀ fuel last pos, skipBlockFooterIfDue (p.tornBytes codec t) pos p.header.length =
      p.tearAt codec t →
    lastSequenceLoop codec readAhead (p.tornBytes codec t) p.header.length (fuel + 1) last pos =
      .ok (last, p.tearAt codec t)

variable {readAhead : ℕ → ℕ}

lemma lastSequenceLoop_of_stops (hstops : StopsAtTear codec p t readAhead)
    {pos : ℕ} (hreaches : Reaches codec p t pos records)
    (hins : p.tearAt codec t ≤ (p.tornBytes codec t).length) (known : ℕ) :
    lastSequenceLoop codec readAhead (p.tornBytes codec t) p.header.length
      ((p.tornBytes codec t).length + 1) known pos =
      .ok (maxSequence known records, p.tearAt codec t) := by
  obtain ⟨steps, last, hpath, hskip⟩ := hreaches
  have hsteps := hpath.steps_le
  have hle := le_skipBlockFooterIfDue (p.tornBytes codec t) last p.header.length
  obtain ⟨fuel, hfuel⟩ : ∃ fuel, (p.tornBytes codec t).length + 1 =
      steps + (fuel + 1) := ⟨(p.tornBytes codec t).length - steps, by omega⟩
  rw [hfuel, lastSequenceLoop_along readAhead hpath, hstops _ _ _ hskip]

variable {before after : List (Cell β)}

section

variable (h : TornPiece codec p t)
include h

lemma path_of_completed (hcells : p.cells = before ++ after) :
    ∃ n stop, Path codec ((p.concat t.cell).bytes codec 0) p.header.length
      ((p.concat t.cell).bytes codec 0).length n (p.header.length + cellsLen codec before)
      (recordsFrom codec (p.header.length + cellsLen codec before) after ++
        [(p.tearAt codec t, t.cell.record)]) stop := by
  have hlen := (p.concat t.cell).bytes_length codec 0
  obtain ⟨n, hpath⟩ := path_of_legible (show (p.concat t.cell).bytes codec 0 = _ from rfl)
    h.sound.legible (by omega) le_rfl before (after ++ [t.cell]) (by simp [hcells])
  have hrecs : recordsFrom codec (p.header.length + cellsLen codec before) (after ++ [t.cell]) =
      recordsFrom codec (p.header.length + cellsLen codec before) after ++
        [(p.tearAt codec t, t.cell.record)] := by
    rw [recordsFrom_concat, tearAt, hcells, cellsLen_append]
    simp only [add_assoc]
  rw [concat_header, hrecs] at hpath
  exact ⟨n, _, hpath⟩

/-- A walk from any cell of the torn piece reads the records from there on and comes to the torn
frame. -/
lemma path_from_cell (hcells : p.cells = before ++ after) :
    Reaches codec p t (p.header.length + cellsLen codec before)
      (recordsFrom codec (p.header.length + cellsLen codec before) after) := by
  obtain ⟨n, stop, hpath⟩ := h.path_of_completed hcells
  exact h.path_of_whole hpath

lemma path_from_record {c : Cell β} (hcells : p.cells = before ++ c :: after) : Reaches codec p t
      (p.header.length + (cellsLen codec before + c.gapBytes.length))
      ((p.header.length + (cellsLen codec before + c.gapBytes.length), c.record) ::
        recordsFrom codec (p.header.length + cellsLen codec (before ++ [c])) after) := by
  have hwhole : (p.concat t.cell).cells = before ++ c :: (after ++ [t.cell]) := by simp [hcells]
  have hbeh : p.cells = (before ++ [c]) ++ after := by simp [hcells]
  obtain ⟨n, stop, hrest⟩ := h.path_of_completed hbeh
  exact h.path_of_whole (path_to_record rfl hwhole
    (skip_outside_gaps rfl h.sound.legible (outside_gaps_at_record hwhole)) hrest)

lemma readWalBase : readWalBase (some (p.tornBytes codec t)) = .ok (p.base, p.header.length) := by
  cases hheaded : p.headed with
  | true =>
    rw [tornBytes, header, hheaded]
    exact readWalBase_headed p.base _
  | false =>
    have hhdr : p.header = [] := by rw [header, hheaded]; rfl
    have hbase : p.base = 0 := h.sound.headerless hheaded
    have hhead : (p.tornBytes codec t).head? ≠ some 35 := by
      rcases Nat.eq_zero_or_pos (p.tearAt codec t) with hzero | hpos
      · -- nothing before the frame: its first byte, if it was written, is the frame's
        have hdrop := p.drop_tornBytes codec t
        rw [hzero, drop_zero] at hdrop
        rw [hdrop]
        rcases Nat.eq_zero_or_pos t.written with hnone | hsome
        · rw [Tear.left, hnone]
          cases t.reserve <;> simp [zeros_succ]
        · rw [Tear.head_left hsome]
          decide
      · have hsame := getElem?_congr (p.take_tornBytes codec t 0) hpos
        rw [head?_eq_getElem?, ← hsame, ← head?_eq_getElem?, bytes, concat_header, hhdr]
        exact head_cellsBytes_ne h.sound.legible 0
    rw [readWalBase_headerless hhead, hbase, hhdr]
    rfl

lemma skip_at_tear : skipBlockFooterIfDue (p.tornBytes codec t) (p.tearAt codec t)
      p.header.length = p.tearAt codec t := by
  rw [← h.agree.skipBlockFooterIfDue]
  exact skip_outside_gaps rfl h.sound.legible
    (outside_gaps_at_record (show (p.concat t.cell).cells = p.cells ++ t.cell :: [] from rfl))

lemma not_footerInSlot_at_tear : ¬(footerInSlot (p.tornBytes codec t) p.header.length
      (blockOf (cellsLen codec p.cells + t.cell.gapBytes.length))).isSome := by
  intro hslot
  obtain ⟨g, hg, hgrid, hblk⟩ := h.slots _ hslot
  have hstop := stop_le_of_mem_gapsFrom_concat hg
  rw [PlacedGap.OnGrid, hblk, walBlockBytes_eq, blockOf_eq] at hgrid
  omega

lemma blockIsClosed_at_tear : blockIsClosed (p.tornBytes codec t) (p.tearAt codec t) p.header.length
      (p.tornBytes codec t).length = none := by
  have hat : p.tearAt codec t - p.header.length =
      cellsLen codec p.cells + t.cell.gapBytes.length := by
    rw [tearAt]
    omega
  have hdrop := p.drop_tornBytes codec t
  rw [blockIsClosed, if_neg (by rw [tearAt]; omega), hat,
    if_neg fun hboth => h.not_footerInSlot_at_tear hboth.2]
  rcases Nat.eq_zero_or_pos t.written with hzero | hpos
  · exact displacedBlockFooterEnd_zeros (by simpa [Tear.left, hzero] using hdrop) _
  · rw [Option.eq_none_iff_forall_ne_some]
    intro next hfound
    rw [displacedBlockFooterEnd_eq_some le_rfl, hdrop] at hfound
    obtain ⟨-, hfoot, -⟩ := hfound
    have hfirst : (t.left codec).head? = some frameMagicV3 := Tear.head_left hpos
    have hzero : (t.left codec).findIdx (· ≠ 0) = 0 := by
      obtain ⟨rest, hrest⟩ := head?_eq_some_iff.mp hfirst
      rw [hrest]
      rfl
    rw [hzero, add_zero, slice, hdrop, decodeBlockFooter_of_frame] at hfoot
    · simp at hfoot
    · rw [head?_take, if_neg (by decide), hfirst]
    · exact length_take_le _ _

lemma readStep_unwritten (hnone : t.written = 0) :
    readStep (p.tornBytes codec t) p.header.length (p.tornBytes codec t).length
      (p.tearAt codec t) = .ok .done := by
  rw [readStep, p.drop_tornBytes codec, Tear.left, hnone, take_zero, nil_append,
    readRawRecord_zeros]
  simp only [h.blockIsClosed_at_tear]

/-- If some of it was written and the reservation holds the rest, the zeros complete it to something
that reads as a record. -/
lemma readStep_written (hpos : 0 < t.written)
    (hcov : (frameOf codec t.cell.record).length ≤ t.written + t.reserve) :
    ∃ raw, raw.head? = some frameMagicV3 ∧ readStep (p.tornBytes codec t) p.header.length
        (p.tornBytes codec t).length (p.tearAt codec t) = .ok (.record raw) := by
  obtain ⟨size, hlow, hhigh, hread⟩ := readRawRecord_torn t.reserve
    (encode_length_lt_u64 codec t.cell.record) hpos h.proper
  rw [← frameOf] at hread hhigh
  rw [← Tear.left, if_neg (by omega)] at hread
  refine ⟨(t.left codec).take size, ?_, ?_⟩
  · rw [head?_take, if_neg (by omega), Tear.head_left hpos]
  · rw [readStep, p.drop_tornBytes codec, hread]

lemma stopsAtTear_unwritten (hnone : t.written = 0)
    (readAhead : ℕ → ℕ) : StopsAtTear codec p t readAhead := by
  intro fuel last pos hskip
  rw [lastSequenceLoop]
  simp only [hskip, h.readStep_unwritten hnone]
  split <;> rfl

/-- The tail walk of a torn piece finds the end of the whole records. The sequence is that of the
last of them, or what the footer before the torn frame says. -/
lemma lastWalSequenceIn (hord : Ordered p.cells) (hstops : StopsAtTear codec p t readAhead) :
    ∃ sequence, lastWalSequenceIn codec readAhead (some (p.tornBytes codec t)) =
        .ok (sequence, p.tearAt codec t) ∧ (sequence = lastSequenceOf p.cells ∨
        ∃ g, t.cell.gap = some g ∧ sequence = g.slot.footer.lastRecordSequence) := by
  have hins := h.agree.inside
  cases hfoot : lastWrittenFooter (p.tornBytes codec t) p.header.length with
  | none =>
    have hpath := h.path_from_cell (show p.cells = [] ++ p.cells from rfl)
    rw [cellsLen_nil, add_zero] at hpath
    refine ⟨lastSequenceOf p.cells, ?_, .inl rfl⟩
    have hlong : ¬(p.tornBytes codec t).length ≤ p.header.length := by
      rw [tearAt] at hins
      omega
    rw [lastWalSequenceIn_of_none readAhead h.readWalBase hfoot,
      lastWalSequenceForward_eq readAhead h.readWalBase (Nat.lt_of_not_le hlong),
      lastSequenceLoop_of_stops hstops hpath hins.le, maxSequence_of_ordered hord]
  | some found =>
    obtain ⟨index, footer⟩ := found
    have hslot := lastWrittenFooter_eq_some hfoot
    obtain ⟨g, hg, hgrid, rfl⟩ := h.slots index (by rw [hslot]; rfl)
    rw [h.footerInSlot_of_gap hg hgrid, Option.some.injEq] at hslot
    subst hslot
    have hstop := stop_le_of_mem_gapsFrom_concat hg
    rw [PlacedGap.OnGrid] at hgrid
    have hshort : ¬(p.tornBytes codec t).length ≤
        p.header.length + (blockOf g.start + 1) * walBlockBytes := by
      rw [tearAt] at hins
      omega
    rw [lastWalSequenceIn_of_some readAhead h.readWalBase hfoot (Nat.lt_of_not_le hshort), ← hgrid]
    rw [gapsFrom_concat, mem_append] at hg
    rcases hg with hg | hg
    · obtain ⟨before, c, after, hcells, hgap, hstart⟩ := exists_cell_of_mem_gapsFrom codec hg
      have hpos : p.header.length + g.stop =
          p.header.length + (cellsLen codec before + c.gapBytes.length) := by
        simp only [PlacedGap.stop, hstart, Cell.gapBytes, hgap, Option.elim_some, Gap.bytes_length]
        omega
      have hknown := hord.footers c (by simp [hcells]) g.gap hgap
      refine ⟨lastSequenceOf p.cells, ?_, .inl rfl⟩
      rw [hpos, lastSequenceLoop_of_stops hstops (h.path_from_record hcells) hins.le,
        maxSequence_from_footer hord hcells hknown]
    · -- the footer was written for the torn record itself
      simp only [mem_map, Option.mem_toList] at hg
      obtain ⟨gap, hgap, rfl⟩ := hg
      have hpos : p.header.length + (⟨cellsLen codec p.cells, gap⟩ : PlacedGap).stop =
          p.tearAt codec t := by
        simp only [PlacedGap.stop, tearAt, Cell.gapBytes, hgap, Option.elim_some, Gap.bytes_length]
        omega
      refine ⟨gap.slot.footer.lastRecordSequence, ?_, .inr ⟨gap, hgap, rfl⟩⟩
      rw [hpos, lastSequenceLoop_of_stops hstops ⟨0, _, .nil _, h.skip_at_tear⟩ hins.le]
      rfl

lemma scanPiece (st : ScanState ρ) :
    ∃ total fuel pos, skipBlockFooterIfDue (p.tornBytes codec t) pos
        p.header.length = p.tearAt codec t ∧
      scanPiece codec .whole (some (p.tornBytes codec t)) none st =
        scanPieceLoop codec .whole (p.tornBytes codec t) p.base p.header.length (fuel + 1) pos
          ⟨st.entries ++ (p.records codec).map (scanEntry codec), total, st.stopped⟩ := by
  have hins := h.agree.inside
  obtain ⟨n, last, hpath, hskip⟩ := h.path_from_cell (show p.cells = [] ++ p.cells from rfl)
  have hsteps := hpath.steps_le
  have hle := le_skipBlockFooterIfDue (p.tornBytes codec t) last p.header.length
  obtain ⟨fuel, hfuel⟩ : ∃ fuel, (p.tornBytes codec t).length + 1 =
      n + (fuel + 1) := ⟨(p.tornBytes codec t).length - n, by omega⟩
  obtain ⟨total, hscan⟩ := scanPieceLoop_along p.base hpath (fuel + 1) st
  refine ⟨total, fuel, last, hskip, ?_⟩
  have hlong : ¬p.base + ((p.tornBytes codec t).length - p.header.length) ≤ whole.startOffset := by
    simp only [whole]
    omega
  rw [entryAt_recordsFrom] at hscan
  rw [Wal.scanPiece, h.readWalBase, ok_bind]
  dsimp only
  rw [Option.getD_some, if_neg hlong, hfuel]
  exact hscan

end

end TornPiece

lemma scanPieceLoop_extends {window : ScanWindow} {base headerLen fuel : ℕ} {st st' : ScanState ρ}
    (h : scanPieceLoop codec window file base headerLen fuel pos st = .ok st') :
    st.entries <+: st'.entries := by
  induction fuel generalizing pos st with
  | zero => simp [scanPieceLoop] at h
  | succ fuel ih =>
    rw [scanPieceLoop] at h
    split at h
    · simp at h
    · cases h
      exact prefix_rfl
    · exact ih h
    · split_ifs at h
      · cases h
        exact prefix_rfl
      · exact ih h
      · cases h
        exact prefix_rfl
      · cases h
        exact prefix_rfl
      all_goals
        obtain ⟨record, -, hrest⟩ := bind_eq_ok h
        exact (prefix_append _ _).trans (ih hrest)

lemma decodedEntries_of_frame {raw : Bytes} {base headerLen fuel at' : ℕ} {st st' : ScanState ρ}
    (hskip : skipBlockFooterIfDue file pos headerLen = at')
    (hstep : readStep file headerLen file.length at' = .ok (.record raw))
    (hhead : raw.head? = some frameMagicV3)
    (h : scanPieceLoop codec .whole file base headerLen (fuel + 1) pos st = .ok st') :
    (decodedEntries st.entries).length < (decodedEntries st'.entries).length := by
  have hne : raw ≠ [] := by
    rintro rfl
    simp at hhead
  have hmark : ¬raw.all isAsciiWhitespace = true := by
    obtain ⟨rest, rfl⟩ := head?_eq_some_iff.mp hhead
    simp [isAsciiWhitespace, frameMagicV3]
  rw [scanPieceLoop] at h
  simp only [hskip, hstep, if_neg hne, whole, exceeds, not_lt_zero,
    if_neg hmark, Bool.false_eq_true, and_false, if_false] at h
  obtain ⟨found, hfound, hrest⟩ := bind_eq_ok h
  obtain ⟨record, -, rfl⟩ : ∃ record, decodeWalLine codec raw = .ok record ∧
      found = some record := by
    cases hdec : decodeWalLine codec raw with
    | error e =>
      rw [hdec] at hfound
      simp [Functor.map, Except.map] at hfound
    | ok record =>
      rw [hdec, map_ok, Except.ok.injEq] at hfound
      exact ⟨record, rfl, hfound.symm⟩
  obtain ⟨more, hmore⟩ := scanPieceLoop_extends hrest
  rw [← hmore, decodedEntries_append, decodedEntries_append, length_append, length_append]
  simp only [decodedEntries, filterMap_cons, filterMap_nil, Option.map_some,
    length_cons, length_nil]
  omega

/-- A crash while `record` is appended at `now`. -/
structure Crash (β : Type) where
  record : WalRecord β
  now : ℕ
  written : ℕ
  reserve : ℕ

namespace Log

/-- The crash as the append to the log meets it. -/
abbrev tear (codec : WalCodec β ρ) (l : Log β) (c : Crash β) : Tear β :=
  ⟨l.cellFor codec c.record c.now, c.written, c.reserve⟩

/-- What is left of it: the sealed pieces are whole, the active one is torn. -/
structure Torn (codec : WalCodec β ρ) (l : Log β) (c : Crash β) (s : WalStore) : Prop where
  wf : l.WF codec
  piece : TornPiece codec l.current (l.tear codec c)
  sealed : s.sealed = l.sealed.map fun p => ⟨p.base, p.bytes codec 0⟩
  active : s.active = some (l.current.tornBytes codec (l.tear codec c))

namespace Torn

variable {l : Log β} {c : Crash β} {s : WalStore}

section

variable (h : l.Torn codec c s)
include h

lemma lastSequenceOfPieces : lastSequenceOfPieces cfg codec s.sealed.reverse =
      .ok (lastSequenceOf (l.sealed.flatMap Piece.cells)) := by
  rw [h.sealed, ← map_reverse, Stored.lastSequenceOfPieces_eq, reverse_reverse]
  all_goals intro p hp; rw [mem_reverse] at hp
  · exact h.wf.sound p (mem_pieces_of_sealed hp)
  · exact h.wf.ordered_piece (mem_pieces_of_sealed hp)
  · exact h.wf.filled p hp
  · exact fun c hc => h.wf.positive c (mem_cells (mem_pieces_of_sealed hp) hc)

lemma lastWalSequenceAt (cfg : WalConfig)
    (hstops : TornPiece.StopsAtTear codec l.current (l.tear codec c) cfg.readAhead) :
    ∃ sequence, lastWalSequenceAt cfg codec s =
      .ok (sequence, l.current.tearAt codec (l.tear codec c)) := by
  obtain ⟨sequence, hlast, -⟩ := h.piece.lastWalSequenceIn
    (h.wf.ordered_piece l.current_mem_pieces) hstops
  rw [Wal.lastWalSequenceAt, h.active, hlast, ok_bind]
  dsimp only
  by_cases hpos : 0 < sequence
  · rw [if_pos hpos]
    exact ⟨_, rfl⟩
  · rw [if_neg hpos, h.lastSequenceOfPieces]
    exact ⟨_, rfl⟩

lemma scanDecoded (cfg : WalConfig) : ∃ total fuel pos,
      skipBlockFooterIfDue (l.current.tornBytes codec (l.tear codec c)) pos
        l.current.header.length = l.current.tearAt codec (l.tear codec c) ∧
      scanDecoded cfg codec s = do
        let _ ← Wal.lastWalSequenceAt cfg codec s
        let st ← scanPieceLoop codec .whole (l.current.tornBytes codec (l.tear codec c))
          l.current.base l.current.header.length (fuel + 1) pos
          ⟨(l.records codec).map (scanEntry codec), total, none⟩
        return decodedEntries st.entries := by
  obtain ⟨total, hover⟩ := h.wf.scanDecoded_over cfg h.sealed h.active
  obtain ⟨total', fuel, pos, hskip, hpiece⟩ := h.piece.scanPiece
    ⟨(l.sealed.flatMap (Piece.records codec)).map (scanEntry codec), total, none⟩
  refine ⟨total', fuel, pos, hskip, ?_⟩
  rw [hover, hpiece, records_eq, map_append]

/-- Once some of the frame is written, the zeros of the reservation complete it to something that
the scan takes for a record. -/
lemma scanDecoded_ne (cfg : WalConfig) (hpos : 0 < c.written)
    (hcov : (frameOf codec c.record).length ≤ c.written + c.reserve) :
    Wal.scanDecoded cfg codec s ≠ .ok (codec.readEach (l.records codec)) := by
  obtain ⟨total, fuel, pos, hskip, hscan⟩ := h.scanDecoded cfg
  obtain ⟨raw, hhead, hstep⟩ := h.piece.readStep_written hpos hcov
  rw [hscan]
  intro hok
  obtain ⟨-, -, hok⟩ := bind_eq_ok hok
  obtain ⟨st, hloop, hents⟩ := bind_eq_ok hok
  have hmore := decodedEntries_of_frame hskip hstep hhead hloop
  rw [pure_eq_ok, Except.ok.injEq] at hents
  rw [hents, decodedEntries_map_scanEntry] at hmore
  exact lt_irrefl _ hmore

end

end Torn

lemma Short.torn {l : Log β} {n : ℕ} (h : l.Short codec n) (hwf : l.WF codec) {c : Crash β}
    (hroom : n + (frameOf codec c.record).length ≤ blockFooterAt 0)
    (hproper : c.written < (frameOf codec c.record).length) (hins : 0 < c.written + c.reserve)
    (hreach : n + (c.written + c.reserve) ≤ blockFooterAt 0) :
    TornPiece codec l.current (l.tear codec c) where
  sound := by
    have hplaced := h.place hroom c.now
    have hplain := hplaced.plain
    have hleng := hplaced.length
    exact ⟨legible_of_short hplain (hleng.trans hroom), hwf.sound_current.headerless⟩
  proper := hproper
  inside := hins
  slots := by
    intro index hslot
    have hlen : _ = _ + (c.written + c.reserve) :=
      l.current.tornBytes_length codec (t := l.tear codec c) hproper.le
    have hcells := h.length
    have hslots := blockFooterAt_zero_le index
    have hgap : (l.tear codec c).cell.gapBytes.length = 0 := by
      simp [Cell.gapBytes, cellFor, h.gapFor hroom c.now]
    rw [tearAt] at hlen
    rw [footerInSlot, if_neg (by simp only [walBlockFooterBytes]; omega)] at hslot
    simp at hslot

end Log

def oneRecord : Log StagedBlock := Log.empty.place blockCodec (nextRecord 0 smallBlock) 0

def secondCrash (written : ℕ) : Crash StagedBlock := ⟨nextRecord 1 smallBlock, 0, written, 4096⟩

/-- The first `written` bytes of a second one in a reservation. -/
def tornSecond (written : ℕ) : WalStore :=
  { WalStore.empty with
    active := some (oneRecord.current.tornBytes blockCodec
      (oneRecord.tear blockCodec (secondCrash written))) }

lemma frameOf_smallBlock_length (last : ℕ) :
    1 < (frameOf blockCodec (nextRecord last smallBlock)).length ∧
      (frameOf blockCodec (nextRecord last smallBlock)).length ≤ 66 :=
  frameOf_blockCodec_length (nextRecord last smallBlock)

lemma short_oneRecord : oneRecord.Short blockCodec
    (0 + (frameOf blockCodec (nextRecord 0 smallBlock)).length) := by
  have hfr := frameOf_smallBlock_length 0
  refine Log.Short.place Log.short_empty ?_ 0
  rw [blockFooterAt_eq]
  omega

lemma wf_oneRecord : oneRecord.WF blockCodec := by
  have hfr := frameOf_smallBlock_length 0
  refine Log.wf_empty.place (fun _ => rfl) (by decide) ?_
  refine Log.Short.appendOk Log.short_empty ?_ 0
  rw [blockFooterAt_eq]
  omega

lemma torn_tornSecond {written : ℕ} (h : written ≤ 1) :
    oneRecord.Torn blockCodec (secondCrash written) (tornSecond written) where
  wf := wf_oneRecord
  piece := by
    have hfirst := frameOf_smallBlock_length 0
    have hsecond := frameOf_smallBlock_length 1
    have hroom : blockFooterAt 0 = 130944 := blockFooterAt_eq 0
    refine short_oneRecord.torn wf_oneRecord ?_ ?_ ?_ ?_ <;> simp only [secondCrash] <;> omega
  sealed := rfl
  active := rfl

/-- A torn append is without effect on a scan if and only if nothing of its frame was written. -/
theorem scanDecoded_torn_iff {l : Log β} {c : Crash β} {s : WalStore} (h : l.Torn codec c s)
    (hcovers : (frameOf codec c.record).length ≤ c.written + c.reserve) :
    scanDecoded cfg codec s = .ok (codec.readEach (l.records codec)) ↔ c.written = 0 := by
  constructor
  · intro hscan
    by_contra hwritten
    exact h.scanDecoded_ne cfg (pos_of_ne_zero hwritten) hcovers hscan
  · intro hnone
    obtain ⟨total, fuel, pos, hskip, hscan⟩ := h.scanDecoded cfg
    obtain ⟨sequence, hlast⟩ := h.lastWalSequenceAt cfg
      (h.piece.stopsAtTear_unwritten hnone cfg.readAhead)
    rw [hscan, hlast, ok_bind, scanPieceLoop]
    simp only [hskip, h.piece.readStep_unwritten hnone, ok_bind, pure_eq_ok,
      decodedEntries_map_scanEntry]

theorem scanDecoded_unwritten : scanDecoded .default blockCodec (tornSecond 0) =
      .ok (blockCodec.readEach (oneRecord.records blockCodec)) := by
  refine (scanDecoded_torn_iff (torn_tornSecond (zero_le 1)) ?_).mpr rfl
  have hframe := frameOf_smallBlock_length 1
  simp only [secondCrash]
  omega

/-- The first byte of a frame in front of zeros is enough. -/
theorem scanDecoded_firstByte : scanDecoded .default blockCodec (tornSecond 1) ≠
      .ok (blockCodec.readEach (oneRecord.records blockCodec)) := by
  refine (torn_tornSecond le_rfl).scanDecoded_ne .default one_pos ?_
  have hframe := frameOf_smallBlock_length 1
  simp only [secondCrash]
  omega

end TemporalStore.Wal
