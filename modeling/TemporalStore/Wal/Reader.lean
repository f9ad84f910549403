import TemporalStore.Wal.Layout

namespace TemporalStore.Wal

open Lib LogFraming List PlacedGap Cell Nat

variable {β ρ : Type} (codec : WalCodec β ρ)

/-- The bytes of a piece: its header, its cells and the zeros reserved behind them. -/
def pieceBytes (header : Bytes) (cells : List (Cell β)) (reserve : ℕ) : Bytes :=
  header ++ (cellsBytes codec cells ++ zeros reserve)

lemma pieceBytes_length (header : Bytes) (cells : List (Cell β)) (reserve : ℕ) :
    (pieceBytes codec header cells reserve).length =
      header.length + cellsLen codec cells + reserve := by
  simp only [pieceBytes, length_append, zeros_length, cellsLen]
  omega

lemma cellsBytes_around_gap {cells : List (Cell β)} {g : PlacedGap}
    (h : g ∈ gapsFrom codec 0 cells) :
    ∃ before after, cellsBytes codec cells = before ++ (g.gap.bytes ++ after) ∧
      before.length = g.start := by
  obtain ⟨before, c, after, rfl, hgap, hstart⟩ := exists_cell_of_mem_gapsFrom codec h
  refine ⟨cellsBytes codec before, frameOf codec c.record ++ cellsBytes codec after, ?_, ?_⟩
  · simp [cellsBytes_append, cellsBytes_cons, bytes, gapBytes, hgap]
  · rw [hstart, zero_add, cellsLen]

lemma skip_of_not_due {file : Bytes} {headerLen pos : ℕ}
    (h : (footerInSlot file headerLen (blockOf pos)).isSome → pos < blockDataEnd (blockOf pos)) :
    skipBlockFooterIfDue file (headerLen + pos) headerLen = headerLen + pos := by
  rw [skipBlockFooterIfDue, if_neg (by omega), Nat.add_sub_cancel_left]
  by_cases hdata : pos < blockDataEnd (blockOf pos)
  · rw [if_pos hdata]
  · rw [if_neg hdata, if_neg fun hslot => hdata (h hslot)]

lemma readRawRecord_of_zero {file : Bytes} {pos : ℕ} (h : file[pos]? = some 0) :
    readRawRecord (file.drop pos) = .ok none := by
  obtain ⟨hlt, hb⟩ := List.getElem?_eq_some_iff.mp h
  rw [drop_eq_getElem_cons hlt, hb, readRawRecord_zero]

lemma displacedBlockFooterEnd_eq_some {file : Bytes} {pos len next : ℕ} (hlen : len ≤ file.length) :
    displacedBlockFooterEnd file pos len = some next ↔
      (file.drop pos).findIdx (· ≠ 0) + walBlockFooterBytes ≤ min walBlockBytes (len - pos) ∧
        (decodeBlockFooter (slice file (pos + (file.drop pos).findIdx (· ≠ 0))
          walBlockFooterBytes)).isSome ∧
        next = pos + (file.drop pos).findIdx (· ≠ 0) + walBlockFooterBytes ∧ next < len := by
  set window := min walBlockBytes (len - pos) with hwin
  set start := (file.drop pos).findIdx (· ≠ 0) with hstart
  have hfirst : (slice file pos window).findIdx (· ≠ 0) = min window start := by
    rw [slice, findIdx_take]
  by_cases hroom : start + walBlockFooterBytes ≤ window
  · have hleng : (slice file pos window).length = window := by
      apply slice_length
      simp only [walBlockFooterBytes] at hroom
      omega
    have hmin : min window start = start := by omega
    rw [displacedBlockFooterEnd, ← hwin, if_neg (by omega)]
    simp only [hfirst, hleng, hmin, lt_irrefl, if_false]
    rw [if_neg (by omega), slice_slice file hroom]
    cases decodeBlockFooter (slice file (pos + start) walBlockFooterBytes) with
    | none => simp
    | some footer =>
      simp only [Option.isNone_some, Bool.false_eq_true, if_false, Option.isSome_some, hroom,
        true_and]
      split
      · simp only [reduceCtorEq, false_iff]
        omega
      · rw [Option.some.injEq]
        omega
  · -- the footer would not end within the window
    have hnone : displacedBlockFooterEnd file pos len = none := by
      rw [displacedBlockFooterEnd, ← hwin]
      simp only [hfirst]
      have hle : (slice file pos window).length ≤ window := by
        exact length_take_le _ _
      split
      · rfl
      split
      · rfl
      rw [if_pos (by simp only [walBlockFooterBytes] at hroom ⊢; omega)]
    simp only [hnone, reduceCtorEq, hroom, false_and]

lemma displacedBlockFooterEnd_zeros {file : Bytes} {pos n : ℕ} (h : file.drop pos = zeros n)
    (len : ℕ) : displacedBlockFooterEnd file pos len = none := by
  have hslice (m : ℕ) : slice file pos m = zeros (min m n) := by rw [slice, h, take_zeros]
  simp only [displacedBlockFooterEnd, hslice, findIdx_zeros, zeros_length]
  split
  · rfl
  split
  · rfl
  rw [if_pos (by simp [walBlockFooterBytes])]

section Steps

variable {codec} {header file : Bytes} {cells : List (Cell β)} {reserve : ℕ}
  (hfile : file = pieceBytes codec header cells reserve)
include hfile

lemma slotDecodes_of_footerInSlot {index : ℕ}
    (h : (footerInSlot file header.length index).isSome) : SlotDecodes codec cells index := by
  subst hfile
  rw [footerInSlot] at h
  split at h
  · next hfit =>
    rw [pieceBytes_length] at hfit
    rw [pieceBytes, slice_append_right, slice_append_zeros] at h
    rw [SlotDecodes, slice_append_zeros]
    have hlen : (cellsBytes codec cells).length = cellsLen codec cells := rfl
    by_cases hpast : cellsLen codec cells < blockFooterAt index
    · -- the slot lies in the zeros behind the records
      have hnil : slice (cellsBytes codec cells) (blockFooterAt index) walBlockFooterBytes =
          [] := by
        rw [slice, drop_eq_nil_of_le (by omega), take_nil]
      rw [hnil, nil_append, decodeBlockFooter_zeros] at h
      simp at h
    · have hmin : min
          (walBlockFooterBytes - ((cellsBytes codec cells).length - blockFooterAt index))
          (reserve - (blockFooterAt index - (cellsBytes codec cells).length)) =
          min (walBlockFooterBytes - ((cellsBytes codec cells).length - blockFooterAt index))
          (walBlockFooterBytes - (blockFooterAt index - (cellsBytes codec cells).length)) := by
        omega
      rw [hmin] at h
      exact h
  · simp at h

lemma footerInSlot_of_onGrid {g : PlacedGap} (h : g ∈ gapsFrom codec 0 cells) (hgrid : g.OnGrid) :
    footerInSlot file header.length (blockOf g.start) = some g.gap.slot.footer := by
  obtain ⟨before, after, hbytes, hstart⟩ := cellsBytes_around_gap codec h
  have hbnds := bounds_of_mem_gapsFrom codec h
  have hslot : blockFooterAt (blockOf g.start) = (before ++ zeros g.gap.pad).length := by
    rw [PlacedGap.OnGrid, stop, walBlockBytes_eq] at hgrid
    rw [blockFooterAt_eq, length_append, zeros_length]
    simp only [walBlockFooterBytes] at hgrid
    omega
  have hfit : header.length + blockFooterAt (blockOf g.start) + walBlockFooterBytes ≤
      file.length := by
    rw [hfile, pieceBytes_length, hslot, length_append, zeros_length]
    rw [stop] at hbnds
    omega
  have hcells : cellsBytes codec cells ++ zeros reserve =
      (before ++ zeros g.gap.pad) ++ (g.gap.slot.bytes ++ (after ++ zeros reserve)) := by
    simp [hbytes, Gap.bytes]
  rw [footerInSlot, if_pos hfit, hfile, pieceBytes, slice_append_right, hcells, hslot,
    ← g.gap.slot.length_eq, slice_at_length, g.gap.slot.decode_eq]

lemma skip_outside_gaps (hleg : Legible codec cells) {pos : ℕ}
    (hout : ∀ g ∈ gapsFrom codec 0 cells, pos < g.start ∨ g.stop ≤ pos) :
    skipBlockFooterIfDue file (header.length + pos) header.length = header.length + pos := by
  refine skip_of_not_due fun hslot => ?_
  obtain ⟨g, hg, hgrid, hblk⟩ := hleg.slots _ (slotDecodes_of_footerInSlot hfile hslot)
  -- such a footer closes the reader's block, so the reader would stand inside its gap
  have hpos := hout g hg
  rw [PlacedGap.OnGrid, hblk] at hgrid
  simp only [stop, walBlockFooterBytes, walBlockBytes_eq, blockOf_eq,
    blockDataEnd_eq] at hgrid hpos ⊢
  omega

variable {g : PlacedGap}

section

variable (hg : g ∈ gapsFrom codec 0 cells)
include hg

/-- The zeros before a footer: no record is there, and a footer in the grid slot of the block is not
due yet. -/
lemma skip_at_padding (hleg : Legible codec cells)
    (hpad : 0 < g.gap.pad) : skipBlockFooterIfDue file (header.length + g.start) header.length =
      header.length + g.start := by
  refine skip_of_not_due fun hslot => ?_
  rcases hleg.gaps g hg with hgrid | hfind
  · rw [PlacedGap.OnGrid] at hgrid
    simp only [stop, walBlockFooterBytes, walBlockBytes_eq, blockOf_eq, blockDataEnd_eq] at hgrid ⊢
    omega
  · exact absurd (hleg.slots _ (slotDecodes_of_footerInSlot hfile hslot)) hfind.2.2

lemma skip_at_footer (hgrid : g.OnGrid) (hpad : g.gap.pad = 0) :
    skipBlockFooterIfDue file (header.length + g.start) header.length = header.length + g.stop := by
  have hslot := footerInSlot_of_onGrid hfile hg hgrid
  rw [PlacedGap.OnGrid] at hgrid
  rw [skipBlockFooterIfDue, if_neg (by omega), Nat.add_sub_cancel_left, if_neg, hslot,
    if_pos (by simp), hgrid]
  simp only [stop, walBlockFooterBytes, walBlockBytes_eq, blockOf_eq, blockDataEnd_eq] at hgrid ⊢
  omega

lemma zero_at_padding (hpad : 0 < g.gap.pad) : file[header.length + g.start]? = some 0 := by
  obtain ⟨before, after, hbytes, hstart⟩ := cellsBytes_around_gap codec hg
  obtain ⟨n, hn⟩ := Nat.exists_eq_add_of_lt hpad
  have hpadZeros : zeros g.gap.pad = 0 :: zeros n := by rw [hn, zero_add, zeros_succ]
  rw [hfile, pieceBytes, getElem?_append_right (by omega), Nat.add_sub_cancel_left, hbytes,
    append_assoc, getElem?_append_right (by omega), hstart, Nat.sub_self, Gap.bytes, hpadZeros]
  rfl

lemma readRawRecord_at_padding (hpad : 0 < g.gap.pad) :
    readRawRecord (file.drop (header.length + g.start)) = .ok none :=
  readRawRecord_of_zero (zero_at_padding hfile hg hpad)

lemma displacedBlockFooterEnd_of_findable {gaps : List PlacedGap}
    (hfind : g.Findable gaps) {len : ℕ}
    (hlow : header.length + cellsLen codec cells ≤ len) (hhigh : len ≤ file.length) :
    displacedBlockFooterEnd file (header.length + g.start) len = some (header.length + g.stop) := by
  obtain ⟨before, after, hbytes, hstart⟩ := cellsBytes_around_gap codec hg
  have hbnds := bounds_of_mem_gapsFrom codec hg
  obtain ⟨-, hblk, -⟩ := hfind
  rw [stop] at hbnds
  have hslot := g.gap.slot.length_eq
  obtain ⟨b, rest, hhead⟩ : ∃ b rest, g.gap.slot.bytes = b :: rest := by
    refine exists_cons_of_ne_nil fun hnil => ?_
    simp [hnil, walBlockFooterBytes] at hslot
  have hb : b ≠ 0 := by
    have := g.gap.slot.head_ne_zero
    simpa [hhead] using this
  have hdrop : file.drop (header.length + g.start) =
      zeros g.gap.pad ++ (g.gap.slot.bytes ++ (after ++ zeros reserve)) := by
    rw [hfile, pieceBytes, drop_length_add_append, hbytes, append_assoc, ← hstart, drop_left,
      Gap.bytes, append_assoc, append_assoc]
  have hfirst : (file.drop (header.length + g.start)).findIdx (· ≠ 0) = g.gap.pad := by
    rw [hdrop, hhead, cons_append, findIdx_zeros_append _ _ hb]
  have hfoot : slice file (header.length + g.start + g.gap.pad)
      walBlockFooterBytes = g.gap.slot.bytes := by
    rw [slice, ← drop_drop, hdrop, drop_left' (zeros_length _), take_left' hslot]
  rw [displacedBlockFooterEnd_eq_some hhigh, hfirst, hfoot, g.gap.slot.decode_eq, stop]
  exact ⟨by omega, rfl, by omega, by omega⟩

/-- At the padding of a gap the block reads as closed, and the walk goes on behind the gap. -/
lemma readStep_at_padding (hleg : Legible codec cells)
    (hpad : 0 < g.gap.pad) {len : ℕ} (hlow : header.length + cellsLen codec cells ≤ len)
    (hhigh : len ≤ file.length) : readStep file header.length len (header.length + g.start) =
      .ok (.closed (header.length + g.stop)) := by
  have hbnds := bounds_of_mem_gapsFrom codec hg
  have hclosed : blockIsClosed file (header.length + g.start)
      header.length len = some (header.length + g.stop) := by
    rw [blockIsClosed, if_neg (by omega), Nat.add_sub_cancel_left]
    by_cases hgrid : g.OnGrid
    · have hslot := footerInSlot_of_onGrid hfile hg hgrid
      have hstop : (blockOf g.start + 1) * walBlockBytes = g.stop := hgrid.symm
      have hfoot : blockFooterAt (blockOf g.start) + walBlockFooterBytes = g.stop := by
        rw [← hstop, blockFooterAt_eq, walBlockBytes_eq]
        simp only [walBlockFooterBytes]
        omega
      rw [if_pos ⟨by omega, by simp [hslot]⟩, if_neg (by omega), hstop]
    · have hfind := (hleg.gaps g hg).resolve_left hgrid
      rw [if_neg, displacedBlockFooterEnd_of_findable hfile hg hfind hlow hhigh]
      rintro ⟨-, hslot⟩
      exact hfind.2.2 (hleg.slots _ (slotDecodes_of_footerInSlot hfile hslot))
  rw [readStep, readRawRecord_at_padding hfile hg hpad]
  simp only [hclosed]

end

variable {before after : List (Cell β)}

lemma readStep_at_record {c : Cell β} (hcells : cells = before ++ c :: after) (len : ℕ) :
    readStep file header.length len (header.length + (cellsLen codec before + c.gapBytes.length)) =
      .ok (.record (frameOf codec c.record)) := by
  have hdrop : file.drop (header.length + (cellsLen codec before + c.gapBytes.length)) =
      frameOf codec c.record ++ (cellsBytes codec after ++ zeros reserve) := by
    have hsplit : cellsBytes codec cells ++ zeros reserve =
        (cellsBytes codec before ++ c.gapBytes) ++
        (frameOf codec c.record ++ (cellsBytes codec after ++ zeros reserve)) := by
      simp [hcells, cellsBytes_append, cellsBytes_cons, bytes]
    rw [hfile, pieceBytes, drop_length_add_append, hsplit, cellsLen, ← length_append, drop_left]
  rw [readStep, hdrop, readRawRecord_frameOf]

omit hfile in
lemma outside_gaps_at_record {c : Cell β} (hcells : cells = before ++ c :: after) :
    ∀ g ∈ gapsFrom codec 0 cells, cellsLen codec before + c.gapBytes.length < g.start ∨
      g.stop ≤ cellsLen codec before + c.gapBytes.length := by
  intro g hg
  have hfr := frameOf_length_pos codec c.record
  rw [hcells, gapsFrom_append, gapsFrom, mem_append, mem_append] at hg
  rcases hg with hg | hg | hg
  · have := bounds_of_mem_gapsFrom codec hg
    omega
  · simp only [mem_map, Option.mem_toList] at hg
    obtain ⟨gap, hgap, rfl⟩ := hg
    simp only [gapBytes, hgap, Option.elim_some, Gap.bytes_length, stop]
    omega
  · have := bounds_of_mem_gapsFrom codec hg
    rw [bytes_length] at this
    omega

omit hfile in
lemma outside_gaps_at_end : ∀ g ∈ gapsFrom codec 0 cells, cellsLen codec cells < g.start ∨
      g.stop ≤ cellsLen codec cells := by
  intro g hg
  have := bounds_of_mem_gapsFrom codec hg
  omega

lemma readStep_done (len : ℕ) (hslot : ¬(footerInSlot file header.length
      (blockOf (cellsLen codec cells))).isSome) :
    readStep file header.length len (header.length + cellsLen codec cells) = .ok .done := by
  have hdrop : file.drop (header.length + cellsLen codec cells) = zeros reserve := by
    rw [hfile, pieceBytes, drop_length_add_append, cellsLen, drop_left]
  have hnone : blockIsClosed file
      (header.length + cellsLen codec cells) header.length len = none := by
    rw [blockIsClosed, if_neg (by omega), Nat.add_sub_cancel_left, if_neg fun h => hslot h.2]
    exact displacedBlockFooterEnd_zeros hdrop _
  rw [readStep, hdrop, readRawRecord_zeros]
  simp only [hnone]

lemma readStep_at_end (hleg : Legible codec cells) :
    readStep file header.length file.length (header.length + cellsLen codec cells) = .ok .done := by
  refine readStep_done hfile _ fun hslot => ?_
  obtain ⟨g, hg, hgrid, hblk⟩ := hleg.slots _ (slotDecodes_of_footerInSlot hfile hslot)
  have hbnds := bounds_of_mem_gapsFrom codec hg
  rw [PlacedGap.OnGrid, hblk, walBlockBytes_eq, blockOf_eq] at hgrid
  omega

end Steps

/-- The way a walk takes through a piece: in `steps` steps it goes from one position to another and
reads the records in between. -/
inductive Path (file : Bytes) (headerLen len : ℕ) : ℕ → ℕ → List (ℕ × WalRecord β) → ℕ → Prop where
  | nil (pos : ℕ) : Path file headerLen len 0 pos [] pos
  | closed {steps pos next stop : ℕ} {records : List (ℕ × WalRecord β)}
      (hskip : skipBlockFooterIfDue file pos headerLen = pos) (hzero : file[pos]? = some 0)
      (hstep : readStep file headerLen len pos = .ok (.closed next))
      (hrest : Path file headerLen len steps next records stop) :
      Path file headerLen len (steps + 1) pos records stop
  | record {steps pos at' stop : ℕ} {record : WalRecord β} {records : List (ℕ × WalRecord β)}
      (hskip : skipBlockFooterIfDue file pos headerLen = at')
      (hstep : readStep file headerLen len at' = .ok (.record (frameOf codec record)))
      (hrest : Path file headerLen len steps (at' + (frameOf codec record).length) records stop) :
      Path file headerLen len (steps + 1) pos ((at', record) :: records) stop

lemma le_skipBlockFooterIfDue (file : Bytes) (pos headerLen : ℕ) :
    pos ≤ skipBlockFooterIfDue file pos headerLen := by
  simp only [skipBlockFooterIfDue]
  split_ifs
  · exact le_rfl
  · exact le_rfl
  · rw [blockOf_eq, walBlockBytes_eq]
    omega
  · exact le_rfl

variable {file : Bytes} {pos next : ℕ}

lemma lt_of_displacedBlockFooterEnd {len : ℕ}
    (h : displacedBlockFooterEnd file pos len = some next) : pos < next ∧ next < len := by
  simp only [displacedBlockFooterEnd] at h
  split_ifs at h with hwin hshort hslot hdec hend
  simp only [Option.some.injEq, walBlockFooterBytes] at h hend
  omega

variable {headerLen : ℕ}

lemma lt_of_blockIsClosed {len : ℕ} (h : blockIsClosed file pos headerLen len = some next) :
    pos < next ∧ next < len := by
  simp only [blockIsClosed] at h
  split_ifs at h with hpos hslot hend
  · simp only [Option.some.injEq, blockOf_eq, walBlockBytes_eq] at h hend
    omega
  · exact lt_of_displacedBlockFooterEnd h

lemma lt_of_readStep_closed {len : ℕ} (h : readStep file headerLen len pos = .ok (.closed next)) :
    pos < next ∧ next < len := by
  rw [readStep] at h
  split at h
  · simp at h
  · simp at h
  · split at h
    · next hclosed =>
      simp only [Except.ok.injEq, Step.closed.injEq] at h
      exact lt_of_blockIsClosed (h ▸ hclosed)
    · simp at h

variable {codec}

lemma Path.steps_le {len steps stop : ℕ} {records : List (ℕ × WalRecord β)}
    (h : Path codec file headerLen len steps pos records stop) : pos + steps ≤ stop := by
  induction h with
  | nil pos => omega
  | closed hskip _ hstep _ ih =>
    have := lt_of_readStep_closed hstep
    omega
  | @record _ pos _ _ record _ hskip hstep _ ih =>
    have hle := le_skipBlockFooterIfDue file pos headerLen
    have hfr := frameOf_length_pos codec record
    omega

section

variable {header : Bytes} {cells : List (Cell β)} {reserve len : ℕ}
  (hfile : file = pieceBytes codec header cells reserve)
include hfile

variable {before after : List (Cell β)} {records : List (ℕ × WalRecord β)}

/-- The walk through the cells from a given one on, from a position that steps to its record. -/
lemma path_to_record {c : Cell β} (hcells : cells = before ++ c :: after) {pos steps stop : ℕ}
    (hskip : skipBlockFooterIfDue file pos header.length =
      header.length + (cellsLen codec before + c.gapBytes.length))
    (hrest : Path codec file header.length len steps
      (header.length + cellsLen codec (before ++ [c])) records stop) :
    Path codec file header.length len (steps + 1) pos
      ((header.length + (cellsLen codec before + c.gapBytes.length), c.record) :: records)
        stop := by
  have hnext : header.length + cellsLen codec (before ++ [c]) = header.length +
      (cellsLen codec before + c.gapBytes.length) + (frameOf codec c.record).length := by
    rw [cellsLen_append, cellsLen_cons, bytes_length, cellsLen_nil]
    omega
  rw [hnext] at hrest
  exact .record hskip (readStep_at_record hfile hcells len) hrest

section

variable (hleg : Legible codec cells) (hlow : header.length + cellsLen codec cells ≤ len)
  (hhigh : len ≤ file.length)
include hleg hlow hhigh

lemma path_from_cell {c : Cell β} (hcells : cells = before ++ c :: after) {steps stop : ℕ}
    (hrest : Path codec file header.length len steps
      (header.length + cellsLen codec (before ++ [c])) records stop) :
    ∃ n, Path codec file header.length len n (header.length + cellsLen codec before)
      ((header.length + (cellsLen codec before + c.gapBytes.length), c.record) :: records)
        stop := by
  have hskip : skipBlockFooterIfDue file
      (header.length + (cellsLen codec before + c.gapBytes.length)) header.length =
      header.length + (cellsLen codec before + c.gapBytes.length) :=
    skip_outside_gaps hfile hleg (outside_gaps_at_record hcells)
  cases hgap : c.gap with
  | none =>
    have hnil : c.gapBytes.length = 0 := by simp [gapBytes, hgap]
    have hrec := path_to_record hfile hcells hskip hrest
    rw [hnil] at hrec ⊢
    exact ⟨_, hrec⟩
  | some gap =>
    let g : PlacedGap := ⟨cellsLen codec before, gap⟩
    have hmem : g ∈ gapsFrom codec 0 cells := by
      rw [hcells, gapsFrom_append, gapsFrom, hgap]
      simp [g]
    have hstop : g.stop = cellsLen codec before + c.gapBytes.length := by
      simp only [gapBytes, hgap, Option.elim_some, Gap.bytes_length, PlacedGap.stop, g]
      omega
    by_cases hpad : gap.pad = 0
    · -- the footer is stepped over together with the record behind it
      have hgrid : g.OnGrid := (hleg.gaps g hmem).resolve_right fun hfind => by
        have hpos : 0 < gap.pad := hfind.1
        omega
      have hover : skipBlockFooterIfDue file
          (header.length + cellsLen codec before) header.length = header.length + g.stop :=
        skip_at_footer hfile hmem hgrid hpad
      rw [hstop] at hover
      exact ⟨_, path_to_record hfile hcells hover hrest⟩
    · have hpos : 0 < gap.pad := pos_of_ne_zero hpad
      have hstep := readStep_at_padding hfile hmem hleg hpos hlow hhigh
      rw [hstop] at hstep
      exact ⟨_, .closed (skip_at_padding hfile hmem hleg hpos) (zero_at_padding hfile hmem hpos)
        hstep
        (path_to_record hfile hcells hskip hrest)⟩

lemma path_of_legible (before after : List (Cell β)) (hcells : cells = before ++ after) :
    ∃ n, Path codec file header.length len n (header.length + cellsLen codec before)
      (recordsFrom codec (header.length + cellsLen codec before) after)
      (header.length + cellsLen codec cells) := by
  induction after generalizing before with
  | nil =>
    rw [append_nil] at hcells
    subst hcells
    exact ⟨0, .nil _⟩
  | cons c after ih =>
    obtain ⟨n, hrest⟩ := ih (before ++ [c]) (by simp [hcells])
    obtain ⟨m, hpath⟩ := path_from_cell hfile hleg hlow hhigh hcells hrest
    refine ⟨m, ?_⟩
    rw [recordsFrom, add_assoc header.length, add_assoc header.length]
    convert hpath using 3
    rw [cellsLen_append, cellsLen_cons]
    simp

end

end

end TemporalStore.Wal
