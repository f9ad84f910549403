import TemporalStore.Wal.LogReclaim

namespace TemporalStore.Wal

open Lib LogFraming List Log Piece

variable {β ρ : Type} {cfg : WalConfig} {codec : WalCodec β ρ}

/-- The files of the store are those of the log: sealed pieces end with their last record, the
active piece may have zeros reserved behind it. -/
structure Stored (cfg : WalConfig) (codec : WalCodec β ρ) (s : WalStore) (l : Log β) : Prop where
  sealed : s.sealed = l.sealed.map fun p => ⟨p.base, p.bytes codec 0⟩
  present : s.active.isNone = l.active.isNone
  active : ∃ reserve, s.active.getD [] = l.current.bytes codec reserve ∧
    (cfg.preallocate = false → reserve = 0) ∧ (l.current.cells = [] → reserve = 0)

/-- What the store remembers is true, but for the last sequence, which appends set late. -/
structure Follows (cfg : WalConfig) (codec : WalCodec β ρ) (s : WalStore) (l : Log β) : Prop
    extends Stored cfg codec s l where
  verifiedLen : ∀ n, s.verifiedLen = some n →
    n = l.current.header.length + cellsLen codec l.current.cells
  base : ∀ b, s.base = some b → b = (l.current.base, l.current.header.length)
  blockMode : s.blockMode = l.blockMode
  blockLastRecord : s.blockLastRecord = l.lastRecord
  floor : s.blockRetentionFloor = l.floor

structure Represents (cfg : WalConfig) (codec : WalCodec β ρ) (s : WalStore) (l : Log β) : Prop
    extends Follows cfg codec s l where
  lastSequence : ∀ n, s.lastSequence = some n → n = l.lastSequence

lemma represents_empty : Represents cfg codec WalStore.empty (empty : Log β) where
  sealed := rfl
  present := rfl
  active := ⟨0, rfl, fun _ => rfl, fun _ => rfl⟩
  verifiedLen := by simp [WalStore.empty]
  base := by simp [WalStore.empty]
  blockMode := rfl
  blockLastRecord := rfl
  floor := rfl
  lastSequence := by simp [WalStore.empty]

lemma Piece.bytes_length (p : Piece β) (codec : WalCodec β ρ) (reserve : ℕ) :
    (p.bytes codec reserve).length = p.header.length + cellsLen codec p.cells + reserve :=
  pieceBytes_length codec p.header p.cells reserve

/-- A gap at the very start has padding: a footer there is neither on the grid nor findable. -/
lemma pad_pos_of_first {cells rest : List (Cell β)} (h : Legible codec cells) {c : Cell β}
    (hcells : cells = c :: rest) {g : Gap} (hgap : c.gap = some g) : 0 < g.pad := by
  have hmem : (⟨0, g⟩ : PlacedGap) ∈ gapsFrom codec 0 cells := by
    simp [hcells, gapsFrom, hgap]
  rcases h.gaps _ hmem with hgrid | hfind
  · simp only [PlacedGap.OnGrid, PlacedGap.stop, walBlockFooterBytes, blockOf_eq,
      walBlockBytes_eq] at hgrid
    omega
  · exact hfind.1

lemma head_cellsBytes_ne {cells : List (Cell β)} (h : Legible codec cells) (reserve : ℕ) :
    (cellsBytes codec cells ++ zeros reserve).head? ≠ some 35 := by
  cases cells with
  | nil =>
    cases reserve with
    | zero => simp
    | succ n => simp [zeros_succ]
  | cons c cells =>
    cases hgap : c.gap with
    | none =>
      have hhead : (cellsBytes codec (c :: cells) ++ zeros reserve).head? = some frameMagicV3 := by
        rw [cellsBytes_cons, Cell.bytes, Cell.gapBytes, hgap, frameOf]
        simp [encodeFrame]
      rw [hhead]
      decide
    | some g =>
      have hpad := pad_pos_of_first h rfl hgap
      obtain ⟨n, hn⟩ := Nat.exists_eq_add_of_lt hpad
      rw [cellsBytes_cons, Cell.bytes, Cell.gapBytes, hgap, Option.elim_some, Gap.bytes, hn]
      simp [zeros_succ]

lemma Piece.Sound.readWalBase {p : Piece β} (h : p.Sound codec) (reserve : ℕ) :
    readWalBase (some (p.bytes codec reserve)) = .ok (p.base, p.header.length) := by
  cases hheaded : p.headed with
  | true =>
    rw [bytes, header, hheaded]
    exact readWalBase_headed p.base _
  | false =>
    rw [bytes, header, hheaded, h.headerless hheaded]
    exact readWalBase_headerless (head_cellsBytes_ne h.legible reserve)

lemma Piece.Sound.lastWalSequenceIn {p : Piece β} (h : p.Sound codec) (hord : Ordered p.cells)
    (readAhead : ℕ → ℕ) (reserve : ℕ) :
    lastWalSequenceIn codec readAhead (some (p.bytes codec reserve)) =
      .ok (lastSequenceOf p.cells, p.header.length + cellsLen codec p.cells) :=
  lastWalSequenceIn_piece rfl readAhead h.legible hord (h.readWalBase reserve)

lemma Piece.Sound.firstWalSequenceIn {p : Piece β} (h : p.Sound codec) {reserve : ℕ}
    (hres : p.cells = [] → reserve = 0) : firstWalSequenceIn codec (some (p.bytes codec reserve)) =
      .ok (firstSequenceOf p.cells) := by
  have hlen := p.bytes_length codec reserve
  simp only [Wal.firstWalSequenceIn, h.readWalBase reserve, ok_bind]
  cases hcells : p.cells with
  | nil =>
    have hzero := hres hcells
    rw [hcells, cellsLen_nil] at hlen
    rw [if_pos (by omega)]
    rfl
  | cons c cells =>
    have hfr := frameOf_length_pos codec c.record
    rw [hcells, cellsLen_cons, Cell.bytes_length] at hlen
    have hskip : skipBlockFooterIfDue (p.bytes codec reserve) p.header.length p.header.length =
        p.header.length := by
      rw [skipBlockFooterIfDue, if_neg (by omega), Nat.sub_self, if_pos (by decide)]
    rw [if_neg (by omega), hskip, if_neg (by omega)]
    have hdrop : (p.bytes codec reserve).drop p.header.length =
        c.gapBytes ++ (frameOf codec c.record ++ (cellsBytes codec cells ++ zeros reserve)) := by
      rw [bytes, pieceBytes, drop_left, hcells, cellsBytes_cons, Cell.bytes,
        append_assoc, append_assoc]
    rw [hdrop, firstSequenceOf]
    cases hgap : c.gap with
    | none =>
      rw [Cell.gapBytes, hgap, Option.elim_none, nil_append, readRawRecord_frameOf]
      simp only [frameOf_not_blank, decodeWalLine_frameOf]
      rfl
    | some g =>
      have hpad := pad_pos_of_first h.legible hcells hgap
      obtain ⟨n, hn⟩ := Nat.exists_eq_add_of_lt hpad
      rw [Cell.gapBytes, hgap, Option.elim_some, Gap.bytes, hn, zeros_succ,
        cons_append, cons_append]
      rfl

namespace Stored

variable {s : WalStore} {l : Log β}

section

variable (h : Stored cfg codec s l)
include h

lemma active_cases : (s.active = none ∧ l.active = none) ∨
    ∃ reserve, s.active = some (l.current.bytes codec reserve) ∧ l.active = some l.current ∧
      (cfg.preallocate = false → reserve = 0) ∧ (l.current.cells = [] → reserve = 0) := by
  have hpres := h.present
  obtain ⟨reserve, hbytes, hres⟩ := h.active
  cases hs : s.active with
  | none =>
    rw [hs, Option.isNone_none, eq_comm, Option.isNone_iff_eq_none] at hpres
    exact Or.inl ⟨rfl, hpres⟩
  | some file =>
    cases hl : l.active with
    | none => simp [hs, hl] at hpres
    | some p =>
      rw [hs, Option.getD_some] at hbytes
      exact Or.inr ⟨reserve, by rw [hbytes], by simp [current, hl], hres⟩

lemma readWalBase_active (hwf : l.WF codec) :
    readWalBase s.active = .ok (l.current.base, l.current.header.length) := by
  rcases h.active_cases with ⟨hs, hl⟩ | ⟨reserve, hs, -⟩
  · rw [hs, current, hl]
    rfl
  · rw [hs]
    exact hwf.sound_current.readWalBase reserve

lemma lastWalSequenceIn_active (hwf : l.WF codec) :
    lastWalSequenceIn codec cfg.readAhead s.active = .ok (lastSequenceOf l.current.cells,
      l.current.header.length + cellsLen codec l.current.cells) := by
  rcases h.active_cases with ⟨hs, hl⟩ | ⟨reserve, hs, -⟩
  · rw [hs, current, hl]
    rfl
  · rw [hs]
    exact hwf.sound_current.lastWalSequenceIn (hwf.ordered_piece l.current_mem_pieces)
      cfg.readAhead reserve

lemma firstWalSequenceIn_active (hwf : l.WF codec) :
    firstWalSequenceIn codec s.active = .ok (firstSequenceOf l.current.cells) := by
  rcases h.active_cases with ⟨hs, hl⟩ | ⟨reserve, hs, -, -, hres⟩
  · rw [hs, current, hl]
    rfl
  · rw [hs]
    exact hwf.sound_current.firstWalSequenceIn hres

lemma fileLen_active : 0 < fileLen s.active ↔ ¬l.current.IsBlank := by
  obtain ⟨reserve, hbytes, -, hres⟩ := h.active
  rw [fileLen, hbytes, bytes_length, Piece.IsBlank]
  cases hheaded : l.current.headed with
  | true =>
    have hhdr : 0 < l.current.header.length := by
      rw [header, hheaded]
      exact encodeBaseHeader_length_pos _
    simp only [Bool.true_eq_false, false_and, not_false_eq_true, iff_true]
    omega
  | false =>
    have hhdr : l.current.header.length = 0 := by rw [header, hheaded]; rfl
    cases hcells : l.current.cells with
    | nil => simp [hhdr, hres hcells]
    | cons c cells =>
      have hfr := frameOf_length_pos codec c.record
      simp only [cellsLen_cons, Cell.bytes_length, reduceCtorEq, and_false, not_false_eq_true,
        iff_true]
      omega

end

lemma lastSequenceOf_append_of_ne_nil {before after : List (Cell β)} (h : after ≠ []) :
    lastSequenceOf (before ++ after) = lastSequenceOf after := by
  obtain ⟨c, rest, rfl⟩ := exists_cons_of_ne_nil h
  rw [lastSequenceOf_append_cons]
  exact (lastSequenceOf_append_cons [] c rest).symm

lemma lastSequenceOf_pos {cells : List (Cell β)} (h : cells ≠ [])
    (hpos : ∀ c ∈ cells, 0 < c.record.sequence) : 0 < lastSequenceOf cells := by
  obtain ⟨c, hc, hlast⟩ := lastSequenceOf_mem h
  rw [← hlast]
  exact hpos c hc

lemma lastSequenceOfPieces_eq (ps : List (Piece β)) (hsound : ∀ p ∈ ps, p.Sound codec)
    (hord : ∀ p ∈ ps, Ordered p.cells) (hfilled : ∀ p ∈ ps, p.cells ≠ [])
    (hpos : ∀ p ∈ ps, ∀ c ∈ p.cells, 0 < c.record.sequence) :
    lastSequenceOfPieces cfg codec (ps.map fun p => ⟨p.base, p.bytes codec 0⟩) =
      .ok (lastSequenceOf (ps.reverse.flatMap Piece.cells)) := by
  cases ps with
  | nil => rfl
  | cons p ps =>
    have hp : p ∈ p :: ps := mem_cons_self
    have hlast := lastSequenceOf_pos (hfilled p hp) (hpos p hp)
    rw [map_cons, lastSequenceOfPieces, (hsound p hp).lastWalSequenceIn (hord p hp), ok_bind]
    simp only [if_pos hlast, reverse_cons, flatMap_append, flatMap_cons, flatMap_nil, append_nil]
    rw [lastSequenceOf_append_of_ne_nil (hfilled p hp)]
    rfl

lemma lastWalSequenceAt_eq (h : Stored cfg codec s l) (hwf : l.WF codec) :
    lastWalSequenceAt cfg codec s =
      .ok (l.lastSequence, l.current.header.length + cellsLen codec l.current.cells) := by
  have hcells := cells_eq l
  rw [lastWalSequenceAt, h.lastWalSequenceIn_active hwf, ok_bind]
  dsimp only
  by_cases hnil : l.current.cells = []
  · have hzero : lastSequenceOf l.current.cells = 0 := by rw [hnil]; rfl
    rw [hnil, append_nil] at hcells
    rw [if_neg (by omega), h.sealed, ← map_reverse, lastSequenceOfPieces_eq,
      reverse_reverse, ← hcells]
    · rfl
    all_goals intro p hp; rw [mem_reverse] at hp
    · exact hwf.sound p (mem_pieces_of_sealed hp)
    · exact hwf.ordered_piece (mem_pieces_of_sealed hp)
    · exact hwf.filled p hp
    · exact fun c hc => hwf.positive c (mem_cells (mem_pieces_of_sealed hp) hc)
  · have hpos : 0 < lastSequenceOf l.current.cells := by
      apply lastSequenceOf_pos hnil
      intro c hc
      exact hwf.positive c (mem_cells l.current_mem_pieces hc)
    rw [if_pos hpos, lastSequence, hcells, lastSequenceOf_append_of_ne_nil hnil]
    rfl

lemma foldlM_logIdAfterSealed (ps : List (Piece β)) (hsound : ∀ p ∈ ps, p.Sound codec) (last : ℕ) :
    (ps.map fun p => (⟨p.base, p.bytes codec 0⟩ : SealedPiece)).foldlM (fun last piece => do
      let (base, headerLen) ← readWalBase (some piece.bytes)
      return max last (base + (piece.bytes.length - headerLen))) last =
      (.ok (ps.foldl (fun m p => max m (p.stop codec)) last) : Except WalError ℕ) := by
  induction ps generalizing last with
  | nil => rfl
  | cons p ps ih =>
    have hlen := p.bytes_length codec 0
    simp only [map_cons, foldlM_cons, (hsound p mem_cons_self).readWalBase 0,
      ok_bind, pure_eq_ok, foldl_cons]
    rw [show p.base + ((p.bytes codec 0).length - p.header.length) = p.stop codec by
      rw [stop]; omega]
    exact ih (fun q hq => hsound q (mem_cons_of_mem p hq)) _

lemma logIdAfterSealed_eq (h : Stored cfg codec s l) (hwf : l.WF codec) :
    logIdAfterSealed s = .ok (l.sealedStop codec) := by
  rw [logIdAfterSealed, h.sealed]
  exact foldlM_logIdAfterSealed l.sealed (fun p hp => hwf.sound p (mem_pieces_of_sealed hp)) 0

end Stored

lemma lastWrittenFooterFrom_isSome {file : Bytes} {headerLen index last : ℕ}
    (hle : index ≤ last) (h : (footerInSlot file headerLen index).isSome) :
    (lastWrittenFooterFrom file headerLen last).isSome := by
  induction last with
  | zero =>
    obtain rfl : index = 0 := by omega
    simpa [lastWrittenFooterFrom] using h
  | succ last ih =>
    rw [lastWrittenFooterFrom]
    cases hslot : footerInSlot file headerLen (last + 1) with
    | some footer => rfl
    | none =>
      rcases Nat.lt_or_eq_of_le hle with hlt | rfl
      · exact ih (by omega)
      · simp [hslot] at h

lemma lastWrittenFooter_isSome {file : Bytes} {headerLen : ℕ} {gaps : List PlacedGap}
    (hslots : ∀ index, (footerInSlot file headerLen index).isSome →
      ∃ g ∈ gaps, g.OnGrid ∧ blockOf g.start = index)
    (hgaps : ∀ g ∈ gaps, headerLen + g.stop ≤ file.length ∧
      (g.OnGrid → (footerInSlot file headerLen (blockOf g.start)).isSome)) :
    (lastWrittenFooter file headerLen).isSome = gaps.any fun g => decide g.OnGrid := by
  rw [Bool.eq_iff_iff, any_eq_true]
  constructor
  · intro hsome
    obtain ⟨⟨index, footer⟩, hfoot⟩ := Option.isSome_iff_exists.mp hsome
    obtain ⟨g, hg, hgrid, -⟩ := hslots index (by rw [lastWrittenFooter_eq_some hfoot]; rfl)
    exact ⟨g, hg, by simpa using hgrid⟩
  · rintro ⟨g, hg, hgrid⟩
    obtain ⟨hstop, hslot⟩ := hgaps g hg
    rw [PlacedGap.stop, walBlockFooterBytes] at hstop
    rw [lastWrittenFooter, if_neg (by omega)]
    refine lastWrittenFooterFrom_isSome ?_ (hslot (by simpa using hgrid))
    apply Nat.div_le_div_right
    omega

lemma Piece.Sound.lastWrittenFooter_isSome {p : Piece β} (h : p.Sound codec) (reserve : ℕ) :
    (lastWrittenFooter (p.bytes codec reserve) p.header.length).isSome =
      (p.gaps codec).any fun g => decide g.OnGrid := by
  refine Wal.lastWrittenFooter_isSome
    (fun index hslot => h.legible.slots index (slotDecodes_of_footerInSlot rfl hslot))
    fun g hg => ⟨?_, fun hgrid => ?_⟩
  · have hlen := p.bytes_length codec reserve
    have hbnds := bounds_of_mem_gapsFrom codec hg
    omega
  · rw [bytes, footerInSlot_of_onGrid rfl hg hgrid]
    rfl

end TemporalStore.Wal
