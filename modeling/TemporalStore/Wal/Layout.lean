import TemporalStore.Wal.Walk

namespace TemporalStore.Wal

open Lib LogFraming List

variable {β ρ : Type}

/-- The end of a closed block: padding up to the footer, and the footer. -/
structure Gap where
  pad : ℕ
  slot : FooterSlot

def Gap.bytes (g : Gap) : Bytes := zeros g.pad ++ g.slot.bytes

/-- A record and the gap it was written behind, if its append closed a block. -/
structure Cell (β : Type) where
  gap : Option Gap
  record : WalRecord β

def Cell.gapBytes (c : Cell β) : Bytes := c.gap.elim [] Gap.bytes

variable (codec : WalCodec β ρ)

def Cell.bytes (c : Cell β) : Bytes := c.gapBytes ++ frameOf codec c.record

def cellsBytes (cells : List (Cell β)) : Bytes := cells.flatMap (Cell.bytes codec)

def cellsLen (cells : List (Cell β)) : ℕ := (cellsBytes codec cells).length

/-- A gap and where it starts, relative to the end of the base header. -/
structure PlacedGap where
  start : ℕ
  gap : Gap

def PlacedGap.stop (g : PlacedGap) : ℕ := g.start + g.gap.pad + walBlockFooterBytes

/-- The footer lies in the slot of the block its padding starts in. -/
def PlacedGap.OnGrid (g : PlacedGap) : Prop := g.stop = (blockOf g.start + 1) * walBlockBytes

instance (g : PlacedGap) : Decidable g.OnGrid := inferInstanceAs (Decidable (_ = _))

/-- The gaps of the cells, the first of which starts at `pos`. -/
def gapsFrom : ℕ → List (Cell β) → List PlacedGap
  | _, [] => []
  | pos, c :: cells =>
    (c.gap.toList.map fun g => ⟨pos, g⟩) ++ gapsFrom (pos + (c.bytes codec).length) cells

def recordsFrom : ℕ → List (Cell β) → List (ℕ × WalRecord β)
  | _, [] => []
  | pos, c :: cells =>
    (pos + c.gapBytes.length, c.record) :: recordsFrom (pos + (c.bytes codec).length) cells

/-- The slot of block `index` reads as a footer, with zeros behind the cells. -/
def SlotDecodes (cells : List (Cell β)) (index : ℕ) : Prop :=
  (decodeBlockFooter (slice (cellsBytes codec cells ++ zeros walBlockFooterBytes)
    (blockFooterAt index) walBlockFooterBytes)).isSome

/-- Some gap among `gaps` closes block `index` on the grid. -/
def ClosesBlock (gaps : List PlacedGap) (index : ℕ) : Prop :=
  ∃ g ∈ gaps, g.OnGrid ∧ blockOf g.start = index

/-- A footer off the grid that readers find: there is padding before it, at most a block of it, and
the block the padding starts in is not closed on the grid. -/
def PlacedGap.Findable (gaps : List PlacedGap) (g : PlacedGap) : Prop :=
  0 < g.gap.pad ∧ g.gap.pad + walBlockFooterBytes ≤ walBlockBytes ∧
    ¬ClosesBlock gaps (blockOf g.start)

structure Legible (cells : List (Cell β)) : Prop where
  slots : ∀ index, SlotDecodes codec cells index → ClosesBlock (gapsFrom codec 0 cells) index
  gaps : ∀ g ∈ gapsFrom codec 0 cells, g.OnGrid ∨ g.Findable (gapsFrom codec 0 cells)

section

variable (record : WalRecord β)

lemma frameOf_length_pos : 0 < (frameOf codec record).length :=
  encodeFrame_length_pos _

lemma encode_length_lt_u64 : (codec.encode record).length < 2 ^ 64 :=
  lt_trans (codec.encode_length_lt record) (by decide)

lemma readRawRecord_frameOf (rest : Bytes) :
    readRawRecord (frameOf codec record ++ rest) = .ok (some (frameOf codec record)) :=
  readRawRecord_encodeFrame rest (encode_length_lt_u64 codec record)

lemma decodeWalLine_frameOf :
    decodeWalLine codec (frameOf codec record) = .ok (codec.read record) := by
  obtain ⟨marker, hmarker, hhead⟩ := codec.encode_marked record
  simp only [decodeWalLine, frameOf,
    decodeLine_encodeFrame codec.sha256DigestHex (encode_length_lt_u64 codec record), hhead,
    if_pos hmarker, codec.decodeProto_encode record]
  rfl

lemma recordBody_frameOf : recordBody (frameOf codec record) = frameOf codec record :=
  if_pos (head_encodeFrame _)

lemma frameOf_not_blank : ¬(frameOf codec record).all isAsciiWhitespace = true := by
  simp [frameOf, encodeFrame, isAsciiWhitespace, frameMagicV3]

end

@[simp] lemma cellsBytes_nil : cellsBytes codec [] = [] := rfl

lemma cellsBytes_cons (c : Cell β) (cells : List (Cell β)) :
    cellsBytes codec (c :: cells) = c.bytes codec ++ cellsBytes codec cells := rfl

lemma cellsBytes_append (a b : List (Cell β)) :
    cellsBytes codec (a ++ b) = cellsBytes codec a ++ cellsBytes codec b := by
  simp [cellsBytes]

@[simp] lemma cellsLen_nil : cellsLen codec [] = 0 := rfl

lemma cellsLen_cons (c : Cell β) (cells : List (Cell β)) :
    cellsLen codec (c :: cells) = (c.bytes codec).length + cellsLen codec cells := by
  simp [cellsLen, cellsBytes_cons]

lemma cellsLen_append (a b : List (Cell β)) :
    cellsLen codec (a ++ b) = cellsLen codec a + cellsLen codec b := by
  simp [cellsLen, cellsBytes_append]

lemma Cell.bytes_length (c : Cell β) :
    (c.bytes codec).length = c.gapBytes.length + (frameOf codec c.record).length := by
  simp [Cell.bytes]

lemma cellsLen_eq_zero {cells : List (Cell β)} : cellsLen codec cells = 0 ↔ cells = [] := by
  cases cells with
  | nil => simp
  | cons c cells =>
    have hfr := frameOf_length_pos codec c.record
    simp only [cellsLen_cons, Cell.bytes_length, reduceCtorEq, iff_false]
    omega

lemma Gap.bytes_length (g : Gap) : g.bytes.length = g.pad + walBlockFooterBytes := by
  simp [Gap.bytes, g.slot.length_eq]

lemma gapsFrom_append (pos : ℕ) (a b : List (Cell β)) : gapsFrom codec pos (a ++ b) =
      gapsFrom codec pos a ++ gapsFrom codec (pos + cellsLen codec a) b := by
  induction a generalizing pos with
  | nil => simp [gapsFrom]
  | cons c a ih =>
    rw [cons_append, gapsFrom, ih, gapsFrom, append_assoc, cellsLen_cons, Nat.add_assoc]

lemma recordsFrom_append (pos : ℕ) (a b : List (Cell β)) : recordsFrom codec pos (a ++ b) =
      recordsFrom codec pos a ++ recordsFrom codec (pos + cellsLen codec a) b := by
  induction a generalizing pos with
  | nil => simp [recordsFrom]
  | cons c a ih =>
    rw [cons_append, recordsFrom, ih, recordsFrom, cons_append, cellsLen_cons, Nat.add_assoc]

lemma recordsFrom_map_snd (pos : ℕ) (cells : List (Cell β)) :
    (recordsFrom codec pos cells).map Prod.snd = cells.map Cell.record := by
  induction cells generalizing pos with
  | nil => rfl
  | cons c cells ih => simp [recordsFrom, ih]

variable {pos : ℕ} {cells : List (Cell β)}

lemma exists_cell_of_mem_gapsFrom {g : PlacedGap} (h : g ∈ gapsFrom codec pos cells) :
    ∃ before c after, cells = before ++ c :: after ∧ c.gap = some g.gap ∧
      g.start = pos + cellsLen codec before := by
  induction cells generalizing pos with
  | nil => simp [gapsFrom] at h
  | cons c cells ih =>
    rw [gapsFrom, mem_append] at h
    rcases h with h | h
    · simp only [mem_map, Option.mem_toList] at h
      obtain ⟨gap, hgap, rfl⟩ := h
      exact ⟨[], c, cells, rfl, hgap, by simp⟩
    · obtain ⟨before, d, after, rfl, hgap, hstart⟩ := ih h
      exact ⟨c :: before, d, after, rfl, hgap, by rw [cellsLen_cons]; omega⟩

lemma bounds_of_mem_gapsFrom {g : PlacedGap} (h : g ∈ gapsFrom codec pos cells) :
    pos ≤ g.start ∧ g.stop < pos + cellsLen codec cells := by
  obtain ⟨before, c, after, rfl, hgap, hstart⟩ := exists_cell_of_mem_gapsFrom codec h
  have hfr := frameOf_length_pos codec c.record
  have hgapLen : c.gapBytes.length = g.gap.pad + walBlockFooterBytes := by
    simp [Cell.gapBytes, hgap, Gap.bytes_length]
  rw [cellsLen_append, cellsLen_cons, Cell.bytes_length, PlacedGap.stop]
  omega

variable {r : ℕ × WalRecord β}

lemma exists_cell_of_mem_recordsFrom (h : r ∈ recordsFrom codec pos cells) :
    ∃ before c after, cells = before ++ c :: after ∧ c.record = r.2 ∧
      r.1 = pos + cellsLen codec before + c.gapBytes.length := by
  induction cells generalizing pos with
  | nil => simp [recordsFrom] at h
  | cons c cells ih =>
    rw [recordsFrom, mem_cons] at h
    rcases h with rfl | h
    · exact ⟨[], c, cells, rfl, rfl, by simp⟩
    · obtain ⟨before, d, after, rfl, hrec, hpos⟩ := ih h
      refine ⟨c :: before, d, after, rfl, hrec, ?_⟩
      rw [cellsLen_cons]
      omega

lemma bounds_of_mem_recordsFrom (h : r ∈ recordsFrom codec pos cells) :
    pos ≤ r.1 ∧ r.1 < pos + cellsLen codec cells := by
  obtain ⟨before, c, after, rfl, -, hpos⟩ := exists_cell_of_mem_recordsFrom codec h
  have hfr := frameOf_length_pos codec c.record
  rw [cellsLen_append, cellsLen_cons, Cell.bytes_length]
  omega

end TemporalStore.Wal
