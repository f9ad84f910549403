import Mathlib.Algebra.Order.Ring.Int
import TemporalStore.Lib.Series
import TemporalStore.Lib.Word

/-! # The rollup ladder of a counter (`engine/control_rollup.rs`) -/

namespace TemporalStore.Shard

open Lib List Series

abbrev CounterSeries := Series ℕ ℤ

/-- The levels of the ladder, finest first. -/
inductive Level where
  | second
  | minute
  | hour
  | day
  deriving DecidableEq

def levelWidth : Level → ℕ
  | .second => 1000
  | .minute => 60000
  | .hour => 3600000
  | .day => 86400000

def levels : List Level := [.second, .minute, .hour, .day]

/-- The cells by level and start. A cell that is not there counts as zero wherever it is read. -/
abbrev Cells := Level × ℕ → ℤ

structure RollupEntry where
  cells : Cells
  builtLen : ℕ

def bucketStart (ts width : ℕ) : ℕ := ts - ts % width

variable (cells : Cells) (series : CounterSeries)

def foldCells (bucket : ℕ) (amount : ℤ) : Cells :=
  levels.foldl (fun cells level =>
    Function.update cells (level, bucketStart bucket (levelWidth level))
      (cells (level, bucketStart bucket (levelWidth level)) + amount)) cells

def build : Cells :=
  series.foldl (fun cells point => foldCells cells point.1 point.2) fun _ => 0

def coarsestFit (cursor hi : ℕ) : Level × ℕ :=
  levels.foldl (fun chosen level =>
    if cursor % levelWidth level = 0 ∧ cursor + levelWidth level ≤ hi then
      (level, levelWidth level)
    else chosen) (.second, levelWidth .second)

def tilingSteps (midLo midHi : ℕ) : ℕ := (midHi - midLo) / levelWidth .day + 2 * (59 + 59 + 23)

/-- The loop over the middle of a window. Every cell is at least a second wide, which bounds the
number of its steps. -/
def tile (cells : Cells) (midHi : ℕ) : ℕ → ℕ → ℤ
  | 0, _ => 0
  | fuel + 1, cursor =>
    if cursor < midHi then
      cells ((coarsestFit cursor midHi).1, cursor) +
        tile cells midHi fuel (cursor + (coarsestFit cursor midHi).2)
    else 0

/-- The sum of the points with `start ≤ t ≤ stop`, by a scan. -/
def scanSum (start stop : ℕ) : ℤ :=
  series.sumOver fun t => decide (start ≤ t ∧ t ≤ stop)

/-- The sum of the points with `start ≤ t < stop`. -/
def edgeSum (start stop : ℕ) : ℤ :=
  series.sumOver fun t => decide (start ≤ t ∧ t < stop)

def rangeSum (start stop : ℕ) : ℤ :=
  if stop < start then 0
  else match series.head?, series.getLast? with
    | some first, some last =>
      if last.1 < start ∨ stop < first.1 then 0
      else
        let start := max start first.1
        let stop := min stop last.1
        let midLo := (start + (levelWidth .second - 1)) / levelWidth .second * levelWidth .second
        let midHi := saturatingSucc stop / levelWidth .second * levelWidth .second
        if midHi ≤ midLo ∨ series.length < tilingSteps midLo midHi then scanSum series start stop
        else
          edgeSum series start midLo + (if midHi ≤ stop then scanSum series midHi stop else 0) +
            tile cells midHi ((midHi - midLo) / levelWidth .second) midLo
    | _, _ => 0

lemma foldCells_apply (bucket : ℕ) (amount : ℤ) (key : Level × ℕ) :
    foldCells cells bucket amount key =
      cells key + if bucketStart bucket (levelWidth key.1) = key.2 then amount else 0 := by
  obtain ⟨level, start⟩ := key
  cases level <;> simp [foldCells, levels, Function.update_apply, eq_comm] <;> split <;> simp_all

/-- The points whose bucket of a level is this one. -/
def cellSum (key : Level × ℕ) : ℤ :=
  series.sumOver fun t => decide (bucketStart t (levelWidth key.1) = key.2)

lemma foldl_foldCells (key : Level × ℕ) :
    series.foldl (fun cells point => foldCells cells point.1 point.2) cells key =
      cells key + cellSum series key := by
  induction series generalizing cells with
  | nil => simp [cellSum]
  | cons point series ih =>
    rw [foldl_cons, ih, foldCells_apply]
    simp only [cellSum, sumOver_cons, decide_eq_true_eq]
    rw [add_assoc]

lemma build_apply (key : Level × ℕ) : build series key = cellSum series key := by
  unfold build
  rw [foldl_foldCells, zero_add]

variable {start : ℕ}

lemma bucketStart_eq_iff {t width : ℕ} (hwidth : 0 < width) (hstart : start % width = 0) :
    bucketStart t width = start ↔ start ≤ t ∧ t < start + width := by
  have ht := Nat.mod_add_div t width
  have hs := Nat.mod_add_div start width
  have hlt := Nat.mod_lt t hwidth
  unfold bucketStart
  rw [hstart, zero_add] at hs
  constructor
  · omega
  · rintro ⟨hle, hgt⟩
    -- both are in the bucket with this quotient
    have hdiv : t / width = start / width := by
      apply Nat.div_eq_of_lt_le
      · rw [mul_comm, hs]
        exact hle
      · rw [Nat.add_mul, mul_comm, hs, one_mul]
        exact hgt
    rw [hdiv] at ht
    omega

lemma levelWidth_pos (level : Level) : 0 < levelWidth level := by
  cases level <;> decide

lemma cellSum_eq_edgeSum {level : Level} (hstart : start % levelWidth level = 0) :
    cellSum series (level, start) = edgeSum series start (start + levelWidth level) := by
  apply sumOver_congr
  intro x _
  simp only [bucketStart_eq_iff (levelWidth_pos level) hstart]

lemma edgeSum_add {mid stop : ℕ} (h : start ≤ mid) (h' : mid ≤ stop) :
    edgeSum series start stop = edgeSum series start mid + edgeSum series mid stop := by
  apply sumOver_split
  · intro t
    rw [← Bool.decide_or, decide_eq_decide]
    omega
  · intro t
    rw [← Bool.decide_and, decide_eq_false_iff_not]
    omega

lemma scanSum_eq_edgeSum (start stop : ℕ) :
    scanSum series start stop = edgeSum series start (stop + 1) := by
  apply sumOver_congr
  intro x _
  simp only [Nat.lt_succ_iff]

/-- A level whose cell at the cursor is on its grid and inside the window. -/
def Fits (cursor hi : ℕ) (chosen : Level × ℕ) : Prop :=
  chosen.2 = levelWidth chosen.1 ∧ cursor % levelWidth chosen.1 = 0 ∧
    cursor + levelWidth chosen.1 ≤ hi

lemma fits_foldl {cursor hi : ℕ} (candidates : List Level) {chosen : Level × ℕ}
    (h : Fits cursor hi chosen) : Fits cursor hi (candidates.foldl (fun chosen level =>
      if cursor % levelWidth level = 0 ∧ cursor + levelWidth level ≤ hi then
        (level, levelWidth level)
      else chosen) chosen) := by
  induction candidates generalizing chosen with
  | nil => exact h
  | cons level candidates ih =>
    apply ih
    dsimp only
    split
    case isTrue hfits => exact ⟨rfl, hfits⟩
    case isFalse => exact h

lemma coarsestFit_fits {cursor hi : ℕ} (hcur : cursor % 1000 = 0) (hhi : hi % 1000 = 0)
    (hlt : cursor < hi) : Fits cursor hi (coarsestFit cursor hi) := by
  apply fits_foldl
  refine ⟨rfl, hcur, ?_⟩
  change cursor + 1000 ≤ hi
  omega

lemma levelWidth_mod (level : Level) : levelWidth level % 1000 = 0 := by
  cases level <;> decide

/-- The cells from `origin` on hold the sums of the series. -/
def CoversFrom (origin : ℕ) : Prop :=
  ∀ level start, origin ≤ start → start % levelWidth level = 0 →
    cells (level, start) = edgeSum series start (start + levelWidth level)

variable {cells series}

lemma tile_eq {origin midHi : ℕ} (h : CoversFrom cells series origin) (hhi : midHi % 1000 = 0)
    (fuel : ℕ) : ∀ cursor, origin ≤ cursor → cursor % 1000 = 0 → cursor ≤ midHi →
      midHi - cursor ≤ fuel * 1000 →
      tile cells midHi fuel cursor = edgeSum series cursor midHi := by
  induction fuel with
  | zero =>
    intro cursor _ _ hle hfuel
    obtain rfl : cursor = midHi := by omega
    exact (sumOver_eq_zero fun x _ => by simp).symm
  | succ fuel ih =>
    intro cursor horigin hcur hle hfuel
    unfold tile
    split
    case isTrue hlt =>
      obtain ⟨hwidth, hgrid, hins⟩ := coarsestFit_fits hcur hhi hlt
      have hpos := levelWidth_pos (coarsestFit cursor midHi).1
      have hmod := levelWidth_mod (coarsestFit cursor midHi).1
      rw [hwidth, h _ cursor horigin hgrid]
      rw [ih _ (by omega) (by omega) hins (by omega)]
      exact (edgeSum_add series (by omega) hins).symm
    case isFalse hge =>
      obtain rfl : cursor = midHi := by omega
      exact (sumOver_eq_zero fun x _ => by simp).symm

lemma edges_add_tile {stop midLo midHi : ℕ} (h : CoversFrom cells series start)
    (hlo : midLo % 1000 = 0) (hhi : midHi % 1000 = 0) (hstart : start ≤ midLo)
    (hmid : midLo < midHi) (hstop : midHi ≤ stop + 1) :
    edgeSum series start midLo + (if midHi ≤ stop then scanSum series midHi stop else 0) +
      tile cells midHi ((midHi - midLo) / 1000) midLo = scanSum series start stop := by
  have htile : tile cells midHi ((midHi - midLo) / 1000) midLo = edgeSum series midLo midHi :=
    tile_eq h hhi _ midLo hstart hlo hmid.le (by omega)
  have hright : (if midHi ≤ stop then scanSum series midHi stop else 0) =
      edgeSum series midHi (stop + 1) := by
    split
    · exact scanSum_eq_edgeSum series midHi stop
    · refine (sumOver_eq_zero fun x _ => ?_).symm
      simp only [decide_eq_false_iff_not]
      omega
  rw [hright, scanSum_eq_edgeSum, edgeSum_add series hstart (by omega : midLo ≤ stop + 1),
    edgeSum_add series hmid.le hstop]
  omega

lemma Ordered.head_le (h : series.Ordered) {first x : ℕ × ℤ} (hfirst : series.head? = some first)
    (hx : x ∈ series) : first.1 ≤ x.1 := by
  obtain ⟨rest, rfl⟩ := head?_eq_some_iff.mp hfirst
  rcases mem_cons.mp hx with rfl | hx
  · exact le_rfl
  · exact ((pairwise_cons.mp h).1 x hx).le

lemma Ordered.le_getLast (h : series.Ordered) {last x : ℕ × ℤ}
    (hlast : series.getLast? = some last) (hx : x ∈ series) : x.1 ≤ last.1 := by
  obtain ⟨init, rfl⟩ := getLast?_eq_some_iff.mp hlast
  rcases mem_append.mp hx with hx | hx
  · exact ((pairwise_append.mp h).2.2 x hx last (mem_singleton.mpr rfl)).le
  · exact (mem_singleton.mp hx) ▸ le_rfl

/-- With cells that hold the sums of the series from its first point on, the scan's answer. -/
lemma rangeSum_eq (hord : series.Ordered)
    (h : ∀ first, series.head? = some first → CoversFrom cells series first.1) (start stop : ℕ) :
    rangeSum cells series start stop = scanSum series start stop := by
  have hempty : (∀ x ∈ series, ¬ (start ≤ x.1 ∧ x.1 ≤ stop)) → scanSum series start stop = 0 :=
    fun hout => sumOver_eq_zero fun x hx => by simpa using hout x hx
  unfold rangeSum
  split
  case isTrue hlt => exact (hempty fun x _ => by omega).symm
  split
  case h_2 hnone =>
    refine (hempty fun x hx => ?_).symm
    have hne : series ≠ [] := ne_nil_of_mem hx
    exact absurd (getLast?_eq_some_getLast hne) (hnone _ _ (head?_eq_some_head hne))
  case h_1 first last hfirst hlast =>
    have hge := fun x hx => Ordered.head_le hord hfirst (x := x) hx
    have hle := fun x hx => Ordered.le_getLast hord hlast (x := x) hx
    split
    case isTrue hout =>
      refine (hempty fun x hx => ?_).symm
      have := hge x hx
      have := hle x hx
      omega
    case isFalse hin =>
      -- nothing of the series is outside its first and last point
      have hclamp : scanSum series (max start first.1) (min stop last.1) =
          scanSum series start stop := by
        apply sumOver_congr
        intro x hx
        have := hge x hx
        have := hle x hx
        rw [decide_eq_decide]
        omega
      dsimp only
      split
      · exact hclamp
      case isFalse hwide =>
        rw [← hclamp]
        have hsucc : saturatingSucc (min stop last.1) ≤ min stop last.1 + 1 := Nat.min_le_left _ _
        have hcov : CoversFrom cells series (max start first.1) := fun level cell hcell =>
          h first hfirst level cell (le_trans (le_max_right _ _) hcell)
        simp only [levelWidth, not_or, not_le] at hwide ⊢
        exact edges_add_tile hcov (Nat.mul_mod_left _ _) (Nat.mul_mod_left _ _) (by omega)
          hwide.1 (by omega)

/-- The sums of the tiling loop are 64-bit numbers: the ends of the cells at the cursor that are on
their grid, and the next cursor. -/
def TileFits (midHi : ℕ) : ℕ → ℕ → Prop
  | 0, _ => True
  | fuel + 1, cursor => cursor < midHi →
    (∀ level, cursor % levelWidth level = 0 → cursor + levelWidth level ≤ u64Max) ∧
      cursor + (coarsestFit cursor midHi).2 ≤ u64Max ∧
      TileFits midHi fuel (cursor + (coarsestFit cursor midHi).2)

/-- The sums and products of instants on the way to a range sum are 64-bit numbers. -/
def RangeSumFits (series : CounterSeries) (start stop : ℕ) : Prop :=
  start ≤ stop → ∀ first ∈ series.head?, ∀ last ∈ series.getLast?, start ≤ last.1 → first.1 ≤ stop →
    let midLo :=
      (max start first.1 + (levelWidth .second - 1)) / levelWidth .second * levelWidth .second
    let midHi := saturatingSucc (min stop last.1) / levelWidth .second * levelWidth .second
    midLo ≤ u64Max ∧ midHi ≤ u64Max ∧ (midLo < midHi → tilingSteps midLo midHi ≤ u64Max ∧
      (tilingSteps midLo midHi ≤ series.length →
        TileFits midHi ((midHi - midLo) / levelWidth .second) midLo))

/-- Where the last cell of a level starts. Its end is no 64-bit number. -/
def lastStart (level : Level) : ℕ := bucketStart u64Max (levelWidth level)

/-- The last minute, hour and day do not start between the two. -/
def Clear (midLo midHi : ℕ) : Prop :=
  ∀ level, level ≠ .second → lastStart level < midLo ∨ midHi ≤ lastStart level

section

variable {cursor midHi : ℕ}

/-- A cell, itself not the last of its level, does not end behind the start of a last one. -/
lemma clear_add_iff {chosen : Level} (hgrid : cursor % levelWidth chosen = 0)
    (hend : cursor + levelWidth chosen ≤ u64Max)
    (hword : ∀ level, cursor % levelWidth level = 0 → cursor + levelWidth level ≤ u64Max) :
    Clear (cursor + levelWidth chosen) midHi ↔ Clear cursor midHi := by
  refine forall_congr' fun level => imp_congr_right fun hne => or_congr_left ?_
  have hlevel := hword level
  cases level <;> cases chosen <;>
    simp only [lastStart, bucketStart, levelWidth, u64Max] at * <;> omega

lemma tileFits_iff (hhi : midHi % 1000 = 0) (hmax : midHi ≤ u64Max) (fuel : ℕ) :
    ∀ cursor, cursor % 1000 = 0 → midHi ≤ cursor + fuel * 1000 →
      (TileFits midHi fuel cursor ↔ Clear cursor midHi) := by
  induction fuel with
  | zero => exact fun cursor _ hfuel => iff_of_true trivial fun level _ => by omega
  | succ fuel ih =>
    intro cursor hcur hfuel
    rw [TileFits]
    by_cases hlt : cursor < midHi
    case neg => exact iff_of_true (fun h => absurd h hlt) fun level _ => by omega
    obtain ⟨hwidth, hgrid, hins⟩ := coarsestFit_fits hcur hhi hlt
    have hmod := levelWidth_mod (coarsestFit cursor midHi).1
    have hpos := levelWidth_pos (coarsestFit cursor midHi).1
    have hend := hins.trans hmax
    rw [imp_iff_right hlt, hwidth, and_iff_right hend, ih _ (by omega) (by omega)]
    refine ⟨fun h => (clear_add_iff hgrid hend h.1).mp h.2, fun hclear => ?_⟩
    have hword : ∀ level, cursor % levelWidth level = 0 → cursor + levelWidth level ≤ u64Max := by
      intro level hlevel
      -- a cell that ends too late is the last of its level
      by_contra hover
      have hlast : lastStart level = cursor :=
        (bucketStart_eq_iff (levelWidth_pos level) hlevel).mpr ⟨by omega, not_le.mp hover⟩
      have hcoarse : level ≠ .second := by
        rintro rfl
        simp only [levelWidth] at hover
        omega
      have := hclear level hcoarse
      omega
    exact ⟨hword, (clear_add_iff hgrid hend hword).mpr hclear⟩

end

/-- The window, cut to the extent of the series, starts no later than the last second, and if its
whole seconds are tiled the last minute, hour and day do not start with one. -/
def KeepsClear (series : CounterSeries) (start stop : ℕ) : Prop :=
  start ≤ stop → ∀ first ∈ series.head?, ∀ last ∈ series.getLast?, start ≤ last.1 → first.1 ≤ stop →
    let midLo := (max start first.1 + 999) / 1000 * 1000
    let midHi := saturatingSucc (min stop last.1) / 1000 * 1000
    max start first.1 ≤ lastStart .second ∧
      (midLo < midHi → tilingSteps midLo midHi ≤ series.length → Clear midLo midHi)

/-- The sum from the ladder that is built from a series is the sum of its points, without an
overflow on the way, if and only if the window keeps clear of the largest 64-bit numbers. -/
theorem rangeSum_build_iff (series : {series : CounterSeries // series.Ordered}) (start stop : ℕ) :
    (rangeSum (build series) series start stop = scanSum series start stop ∧
      RangeSumFits series start stop) ↔ KeepsClear series start stop := by
  have hsum : rangeSum (build series) series start stop = scanSum series start stop :=
    rangeSum_eq series.2 (fun first _ level cell _ hgrid => by
      rw [build_apply, cellSum_eq_edgeSum _ hgrid]) start stop
  rw [and_iff_right hsum]
  refine imp_congr_right fun _ => forall₂_congr fun first _ => forall₂_congr fun last _ =>
    imp_congr_right fun _ => imp_congr_right fun _ => and_congr ?_ ?_
  · simp only [lastStart, bucketStart, levelWidth, u64Max]
    omega
  have hhi := (Nat.div_mul_le_self _ 1000).trans (saturatingSucc_le (min stop last.1))
  refine (and_iff_right hhi).trans (imp_congr_right fun hlt => (and_iff_right ?_).trans
    (imp_congr_right fun _ => tileFits_iff (Nat.mul_mod_left _ _) hhi _ _ (Nat.mul_mod_left _ _)
      ?_))
  · simp only [tilingSteps, levelWidth, u64Max] at hhi ⊢
    omega
  · simp only [levelWidth]
    omega

/-- A point at the largest instant. -/
def lastInstant : CounterSeries := [(u64Max, 1)]

/-- The first whole second from the point on does not start at a 64-bit number. -/
theorem not_rangeSum_build :
    ¬(rangeSum (build lastInstant) lastInstant u64Max u64Max = scanSum lastInstant u64Max u64Max ∧
      RangeSumFits lastInstant u64Max u64Max) :=
  fun h => absurd (h.2 le_rfl _ rfl _ rfl le_rfl le_rfl).1 (by decide)

end TemporalStore.Shard
