import TemporalStore.Wal.LogInvariant

namespace TemporalStore.Wal

open Lib LogFraming List Cell

variable {β ρ : Type} {codec : WalCodec β ρ}

namespace Log

lemma retained_cases (retain : ℕ) (cells : List (Cell β)) :
    (retained retain cells = [] ∧ ∀ c ∈ cells, c.record.sequence < retain) ∨
    ∃ before c after, cells = before ++ c :: after ∧
      (∀ d ∈ before, d.record.sequence < retain) ∧ retain ≤ c.record.sequence ∧
      retained retain cells = ⟨none, c.record⟩ :: after := by
  induction cells with
  | nil => exact .inl ⟨rfl, by simp⟩
  | cons c cells ih =>
    by_cases hc : c.record.sequence < retain
    · have hskip : retained retain (c :: cells) = retained retain cells := by
        simp [retained, hc]
      rw [hskip]
      rcases ih with ⟨hnil, hall⟩ | ⟨before, d, after, rfl, hbef, hd, hkept⟩
      · exact .inl ⟨hnil, by simpa [hc] using hall⟩
      · exact .inr ⟨c :: before, d, after, rfl, by simpa [hc] using hbef, hd, hkept⟩
    · exact .inr ⟨[], c, cells, rfl, by simp, Nat.le_of_not_lt hc, by simp [retained, hc]⟩

variable {retain : ℕ} {cells : List (Cell β)} {c : Cell β}

lemma mem_retained (h : c ∈ retained retain cells) : c ∈ cells ∨ c.gap = none := by
  rcases retained_cases retain cells with ⟨hnil, -⟩ | ⟨before, d, after, rfl, -, -, hkept⟩
  · simp [hnil] at h
  · rw [hkept, mem_cons] at h
    rcases h with rfl | h
    · exact .inr rfl
    · exact .inl (by simp [h])

lemma retained_records (retain : ℕ) (cells : List (Cell β)) :
    ∃ before, cells.map record = before ++ (retained retain cells).map record ∧
      ∀ r ∈ before, r.sequence < retain := by
  rcases retained_cases retain cells with ⟨hnil, hall⟩ | ⟨before, d, after, rfl, hlt, -, hkept⟩
  · exact ⟨cells.map record, by simp [hnil], by simpa using hall⟩
  · exact ⟨before.map record, by simp [hkept], by simpa using hlt⟩

lemma firstSequenceOf_eq_some {first : ℕ} (h : firstSequenceOf cells = some first) :
    ∃ c ∈ cells, c.record.sequence = first := by
  cases cells with
  | nil => simp [firstSequenceOf] at h
  | cons c cells =>
    rw [firstSequenceOf] at h
    split at h
    · exact ⟨c, mem_cons_self, by simpa using h⟩
    · simp at h

/-- A piece may go if the next one starts at or below the sequence to retain, or if its own last
record is below it: either way all its records are. -/
lemma sequence_lt_of_covered {p : Piece β} {rest : List (Piece β)} {active : Piece β}
    (hord : Ordered (p.cells ++ (rest.flatMap Piece.cells ++ active.cells)))
    (hpos : ∀ c ∈ p.cells, 0 < c.record.sequence)
    (hcov : (firstSequenceOf (rest.head?.getD active).cells).any (· ≤ retain) ∨
      lastSequenceOf p.cells = 0 ∨ lastSequenceOf p.cells < retain) (hc : c ∈ p.cells) :
    c.record.sequence < retain := by
  rcases hcov with hnext | hown
  · simp only [Option.any_eq_true, decide_eq_true_eq] at hnext
    obtain ⟨first, hfirst, hle⟩ := hnext
    obtain ⟨d, hd, rfl⟩ := firstSequenceOf_eq_some hfirst
    have hmem : d ∈ rest.flatMap Piece.cells ++ active.cells := by
      cases rest with
      | nil => simpa using hd
      | cons q rest => exact mem_append_left _ (by simpa using Or.inl hd)
    have hrise := hord.sequences
    rw [map_append, pairwise_append] at hrise
    have hlt := hrise.2.2 _ (mem_map_of_mem hc) _ (mem_map_of_mem hmem)
    omega
  · have hle := sequence_le_lastSequenceOf (Ordered.of_append_left hord) hc
    have := hpos c hc
    omega

/-- The sealed pieces that a reclaim drops come first, and every record in them is below the
sequence to retain. -/
lemma dropCovered_eq (cfg : WalConfig) (active : Piece β) (retain : ℕ)
    (sealed : List (Piece β)) (dropped : ℕ)
    (hord : Ordered (sealed.flatMap Piece.cells ++ active.cells))
    (hpos : ∀ p ∈ sealed, ∀ c ∈ p.cells, 0 < c.record.sequence) :
    ∃ covered, sealed = covered ++ dropCovered cfg active retain sealed dropped ∧
      ∀ p ∈ covered, ∀ c ∈ p.cells, c.record.sequence < retain := by
  induction sealed generalizing dropped with
  | nil => exact ⟨[], by simp [dropCovered]⟩
  | cons p rest ih =>
    rw [flatMap_cons, append_assoc] at hord
    rw [dropCovered]
    split
    · exact ⟨[], by simp⟩
    split
    · next hcov =>
      obtain ⟨covered, heq, hlt⟩ := ih (dropped + 1) hord.suffix
        fun q hq => hpos q (mem_cons_of_mem p hq)
      refine ⟨p :: covered, by rw [cons_append, ← heq], ?_⟩
      intro q hq c hc
      rw [mem_cons] at hq
      rcases hq with rfl | hq
      · exact sequence_lt_of_covered hord (hpos q mem_cons_self) hcov hc
      · exact hlt q hq c hc
    · exact ⟨[], by simp⟩

/-- When a reclaim may run: the active piece is not an empty file behind sealed pieces, and if the
piece is rewritten, the kept cells are legible where they end up. -/
structure ReclaimOk (codec : WalCodec β ρ) (cfg : WalConfig) (l : Log β) (retain : ℕ) : Prop where
  headed : l.active.isNone = false → l.current.IsBlank → l.sealed = []
  legible : l.rewrites codec cfg retain → Legible codec (l.kept retain)

lemma effectiveRetain_le (l : Log β) (retain : ℕ) : l.effectiveRetain retain ≤ l.lastSequence :=
  le_trans (min_le_left _ _) (min_le_right _ _)

variable {l : Log β}

/-- A reclaim drops covered pieces at the front and leaves the others with the rewritten one. -/
lemma WF.reclaimed_eq (h : l.WF codec) (cfg : WalConfig) (retain : ℕ)
    (hact : l.active.isNone = false) : ∃ covered left, l.sealed = covered ++ left ∧
      (∀ p ∈ covered, ∀ c ∈ p.cells, c.record.sequence < l.effectiveRetain retain) ∧
      l.reclaimed codec cfg retain =
        { l with sealed := left, active := some (l.rewritten codec cfg retain) } := by
  have hpos (p : Piece β) (hp : p ∈ l.sealed) (c : Cell β) (hc : c ∈ p.cells) :
      0 < c.record.sequence := h.positive c (mem_cells (mem_pieces_of_sealed hp) hc)
  obtain ⟨covered, hseal, hcov⟩ := dropCovered_eq cfg l.current (l.effectiveRetain retain)
    l.sealed 0 (cells_eq l ▸ h.ordered) hpos
  exact ⟨covered, _, hseal, hcov, if_neg (by simp [hact])⟩

lemma rewritten_records (codec : WalCodec β ρ) (cfg : WalConfig) (l : Log β) (retain : ℕ) :
    ∃ before, l.current.cells.map record =
        before ++ (l.rewritten codec cfg retain).cells.map record ∧
      ∀ r ∈ before, r.sequence < l.effectiveRetain retain := by
  unfold rewritten
  split
  · exact retained_records _ _
  · exact ⟨[], by simp⟩

variable {cfg : WalConfig}

lemma mem_rewritten (h : c ∈ (l.rewritten codec cfg retain).cells) :
    c ∈ l.current.cells ∨ c.gap = none := by
  unfold rewritten at h
  split at h
  · exact mem_retained h
  · exact .inl h

section

variable (h : l.WF codec) (cfg : WalConfig)
include h

lemma WF.reclaimed_sublist (retain : ℕ) :
    ((l.reclaimed codec cfg retain).cells.map record).Sublist (l.cells.map record) := by
  cases hact : l.active.isNone with
  | true =>
    rw [reclaimed, if_pos hact]
  | false =>
    obtain ⟨covered, left, hseal, -, heq⟩ := h.reclaimed_eq cfg retain hact
    obtain ⟨before, hcells, -⟩ := rewritten_records codec cfg l retain
    rw [cells_eq l, heq, cells_eq, hseal]
    simp only [flatMap_append, map_append, current, Option.getD_some]
    rw [append_assoc]
    refine List.Sublist.trans ?_ (sublist_append_right _ _)
    refine List.Sublist.append (List.Sublist.refl _) ?_
    unfold current at hcells
    rw [hcells]
    exact sublist_append_right _ _

lemma WF.mem_reclaimed {r : WalRecord β}
    (hr : r ∈ l.cells.map record) (hseq : l.effectiveRetain retain ≤ r.sequence) :
    r ∈ (l.reclaimed codec cfg retain).cells.map record := by
  cases hact : l.active.isNone with
  | true =>
    rw [reclaimed, if_pos hact]
    exact hr
  | false =>
    obtain ⟨covered, left, hseal, hcov, heq⟩ := h.reclaimed_eq cfg retain hact
    obtain ⟨before, hcells, hbef⟩ := rewritten_records codec cfg l retain
    rw [cells_eq, hseal, flatMap_append, map_append, map_append, hcells] at hr
    rw [heq, cells_eq, map_append]
    simp only [mem_append] at hr ⊢
    rcases hr with (hr | hr) | (hr | hr)
    · obtain ⟨c, hc, rfl⟩ := mem_map.mp hr
      obtain ⟨p, hp, hcp⟩ := mem_flatMap.mp hc
      exact absurd (hcov p hp c hcp) (by omega)
    · exact .inl hr
    · exact absurd (hbef r hr) (by omega)
    · exact .inr hr

lemma WF.ordered_reclaimed (retain : ℕ) : Ordered (l.reclaimed codec cfg retain).cells where
  sequences := by
    have hsub := (h.reclaimed_sublist cfg retain).map WalRecord.sequence
    rw [map_map, map_map] at hsub
    exact h.ordered.sequences.sublist hsub
  footers := by
    intro c hc g hg
    apply h.ordered.footers c ?_ g hg
    cases hact : l.active.isNone with
    | true =>
      rw [reclaimed, if_pos hact] at hc
      exact hc
    | false =>
      obtain ⟨covered, left, hseal, -, heq⟩ := h.reclaimed_eq cfg retain hact
      rw [heq, cells_eq, mem_append] at hc
      rw [cells_eq, hseal, flatMap_append, mem_append, mem_append]
      rcases hc with hc | hc
      · exact .inl (.inr hc)
      · rcases mem_rewritten hc with hc | hnone
        · exact .inr hc
        · simp [hg] at hnone

lemma WF.lastSequence_reclaimed (retain : ℕ) :
    (l.reclaimed codec cfg retain).lastSequence = l.lastSequence := by
  have hsub := h.reclaimed_sublist cfg retain
  by_cases hnil : l.cells = []
  · rw [hnil, map_nil, sublist_nil, map_eq_nil_iff] at hsub
    rw [lastSequence, lastSequence, hsub, hnil]
  obtain ⟨c, hc, hlast⟩ := lastSequenceOf_mem hnil
  have hkept := h.mem_reclaimed cfg (mem_map_of_mem hc)
    (hlast ▸ effectiveRetain_le l retain : l.effectiveRetain retain ≤ c.record.sequence)
  obtain ⟨d, hd, hdc⟩ := mem_map.mp hkept
  apply le_antisymm
  · obtain ⟨e, he, hlast'⟩ := lastSequenceOf_mem (ne_nil_of_mem hd)
    obtain ⟨e', he', hee⟩ := mem_map.mp (hsub.subset (mem_map_of_mem he))
    rw [lastSequence, ← hlast', ← hee]
    exact sequence_le_lastSequenceOf h.ordered he'
  · rw [lastSequence, ← hlast, ← hdc]
    exact sequence_le_lastSequenceOf (h.ordered_reclaimed cfg retain) hd

end

lemma base_le_rewritten (codec : WalCodec β ρ) (cfg : WalConfig) (l : Log β) (retain : ℕ) :
    l.current.base ≤ (l.rewritten codec cfg retain).base := by
  unfold rewritten
  split
  · exact Nat.le_add_right _ _
  · exact le_rfl

lemma WF.reclaimed (h : l.WF codec) (hok : l.ReclaimOk codec cfg retain) :
    (l.reclaimed codec cfg retain).WF codec := by
  cases hact : l.active.isNone with
  | true =>
    rw [Log.reclaimed, if_pos hact]
    exact h
  | false =>
    obtain ⟨covered, left, hseal, -, heq⟩ := h.reclaimed_eq cfg retain hact
    have hleft {p : Piece β} (hp : p ∈ left) : p ∈ l.sealed := by
      rw [hseal]
      exact mem_append_right _ hp
    refine ⟨?_, h.ordered_reclaimed cfg retain, ?_, ?_, ?_, ?_, ?_, ?_⟩
    · intro p hp
      rw [heq, pieces, mem_append, mem_singleton] at hp
      rcases hp with hp | rfl
      · exact h.sound p (mem_append_left _ (hleft hp))
      · simp only [current, Option.getD_some, rewritten]
        split
        · next hrewr => exact ⟨hok.legible hrewr, by simp⟩
        · exact h.sound_current
    · intro c hc
      obtain ⟨d, hd, hdc⟩ := mem_map.mp
        ((h.reclaimed_sublist cfg retain).subset (mem_map_of_mem hc))
      rw [← hdc]
      exact h.positive d hd
    · rw [heq]
      exact fun p hp => h.filled p (hleft hp)
    · rw [heq]
      have hchain := h.chain
      rw [hseal, pairwise_append] at hchain
      exact hchain.2.1
    · rw [heq]
      intro _ p hp
      have hblank : ¬l.current.IsBlank := by
        intro hblank
        have hp' := hleft hp
        rw [hok.headed hact hblank] at hp'
        simp at hp'
      exact le_trans (h.behind hblank p (hleft hp)) (base_le_rewritten codec cfg l retain)
    · rw [heq]
      simp only [current, Option.getD_some, rewritten]
      split
      · simp
      · intro hheaded hcells
        have hnil := h.first hheaded hcells
        rw [hseal, append_eq_nil_iff] at hnil
        exact hnil.2
    · intro r hr
      rw [h.lastSequence_reclaimed]
      rw [heq] at hr
      exact h.lastRecord r hr

/-- The log id the log starts at. -/
def start (l : Log β) : ℕ := (l.sealed.head?.getD l.current).base

lemma rewritten_recordsFrom (codec : WalCodec β ρ) (cfg : WalConfig) (l : Log β) (retain : ℕ) :
    ∃ gone, l.current.records codec = gone ++ (l.rewritten codec cfg retain).records codec ∧
      ∀ r ∈ gone, l.current.base ≤ r.1 ∧ r.1 < (l.rewritten codec cfg retain).base := by
  unfold rewritten
  split
  case isFalse => exact ⟨[], by simp⟩
  simp only [removedLen, kept]
  rcases retained_cases (l.effectiveRetain retain) l.current.cells with
    ⟨hnil, -⟩ | ⟨before, c, after, hcells, -, -, hkept⟩
  · refine ⟨l.current.records codec, by simp [Piece.records, hnil, recordsFrom], ?_⟩
    intro r hr
    rw [hnil, cellsLen_nil]
    exact bounds_of_mem_recordsFrom codec hr
  · have hrem : cellsLen codec l.current.cells -
        cellsLen codec (retained (l.effectiveRetain retain) l.current.cells) =
        cellsLen codec before + c.gapBytes.length := by
      rw [hkept, hcells, cellsLen_append, cellsLen_cons, cellsLen_cons, bytes_length, bytes_length]
      simp only [gapBytes, Option.elim_none, length_nil]
      omega
    rw [hrem]
    refine ⟨recordsFrom codec l.current.base before, ?_, ?_⟩
    · rw [Piece.records, Piece.records, hkept, hcells, recordsFrom_append, recordsFrom, recordsFrom,
        bytes_length, bytes_length]
      simp only [gapBytes, Option.elim_none, length_nil, Nat.add_zero, Nat.zero_add, Nat.add_assoc]
    · intro r hr
      have := bounds_of_mem_recordsFrom codec hr
      omega

lemma bounds_of_mem_flatMap_records {ps : List (Piece β)} {r : ℕ × WalRecord β}
    (h : r ∈ ps.flatMap (Piece.records codec)) : ∃ p ∈ ps, p.base ≤ r.1 ∧ r.1 < p.stop codec := by
  obtain ⟨p, hp, hr⟩ := mem_flatMap.mp h
  exact ⟨p, hp, bounds_of_mem_recordsFrom codec hr⟩

lemma start_cases (l : Log β) : l.start = l.current.base ∨ ∃ p ∈ l.sealed, l.start = p.base := by
  cases hseal : l.sealed with
  | nil => exact .inl (by simp [start, hseal])
  | cons q rest => exact .inr ⟨q, mem_cons_self, by simp [start, hseal]⟩

lemma WF.start_le_sealed (h : l.WF codec) {p : Piece β} (hp : p ∈ l.sealed) : l.start ≤ p.base := by
  cases hseal : l.sealed with
  | nil => simp [hseal] at hp
  | cons q rest =>
    have hchain := h.chain
    rw [hseal] at hp hchain
    have hstart : l.start = q.base := by simp [start, hseal]
    rw [hstart]
    rcases mem_cons.mp hp with rfl | hp
    · exact le_rfl
    · exact le_trans (Nat.le_add_right _ _) ((pairwise_cons.mp hchain).1 p hp)

lemma WF.start_le_current (h : l.WF codec) (hblank : l.current.IsBlank → l.sealed = []) :
    l.start ≤ l.current.base := by
  rcases start_cases l with hstart | ⟨q, hq, hstart⟩
  · exact hstart.le
  · have hbeh := h.behind (fun hb => by simp [hblank hb] at hq) q hq
    exact hstart.le.trans (le_trans (Nat.le_add_right _ _) hbeh)

/-- A log id is taken by a reclaim if the log now starts behind it or the active piece does. -/
def takes (l l' : Log β) (logId : ℕ) : Bool :=
  decide (logId < l'.start) || decide (l.current.base ≤ logId ∧ logId < l'.current.base)

lemma takes_eq_false {l' : Log β} {logId : ℕ} (hstart : l'.start ≤ logId)
    (hcurr : logId < l.current.base ∨ l'.current.base ≤ logId) : l.takes l' logId = false := by
  simp only [takes, Bool.or_eq_false_iff, decide_eq_false_iff_not]
  omega

lemma WF.records_of_active_none (h : l.WF codec) (hact : l.active.isNone = true) :
    (l.records codec).filter (fun r => !l.takes l r.1) = l.records codec := by
  rw [filter_eq_self]
  intro r hr
  have hcurr : l.current = Piece.blank := by simp [current, Option.isNone_iff_eq_none.mp hact]
  rw [records_eq, hcurr, Piece.records, mem_append] at hr
  obtain ⟨p, hp, hlow, -⟩ :=
    bounds_of_mem_flatMap_records (hr.resolve_right (by simp [Piece.blank, recordsFrom]))
  rw [takes_eq_false (le_trans (h.start_le_sealed hp) hlow) (by omega)]
  rfl

/-- What is left of the log after a reclaim are the records whose log ids it did not take. -/
lemma WF.records_reclaimed (h : l.WF codec) (hok : l.ReclaimOk codec cfg retain) :
    (l.reclaimed codec cfg retain).records codec =
      (l.records codec).filter fun r => !l.takes (l.reclaimed codec cfg retain) r.1 := by
  have hwf := h.reclaimed hok
  cases hact : l.active.isNone with
  | true =>
    rw [Log.reclaimed, if_pos hact, h.records_of_active_none hact]
  | false =>
    obtain ⟨covered, left, hseal, -, heq⟩ := h.reclaimed_eq cfg retain hact
    obtain ⟨gone, hcurr, hgone⟩ := rewritten_recordsFrom codec cfg l retain
    have hbase := base_le_rewritten codec cfg l retain
    have hbeh (p : Piece β) (hp : p ∈ l.sealed) : p.stop codec ≤ l.current.base :=
      h.behind (fun hb => by simp [hok.headed hact hb] at hp) p hp
    rw [heq] at hwf ⊢
    set l' : Log β := { l with sealed := left, active := some (l.rewritten codec cfg retain) }
    have hcurr' : l'.current = l.rewritten codec cfg retain := rfl
    have hbeh' (p : Piece β) (hp : p ∈ left) : p.stop codec ≤ l.current.base :=
      hbeh p (hseal ▸ mem_append_right _ hp)
    have hstart : l'.start ≤ l'.current.base := by
      rcases start_cases l' with hstart | ⟨q, hq, hstart⟩
      · exact hstart.le
      · have hle := (Nat.le_add_right _ _).trans (hbeh' q hq)
        exact hstart.le.trans (hle.trans hbase)
    have hcov : (covered.flatMap (Piece.records codec)).filter (fun r => !l.takes l' r.1) = [] := by
      rw [filter_eq_nil_iff]
      intro r hr
      obtain ⟨p, hp, -, hhigh⟩ := bounds_of_mem_flatMap_records hr
      have hlt : r.1 < l'.start := by
        rcases start_cases l' with hstart | ⟨q, hq, hstart⟩
        · have hps := hbeh p (hseal ▸ mem_append_left _ hp)
          rw [hcurr'] at hstart
          omega
        · have hchain := h.chain
          rw [hseal, pairwise_append] at hchain
          have hpq := hchain.2.2 p hp q hq
          omega
      simp [takes, hlt]
    have hleft : (left.flatMap (Piece.records codec)).filter (fun r => !l.takes l' r.1) =
        left.flatMap (Piece.records codec) := by
      rw [filter_eq_self]
      intro r hr
      obtain ⟨p, hp, hlow, hhigh⟩ := bounds_of_mem_flatMap_records hr
      have hps := hbeh' p hp
      have hle := hwf.start_le_sealed hp
      rw [takes_eq_false (by omega) (by omega)]
      rfl
    have hgone' : gone.filter (fun r => !l.takes l' r.1) = [] := by
      rw [filter_eq_nil_iff]
      intro r hr
      simp [takes, hgone r hr, hcurr']
    have hkept : ((l.rewritten codec cfg retain).records codec).filter
        (fun r => !l.takes l' r.1) = (l.rewritten codec cfg retain).records codec := by
      rw [filter_eq_self]
      intro r hr
      have hlow := (bounds_of_mem_recordsFrom codec hr).1
      rw [← hcurr'] at hlow
      rw [takes_eq_false (by omega) (by omega)]
      rfl
    rw [records_eq l, hseal, flatMap_append, hcurr]
    simp only [filter_append]
    rw [hcov, hleft, hgone', hkept, nil_append, nil_append, records_eq, hcurr']

end Log

end TemporalStore.Wal
