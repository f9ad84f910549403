import TemporalStore.Shard.Replay

namespace TemporalStore.Shard

open Lib List ShardState

/-- The time is better than the other: smaller for first, larger for last. -/
def ControlStateSelectionType.Better (ty : ControlStateSelectionType) (t u : ℕ) : Prop :=
  match ty with
  | .first => t < u
  | .last => u < t

instance (ty : ControlStateSelectionType) (t u : ℕ) : Decidable (ty.Better t u) :=
  match ty with
  | .first => inferInstanceAs (Decidable (t < u))
  | .last => inferInstanceAs (Decidable (u < t))

/-- The write that is better than every earlier one and that no later one is better than: the
best, the earliest arrival among equals. -/
def Selected (ty : ControlStateSelectionType) (writes : List (ℕ × Bytes)) (w : ℕ × Bytes) : Prop :=
  ∃ before after, writes = before ++ w :: after ∧ (∀ x ∈ before, ty.Better w.1 x.1) ∧
    ∀ x ∈ after, ¬ty.Better x.1 w.1

variable {writes : List (ℕ × Bytes)}

lemma Selected.keep {ty : ControlStateSelectionType} {w x : ℕ × Bytes} (h : Selected ty writes w)
    (hx : ¬ty.Better x.1 w.1) : Selected ty (writes ++ [x]) w := by
  obtain ⟨before, after, rfl, hbef, hafter⟩ := h
  refine ⟨before, after ++ [x], by simp, hbef, ?_⟩
  exact forall_mem_append.mpr ⟨hafter, forall_mem_singleton.mpr hx⟩

lemma Selected.replace {ty : ControlStateSelectionType} {w x : ℕ × Bytes}
    (h : Selected ty writes w) (hx : ty.Better x.1 w.1) : Selected ty (writes ++ [x]) x := by
  obtain ⟨before, after, rfl, hbef, hafter⟩ := h
  refine ⟨before ++ w :: after, [], rfl, ?_, nofun⟩
  intro y hy
  -- the old choice is at least as good as every write so far
  have hle : y = w ∨ ty.Better w.1 y.1 ∨ ¬ty.Better y.1 w.1 := by
    rcases mem_append.mp hy with hy | hy
    · exact .inr (.inl (hbef y hy))
    · rcases mem_cons.mp hy with hy | hy
      · exact .inl hy
      · exact .inr (.inr (hafter y hy))
  cases ty with
  | first | last =>
    simp only [ControlStateSelectionType.Better] at *
    rcases hle with rfl | hle | hle <;> omega

/-- A write at a clock reading, an index that is persisted, or a crash and its recovery. -/
inductive SelectionEvent where
  | write (now : ℕ) (value : Bytes) (occurTimeMs : ℕ)
  | checkpoint
  | crash (clock : ℕ) (reconciled persisted : Bool)

/-- The occurrence time of a write; zero stands for the current time. -/
def occurTime (now occurTimeMs : ℕ) : ℕ := if occurTimeMs = 0 then now else occurTimeMs

section Runs

variable (config : Config) (key : Key) (ty : ControlStateSelectionType)

def Engine.selectionStep (e : Engine) : SelectionEvent → Engine
  | .write now value occurTimeMs =>
    (e.execute config now (.controlStateSelectionSet key value occurTimeMs 0 ty)).1
  | .checkpoint => e.checkpoint
  | .crash clock reconciled persisted => e.recover clock reconciled persisted

def Engine.selectionRun (e : Engine) (events : List SelectionEvent) : Engine :=
  events.foldl (Engine.selectionStep config key ty) e

/-- The writes of a run with their occurrence times. -/
def selectionWrites : List SelectionEvent → List (ℕ × Bytes)
  | [] => []
  | .write now value occurTimeMs :: events =>
    (occurTime now occurTimeMs, value) :: selectionWrites events
  | _ :: events => selectionWrites events

/-- What is known of a run: the write that is selected, whether its record is in the log behind the
index, and whether its time was lost in a replay. -/
structure SelectionTrace where
  best : Option (ℕ × Bytes)
  logged : Bool
  lost : Bool

def SelectionTrace.start : SelectionTrace := ⟨none, false, false⟩

def SelectionTrace.step (trace : SelectionTrace) : SelectionEvent → SelectionTrace
  | .write now value occurTimeMs =>
    if ∀ w ∈ trace.best, ty.Better (occurTime now occurTimeMs) w.1 then
      ⟨some (occurTime now occurTimeMs, value), true, false⟩
    else trace
  | .checkpoint => { trace with logged := false }
  | .crash _ _ _ => { trace with logged := false, lost := trace.lost || trace.logged }

/-- While the time of the selected write is lost, a first write is not earlier than it and a last
write is later than it. -/
def SelectionTrace.Careful (trace : SelectionTrace) : SelectionEvent → Prop
  | .write now _ occurTimeMs => trace.lost = true → ∀ w ∈ trace.best,
    match ty with
    | .first => w.1 ≤ occurTime now occurTimeMs
    | .last => w.1 < occurTime now occurTimeMs
  | _ => True

def CarefulRun (trace : SelectionTrace) : List SelectionEvent → Prop
  | [] => True
  | event :: events => trace.Careful ty event ∧ CarefulRun (trace.step ty event) events

/-- The selection that a shard holds and the one that a replay would install. -/
structure Recalls (e : Engine) (trace : SelectionTrace) : Prop where
  deadlines : NoDeadlines e.shard
  replayDeadlines : ∀ clock, NoDeadlines (replayWal clock e.index e.log)
  stored : (e.shard.records key).controlStateSelection =
    trace.best.map fun w => ⟨if trace.lost then 0 else w.1, w.2, ty⟩
  replayed : ∀ clock, ((replayWal clock e.index e.log).records key).controlStateSelection =
    trace.best.map fun w => ⟨if trace.lost || trace.logged then 0 else w.1, w.2, ty⟩

variable {config key ty}

lemma replaces_iff (t : ℕ) (existing : ControlStateSelectionValue) :
    ty.replaces t existing = true ↔ ty.Better t existing.occurTimeMs := by
  cases ty <;> simp [ControlStateSelectionType.replaces, ControlStateSelectionType.Better]

lemma controlStateSelectionSet_eq {s : ShardState} (h : NoDeadlines s) (now : ℕ) (value : Bytes)
    (occurTimeMs : ℕ) : s.controlStateSelectionSet now key value occurTimeMs 0 ty =
      if ∀ x ∈ (s.records key).controlStateSelection,
          ty.Better (occurTime now occurTimeMs) x.occurTimeMs then
        ⟨s.modifyRecord key fun r => { r with
            controlStateSelection := some ⟨occurTime now occurTimeMs, value, ty⟩ },
          [.controlSelection key ty value none], true, .empty⟩
      else ⟨s, [], false, .empty⟩ := by
  have hstore : ((s.records key).controlStateSelection.map fun existing =>
      ty.replaces (occurTime now occurTimeMs) existing).getD true = true ↔
      ∀ x ∈ (s.records key).controlStateSelection,
        ty.Better (occurTime now occurTimeMs) x.occurTimeMs := by
    cases (s.records key).controlStateSelection with
    | none => simp
    | some existing => simp [replaces_iff]
  unfold controlStateSelectionSet
  rw [h.removeIfExpired]
  dsimp only
  rw [show (if occurTimeMs = 0 then now else occurTimeMs) = occurTime now occurTimeMs from rfl]
  by_cases hbetter : ∀ x ∈ (s.records key).controlStateSelection,
      ty.Better (occurTime now occurTimeMs) x.occurTimeMs
  · rw [if_pos hbetter, hstore.mpr hbetter]
    rfl
  · rw [if_neg hbetter, Bool.eq_false_iff.mpr fun h => hbetter (hstore.mp h)]
    rfl

variable {trace : SelectionTrace}

/-- The comparison with the stored time comes out as the one with the time of the selected write. -/
lemma SelectionTrace.Careful.better_iff {now occurTimeMs : ℕ} {value : Bytes}
    (h : trace.Careful ty (.write now value occurTimeMs)) {w : ℕ × Bytes}
    (hw : trace.best = some w) :
    ty.Better (occurTime now occurTimeMs) (if trace.lost then 0 else w.1) ↔
      ty.Better (occurTime now occurTimeMs) w.1 := by
  by_cases hlost : trace.lost = true
  · have hcare := h hlost w hw
    rw [if_pos hlost]
    cases ty with
    | first | last =>
      simp only [ControlStateSelectionType.Better] at hcare ⊢
      omega
  · rw [if_neg hlost]

variable {e : Engine}

section

variable (h : Recalls key ty e trace)
include h

lemma Recalls.write {now : ℕ} {value : Bytes} {occurTimeMs : ℕ}
    (hcare : trace.Careful ty (.write now value occurTimeMs)) :
    Recalls key ty (e.selectionStep config key ty (.write now value occurTimeMs))
      (trace.step ty (.write now value occurTimeMs)) := by
  have hdead : NoDeadlines
      { e.shard with controlStateMaxSize := config.controlStateMaxSize } := h.deadlines
  have hoffer : (∀ x ∈ (e.shard.records key).controlStateSelection,
      ty.Better (occurTime now occurTimeMs) x.occurTimeMs) ↔
      ∀ w ∈ trace.best, ty.Better (occurTime now occurTimeMs) w.1 := by
    rw [h.stored]
    cases hbest : trace.best with
    | none => simp
    | some w => simpa using hcare.better_iff hbest
  have hset : executeOnShard config now e.shard
      (.controlStateSelectionSet key value occurTimeMs 0 ty) = _ :=
    controlStateSelectionSet_eq hdead now value occurTimeMs
  by_cases hbetter : ∀ w ∈ trace.best, ty.Better (occurTime now occurTimeMs) w.1
  · rw [if_pos (hoffer.mpr hbetter)] at hset
    have hlogged : (e.execute config now
        (.controlStateSelectionSet key value occurTimeMs 0 ty)).1 = _ :=
      e.execute_logged config now rfl (by rw [hset])
    rw [hset] at hlogged
    rw [Engine.selectionStep, hlogged, SelectionTrace.step, if_pos hbetter]
    refine ⟨h.deadlines, ?_, ?_, ?_⟩
    · intro clock
      rw [replayWal_concat]
      exact h.replayDeadlines clock
    · rw [records_modifyRecord, if_pos rfl]
      rfl
    · -- the item has the value and no time
      intro clock
      rw [replayWal_concat]
      simp [replayRecord, applyOutcome, applyOutcomeItem, records_modifyRecord]
  · rw [if_neg fun hx => hbetter (hoffer.mp hx)] at hset
    have hunl : (e.execute config now
        (.controlStateSelectionSet key value occurTimeMs 0 ty)).1 = _ :=
      e.execute_unlogged config now (by rw [hset])
    rw [hset] at hunl
    rw [Engine.selectionStep, hunl, SelectionTrace.step, if_neg hbetter]
    exact { h with }

lemma Recalls.checkpoint : Recalls key ty e.checkpoint (trace.step ty .checkpoint) where
  __ := h
  replayDeadlines _ := h.deadlines
  replayed _ := by
    unfold SelectionTrace.step
    rw [Bool.or_false]
    exact h.stored

lemma Recalls.crash (clock : ℕ) (reconciled persisted : Bool) :
    Recalls key ty (e.recover clock reconciled persisted)
      (trace.step ty (.crash clock reconciled persisted)) := by
  have hdead := h.replayDeadlines clock
  have hrepl := h.replayed clock
  -- the reconciled counters are beside the selections
  obtain ⟨shard, hshard, hd, hs⟩ : ∃ shard, (if reconciled then
      (replayWal clock e.index e.log).reconcileControlState else replayWal clock e.index e.log) =
      shard ∧ NoDeadlines shard ∧ (shard.records key).controlStateSelection =
        trace.best.map fun w => ⟨if trace.lost || trace.logged then 0 else w.1, w.2, ty⟩ := by
    refine ⟨_, rfl, ?_, ?_⟩
    · split <;> exact hdead
    · split <;> exact hrepl
  unfold Engine.recover SelectionTrace.step
  dsimp only
  rw [hshard]
  split
  · exact ⟨hd, fun _ => hd, hs, fun _ => by rw [Bool.or_false]; exact hs⟩
  · exact ⟨hd, h.replayDeadlines, hs, fun clock => by rw [Bool.or_false]; exact h.replayed clock⟩

lemma Recalls.step {event : SelectionEvent} (hcare : trace.Careful ty event) :
    Recalls key ty (e.selectionStep config key ty event) (trace.step ty event) := by
  cases event with
  | write now value occurTimeMs => exact h.write hcare
  | checkpoint => exact h.checkpoint
  | crash clock reconciled persisted => exact h.crash clock reconciled persisted

lemma Recalls.run {events : List SelectionEvent} (hcare : CarefulRun ty trace events) :
    Recalls key ty (e.selectionRun config key ty events)
      (events.foldl (SelectionTrace.step ty) trace) := by
  induction events generalizing e trace with
  | nil => exact h
  | cons event events ih => exact ih (h.step hcare.1) hcare.2

end

lemma selected_trace (events : List SelectionEvent) {writes : List (ℕ × Bytes)}
    (h : (writes = [] ∧ trace.best = none) ∨ ∃ w, Selected ty writes w ∧ trace.best = some w) :
    (writes ++ selectionWrites events = [] ∧
        (events.foldl (SelectionTrace.step ty) trace).best = none) ∨
      ∃ w, Selected ty (writes ++ selectionWrites events) w ∧
        (events.foldl (SelectionTrace.step ty) trace).best = some w := by
  induction events generalizing writes trace with
  | nil => simpa [selectionWrites] using h
  | cons event events ih =>
    cases event with
    | checkpoint => exact ih h
    | crash clock reconciled persisted => exact ih h
    | write now value occurTimeMs =>
      rw [selectionWrites, append_cons]
      apply ih
      right
      unfold SelectionTrace.step
      dsimp only
      rcases h with ⟨rfl, hnone⟩ | ⟨w, hsel, hbest⟩
      · rw [hnone]
        exact ⟨_, ⟨[], [], rfl, nofun, nofun⟩, rfl⟩
      · rw [hbest]
        by_cases hbetter : ty.Better (occurTime now occurTimeMs) w.1
        · rw [if_pos (by simpa using hbetter)]
          exact ⟨_, hsel.replace hbetter, rfl⟩
        · rw [if_neg (by simpa using hbetter)]
          exact ⟨w, hsel.keep hbetter, hbest⟩

/-- In a careful run the stored value is that of the selected write. -/
theorem selection_of_careful (events : List SelectionEvent)
    (hcareful : CarefulRun ty .start events) :
    (selectionWrites events = [] ∧ ((Engine.empty.selectionRun config key ty events).shard.records
        key).controlStateSelection = none) ∨ ∃ w, Selected ty (selectionWrites events) w ∧
        ((Engine.empty.selectionRun config key ty events).shard.records
          key).controlStateSelection.map (·.value) = some w.2 := by
  have hempty : Recalls key ty .empty .start := ⟨fun _ => rfl, fun _ _ => rfl, rfl, fun _ => rfl⟩
  have hrun : Recalls key ty (Engine.empty.selectionRun config key ty events) _ :=
    hempty.run hcareful
  rcases selected_trace events (.inl ⟨rfl, rfl⟩ : _ ∨ ∃ w, Selected ty [] w ∧
      SelectionTrace.start.best = some w) with ⟨hwrites, hbest⟩ | ⟨w, hselected, hbest⟩
  · refine .inl ⟨hwrites, ?_⟩
    rw [hrun.stored, hbest]
    rfl
  · refine .inr ⟨w, hselected, ?_⟩
    rw [hrun.stored, hbest]
    rfl

end Runs

def selectionConfig : Config := ⟨false, false, false, 0⟩

/-- A first value, a later one after the recovery, and a checkpoint. -/
def carefulFirst : List SelectionEvent :=
  [.write 1 [10] 50, .crash 2 false true, .write 3 [11] 60, .checkpoint]

theorem selection_carefulFirst : CarefulRun .first .start carefulFirst ∧
    ((selectionWrites carefulFirst = [] ∧ ((Engine.empty.selectionRun selectionConfig [] .first
        carefulFirst).shard.records []).controlStateSelection = none) ∨
      ∃ w, Selected .first (selectionWrites carefulFirst) w ∧
        ((Engine.empty.selectionRun selectionConfig [] .first carefulFirst).shard.records
          []).controlStateSelection.map (·.value) = some w.2) := by
  have hcareful : CarefulRun .first .start carefulFirst := by
    refine ⟨nofun, trivial, ?_, trivial, trivial⟩
    intro _ w hw
    cases hw
    decide
  exact ⟨hcareful, selection_of_careful carefulFirst hcareful⟩

/-- The last value is the one of time 50; after a crash the stored time is zero, and the value of
time 40 replaces it. -/
def forgottenLast : List SelectionEvent :=
  [.write 1 [10] 50, .crash 2 false true, .write 3 [11] 40]

theorem selection_forgottenLast : ¬∃ w, Selected .last (selectionWrites forgottenLast) w ∧
    ((Engine.empty.selectionRun selectionConfig [] .last forgottenLast).shard.records
      []).controlStateSelection.map (·.value) = some w.2 := by
  have hstored : ((Engine.empty.selectionRun selectionConfig [] .last forgottenLast).shard.records
      []).controlStateSelection.map (·.value) = some [11] := by decide +kernel
  rintro ⟨w, ⟨before, after, hwrites, hbefore, -⟩, hw⟩
  have hvalue : w.2 = [11] := (Option.some.inj (hstored.symm.trans hw)).symm
  change [(50, [10]), (40, [11])] = before ++ w :: after at hwrites
  cases before with
  | nil =>
    have hw' : w = (50, [10]) := (cons.inj hwrites).1.symm
    rw [hw'] at hvalue
    exact absurd hvalue (by decide)
  | cons x before =>
    have hx : x = (50, [10]) := (cons.inj hwrites).1.symm
    have hlt : x.1 < w.1 := hbefore x mem_cons_self
    have hmem : w ∈ [(40, [11])] := by
      rw [(cons.inj hwrites).2]
      simp
    rw [hx, mem_singleton.mp hmem] at hlt
    exact absurd hlt (by decide)

end TemporalStore.Shard
