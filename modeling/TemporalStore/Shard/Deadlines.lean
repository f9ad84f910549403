import TemporalStore.Lib.Lists
import TemporalStore.Lib.Mirror
import TemporalStore.Shard.Frames

/-! # Deadlines and their ordered view (`engine.rs`, `engine/recovery_sweep_compact.rs`) -/

namespace TemporalStore.Shard

open Lib List Function

instance : Std.Total instantLe where
  total a b := by
    rcases Nat.lt_trichotomy a.1 b.1 with h | h | h
    · exact .inl (.inl h)
    · exact (List.le_total a.2 b.2).imp (fun hle => .inr ⟨h, hle⟩) fun hle => .inr ⟨h.symm, hle⟩
    · exact .inr (.inl h)

instance : IsTrans (ℕ × Key) instantLe where
  trans a b c := by
    rintro (hab | ⟨hab, hle⟩) (hbc | ⟨hbc, hle'⟩)
    · exact .inl (hab.trans hbc)
    · exact .inl (hbc ▸ hab)
    · exact .inl (hab ▸ hbc)
    · exact .inr ⟨hab.trans hbc, List.le_trans hle hle'⟩

/-- The view holds the deadlines in order. -/
structure ShardState.InOrder (s : ShardState) : Prop where
  mirrors : Mirrors s.expiresAt s.expiryByDeadline
  sorted : s.expiryByDeadline.Pairwise instantLe

section

variable {s : ShardState} (h : s.InOrder)
include h

lemma ShardState.InOrder.setExpiry (key : Key) (expiresAt : ℕ) :
    (s.setExpiry key expiresAt).InOrder := by
  obtain ⟨rest, hrest, hmirrors, hsort⟩ : ∃ rest : List (ℕ × Key),
      (s.setExpiry key expiresAt).expiryByDeadline =
        rest.orderedInsert instantLe (expiresAt, key) ∧
      Mirrors (update s.expiresAt key none) rest ∧ rest.Pairwise instantLe := by
    refine ⟨_, rfl, h.mirrors.forget (fun t ht => by simp only [ht]) fun hk => by simp only [hk],
      ?_⟩
    split
    · exact h.sorted.sublist erase_sublist
    · exact h.sorted
  have hset := hmirrors.insert instantLe (update_self ..) expiresAt
  rw [update_idem, ← hrest] at hset
  refine ⟨hset, ?_⟩
  rw [hrest]
  exact hsort.orderedInsert _ _

lemma ShardState.InOrder.clearExpiry (key : Key) : (s.clearExpiry key).1.InOrder := by
  unfold ShardState.clearExpiry
  split
  case h_1 previous hprev =>
    exact ⟨h.mirrors.erase hprev, h.sorted.sublist erase_sublist⟩
  case h_2 => exact h

end

/-- The deadlines by key, which are stored, and the view, which is not. -/
structure Deadlines where
  expiresAtMs : AList fun _ : Key => ℕ
  expiryByDeadline : List (ℕ × Key)

/-- What a captured key state says of the deadline. -/
inductive CapturedDeadline where
  /-- No field, or null: the key had no deadline. -/
  | absent
  | expiresAtMs (deadline : ℕ)
  /-- The field does not parse, and nothing is changed. -/
  | malformed

/-- A captured key state, as far as it bears on deadlines: one without a key is passed over, and so
is one that carries container elements. -/
structure KeyState where
  key : Option Key
  carriesContainer : Bool
  deadline : CapturedDeadline

namespace Deadlines

variable (d : Deadlines)

/-- The view is rebuilt where it is empty and the map is not. -/
def ensureExpiryOrder : Deadlines :=
  if d.expiryByDeadline.isEmpty && !d.expiresAtMs.entries.isEmpty then
    { d with
      expiryByDeadline :=
        (d.expiresAtMs.entries.map fun x => (x.2, x.1)).insertionSort instantLe }
  else d

def setExpiry (key : Key) (expiresAt : ℕ) : Deadlines :=
  let d := d.ensureExpiryOrder
  let byDeadline := match d.expiresAtMs.lookup key with
    | some previous => d.expiryByDeadline.erase (previous, key)
    | none => d.expiryByDeadline
  ⟨d.expiresAtMs.insert key expiresAt, byDeadline.orderedInsert instantLe (expiresAt, key)⟩

def clearExpiry (key : Key) : Deadlines :=
  let d := d.ensureExpiryOrder
  match d.expiresAtMs.lookup key with
  | some previous => ⟨d.expiresAtMs.erase key, d.expiryByDeadline.erase (previous, key)⟩
  | none => d

/-- The deadlines of a deleted record and of its control states go. -/
def deleteRecord (key : Key) : Deadlines :=
  (associatedRecordKeys key).foldl clearExpiry d

def applyKeyState (deadlines : AList fun _ : Key => ℕ) (blob : KeyState) : AList fun _ : Key => ℕ :=
  match blob.key, blob.carriesContainer with
  | some key, false =>
    match blob.deadline with
    | .absent => deadlines.erase key
    | .expiresAtMs deadline => deadlines.insert key deadline
    | .malformed => deadlines
  | _, _ => deadlines

/-- The captures write the map, so the view is dropped. -/
def applyKeyStates (blobs : List KeyState) : Deadlines :=
  ⟨blobs.foldl applyKeyState d.expiresAtMs, if blobs.isEmpty then d.expiryByDeadline else []⟩

inductive Event where
  | setExpiry (key : Key) (expiresAt : ℕ)
  | clearExpiry (key : Key)
  | deleteRecord (key : Key)
  | applyKeyStates (blobs : List KeyState)
  | restore (stored : AList fun _ : Key => ℕ)
  | ensureExpiryOrder

def step : Event → Deadlines
  | .setExpiry key expiresAt => d.setExpiry key expiresAt
  | .clearExpiry key => d.clearExpiry key
  | .deleteRecord key => d.deleteRecord key
  | .applyKeyStates blobs => d.applyKeyStates blobs
  | .restore stored => ⟨stored, []⟩
  | .ensureExpiryOrder => d.ensureExpiryOrder

def onto (s : ShardState) : ShardState :=
  { s with
    expiresAt := fun key => d.expiresAtMs.lookup key
    expiryByDeadline := d.expiryByDeadline }

lemma onto_setExpiry (s : ShardState) (key : Key) (expiresAt : ℕ) :
    (d.setExpiry key expiresAt).onto s = (d.ensureExpiryOrder.onto s).setExpiry key expiresAt := by
  have hlookup : (fun k => (d.ensureExpiryOrder.expiresAtMs.insert key expiresAt).lookup k) =
      update (fun k => d.ensureExpiryOrder.expiresAtMs.lookup k) key (some expiresAt) := by
    funext k
    rw [update_apply]
    split
    case isTrue hk => rw [hk, AList.lookup_insert]
    case isFalse hk => exact AList.lookup_insert_ne hk
  unfold setExpiry onto ShardState.setExpiry
  dsimp only
  cases d.ensureExpiryOrder.expiresAtMs.lookup key <;> rw [hlookup]

lemma onto_clearExpiry (s : ShardState) (key : Key) :
    (d.clearExpiry key).onto s = ((d.ensureExpiryOrder.onto s).clearExpiry key).1 := by
  have hlookup : (fun k => (d.ensureExpiryOrder.expiresAtMs.erase key).lookup k) =
      update (fun k => d.ensureExpiryOrder.expiresAtMs.lookup k) key none := by
    funext k
    rw [update_apply]
    split
    case isTrue hk => rw [hk, AList.lookup_erase]
    case isFalse hk => exact AList.lookup_erase_ne hk
  unfold clearExpiry onto ShardState.clearExpiry
  split <;> simp_all

/-- The view was dropped, or it holds the deadlines of the map in order. -/
def Ready : Prop := d.expiryByDeadline = [] ∨ (d.onto .empty).InOrder

lemma expiresAtMs_ensureExpiryOrder : d.ensureExpiryOrder.expiresAtMs = d.expiresAtMs := by
  unfold ensureExpiryOrder
  split <;> rfl

lemma mirrors_entries (deadlines : AList fun _ : Key => ℕ) :
    Mirrors (fun key => deadlines.lookup key) (deadlines.entries.map fun x => (x.2, x.1)) := by
  constructor
  · refine deadlines.nodupKeys.nodup.map fun x y hxy => ?_
    cases y
    cases hxy
    rfl
  · intro t key
    refine Iff.trans ?_ AList.mem_lookup_iff.symm
    simp [mem_map]

variable {d}

lemma Ready.ensure (h : d.Ready) : (d.ensureExpiryOrder.onto .empty).InOrder := by
  unfold ensureExpiryOrder
  split
  case isTrue =>
    exact ⟨(mirrors_entries d.expiresAtMs).perm (perm_insertionSort ..), pairwise_insertionSort ..⟩
  case isFalse hrebuilt =>
    rcases h with hdropped | h
    · have hnone : d.expiresAtMs.entries = [] := by simpa [hdropped] using hrebuilt
      rw [onto, hdropped]
      exact ⟨mirrors_nil fun key => by simp [AList.lookup, hnone], Pairwise.nil⟩
    · exact h

lemma Ready.clearExpiry (h : d.Ready) (key : Key) : (d.clearExpiry key).Ready := by
  right
  rw [onto_clearExpiry]
  exact h.ensure.clearExpiry key

lemma Ready.step (h : d.Ready) (event : Event) : (d.step event).Ready := by
  cases event with
  | setExpiry key expiresAt =>
    right
    rw [Deadlines.step, onto_setExpiry]
    exact h.ensure.setExpiry key expiresAt
  | clearExpiry key => exact h.clearExpiry key
  | deleteRecord key =>
    exact foldlRecOn _ _ h fun d hd key _ => hd.clearExpiry key
  | applyKeyStates blobs =>
    cases blobs with
    | nil => exact h
    | cons => exact .inl rfl
  | restore stored => exact .inl rfl
  | ensureExpiryOrder => exact .inr h.ensure

def run (events : List Event) : Deadlines := events.foldl Deadlines.step ⟨∅, []⟩

end Deadlines

/-- The first elements that a limit allows, where zero is no limit. -/
def upTo {α : Type} (limit used : ℕ) (l : List α) : List α :=
  if limit = 0 then l else l.take (limit - used)

namespace ShardState

lemma dueWindow_eq (now limit scanBudget : ℕ) (keep : Key → Bool) (view : List (ℕ × Key))
    (selected walked : ℕ) : dueWindow now limit scanBudget keep view selected walked =
      (upTo limit selected ((upTo scanBudget walked (view.takeWhile (·.1 ≤ now))).filter
        fun x => keep x.2)).map Prod.swap := by
  induction view generalizing selected walked with
  | nil => simp [dueWindow, upTo]
  | cons x view ih =>
    obtain ⟨expiresAt, key⟩ := x
    unfold dueWindow
    by_cases hdue : now < expiresAt
    · simp [hdue, upTo]
    rw [if_neg hdue, takeWhile_cons_of_pos (by simpa using hdue)]
    by_cases hfull : 0 < limit ∧ limit ≤ selected
    · simp [upTo, hfull, Nat.pos_iff_ne_zero.mp hfull.1]
    rw [if_neg hfull]
    by_cases hspent : 0 < scanBudget ∧ scanBudget ≤ walked
    · simp [upTo, hspent, Nat.pos_iff_ne_zero.mp hspent.1]
    rw [if_neg hspent]
    have hwalk : upTo scanBudget walked ((expiresAt, key) :: view.takeWhile (·.1 ≤ now)) =
        (expiresAt, key) :: upTo scanBudget (walked + 1) (view.takeWhile (·.1 ≤ now)) := by
      unfold upTo
      split
      · rfl
      · rw [show scanBudget - walked = scanBudget - (walked + 1) + 1 by omega, take_succ_cons]
    rw [hwalk, filter_cons, ih, ih]
    split
    · unfold upTo
      split
      · rfl
      · rw [show limit - selected = limit - (selected + 1) + 1 by omega]
        rfl
    · rfl

lemma InOrder.takeWhile_due {s : ShardState} (h : s.InOrder) (now n : ℕ) :
    (s.expiryByDeadline.takeWhile (·.1 ≤ now)).take n =
      (s.expiryByDeadline.take n).filter (·.1 ≤ now) := by
  refine take_takeWhile_eq_filter (h.sorted.imp fun {a b} hle hb => ?_) n
  simp only [decide_eq_true_eq] at hb ⊢
  rcases hle with hlt | ⟨heq, -⟩ <;> omega

lemma InOrder.dueWindow_all {s : ShardState} (h : s.InOrder) (now : ℕ) :
    dueWindow now 0 0 (fun _ => true) s.expiryByDeadline 0 0 =
      (s.expiryByDeadline.filter (·.1 ≤ now)).map Prod.swap := by
  have hall := h.takeWhile_due now s.expiryByDeadline.length
  have hlen : (s.expiryByDeadline.takeWhile (·.1 ≤ now)).length ≤ s.expiryByDeadline.length :=
    (takeWhile_sublist _).length_le
  rw [take_length, take_of_length_le hlen] at hall
  rw [dueWindow_eq, ← hall]
  simp [upTo]

end ShardState

/-- Once the view is ensured it holds the pairs of the deadline map, each once, and the window at an
instant holds the keys whose deadline has passed, in order of deadline. -/
theorem Deadlines.ensureExpiryOrder_run (events : List Deadlines.Event) (now : ℕ) :
    (run events).ensureExpiryOrder.expiresAtMs = (run events).expiresAtMs ∧
    Mirrors (fun key => (run events).expiresAtMs.lookup key)
      (run events).ensureExpiryOrder.expiryByDeadline ∧
    ∃ due, ShardState.dueWindow now 0 0 (fun _ => true)
        (run events).ensureExpiryOrder.expiryByDeadline 0 0 = due ∧
      due.Nodup ∧ due.Pairwise (fun x y => x.2 ≤ y.2) ∧ ∀ key deadline, (key, deadline) ∈ due ↔
        (run events).expiresAtMs.lookup key = some deadline ∧ deadline ≤ now := by
  have hready : (run events).Ready := foldlRecOn _ _ (.inl rfl) fun _ hd event _ => hd.step event
  have horder := hready.ensure
  have hmirrors := horder.mirrors
  simp only [onto, expiresAtMs_ensureExpiryOrder] at hmirrors
  refine ⟨expiresAtMs_ensureExpiryOrder _, hmirrors, _, horder.dueWindow_all now, ?_, ?_, ?_⟩
  · exact (hmirrors.nodup.filter _).map Prod.swap_injective
  · refine pairwise_map.mpr ((horder.sorted.sublist filter_sublist).imp fun hle => ?_)
    rcases hle with hlt | ⟨heq, -⟩
    · exact hlt.le
    · exact heq.le
  · intro key deadline
    rw [← hmirrors.mem_iff, mem_map]
    constructor
    · rintro ⟨x, hx, heq⟩
      obtain ⟨hmem, hdue⟩ := mem_filter.mp hx
      cases heq
      exact ⟨hmem, by simpa using hdue⟩
    · rintro ⟨hmem, hdue⟩
      exact ⟨(deadline, key), mem_filter.mpr ⟨hmem, by simpa using hdue⟩, rfl⟩

end TemporalStore.Shard
