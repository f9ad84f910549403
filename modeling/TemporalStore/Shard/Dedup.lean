import TemporalStore.Lib.Lapse
import TemporalStore.Shard.Ladder
import TemporalStore.Shard.Replay

namespace TemporalStore.Shard

open Lib List Option ShardState Ledger

structure UuidTriple where
  family : ControlStateFamily
  key : Key
  uuid : Bytes
  deriving DecidableEq

namespace UuidTriple

def familyKey (t : UuidTriple) : Key := controlStateFamilyKey t.family t.key

def dedup (t : UuidTriple) : Bytes := dedupKey t.familyKey t.uuid

end UuidTriple

structure UuidWrite extends UuidTriple where
  uuid_ne : uuid ≠ []
  timestampMs : ℕ
  amount : ℤ
  startMs : ℕ
  endMs : ℕ
  aggregator : Aggregator
  precisionMs : Option ℕ
  ttlMs : Option ℕ

def UuidWrite.command (w : UuidWrite) : Command :=
  .controlStateSetAndGetWithOptions w.family w.key w.timestampMs w.amount w.startMs w.endMs
    w.aggregator w.precisionMs w.ttlMs (some w.uuid)

/-- The triple of a command that carries a uuid; an empty one counts as none. -/
def carried : Command → Option UuidTriple
  | .controlStateSetAndGetWithOptions family key _ _ _ _ _ _ _ (some uuid) =>
    if uuid = [] then none else some ⟨family, key, uuid⟩
  | _ => none

def uuidLedger (s : ShardState) : Ledger Bytes := s.uuidExpiry

variable {s s' : ShardState}

lemma uuidLedger_congr (h : s'.controlStateUuid = s.controlStateUuid) :
    uuidLedger s' = uuidLedger s := by
  unfold uuidLedger uuidExpiry
  rw [h]

def OneEntryEach (s : ShardState) : Prop := (s.controlStateUuid.map Prod.fst).Nodup

lemma live_iff_mem (h : OneEntryEach s) (k : Bytes) (t : ℕ) :
    (uuidLedger s).Live k t ↔ ∃ expiry, (k, expiry) ∈ s.controlStateUuid ∧ t < expiry := by
  have hfind : ∀ expiry, uuidLedger s k = some expiry ↔ (k, expiry) ∈ s.controlStateUuid := by
    intro expiry
    unfold uuidLedger uuidExpiry
    rw [map_eq_some_iff]
    constructor
    · rintro ⟨entry, hent, rfl⟩
      have hkey : entry.1 = k := by simpa using find?_some hent
      rw [← hkey]
      exact mem_of_find?_eq_some hent
    · intro hmem
      have hsome : (s.controlStateUuid.find? (·.1 = k)).isSome := by
        rw [find?_isSome]
        exact ⟨_, hmem, decide_eq_true rfl⟩
      obtain ⟨entry, hent⟩ := isSome_iff_exists.mp hsome
      have hkey : entry.1 = k := by simpa using find?_some hent
      have heq : entry = (k, expiry) := inj_on_of_nodup_map h (mem_of_find?_eq_some hent) hmem hkey
      exact ⟨entry, hent, by rw [heq]⟩
  unfold Ledger.Live
  simp only [hfind]

lemma oneEntryEach_gc (h : OneEntryEach s) (now : ℕ) : OneEntryEach (s.gcControlStateUuid now) := by
  unfold gcControlStateUuid
  split
  · exact h.sublist (filter_sublist.map _)
  · exact h

lemma agree_gcControlStateUuid (h : OneEntryEach s) (now : ℕ) :
    Ledger.AgreeFrom now (uuidLedger (s.gcControlStateUuid now)) (uuidLedger s) := by
  intro k t ht
  rw [live_iff_mem (oneEntryEach_gc h now), live_iff_mem h]
  unfold gcControlStateUuid
  split
  · apply exists_congr
    intro expiry
    simp only [mem_filter, decide_eq_true_eq]
    constructor
    · rintro ⟨⟨hmem, -⟩, hlt⟩
      exact ⟨hmem, hlt⟩
    · rintro ⟨hmem, hlt⟩
      exact ⟨⟨hmem, by omega⟩, hlt⟩
  · rfl

lemma oneEntryEach_note (h : OneEntryEach s) (dedup : Bytes) (expiry : ℕ) :
    OneEntryEach (s.noteUuid dedup expiry) := by
  apply nodup_cons.mpr
  constructor
  · intro hmem
    obtain ⟨entry, hent, hkey⟩ := mem_map.mp hmem
    exact of_decide_eq_true (mem_filter.mp hent).2 hkey
  · exact h.sublist (filter_sublist.map _)

lemma uuidLedger_noteUuid (s : ShardState) (dedup : Bytes) (expiry : ℕ) :
    uuidLedger (s.noteUuid dedup expiry) = (uuidLedger s).enter dedup expiry := by
  funext k
  unfold enter uuidLedger uuidExpiry noteUuid
  by_cases hk : k = dedup
  · subst hk
    simp
  · rw [Function.update_of_ne hk, find?_cons_of_neg (by simpa using Ne.symm hk), find?_filter]
    congr 2
    funext entry
    by_cases hent : entry.1 = k
    · simp [hent, hk]
    · simp [hent]

lemma any_lt_iff_live (s : ShardState) (k : Bytes) (now : ℕ) :
    (s.uuidExpiry k).any (now < ·) = true ↔ (uuidLedger s).Live k now := by
  rw [Option.any_eq_true]
  unfold Ledger.Live uuidLedger
  simp only [decide_eq_true_eq]

lemma checkUuid_ledger (h : OneEntryEach s) (now : ℕ) (t : UuidTriple) (huuid : t.uuid ≠ []) :
    OneEntryEach (s.checkUuid now t.familyKey (some t.uuid)).1 ∧
      Ledger.AgreeFrom now (uuidLedger (s.checkUuid now t.familyKey (some t.uuid)).1)
        ((uuidLedger s).check t.dedup now (saturatingAdd now controlStateUuidDedupMs)) ∧
      ((s.checkUuid now t.familyKey (some t.uuid)).2 = true ↔ (uuidLedger s).Live t.dedup now) := by
  have hgc := agree_gcControlStateUuid h now
  have hone := oneEntryEach_gc h now
  have hlive := (any_lt_iff_live (s.gcControlStateUuid now) t.dedup now).trans
    (hgc t.dedup now le_rfl)
  unfold check
  dsimp only [checkUuid]
  rw [if_neg huuid]
  by_cases hdup : ((s.gcControlStateUuid now).uuidExpiry t.dedup).any (now < ·) = true
  · rw [if_pos (hlive.mp hdup)]
    rw [show dedupKey t.familyKey t.uuid = t.dedup from rfl, if_pos hdup]
    exact ⟨hone, hgc, iff_of_true rfl (hlive.mp hdup)⟩
  · rw [if_neg fun hl => hdup (hlive.mpr hl)]
    rw [show dedupKey t.familyKey t.uuid = t.dedup from rfl, if_neg hdup]
    refine ⟨oneEntryEach_note hone _ _, ?_, iff_of_false Bool.false_ne_true fun hl =>
      hdup (hlive.mpr hl)⟩
    rw [uuidLedger_noteUuid]
    exact hgc.enter _ _

variable {command : Command}

lemma carriesUuid_eq_false (h : carried command = none) : carriesUuid command = false := by
  cases command with
  | controlStateSetAndGetWithOptions _ _ _ _ _ _ _ _ _ uuid =>
    cases uuid with
    | none => rfl
    | some uuid => simpa [carried, carriesUuid] using h
  | _ => rfl

lemma executeOnShard_ledger (config : Config) (now : ℕ) (s : ShardState)
    (h : carried command = none) :
    (executeOnShard config now s command).shard.controlStateUuid = s.controlStateUuid := by
  cases htouches : touchesCounters command with
  | false => exact (executeOnShard_frame config now s htouches).ledger
  | true =>
    obtain ⟨s₁, _, _, hfr, -, -, hled⟩ := executeOnShard_touches config now s htouches
    exact (hled (carriesUuid_eq_false h)).trans hfr.ledger

lemma ledger_applyOutcomeItem (s : ShardState) (item : OutcomeItem) :
    (s.applyOutcomeItem item).controlStateUuid = s.controlStateUuid := by
  cases item with
  | object key ttl deleted =>
    unfold applyOutcomeItem
    dsimp only
    split
    · exact (s.frame_deleteRecord key).ledger
    · cases ttl with
      | none => exact (frame_clearEach _ s).ledger
      | some expiresAt => exact (frame_expireExisting expiresAt _ s).ledger
  | _ => rfl

lemma ledger_applyOutcome (s : ShardState) (items : List OutcomeItem) :
    (s.applyOutcome items).controlStateUuid = s.controlStateUuid := by
  induction items generalizing s with
  | nil => rfl
  | cons item items ih => exact (ih _).trans (ledger_applyOutcomeItem s item)

/-- The counter as a command at `now` finds it. -/
def counterAt (s : ShardState) (now : ℕ) (t : UuidTriple) : CounterSeries :=
  (s.removeIfExpired now t.key).1.counter t.familyKey

namespace ShardState

lemma deleteRecordExact_withMaxSize (s : ShardState) (maxSize : ℕ) (key : Key) :
    { s with controlStateMaxSize := maxSize }.deleteRecordExact key =
      ({ (s.deleteRecordExact key).1 with controlStateMaxSize := maxSize },
        (s.deleteRecordExact key).2) := by
  unfold deleteRecordExact clearExpiry
  dsimp only
  split <;> rfl

lemma removeIfExpired_withMaxSize (s : ShardState) (maxSize now : ℕ) (key : Key) :
    ({ s with controlStateMaxSize := maxSize }.removeIfExpired now key).1 =
      { (s.removeIfExpired now key).1 with controlStateMaxSize := maxSize } := by
  unfold removeIfExpired
  generalize associatedRecordKeys key = keys
  induction keys generalizing s with
  | nil => rfl
  | cons k keys ih =>
    unfold deleteEach
    change (if s.expired now k = true then _ else _ : ShardState × Bool).1 = _
    by_cases hexpired : s.expired now k = true
    · rw [if_pos hexpired, if_pos hexpired, deleteRecordExact_withMaxSize]
      exact ih _
    · rw [if_neg hexpired, if_neg hexpired]
      exact ih s

end ShardState

lemma OneEntryEach.congr (h : OneEntryEach s)
    (hled : s'.controlStateUuid = s.controlStateUuid) : OneEntryEach s' := by
  unfold OneEntryEach
  rw [hled]
  exact h

lemma uuidWrite_spec (config : Config) (now : ℕ) (h : OneEntryEach s) (w : UuidWrite)
    (hs' : s' = (executeOnShard config now s w.command).shard) : OneEntryEach s' ∧
      Ledger.AgreeFrom now (uuidLedger s') ((uuidLedger s).check w.dedup now
        (saturatingAdd now controlStateUuidDedupMs)) ∧
      s'.counter w.familyKey = bounded config.controlStateMaxSize
        (if (uuidLedger s).Live w.dedup now then counterAt s now w.toUuidTriple
          else (counterAt s now w.toUuidTriple).bump (bucketMs w.precisionMs w.timestampMs)
            w.amount) := by
  have hled : _ = s.controlStateUuid := (frame_removeIfExpired
    { s with controlStateMaxSize := config.controlStateMaxSize } now w.key).ledger
  have hctr : ({ s with controlStateMaxSize := config.controlStateMaxSize }.removeIfExpired now
      w.key).1.counter w.familyKey = counterAt s now w.toUuidTriple := by
    rw [removeIfExpired_withMaxSize]
    rfl
  have hmax := (frame_removeIfExpired
    { s with controlStateMaxSize := config.controlStateMaxSize } now w.key).maxSize
  unfold UuidWrite.command executeOnShard at hs'
  dsimp only [controlStateSetAndGetWithOptions] at hs'
  generalize ({ s with controlStateMaxSize := config.controlStateMaxSize }.removeIfExpired now
    w.key).1 = s₁ at hled hctr hmax hs'
  rw [← uuidLedger_congr hled]
  obtain ⟨hone, hagree, hdup⟩ := checkUuid_ledger (h.congr hled) now w.toUuidTriple w.uuid_ne
  obtain ⟨hctr', -, hmax'⟩ := s₁.checkUuid_counter now w.familyKey (some w.uuid)
  rw [show controlStateFamilyKey w.family w.key = w.familyKey from rfl] at hs'
  generalize s₁.checkUuid now w.familyKey (some w.uuid) = c at hone hagree hdup hctr' hmax' hs'
  obtain ⟨s₂, dup⟩ := c
  cases dup with
  | true =>
    rw [Bool.not_true, Bool.and_false, if_pos rfl] at hs'
    obtain ⟨hled', -, -, hseries⟩ := finish_eq _ config now w.familyKey w.ttlMs hs'
    refine ⟨hone.congr hled', ?_, ?_⟩
    · rw [uuidLedger_congr hled']
      exact hagree
    · rw [if_pos (hdup.mp rfl), hseries, if_pos rfl, counter_modifyRecord, if_pos rfl]
      change bounded s₂.controlStateMaxSize (s₂.counter w.familyKey) = _
      rw [hmax', hmax, hctr', hctr]
  | false =>
    rw [if_neg Bool.false_ne_true] at hs'
    generalize ht : (((s₂.addToCounter w.familyKey (bucketMs w.precisionMs w.timestampMs)
      w.amount).persistControlStateBlock config w.familyKey).1.optionalExpiry now w.familyKey
        w.ttlMs).1 = t at hs'
    obtain ⟨hled', -, -, hseries⟩ := finish_eq _ config now w.familyKey w.ttlMs ht.symm
    -- the ladder is no part of the ledger or of the series
    have hkeep : s'.controlStateUuid = t.controlStateUuid ∧ s'.counter = t.counter := by
      rw [hs']
      split <;> exact ⟨rfl, rfl⟩
    refine ⟨hone.congr (hkeep.1.trans hled'), ?_, ?_⟩
    · rw [uuidLedger_congr (hkeep.1.trans hled')]
      exact hagree
    · rw [if_neg fun hl => Bool.false_ne_true (hdup.mpr hl), hkeep.2, hseries, if_pos rfl,
        counter_addToCounter, if_pos rfl]
      change bounded s₂.controlStateMaxSize _ = _
      rw [hmax', hmax, hctr', hctr]

inductive DedupEvent where
  | execute (config : Config) (now : ℕ) (command : Command)
  | checkpoint
  | crash (clock : ℕ) (reconciled persisted : Bool)

/-- The triple of a write that is about to be counted. -/
def accepts (e : Engine) (now : ℕ) (command : Command) : Option UuidTriple :=
  match carried command with
  | none => none
  | some t => if (e.shard.checkUuid now t.familyKey (some t.uuid)).2 then none else some t

structure DedupTrace where
  clock : ℕ
  /-- The accepted writes and their instants. -/
  accepted : List (UuidTriple × ℕ)
  /-- The triples accepted since the index was persisted by a write whose record has items. -/
  itemised : List UuidTriple
  /-- The accepted writes of which a crash left only the items. -/
  lost : List (UuidTriple × ℕ)

namespace DedupTrace

def start : DedupTrace := ⟨0, [], [], []⟩

def step (e : Engine) (trace : DedupTrace) : DedupEvent → DedupTrace
  | .execute config now command =>
    match accepts e now command with
    | none => { trace with clock := now }
    | some t => { trace with
        clock := now
        accepted := (t, now) :: trace.accepted
        itemised := if (executeOnShard config now e.shard command).items = [] then trace.itemised
          else t :: trace.itemised }
  | .checkpoint => { trace with itemised := [] }
  | .crash _ _ persisted => { trace with
      itemised := if persisted && !e.log.isEmpty then [] else trace.itemised
      lost := trace.accepted.filter (·.1 ∈ trace.itemised) ++ trace.lost }

end DedupTrace

structure DedupState where
  engine : Engine
  trace : DedupTrace

namespace DedupState

def start : DedupState := ⟨.empty, .start⟩

def step (d : DedupState) (event : DedupEvent) : DedupState where
  engine := match event with
    | .execute config now command => (d.engine.execute config now command).1
    | .checkpoint => d.engine.checkpoint
    | .crash clock reconciled persisted => d.engine.recover clock reconciled persisted
  trace := d.trace.step d.engine event

def run (d : DedupState) (events : List DedupEvent) : DedupState := events.foldl step d

end DedupState

/-- A write whose triple is told from the accepted ones by the key of the ledger, and of which no
accepted one that is still in its window was lost. A duplicate finds its series within the bound. -/
structure CarefulWrite (d : DedupState) (config : Config) (now : ℕ) (t : UuidTriple) : Prop where
  clock : now < u64Max
  distinct : ∀ a ∈ d.trace.accepted, a.1.dedup = t.dedup → a.1 = t
  lapsed : ∀ a ∈ d.trace.lost, a.1 = t → a.2 + controlStateUuidDedupMs ≤ now
  within : (∃ a ∈ d.trace.accepted, a.1 = t ∧ now < a.2 + controlStateUuidDedupMs) →
    config.controlStateMaxSize = 0 ∨
      (counterAt d.engine.shard now t).length ≤ config.controlStateMaxSize

/-- Clock readings are positive and do not go back. -/
def Careful (d : DedupState) : DedupEvent → Prop
  | .execute config now command => 0 < now ∧ d.trace.clock ≤ now ∧
    ∀ t, carried command = some t → CarefulWrite d config now t
  | .checkpoint | .crash _ _ _ => True

def CarefulEvents : DedupState → List DedupEvent → Prop
  | _, [] => True
  | d, event :: events => Careful d event ∧ CarefulEvents (d.step event) events

def uuidLapse (now : ℕ) : ℕ := saturatingAdd now controlStateUuidDedupMs

variable {now : ℕ}

lemma uuidLapse_mono {now' : ℕ} (h : now ≤ now') : uuidLapse now ≤ uuidLapse now' := by
  unfold uuidLapse saturatingAdd
  omega

/-- How the ledger `m` in memory and the ledger `r` of a replay stand to the accepted writes. -/
structure Ledgers (trace : DedupTrace) (m r : Ledger Bytes) : Prop where
  dated : ∀ a ∈ trace.accepted, a.2 ≤ trace.clock
  known : ∀ k t, trace.clock ≤ t → m.Live k t → ∃ a ∈ trace.accepted, a.1.dedup = k
  knownReplayed : ∀ k t, trace.clock ≤ t → r.Live k t → ∃ a ∈ trace.accepted, a.1.dedup = k
  covers : ∀ a ∈ trace.accepted, a ∉ trace.lost → ∀ t, trace.clock ≤ t → t < uuidLapse a.2 →
    m.Live a.1.dedup t
  agrees : ∀ a ∈ trace.accepted, a.1 ∉ trace.itemised → ∀ t, trace.clock ≤ t →
    (m.Live a.1.dedup t ↔ r.Live a.1.dedup t)

namespace Ledgers

variable {trace : DedupTrace} {m m' r r' : Ledger Bytes}

lemma later (h : Ledgers trace m r) {now : ℕ} (hnow : trace.clock ≤ now) :
    Ledgers { trace with clock := now } m r where
  dated a ha := (h.dated a ha).trans hnow
  known k t ht := h.known k t (hnow.trans ht)
  knownReplayed k t ht := h.knownReplayed k t (hnow.trans ht)
  covers a ha hlost t ht := h.covers a ha hlost t (hnow.trans ht)
  agrees a ha hitem t ht := h.agrees a ha hitem t (hnow.trans ht)

lemma congr (h : Ledgers trace m r) (hm : Ledger.AgreeFrom trace.clock m' m)
    (hr : Ledger.AgreeFrom trace.clock r' r) : Ledgers trace m' r' where
  dated := h.dated
  known k t ht hlive := h.known k t ht ((hm k t ht).mp hlive)
  knownReplayed k t ht hlive := h.knownReplayed k t ht ((hr k t ht).mp hlive)
  covers a ha hlost t ht hlt := (hm _ t ht).mpr (h.covers a ha hlost t ht hlt)
  agrees a ha hitem t ht := ((hm _ t ht).trans (h.agrees a ha hitem t ht)).trans (hr _ t ht).symm

lemma saved (h : Ledgers trace m r) : Ledgers { trace with itemised := [] } m m where
  __ := h
  knownReplayed := h.known
  agrees _ _ _ _ _ := Iff.rfl

/-- A replay brings back the ledger but for the writes of which only the items were installed. -/
lemma replayed (h : Ledgers trace m r) (itemised : List UuidTriple) : Ledgers { trace with
      itemised := itemised
      lost := trace.accepted.filter (·.1 ∈ trace.itemised) ++ trace.lost } r r where
  __ := h
  known := h.knownReplayed
  covers a ha hlost t ht hlt := by
    have hkept : a.1 ∉ trace.itemised ∧ a ∉ trace.lost := by
      constructor
      · intro hitem
        exact hlost (mem_append_left _ (mem_filter.mpr ⟨ha, decide_eq_true hitem⟩))
      · intro hlost'
        exact hlost (mem_append_right _ hlost')
    exact (h.agrees a ha hkept.1 t ht).mp (h.covers a ha hkept.2 t ht hlt)
  agrees _ _ _ _ _ := Iff.rfl

variable {u : UuidTriple}

section

variable (h : Ledgers trace m r)
include h

lemma duplicate (hlive : m.Live u.dedup trace.clock) (expiry : ℕ) :
    Ledgers trace m (r.check u.dedup trace.clock expiry) where
  __ := h
  knownReplayed k t ht hl := by
    by_cases hk : k = u.dedup
    · rw [hk]
      exact h.known _ _ le_rfl hlive
    · exact h.knownReplayed k t ht ((r.live_check_of_ne hk _ _ t).mp hl)
  agrees a ha hitem t ht := by
    by_cases hk : a.1.dedup = u.dedup
    · -- the replay finds the entry too
      have hrlive : r.Live u.dedup trace.clock := by
        have hagree := h.agrees a ha hitem trace.clock le_rfl
        rw [hk] at hagree
        exact hagree.mp hlive
      unfold check
      rw [if_pos hrlive]
      exact h.agrees a ha hitem t ht
    · rw [r.live_check_of_ne hk]
      exact h.agrees a ha hitem t ht

lemma covers_enter :
    ∀ a ∈ (u, trace.clock) :: trace.accepted, a ∉ trace.lost → ∀ t, trace.clock ≤ t →
      t < uuidLapse a.2 → (m.enter u.dedup (uuidLapse trace.clock)).Live a.1.dedup t := by
  intro a ha hlost t ht hlt
  by_cases hk : a.1.dedup = u.dedup
  · rw [hk, live_enter_self]
    have hdated : a.2 ≤ trace.clock := by
      rcases mem_cons.mp ha with rfl | ha
      · exact le_rfl
      · exact h.dated a ha
    exact hlt.trans_le (uuidLapse_mono hdated)
  · rw [m.live_enter_of_ne hk]
    rcases mem_cons.mp ha with rfl | ha
    · exact absurd rfl hk
    · exact h.covers a ha hlost t ht hlt

lemma known_enter (expiry : ℕ) : ∀ k t, trace.clock ≤ t → (m.enter u.dedup expiry).Live k t →
      ∃ a ∈ (u, trace.clock) :: trace.accepted, a.1.dedup = k := by
  intro k t ht hl
  by_cases hk : k = u.dedup
  · exact ⟨_, mem_cons_self, hk.symm⟩
  · obtain ⟨a, ha, hak⟩ := h.known k t ht ((m.live_enter_of_ne hk _ t).mp hl)
    exact ⟨a, mem_cons_of_mem _ ha, hak⟩

lemma dated_cons : ∀ a ∈ (u, trace.clock) :: trace.accepted, a.2 ≤ trace.clock := by
  exact forall_mem_cons.mpr ⟨le_rfl, h.dated⟩

lemma acceptedItems (hdist : ∀ a ∈ trace.accepted, a.1.dedup = u.dedup → a.1 = u) :
    Ledgers { trace with
      accepted := (u, trace.clock) :: trace.accepted
      itemised := u :: trace.itemised } (m.enter u.dedup (uuidLapse trace.clock)) r where
  dated := h.dated_cons
  known := h.known_enter _
  knownReplayed k t ht hl := by
    obtain ⟨a, ha, hak⟩ := h.knownReplayed k t ht hl
    exact ⟨a, mem_cons_of_mem _ ha, hak⟩
  covers := h.covers_enter
  agrees a ha hitem t ht := by
    obtain ⟨hne, hitem⟩ := not_or.mp (mt mem_cons.mpr hitem)
    have hmem : a ∈ trace.accepted := (mem_cons.mp ha).resolve_left fun heq => hne (heq ▸ rfl)
    rw [m.live_enter_of_ne fun hk => hne (hdist a hmem hk)]
    exact h.agrees a hmem hitem t ht

lemma acceptedAgain (hlive : ¬m.Live u.dedup trace.clock)
    (hdist : ∀ a ∈ trace.accepted, a.1.dedup = u.dedup → a.1 = u) :
    Ledgers { trace with accepted := (u, trace.clock) :: trace.accepted }
      (m.enter u.dedup (uuidLapse trace.clock))
      (r.check u.dedup trace.clock (uuidLapse trace.clock)) where
  dated := h.dated_cons
  known := h.known_enter _
  knownReplayed k t ht hl := by
    by_cases hk : k = u.dedup
    · exact ⟨_, mem_cons_self, hk.symm⟩
    · obtain ⟨a, ha, hak⟩ := h.knownReplayed k t ht ((r.live_check_of_ne hk _ _ t).mp hl)
      exact ⟨a, mem_cons_of_mem _ ha, hak⟩
  covers := h.covers_enter
  agrees a ha hitem t ht := by
    by_cases hk : a.1.dedup = u.dedup
    · -- a live entry of the replay would be that of an accepted write of the triple
      have hrlive : ¬r.Live u.dedup trace.clock := by
        intro hr
        obtain ⟨b, hb, hbu⟩ := h.knownReplayed _ _ le_rfl hr
        have hba : b.1 = a.1 := by
          have hbu' := hdist b hb hbu
          rcases mem_cons.mp ha with rfl | ha
          · exact hbu'
          · exact hbu'.trans (hdist a ha hk).symm
        have hagree := h.agrees b hb (hba ▸ hitem) trace.clock le_rfl
        rw [hbu] at hagree
        exact hlive (hagree.mpr hr)
      unfold check
      rw [if_neg hrlive, hk, live_enter_self, live_enter_self]
    · have hmem : a ∈ trace.accepted := (mem_cons.mp ha).resolve_left fun heq => hk (heq ▸ rfl)
      rw [m.live_enter_of_ne hk, r.live_check_of_ne hk]
      exact h.agrees a hmem hitem t ht

end

end Ledgers

/-- The ledger after a command at `now`. -/
def ledgerAfter (m : Ledger Bytes) (now : ℕ) (command : Command) : Ledger Bytes :=
  match carried command with
  | none => m
  | some t => m.check t.dedup now (uuidLapse now)

lemma carried_eq_some {t : UuidTriple} (h : carried command = some t) :
    ∃ w : UuidWrite, w.command = command ∧ w.toUuidTriple = t := by
  unfold carried at h
  split at h
  case h_1 family key timestampMs amount startMs endMs aggregator precisionMs ttlMs uuid =>
    split at h
    case isTrue => cases h
    case isFalse hne =>
      cases h
      exact ⟨⟨⟨family, key, uuid⟩, hne, timestampMs, amount, startMs, endMs, aggregator,
        precisionMs,
        ttlMs⟩, rfl, rfl⟩
  case h_2 => cases h

lemma executeOnShard_checks (config : Config) (now : ℕ) (h : OneEntryEach s) (command : Command) :
    OneEntryEach (executeOnShard config now s command).shard ∧
      Ledger.AgreeFrom now (uuidLedger (executeOnShard config now s command).shard)
        (ledgerAfter (uuidLedger s) now command) := by
  unfold ledgerAfter
  cases hcarried : carried command with
  | none =>
    have hled := executeOnShard_ledger config now s hcarried
    refine ⟨h.congr hled, ?_⟩
    rw [uuidLedger_congr hled]
    exact .refl now _
  | some t =>
    obtain ⟨w, rfl, rfl⟩ := carried_eq_some hcarried
    obtain ⟨hone, hagree, -⟩ := uuidWrite_spec config now h w rfl
    exact ⟨hone, hagree⟩

lemma replayWal_clock {log : List LogRecord} (h : ∀ record ∈ log, 0 < record.timestampMs)
    (clock : ℕ) (s : ShardState) : replayWal clock s log = replayWal 0 s log := by
  apply foldl_ext
  intro s record hrec
  unfold replayRecord
  rw [if_pos (h record hrec), if_pos (h record hrec)]

lemma replay_execute (e : Engine) (config : Config) (hnow : 0 < now) (command : Command)
    (h : OneEntryEach (replayWal 0 e.index e.log))
    (hs' : s' = replayWal 0 (e.execute config now command).1.index
      (e.execute config now command).1.log) : OneEntryEach s' ∧ Ledger.AgreeFrom now (uuidLedger s')
      (if (executeOnShard config now e.shard command).items = [] then
        ledgerAfter (uuidLedger (replayWal 0 e.index e.log)) now command
      else uuidLedger (replayWal 0 e.index e.log)) := by
  by_cases hlogged : isWriteCommand command = true ∧
      (executeOnShard config now e.shard command).mutated = true
  · rw [e.execute_logged config now hlogged.1 hlogged.2, replayWal_concat] at hs'
    by_cases hits : (executeOnShard config now e.shard command).items = []
    · have hrun : s' = (executeOnShard config now (replayWal 0 e.index e.log) command).shard := by
        rw [hs', replayRecord]
        simp only [hits, isEmpty_nil, if_true, hnow]
      rw [if_pos hits, hrun]
      exact executeOnShard_checks config now h command
    · rw [replayRecord_items 0 _ hits] at hs'
      have hled : s'.controlStateUuid = (replayWal 0 e.index e.log).controlStateUuid := by
        rw [hs']
        exact ledger_applyOutcome _ _
      rw [if_neg hits, uuidLedger_congr hled]
      exact ⟨h.congr hled, .refl now _⟩
  · have hkept : s' = replayWal 0 e.index e.log := by
      rw [hs']
      dsimp only [Engine.execute]
      rw [if_neg fun hboth => hlogged (Bool.and_eq_true_iff.mp hboth)]
    -- a write with a uuid is always logged
    have hcarried : carried command = none := by
      by_contra hsome
      obtain ⟨t, ht⟩ := ne_none_iff_exists'.mp hsome
      obtain ⟨w, rfl, -⟩ := carried_eq_some ht
      exact hlogged ⟨rfl, rfl⟩
    have hsame : ledgerAfter (uuidLedger (replayWal 0 e.index e.log)) now command =
        uuidLedger (replayWal 0 e.index e.log) := by
      unfold ledgerAfter
      rw [hcarried]
    rw [hkept, hsame, ite_self]
    exact ⟨h, .refl now _⟩

/-- One entry a key, and the ledgers stand as they should to the accepted writes. -/
structure Deduped (d : DedupState) : Prop where
  stamped : ∀ record ∈ d.engine.log, 0 < record.timestampMs
  one : OneEntryEach d.engine.shard
  oneReplayed : OneEntryEach (replayWal 0 d.engine.index d.engine.log)
  ledgers : Ledgers d.trace (uuidLedger d.engine.shard)
    (uuidLedger (replayWal 0 d.engine.index d.engine.log))

lemma Deduped.start : Deduped .start := by
  have hnone : ∀ k t, ¬(uuidLedger .empty).Live k t := by
    rintro k t ⟨expiry, h, -⟩
    cases h
  exact ⟨fun _ h => absurd h not_mem_nil, nodup_nil, nodup_nil,
    ⟨nofun, fun k t _ h => absurd h (hnone k t), fun k t _ h => absurd h (hnone k t), nofun, nofun⟩⟩

lemma accepts_eq {e : Engine} (h : OneEntryEach e.shard) (now : ℕ) (command : Command) :
    accepts e now command = match carried command with
      | none => none
      | some t => if (uuidLedger e.shard).Live t.dedup now then none else some t := by
  unfold accepts
  cases hcarried : carried command with
  | none => rfl
  | some t =>
    obtain ⟨w, rfl, rfl⟩ := carried_eq_some hcarried
    obtain ⟨-, -, hdup⟩ := checkUuid_ledger h now w.toUuidTriple w.uuid_ne
    dsimp only
    by_cases hlive : (uuidLedger e.shard).Live w.dedup now
    · rw [if_pos hlive, if_pos (hdup.mpr hlive)]
    · rw [if_neg hlive, if_neg fun h' => hlive (hdup.mp h')]

variable {d : DedupState}

lemma Deduped.execute (h : Deduped d) {config : Config}
    (hcare : Careful d (.execute config now command)) :
    Deduped (d.step (.execute config now command)) := by
  obtain ⟨hpos, hclock, hwrite⟩ := hcare
  obtain ⟨hone, hagree⟩ := executeOnShard_checks config now h.one command
  obtain ⟨hone', hagree'⟩ := replay_execute d.engine config hpos command h.oneReplayed rfl
  have hstamped : ∀ record ∈ (d.engine.execute config now command).1.log,
      0 < record.timestampMs := by
    dsimp only [Engine.execute]
    split
    · exact forall_mem_append.mpr ⟨h.stamped, forall_mem_singleton.mpr hpos⟩
    · exact h.stamped
  refine ⟨hstamped, hone, hone', ?_⟩
  have hl := h.ledgers.later hclock
  have htrace : (d.step (.execute config now command)).trace.clock = now := by
    change (d.trace.step d.engine (.execute config now command)).clock = now
    unfold DedupTrace.step
    dsimp only
    split <;> rfl
  refine Ledgers.congr ?_ (by rw [htrace]; exact hagree) (by rw [htrace]; exact hagree')
  change Ledgers (d.trace.step d.engine (.execute config now command)) _ _
  unfold DedupTrace.step ledgerAfter
  dsimp only
  rw [accepts_eq h.one]
  cases hcarried : carried command with
  | none =>
    rw [ite_self]
    exact hl
  | some t =>
    have hw := hwrite t hcarried
    dsimp only
    by_cases hlive : (uuidLedger d.engine.shard).Live t.dedup now
    · have hcheck : (uuidLedger d.engine.shard).check t.dedup now (uuidLapse now) =
          uuidLedger d.engine.shard := if_pos hlive
      rw [if_pos hlive, hcheck]
      dsimp only
      split
      · exact hl.duplicate hlive _
      · exact hl
    · have hcheck : (uuidLedger d.engine.shard).check t.dedup now (uuidLapse now) =
          (uuidLedger d.engine.shard).enter t.dedup (uuidLapse now) := if_neg hlive
      rw [if_neg hlive, hcheck]
      dsimp only
      split
      · exact hl.acceptedAgain hlive hw.distinct
      · exact hl.acceptedItems hw.distinct

lemma Deduped.checkpoint (h : Deduped d) : Deduped (d.step .checkpoint) :=
  ⟨fun _ h => absurd h not_mem_nil, h.one, h.one, h.ledgers.saved⟩

lemma Deduped.crash (h : Deduped d) (clock : ℕ) (reconciled persisted : Bool) :
    Deduped (d.step (.crash clock reconciled persisted)) := by
  obtain ⟨e, trace⟩ := d
  have hled : (if reconciled then (replayWal clock e.index e.log).reconcileControlState
      else replayWal clock e.index e.log).controlStateUuid =
      (replayWal 0 e.index e.log).controlStateUuid := by
    rw [replayWal_clock h.stamped]
    cases reconciled <;> rfl
  have hone := h.oneReplayed.congr hled
  have hl : ∀ itemised, Ledgers _ _ _ := h.ledgers.replayed
  rw [← uuidLedger_congr hled] at hl
  unfold DedupState.step DedupTrace.step Engine.recover
  dsimp only
  split
  · exact ⟨fun _ h => absurd h not_mem_nil, hone, hone, hl []⟩
  · refine ⟨h.stamped, hone, h.oneReplayed, ?_⟩
    have := hl trace.itemised
    rw [uuidLedger_congr hled] at this ⊢
    exact this

lemma Deduped.step (h : Deduped d) {event : DedupEvent} (hcare : Careful d event) :
    Deduped (d.step event) := by
  cases event with
  | execute config now command => exact h.execute hcare
  | checkpoint => exact h.checkpoint
  | crash clock reconciled persisted => exact h.crash clock reconciled persisted

variable {events : List DedupEvent}

lemma Deduped.run (h : Deduped d) (hcare : CarefulEvents d events) : Deduped (d.run events) := by
  induction events generalizing d with
  | nil => exact h
  | cons event events ih => exact ih (h.step hcare.1) hcare.2

/-- Within the window a write that repeats an accepted one leaves the counter as it finds it. A
write that repeats none is counted; the bound of the series is applied after that. -/
def CountedOnce (d : DedupState) (config : Config) (now : ℕ) (w : UuidWrite) : Prop :=
  ((∃ a ∈ d.trace.accepted, a.1 = w.toUuidTriple ∧
      now < a.2 + controlStateUuidDedupMs) →
    (d.step (.execute config now w.command)).engine.shard.counter w.familyKey =
      counterAt d.engine.shard now w.toUuidTriple) ∧
  ((∀ a ∈ d.trace.accepted, a.1 ≠ w.toUuidTriple) →
    (d.step (.execute config now w.command)).engine.shard.counter w.familyKey =
      bounded config.controlStateMaxSize ((counterAt d.engine.shard now w.toUuidTriple).bump
        (bucketMs w.precisionMs w.timestampMs) w.amount))

lemma bounded_eq_self {maxSize : ℕ} {series : CounterSeries}
    (h : maxSize = 0 ∨ series.length ≤ maxSize) : bounded maxSize series = series := by
  unfold bounded
  rcases h with h | h
  · exact if_pos h
  · rw [Nat.sub_eq_zero_of_le h]
    exact ite_self series

lemma Deduped.countedOnce (h : Deduped d) {config : Config} {w : UuidWrite}
    (hclock : d.trace.clock ≤ now) (hcare : CarefulWrite d config now w.toUuidTriple) :
    CountedOnce d config now w := by
  obtain ⟨-, -, hctr⟩ := uuidWrite_spec config now h.one w rfl
  constructor
  · intro hrepeats
    obtain ⟨a, ha, hau, hwin⟩ := hrepeats
    have hkept : a ∉ d.trace.lost := fun hlost =>
      absurd (hcare.lapsed a hlost hau) (Nat.not_le.mpr hwin)
    have hlapse : now < uuidLapse a.2 := lt_min hwin hcare.clock
    have hlive := h.ledgers.covers a ha hkept now hclock hlapse
    rw [hau] at hlive
    refine hctr.trans ?_
    rw [if_pos hlive]
    exact bounded_eq_self (hcare.within ⟨a, ha, hau, hwin⟩)
  · intro hnew
    refine hctr.trans ?_
    rw [if_neg]
    intro hlive
    obtain ⟨a, ha, hau⟩ := h.ledgers.known _ _ hclock hlive
    exact hnew a ha (hcare.distinct a ha hau)

lemma CarefulEvents.of_append {later : List DedupEvent} (h : CarefulEvents d (events ++ later)) :
    CarefulEvents d events ∧ CarefulEvents (d.run events) later := by
  induction events generalizing d with
  | nil => exact ⟨trivial, h⟩
  | cons event events ih =>
    obtain ⟨hcare, hrun⟩ := ih h.2
    exact ⟨⟨h.1, hcare⟩, hrun⟩

/-- In a careful history every write with a uuid is counted once. -/
theorem countedOnce_of_careful {events : List DedupEvent} {config : Config} {now : ℕ}
    {w : UuidWrite} (hcareful : CarefulEvents .start (events ++ [.execute config now w.command])) :
    CountedOnce (DedupState.start.run events) config now w := by
  obtain ⟨hbefore, ⟨-, hclock, hwrite⟩, -⟩ := hcareful.of_append
  exact (Deduped.start.run hbefore).countedOnce hclock (hwrite _ (if_neg w.uuid_ne))

def fiveOnce : UuidWrite :=
  { family := .counter
    key := []
    uuid := [7]
    uuid_ne := nofun
    timestampMs := 0
    amount := 5
    startMs := 0
    endMs := 10
    aggregator := .sum
    precisionMs := none
    ttlMs := none }

def syncConfig : Config := ⟨false, false, false, 0⟩

/-- The index is persisted between the write and the crash. -/
def savedWrite : List DedupEvent :=
  [.execute syncConfig 1 fiveOnce.command, .checkpoint, .crash 2 false true]

theorem countedOnce_savedWrite :
    CarefulEvents .start (savedWrite ++ [.execute syncConfig 3 fiveOnce.command]) ∧
      CountedOnce (DedupState.start.run savedWrite) syncConfig 3 fiveOnce := by
  have hcareful :
      CarefulEvents .start (savedWrite ++ [.execute syncConfig 3 fiveOnce.command]) := by
    have haccepted : (DedupState.start.run savedWrite).trace.accepted =
        [(fiveOnce.toUuidTriple, 1)] := by decide +kernel
    have hlost : (DedupState.start.run savedWrite).trace.lost = [] := by decide +kernel
    refine ⟨⟨by decide, by decide, ?_⟩, trivial, trivial, ⟨by decide, by decide +kernel, ?_⟩,
      trivial⟩
    · intro t _
      exact ⟨by decide, nofun, nofun, fun _ => .inl rfl⟩
    · intro t ht
      cases ht
      refine ⟨by decide, ?_, ?_, fun _ => .inl rfl⟩
      · intro a (ha : a ∈ (DedupState.start.run savedWrite).trace.accepted) _
        rw [mem_singleton.mp ha]
      · intro a (ha : a ∈ (DedupState.start.run savedWrite).trace.lost)
        cases ha
  exact ⟨hcareful, countedOnce_of_careful hcareful⟩

/-- The write is repeated after a crash that left only its items. -/
theorem countedTwice : ¬CountedOnce (DedupState.start.run
    [.execute syncConfig 1 fiveOnce.command, .crash 2 false true]) syncConfig 3 fiveOnce := by
  rintro ⟨hrepeats, -⟩
  have haccepted : (fiveOnce.toUuidTriple, 1) ∈ (DedupState.start.run
      [.execute syncConfig 1 fiveOnce.command, .crash 2 false true]).trace.accepted := by
    decide +kernel
  have hunchanged := hrepeats ⟨_, haccepted, rfl, by decide⟩
  revert hunchanged
  decide +kernel

end TemporalStore.Shard
