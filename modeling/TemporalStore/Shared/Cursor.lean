import TemporalStore.Lib.Faulty
import TemporalStore.Shared.Log

/-! # Replays that resume at a cursor (`replay_wal_strict_with_cursor`) -/

namespace TemporalStore.Shared

open Lib List Option Prod

variable {κ : Type}

/-- The loop over the union of objects and blob finds a hole when it gets there. -/
def refuseGap {α : Type} : ℕ → List (ℕ × α) → List (Except ReplayError (ℕ × α))
  | _, [] => []
  | expected, x :: rest =>
    if x.1 ≠ expected then [.error (.gap expected x.1)] else .ok x :: refuseGap (expected + 1) rest

/-- The reads of a replay through the offset index, which finds a hole before it reads anything. -/
def offsetItems (log : SharedLog κ) (shardId afterWalIndex : ℕ) :
    Except ReplayError (Option (List (Except ReplayError (ℕ × WalEntry κ)))) := do
  let metadata ← loadWalOffsetMetadata log
  if metadata = [] then .ok none
  else if log.objects.any fun o => afterWalIndex < o.1 then .ok none
  else
    let ordered := metadata.filter fun m => afterWalIndex < m.1
    checkNoGap (afterWalIndex + 1) ordered
    .ok (some (ordered.map fun m => (readWalEntryWithOffsetMetadata log shardId m).map (m.1, ·)))

def unionItems (log : SharedLog κ) (afterWalIndex : ℕ) :
    Except ReplayError (List (Except ReplayError (ℕ × WalEntry κ))) := do
  let walEntries ← loadWalEntries log
  .ok (refuseGap (afterWalIndex + 1) (walEntries.filter fun e => afterWalIndex < e.1))

/-- What a replay above `afterWalIndex` meets one after another. -/
def replayItems (mode : WalAppendMode) (log : SharedLog κ) (shardId afterWalIndex : ℕ) :
    Except ReplayError (List (Except ReplayError (ℕ × WalEntry κ))) :=
  match mode with
  | .protobufAppendBlob => do
    match ← offsetItems log shardId afterWalIndex with
    | some items => .ok items
    | none => unionItems log afterWalIndex
  | .jsonPerKey => unionItems log afterWalIndex

variable {α : Type}

lemma mapM_refuseGap (expected : ℕ) (l : List (ℕ × α)) :
    (refuseGap expected l).mapM id = (checkNoGap expected l).map fun _ => l := by
  induction l generalizing expected with
  | nil => rfl
  | cons x l ih =>
    rw [refuseGap, checkNoGap]
    split_ifs with hne
    · rfl
    · rw [mapM_cons, ih]
      cases checkNoGap (expected + 1) l <;> rfl

lemma mapM_numberedReads {β : Type} (read : ℕ × β → Except ReplayError α) (l : List (ℕ × β)) :
    ((l.map fun m => (read m).map (m.1, ·)).mapM id).map (List.map snd) = l.mapM read := by
  induction l with
  | nil => rfl
  | cons m l ih =>
    rw [map_cons, mapM_cons, mapM_cons, ← ih]
    cases read m with
    | error e => rfl
    | ok a =>
      cases (l.map fun m => (read m).map (m.1, ·)).mapM id <;> rfl

lemma replayWal_eq_mapM_replayItems (mode : WalAppendMode) (log : SharedLog κ) (shardId after : ℕ) :
    replayWal mode log shardId after = (replayItems mode log shardId after >>= fun items =>
        (items.mapM id).map (List.map snd)) := by
  have hunion : replayWalEntries log after =
      (unionItems log after >>= fun items => (items.mapM id).map (List.map snd)) := by
    rw [replayWalEntries, unionItems]
    cases loadWalEntries log with
    | error e => rfl
    | ok walEntries =>
      rw [ok_bind, ok_bind, ok_bind, mapM_refuseGap]
      dsimp only
      cases checkNoGap (after + 1) (walEntries.filter fun e => after < e.1) <;> rfl
  cases mode with
  | jsonPerKey => exact hunion
  | protobufAppendBlob =>
    rw [replayWal, replayItems, replayWalFromOffsetMetadata, offsetItems]
    cases loadWalOffsetMetadata log with
    | error e => rfl
    | ok metadata =>
      rw [ok_bind, ok_bind]
      split_ifs
      · exact hunion
      · exact hunion
      · dsimp only
        cases checkNoGap (after + 1) (metadata.filter fun m => after < m.1) with
        | error e => rfl
        | ok a =>
          rw [ok_bind, ok_bind, ok_bind, ok_bind, mapM_numberedReads]
          cases mapM (readWalEntryWithOffsetMetadata log shardId)
              (metadata.filter fun m => after < m.1) with
          | error e => rfl
          | ok entries => rfl

/-- Up to the first error the items carry the indexes from `expected` on. -/
def Offers {α : Type} : ℕ → List (Except ReplayError (ℕ × α)) → Prop
  | _, [] => True
  | _, .error _ :: _ => True
  | expected, .ok x :: rest => x.1 = expected ∧ Offers (expected + 1) rest

lemma offers_refuseGap (expected : ℕ) (l : List (ℕ × α)) :
    Offers expected (refuseGap expected l) := by
  induction l generalizing expected with
  | nil => trivial
  | cons x l ih =>
    rw [refuseGap]
    split_ifs with hne
    · trivial
    · exact ⟨not_not.mp hne, ih (expected + 1)⟩

lemma offers_of_numbered {β : Type} {expected : ℕ} {l : List (ℕ × β)}
    {read : ℕ × β → Except ReplayError α} (h : Numbered fst expected l) :
    Offers expected (l.map fun m => (read m).map (m.1, ·)) := by
  induction l generalizing expected with
  | nil => trivial
  | cons m l ih =>
    obtain ⟨hm, htail⟩ := h.tail
    rw [map_cons]
    cases read m with
    | error e => trivial
    | ok a => exact ⟨hm, ih htail⟩

variable {log : SharedLog κ} {after : ℕ} {items : List (Except ReplayError (ℕ × WalEntry κ))}

lemma offers_unionItems (h : unionItems log after = .ok items) : Offers (after + 1) items := by
  obtain ⟨walEntries, -, hits⟩ := bind_eq_ok h
  cases hits
  exact offers_refuseGap _ _

lemma offers_offsetItems {shardId : ℕ} (h : offsetItems log shardId after = .ok (some items)) :
    Offers (after + 1) items := by
  obtain ⟨metadata, -, h⟩ := bind_eq_ok h
  split_ifs at h
  · cases h
  · cases h
  · obtain ⟨⟨⟩, hgap, hits⟩ := bind_eq_ok h
    cases hits
    exact offers_of_numbered (checkNoGap_eq_ok.mp hgap)

lemma offers_replayItems {mode : WalAppendMode} {shardId : ℕ}
    (h : replayItems mode log shardId after = .ok items) : Offers (after + 1) items := by
  cases mode with
  | jsonPerKey => exact offers_unionItems h
  | protobufAppendBlob =>
    obtain ⟨found, hfound, h⟩ := bind_eq_ok h
    cases found with
    | none => exact offers_unionItems h
    | some items' =>
      cases h
      exact offers_offsetItems hfound

/-- What an entry carries: the results of a write, and its command. -/
abbrev Carried (ρ γ : Type) := List ρ × Option γ

/-- An entry with the index it is read under. -/
abbrev Item (ρ γ : Type) := ℕ × WalEntry (Carried ρ γ)

structure Replay (ρ γ : Type) where
  /-- The saved position it began at. -/
  after : ℕ
  todo : List (Except ReplayError (Item ρ γ))
  window : List (Item ρ γ)
  /-- `apply_replayed_window` is working on the window. -/
  applying : Bool
  /-- A command of the window reserved a sequence of the engine's log. -/
  reserved : Bool
  /-- The engine answered to an entry of the window with an error. -/
  refused : Bool
  lastWalIndex : ℕ
  /-- How much the engine had applied when the replay began. -/
  begun : ℕ

/-- An entry in the engine. Results are installed in memory; a command is logged, if it reserved a
sequence, and a barrier brings the log to disk. -/
structure Application (ρ γ : Type) where
  item : Item ρ γ
  logged : Bool
  onDisk : Bool

structure Follower (ρ γ : Type) where
  /-- The saved position, 0 without an object. `none` is an object that was cut short. -/
  cursor : Option ℕ
  /-- What the engine ever applied, in order. -/
  applied : List (Item ρ γ)
  /-- What the engine has of it. -/
  engine : List (Application ρ γ)
  /-- What crashes took from it. -/
  lost : List (Application ρ γ)
  replay : Option (Replay ρ γ)
  /-- The last replay returned success. -/
  succeeded : Bool
  /-- Some replay had applied entries and ended without moving the saved position. -/
  interrupted : Bool

/-- How the engine answers to an entry. It may have applied an entry, or results of it, and answer
with an error. -/
inductive Answer where
  | done (logged : Bool)
  | failed (logged : Bool)
  | refused

inductive FollowerEvent (ρ γ : Type) where
  /-- `replay_wal_strict_with_cursor` is called. -/
  | replay (log : SharedLog (Carried ρ γ))
  /-- The next entry is read into the window. -/
  | fetch
  /-- The next entry of the window is given to the engine. -/
  | apply (answer : Answer)
  /-- The barrier of the window. -/
  | commit (ok : Bool)
  /-- `save_replay_cursor`, if there was anything new, and the return. -/
  | save (attempt : Attempt)
  /-- A read fails, or the replay is dropped. -/
  | cut
  /-- The process stops; of what is not on disk the engine keeps whatever happened to be written. -/
  | crash (kept : ℕ → Bool)

def replayApplyWindow : ℕ := 256

namespace Follower

variable {ρ γ : Type}

def start : Follower ρ γ := ⟨some 0, [], [], [], none, false, false⟩

variable (f : Follower ρ γ) (r : Replay ρ γ)

/-- The replay ends without success. -/
def fail : Follower ρ γ :=
  { f with
    replay := none
    succeeded := false
    interrupted := f.interrupted || decide (r.begun < f.applied.length) }

/-- Loads the cursor and finds what is to be read. -/
def beginReplay (mode : WalAppendMode) (shardId : ℕ) (f : Follower ρ γ)
    (log : SharedLog (Carried ρ γ)) : Follower ρ γ :=
  match f.cursor with
  | none => { f with succeeded := false }
  | some after =>
    match replayItems mode log shardId after with
    | .error _ => { f with succeeded := false }
    | .ok items =>
      { f with
        replay := some ⟨after, items, [], false, false, false, after, f.applied.length⟩
        succeeded := false }

def fetch : Follower ρ γ :=
  if r.applying then f
  else
    match r.todo with
    | .ok x :: rest =>
      { f with replay := some { r with
          todo := rest
          window := r.window ++ [x]
          applying := decide (replayApplyWindow ≤ (r.window ++ [x]).length)
          lastWalIndex := x.1 } }
    | .error _ :: _ => f.fail r
    | [] => { f with replay := some { r with applying := decide (r.window ≠ []) } }

/-- The engine applies the first entry of the window. Only an entry without results is executed, and
so logged. -/
def takeOver (x : Item ρ γ) (logged : Bool) : Follower ρ γ :=
  let logged := logged && x.2.command.1.isEmpty
  { f with
    applied := f.applied ++ [x]
    engine := f.engine ++ [⟨x, logged, false⟩]
    replay := some { r with window := r.window.tail, reserved := r.reserved || logged } }

/-- An error drops the rest of the window. -/
def refuse : Follower ρ γ :=
  { f with replay := f.replay.map fun r => { r with window := [], refused := true } }

/-- One step of `apply_replayed_window`. -/
def applyOne (answer : Answer) : Follower ρ γ :=
  match r.applying, r.window with
  | true, x :: _ =>
    match x.2.command, answer with
    -- an entry that carries neither results nor an operation
    | ([], none), _ => f.refuse
    | _, .done logged => f.takeOver r x logged
    | _, .failed logged => (f.takeOver r x logged).refuse
    | _, .refused => f.refuse
  | _, _ => f

/-- The barrier brings the engine's log to disk. -/
def barrier : Follower ρ γ :=
  { f with engine := f.engine.map fun a => { a with onDisk := a.onDisk || a.logged } }

def closeWindow : Follower ρ γ :=
  if r.refused then f.fail r
  else { f with replay := some { r with applying := false, reserved := false } }

/-- The end of `apply_replayed_window`: the barrier is checked first, then the answers. Where no
command reserved a sequence there is no barrier, and nothing to fail. -/
def commit (ok : Bool) : Follower ρ γ :=
  if r.applying ∧ r.window = [] then
    if r.reserved = false then f.closeWindow r
    else if ok then f.barrier.closeWindow r
    else f.fail r
  else f

def succeed : Follower ρ γ := { f with replay := none, succeeded := true }

def save (attempt : Attempt) : Follower ρ γ :=
  if r.applying ∨ r.todo ≠ [] ∨ r.window ≠ [] then f
  else if r.after < r.lastWalIndex then
    match attempt with
    | .done => { f with cursor := some r.lastWalIndex }.succeed
    | .landed => { f with cursor := some r.lastWalIndex, replay := none, succeeded := false }
    | .torn => { f with cursor := none }.fail r
    | .lost | .stop => f.fail r
  else f.succeed

/-- What is on disk stays. -/
def forget (kept : ℕ → Bool) : Follower ρ γ :=
  let stays := fun x : Application ρ γ × ℕ => x.1.onDisk || kept x.2
  { f with
    engine := (f.engine.zipIdx.filter stays).map fst
    lost := f.lost ++ (f.engine.zipIdx.filter fun x => !stays x).map fst }

def crash (kept : ℕ → Bool) : Follower ρ γ :=
  match f.replay with
  | none => f.forget kept
  | some r => (f.fail r).forget kept

/-- An event that cannot happen in a state changes nothing. -/
def step (mode : WalAppendMode) (shardId : ℕ) (f : Follower ρ γ) (event : FollowerEvent ρ γ) :
    Follower ρ γ :=
  match event, f.replay with
  | .replay log, none => beginReplay mode shardId f log
  | .crash kept, _ => f.crash kept
  | .fetch, some r => f.fetch r
  | .apply answer, some r => f.applyOne r answer
  | .commit ok, some r => f.commit r ok
  | .save attempt, some r => f.save r attempt
  | .cut, some r => f.fail r
  | _, _ => f

def run (mode : WalAppendMode) (shardId : ℕ) (events : List (FollowerEvent ρ γ))
    (f : Follower ρ γ) : Follower ρ γ :=
  events.foldl (step mode shardId) f

section Invariant

variable {mode : WalAppendMode} {shardId : ℕ} {P : Item ρ γ → Prop} {f r}

/-- The engine applied an entry of the index, and if it logged its command, that is on disk. -/
def Safe (f : Follower ρ γ) (i : ℕ) : Prop :=
  ∃ a ∈ f.engine ++ f.lost, a.item.1 = i ∧ (a.logged = true → a.onDisk = true)

/-- What is known of a replay under way: what it applied and the window together follow its saved
position, and what it has yet to read follows them. -/
structure UnderWay (P : Item ρ γ → Prop) (f : Follower ρ γ) (r : Replay ρ γ) : Prop where
  cursor : f.cursor = some r.after
  begun : r.begun ≤ f.applied.length
  numbered : Numbered fst (r.after + 1) (f.applied.drop r.begun ++ r.window)
  last : r.refused = false →
    r.lastWalIndex = r.after + (f.applied.drop r.begun ++ r.window).length ∧
      Offers (r.lastWalIndex + 1) r.todo
  settled : r.applying = false → r.refused = false ∧ r.reserved = false
  /-- Until the barrier of the window, some of it may not be on disk. -/
  pending : ∀ x ∈ f.applied.drop r.begun, f.Safe x.1 ∨
    r.reserved = true ∧ ∃ a ∈ f.engine, a.item.1 = x.1
  window : ∀ x ∈ r.window, P x
  todo : ∀ x, .ok x ∈ r.todo → P x

/-- What was applied before the replay under way. -/
def settled (f : Follower ρ γ) : ℕ :=
  match f.replay with
  | some r => r.begun
  | none => f.applied.length

/-- `P` is what may come out of the logs. -/
structure Sound (P : Item ρ γ → Prop) (f : Follower ρ γ) : Prop where
  held : ∀ a ∈ f.engine ++ f.lost, a.item ∈ f.applied
  gone : ∀ a ∈ f.lost, a.onDisk = false
  covered : ∀ c, f.cursor = some c → ∀ i, 1 ≤ i → i ≤ c → f.Safe i
  climbing : Climbing fst 1 f.applied
  read : ∀ x ∈ f.applied, P x
  succeeded : f.succeeded = true → f.replay = none ∧ ∃ c, f.cursor = some c
  exact : f.interrupted = false → ∀ c, f.cursor = some c →
    f.settled = c ∧ Numbered fst 1 (f.applied.take f.settled)
  underWay : ∀ r, f.replay = some r → UnderWay P f r

lemma sound_start : Sound P (start : Follower ρ γ) where
  held := nofun
  gone := nofun
  covered c hc i hi hle := by
    cases hc
    omega
  climbing := climbing_nil
  read x hx := absurd hx not_mem_nil
  succeeded := nofun
  exact _ c hc := by
    cases hc
    exact ⟨rfl, numbered_nil⟩
  underWay := nofun

lemma Safe.takeOver {i : ℕ} (hsafe : f.Safe i) (r : Replay ρ γ)
    (x : Item ρ γ) (logged : Bool) : (f.takeOver r x logged).Safe i := by
  obtain ⟨a, ha, hidx⟩ := hsafe
  refine ⟨a, ?_, hidx⟩
  rcases mem_append.mp ha with ha | ha
  · exact mem_append_left _ (mem_append_left _ ha)
  · exact mem_append_right _ ha

lemma safe_barrier {a : Application ρ γ} (ha : a ∈ f.engine) : f.barrier.Safe a.item.1 :=
  ⟨_, mem_append_left _ (mem_map_of_mem ha), rfl, fun hlogged => by
    simp only at hlogged
    simp [hlogged]⟩

lemma Safe.barrier {i : ℕ} (hsafe : f.Safe i) : f.barrier.Safe i := by
  obtain ⟨a, ha, hidx, hdisk⟩ := hsafe
  rcases mem_append.mp ha with ha | ha
  · exact hidx ▸ safe_barrier ha
  · exact ⟨a, mem_append_right _ ha, hidx, hdisk⟩

lemma mem_forget {a : Application ρ γ} (kept : ℕ → Bool) (ha : a ∈ f.engine ++ f.lost) :
    a ∈ (f.forget kept).engine ++ (f.forget kept).lost := by
  rcases mem_append.mp ha with ha | ha
  · obtain ⟨n, hn, rfl⟩ := getElem_of_mem ha
    have hmem : (f.engine[n], n) ∈ f.engine.zipIdx := by simp [mem_zipIdx_iff_getElem?]
    cases hstays : f.engine[n].onDisk || kept n with
    | true => exact mem_append_left _ (mem_map.mpr ⟨_, mem_filter.mpr ⟨hmem, hstays⟩, rfl⟩)
    | false =>
      refine mem_append_right _ (mem_append_right _ (mem_map.mpr
        ⟨_, mem_filter.mpr ⟨hmem, ?_⟩, rfl⟩))
      simp [hstays]
  · exact mem_append_right _ (mem_append_left _ ha)

lemma mem_of_mem_forget {a : Application ρ γ} {kept : ℕ → Bool}
    (ha : a ∈ (f.forget kept).engine ++ (f.forget kept).lost) : a ∈ f.engine ++ f.lost := by
  have hfst {g : Application ρ γ × ℕ → Bool} (ha : a ∈ (f.engine.zipIdx.filter g).map fst) :
      a ∈ f.engine := by
    obtain ⟨x, hx, rfl⟩ := mem_map.mp ha
    exact fst_mem_of_mem_zipIdx (mem_of_mem_filter hx)
  rcases mem_append.mp ha with ha | ha
  · exact mem_append_left _ (hfst ha)
  · rcases mem_append.mp ha with ha | ha
    · exact mem_append_right _ ha
    · exact mem_append_left _ (hfst ha)

section

variable (h : Sound P f)
include h

lemma Sound.unsucceeded : Sound P { f with succeeded := false } where
  __ := h
  succeeded := nofun
  underWay r hr :=
    { h.underWay r hr with }

lemma Sound.beginReplay (hr : f.replay = none) (log : SharedLog (Carried ρ γ))
    (hP : ∀ after items, replayItems mode log shardId after = .ok items →
      ∀ x, .ok x ∈ items → P x) : Sound P (beginReplay mode shardId f log) := by
  rw [Follower.beginReplay]
  split
  next => exact h.unsucceeded
  next after hcur =>
    split
    next => exact h.unsucceeded
    next items hits =>
      refine ⟨h.held, h.gone, h.covered, h.climbing, h.read, nofun, fun hclean c hc => ?_, ?_⟩
      · have hexact := h.exact hclean c hc
        rw [settled, hr] at hexact
        exact hexact
      · intro r hr'
        cases hr'
        refine ⟨hcur, le_rfl, ?_, fun _ => ⟨?_, offers_replayItems hits⟩, fun _ => ⟨rfl, rfl⟩,
          ?_, nofun, hP after items hits⟩
        · rw [drop_length]
          exact numbered_nil
        · rw [drop_length]
          rfl
        · rw [drop_length]
          exact nofun

lemma UnderWay.exists_smaller {x : Item ρ γ} {rest : List (Item ρ γ)}
    (hway : UnderWay P f r) (hwin : r.window = x :: rest) {i : ℕ} (hi : 1 ≤ i) (hlt : i < x.1) :
    ∃ y ∈ f.applied, y.1 = i := by
  have hnum := hway.numbered
  rw [hwin] at hnum
  by_cases hle : i ≤ r.after
  · obtain ⟨a, ha, hidx, -⟩ := h.covered r.after hway.cursor i hi hle
    exact ⟨a.item, h.held a ha, hidx⟩
  · -- it was applied by this replay
    have hx : x.1 = r.after + 1 + (f.applied.drop r.begun).length := by
      have := hnum.drop (f.applied.drop r.begun).length
      rw [drop_left] at this
      exact this.tail.1
    have hpiece := hnum.take (f.applied.drop r.begun).length
    rw [take_left] at hpiece
    obtain ⟨y, hy, hidx⟩ := hpiece.exists_key (i := i) (by omega) (by omega)
    exact ⟨y, mem_of_mem_drop hy, hidx⟩

lemma Sound.barrier : Sound P f.barrier where
  held a ha := by
    rcases mem_append.mp ha with ha | ha
    · obtain ⟨b, hb, rfl⟩ := mem_map.mp ha
      exact h.held b (mem_append_left _ hb)
    · exact h.held a (mem_append_right _ ha)
  covered c hc i hi hle := (h.covered c hc i hi hle).barrier
  __ := h
  underWay r hr :=
    have hway := h.underWay r hr
    { hway with
      pending := fun x hx => .inl <| by
        rcases hway.pending x hx with hsafe | ⟨-, a, ha, hidx⟩
        · exact hsafe.barrier
        · exact hidx ▸ safe_barrier ha }

lemma Sound.loseCursor (r : Replay ρ γ) : Sound P ({ f with cursor := none }.fail r) where
  __ := h
  covered := nofun
  succeeded := nofun
  exact := nofun
  underWay := nofun

lemma Sound.setSucceeded {c : ℕ} (hr : f.replay = none) (hc : f.cursor = some c) :
    Sound P { f with succeeded := true } where
  __ := h
  succeeded _ := ⟨hr, c, hc⟩
  underWay r hr' := absurd (hr.symm.trans hr') (some_ne_none r).symm

lemma Sound.forget (hr : f.replay = none) (kept : ℕ → Bool) : Sound P (f.forget kept) where
  __ := h
  held a ha := h.held a (mem_of_mem_forget ha)
  gone a ha := by
    rcases mem_append.mp ha with ha | ha
    · exact h.gone a ha
    · obtain ⟨x, hx, rfl⟩ := mem_map.mp ha
      have hlost := (mem_filter.mp hx).2
      simp only [Bool.not_eq_true', Bool.or_eq_false_iff] at hlost
      exact hlost.1
  covered c hc i hi hle := by
    obtain ⟨a, ha, hidx⟩ := h.covered c hc i hi hle
    exact ⟨a, mem_forget kept ha, hidx⟩
  underWay r hr' := absurd (hr.symm.trans hr') (some_ne_none r).symm

section

variable (hr : f.replay = some r)
include hr

lemma Sound.setReplay {r' : Replay ρ γ} (hbegun : r'.begun = r.begun)
    (hway : UnderWay P f r') : Sound P { f with replay := some r' } where
  __ := h
  succeeded hs := absurd (hr.symm.trans (h.succeeded hs).1) (some_ne_none r)
  exact hclean c hc := by
    have hexact := h.exact hclean c hc
    rw [settled, hr] at hexact
    change r'.begun = c ∧ Numbered fst 1 (f.applied.take r'.begun)
    rw [hbegun]
    exact hexact
  underWay r'' hr'' := by
    cases hr''
    exact { hway with }

lemma Sound.fail : Sound P (f.fail r) where
  __ := h
  succeeded := nofun
  exact hclean c hc := by
    -- it applied nothing, so what was settled before is all there is
    rw [Follower.fail, Bool.or_eq_false_iff, decide_eq_false_iff_not] at hclean
    have hall : r.begun = f.applied.length :=
      le_antisymm (h.underWay r hr).begun (not_lt.mp hclean.2)
    have hexact := h.exact hclean.1 c hc
    rw [settled, hr] at hexact
    change f.applied.length = c ∧ Numbered fst 1 (f.applied.take f.applied.length)
    rw [← hall]
    exact hexact
  underWay := nofun

lemma Sound.fetch : Sound P (f.fetch r) := by
  have hway := h.underWay r hr
  rw [Follower.fetch]
  split_ifs with happl
  · exact h
  · have hidle : r.applying = false := by simpa using happl
    obtain ⟨href, hres⟩ := hway.settled hidle
    obtain ⟨hlast, hoffers⟩ := hway.last href
    split
    next x rest htodo =>
      rw [htodo] at hoffers
      have hread : ∀ y ∈ r.window ++ [x], P y := by
        exact forall_mem_append.mpr ⟨hway.window,
          forall_mem_singleton.mpr (hway.todo x (htodo ▸ mem_cons_self))⟩
      refine h.setReplay hr rfl ⟨hway.cursor, hway.begun, ?_, fun _ => ⟨?_, ?_⟩,
        fun _ => ⟨href, hres⟩, hway.pending, hread,
        fun y hy => hway.todo y (htodo ▸ mem_cons_of_mem _ hy)⟩
      · rw [← append_assoc]
        apply hway.numbered.append_one
        rw [hoffers.1]
        omega
      · change x.1 = r.after + (f.applied.drop r.begun ++ (r.window ++ [x])).length
        have hlen : (f.applied.drop r.begun ++ (r.window ++ [x])).length =
            (f.applied.drop r.begun ++ r.window).length + 1 := by
          rw [← append_assoc, length_append, length_singleton]
        rw [hoffers.1]
        omega
      · rw [hoffers.1]
        exact hoffers.2
    next => exact h.fail hr
    next htodo =>
      exact h.setReplay hr rfl { hway with settled := fun _ => ⟨href, hres⟩ }

lemma Sound.takeOver (happl : r.applying = true) {x : Item ρ γ} {rest : List (Item ρ γ)}
    (hwin : r.window = x :: rest) (logged : Bool) : Sound P (f.takeOver r x logged) := by
  have hway := h.underWay r hr
  have hdrop : (f.applied ++ [x]).drop r.begun = f.applied.drop r.begun ++ [x] :=
    drop_append_of_le_length hway.begun
  have hsame :
      (f.applied ++ [x]).drop r.begun ++ r.window.tail = f.applied.drop r.begun ++ r.window := by
    rw [hdrop, hwin, append_assoc, tail_cons, singleton_append]
  refine ⟨fun a ha => ?_, h.gone,
    fun c hc i hi hle => (h.covered c hc i hi hle).takeOver r x logged,
    ?_, ?_, fun hs => absurd (hr.symm.trans (h.succeeded hs).1) (some_ne_none r),
    fun hclean c hc => ?_, fun r' hr' => ?_⟩
  · rcases mem_append.mp ha with ha | ha
    · rcases mem_append.mp ha with ha | ha
      · exact mem_append_left _ (h.held a (mem_append_left _ ha))
      · rw [mem_singleton.mp ha]
        exact mem_append_right _ (mem_singleton_self x)
    · exact mem_append_left _ (h.held a (mem_append_right _ ha))
  · apply h.climbing.append_one
    intro i hi hlt
    exact hway.exists_smaller h hwin hi hlt
  · exact forall_mem_append.mpr ⟨h.read,
      forall_mem_singleton.mpr (hway.window x (hwin ▸ mem_cons_self))⟩
  · have hexact := h.exact hclean c hc
    rw [settled, hr] at hexact
    change r.begun = c ∧ Numbered fst 1 ((f.applied ++ [x]).take r.begun)
    rw [take_append_of_le_length hway.begun]
    exact hexact
  · cases hr'
    refine ⟨hway.cursor, ?_, ?_, ?_, ?_, fun y hy => ?_, ?_, hway.todo⟩
    · change r.begun ≤ (f.applied ++ [x]).length
      rw [length_append]
      exact hway.begun.trans (Nat.le_add_right _ _)
    · change Numbered fst (r.after + 1) ((f.applied ++ [x]).drop r.begun ++ r.window.tail)
      rw [hsame]
      exact hway.numbered
    · intro href
      change r.lastWalIndex =
        r.after + ((f.applied ++ [x]).drop r.begun ++ r.window.tail).length ∧ _
      rw [hsame]
      exact hway.last href
    · intro hidle
      cases happl.symm.trans hidle
    · change y ∈ (f.applied ++ [x]).drop r.begun at hy
      rw [hdrop] at hy
      rcases mem_append.mp hy with hy | hy
      · rcases hway.pending y hy with hsafe | ⟨hres, a, ha, hidx⟩
        · exact .inl (hsafe.takeOver r x logged)
        · exact .inr ⟨by simp [hres], a, mem_append_left _ ha, hidx⟩
      · rw [mem_singleton.mp hy]
        -- what is not logged need not come to disk
        cases hlogged : logged && x.2.command.1.isEmpty with
        | false =>
          refine .inl ⟨⟨x, false, false⟩, mem_append_left _ (mem_append_right _ ?_), rfl, nofun⟩
          rw [hlogged]
          exact mem_singleton_self _
        | true =>
          exact .inr ⟨by simp, _, mem_append_right _ (mem_singleton_self _), rfl⟩
    · intro y hy
      exact hway.window y (mem_of_mem_tail hy)

lemma Sound.refuse (happl : r.applying = true) : Sound P f.refuse := by
  have hway := h.underWay r hr
  rw [Follower.refuse, hr, map_some]
  refine h.setReplay hr rfl ⟨hway.cursor, hway.begun, ?_, nofun, ?_, hway.pending, nofun, hway.todo⟩
  · have hnum := hway.numbered.take (f.applied.drop r.begun).length
    rw [take_left] at hnum
    rw [append_nil]
    exact hnum
  · intro hidle
    cases happl.symm.trans hidle

lemma Sound.applyOne (answer : Answer) : Sound P (f.applyOne r answer) := by
  rw [Follower.applyOne]
  split
  next x rest happl hwin =>
    split
    next => exact h.refuse hr happl
    next => exact h.takeOver hr happl hwin _
    next => exact (h.takeOver hr happl hwin _).refuse rfl happl
    next => exact h.refuse hr happl
  next => exact h

lemma Sound.closeWindow
    (hsafe : ∀ x ∈ f.applied.drop r.begun, f.Safe x.1) : Sound P (f.closeWindow r) := by
  rw [Follower.closeWindow]
  split_ifs with href
  · exact h.fail hr
  · exact h.setReplay hr rfl { h.underWay r hr with
      settled := fun _ => ⟨by simpa using href, rfl⟩
      pending := fun x hx => .inl (hsafe x hx) }

lemma Sound.commit (ok : Bool) : Sound P (f.commit r ok) := by
  have hway := h.underWay r hr
  rw [Follower.commit]
  split_ifs with hdone hres hok
  · refine h.closeWindow hr fun x hx => (hway.pending x hx).resolve_right fun hpend => ?_
    cases hres.symm.trans hpend.1
  · refine h.barrier.closeWindow hr fun x hx => ?_
    rcases hway.pending x hx with hsafe | ⟨-, a, ha, hidx⟩
    · exact hsafe.barrier
    · exact hidx ▸ safe_barrier ha
  · exact h.fail hr
  · exact h

lemma Sound.moveCursor (hidle : r.applying = false) (hwin : r.window = []) :
    Sound P { f with cursor := some r.lastWalIndex, replay := none, succeeded := false } := by
  have hway := h.underWay r hr
  obtain ⟨href, hres⟩ := hway.settled hidle
  obtain ⟨hlast, -⟩ := hway.last href
  have hnum := hway.numbered
  have hbegun := hway.begun
  rw [hwin, append_nil] at hnum
  rw [hwin, append_nil, length_drop] at hlast
  refine ⟨h.held, h.gone, fun c hc i hi hle => ?_, h.climbing, h.read, nofun,
    fun hclean c hc => ?_, nofun⟩
  · cases hc
    by_cases hold : i ≤ r.after
    · exact h.covered r.after hway.cursor i hi hold
    · obtain ⟨x, hx, rfl⟩ := hnum.exists_key (i := i) (by omega) (by rw [length_drop]; omega)
      refine (hway.pending x hx).resolve_right fun hpend => ?_
      cases hres.symm.trans hpend.1
  · cases hc
    have hexact := h.exact hclean r.after hway.cursor
    rw [settled, hr] at hexact
    obtain ⟨hafter, hbase⟩ := hexact
    change r.begun = r.after at hafter
    change f.applied.length = r.lastWalIndex ∧ Numbered fst 1 (f.applied.take f.applied.length)
    refine ⟨by omega, ?_⟩
    rw [take_length, ← take_append_drop r.begun f.applied]
    apply hbase.append
    rw [length_take, min_eq_left hbegun, Nat.add_comm]
    exact hafter ▸ hnum

lemma Sound.save (attempt : Attempt) : Sound P (f.save r attempt) := by
  have hway := h.underWay r hr
  rw [save.eq_def]
  split_ifs with hbusy hless
  · exact h
  · simp only [not_or, not_not, Bool.not_eq_true] at hbusy
    obtain ⟨hidle, -, hwin⟩ := hbusy
    have hmoved := h.moveCursor hr hidle hwin
    cases attempt with
    | done => exact hmoved.setSucceeded rfl rfl
    | landed => exact hmoved
    | torn => exact h.loseCursor r
    | lost => exact h.fail hr
    | stop => exact h.fail hr
  · -- nothing new: it applied nothing
    simp only [not_or, not_not, Bool.not_eq_true] at hbusy
    obtain ⟨hidle, -, hwin⟩ := hbusy
    obtain ⟨href, -⟩ := hway.settled hidle
    have hlast := (hway.last href).1
    rw [hwin, append_nil, length_drop] at hlast
    have hbegun := hway.begun
    refine ⟨h.held, h.gone, h.covered, h.climbing, h.read, fun _ => ⟨rfl, r.after, hway.cursor⟩,
      fun hclean c hc => ?_, nofun⟩
    have hexact := h.exact hclean c hc
    rw [settled, hr] at hexact
    change f.applied.length = c ∧ Numbered fst 1 (f.applied.take f.applied.length)
    have hall : r.begun = f.applied.length := by omega
    rw [← hall]
    exact hexact

end

lemma Sound.crash (kept : ℕ → Bool) : Sound P (f.crash kept) := by
  rw [Follower.crash]
  split
  next hr => exact h.forget hr kept
  next r hr => exact (h.fail hr).forget rfl kept

lemma Sound.step {event : FollowerEvent ρ γ}
    (hP : ∀ log, event = .replay log → ∀ after items, replayItems mode log shardId after =
      .ok items → ∀ x, .ok x ∈ items → P x) : Sound P (f.step mode shardId event) := by
  rw [step.eq_def]
  split
  next log hr => exact h.beginReplay hr log (hP log rfl)
  next => exact h.crash _
  next r hr => exact h.fetch hr
  next r hr => exact h.applyOne hr _
  next r hr => exact h.commit hr _
  next r hr => exact h.save hr _
  next r hr => exact h.fail hr
  next => exact h

lemma Sound.run {events : List (FollowerEvent ρ γ)}
    (hP : ∀ log, .replay log ∈ events → ∀ after items, replayItems mode log shardId after =
      .ok items → ∀ x, .ok x ∈ items → P x) : Sound P (f.run mode shardId events) := by
  induction events generalizing f with
  | nil => exact h
  | cons event events ih =>
    apply ih (h.step fun log hlog => hP log (hlog ▸ mem_cons_self))
    intro log hlog
    exact hP log (mem_cons_of_mem _ hlog)

end

/-- The engine has an entry of the index, or had one that it did not log and lost it in a crash. -/
def Kept (f : Follower ρ γ) (i : ℕ) : Prop :=
  (∃ a ∈ f.engine, a.item.1 = i) ∨ ∃ a ∈ f.lost, a.item.1 = i ∧ a.logged = false

lemma Sound.kept (h : Sound P f) {i : ℕ} (hsafe : f.Safe i) : f.Kept i := by
  obtain ⟨a, ha, hidx, hdisk⟩ := hsafe
  rcases mem_append.mp ha with ha | ha
  · exact .inl ⟨a, ha, hidx⟩
  · refine .inr ⟨a, ha, hidx, ?_⟩
    rw [h.gone a ha] at hdisk
    simpa using hdisk

lemma Sound.applied (h : Sound P f) {i : ℕ} (hsafe : f.Safe i) : ∃ x ∈ f.applied, x.1 = i := by
  obtain ⟨a, ha, hidx, -⟩ := hsafe
  exact ⟨a.item, h.held a ha, hidx⟩

end Invariant

/-- A replay of the events read the entry. -/
def ReadIn (mode : WalAppendMode) (shardId : ℕ) (events : List (FollowerEvent ρ γ))
    (x : Item ρ γ) : Prop :=
  ∃ log after items, .replay log ∈ events ∧ replayItems mode log shardId after = .ok items ∧
    .ok x ∈ items

/-- The engine has applied every entry up to the saved position, each after all with smaller
indexes, and has kept all that it logged. Entries are applied once and in order unless a replay that
had applied some of them ended without moving the position. -/
structure CaughtUp (P : Item ρ γ → Prop) (f : Follower ρ γ) (c : ℕ) : Prop where
  cursor : f.cursor = some c
  covered : ∀ i, 1 ≤ i → i ≤ c → (∃ x ∈ f.applied, x.1 = i) ∧ f.Kept i
  climbing : Climbing fst 1 f.applied
  read : ∀ x ∈ f.applied, P x
  once : f.interrupted = false → Numbered fst 1 f.applied ∧ f.applied.length = c

/-- Whatever fails, wherever replays are cut short and wherever the process stops, after a replay
that returned success the follower has caught up with the position, through entries that its replays
read. -/
theorem run_applied (mode : WalAppendMode) (shardId : ℕ) (events : List (FollowerEvent ρ γ))
    (hsucceeded : (start.run mode shardId events).succeeded = true) :
    ∃ c, CaughtUp (ReadIn mode shardId events) (start.run mode shardId events) c := by
  have h : Sound (ReadIn mode shardId events) (start.run mode shardId events) :=
    sound_start.run fun log hlog after items hitems x hx => ⟨log, after, items, hlog, hitems, hx⟩
  obtain ⟨hidle, c, hc⟩ := h.succeeded hsucceeded
  refine ⟨c, hc, fun i hi hle => ?_, h.climbing, h.read, fun hclean => ?_⟩
  · have hsafe := h.covered c hc i hi hle
    exact ⟨h.applied hsafe, h.kept hsafe⟩
  · have hexact := h.exact hclean c hc
    rw [settled, hidle] at hexact
    obtain ⟨hlen, hnumbered⟩ := hexact
    rw [take_length] at hnumbered
    exact ⟨hnumbered, hlen⟩

/-- The first entry carries a result, the second a command. -/
def twoEntries : SharedLog (Carried ℕ ℕ) :=
  { SharedLog.empty with
    objects := [(1, some ⟨1, 1, ([7], none)⟩), (2, some ⟨1, 2, ([], some 8)⟩)] }

/-- A replay of both, with the answer to the second. -/
def replayBoth (answer : Answer) : List (FollowerEvent ℕ ℕ) :=
  [.replay twoEntries, .fetch, .fetch, .fetch, .apply (.done false), .apply answer, .commit true]

/-- The engine executes the second entry and answers with an error; the replay is repeated. -/
def retried : List (FollowerEvent ℕ ℕ) :=
  replayBoth (.failed true) ++ replayBoth (.done true) ++ [.save .done]

theorem run_applied_retried :
    ∃ c, CaughtUp (ReadIn .jsonPerKey 1 retried) (start.run .jsonPerKey 1 retried) c :=
  run_applied .jsonPerKey 1 retried rfl

/-- Both entries are applied by both replays. -/
theorem not_applied_once_retried : (start.run .jsonPerKey 1 retried).succeeded = true ∧
      (start.run .jsonPerKey 1 retried).cursor = some 2 ∧
      ¬Numbered Prod.fst 1 (start.run .jsonPerKey 1 retried).applied := by
  have happlied : (start.run .jsonPerKey 1 retried).applied.map fst = [1, 2, 1, 2] := rfl
  refine ⟨rfl, rfl, fun h => ?_⟩
  unfold Numbered at h
  cases h

/-- At every moment, also inside a replay and after one that failed or was cut short, the entries up
to the saved position were applied, a crash has taken none of them that was logged, and no entry was
applied before one with a smaller index. -/
theorem run_covered (mode : WalAppendMode) (shardId : ℕ) (events : List (FollowerEvent ρ γ)) :
    Climbing fst 1 (start.run mode shardId events).applied ∧
      ∀ c, (start.run mode shardId events).cursor = some c → ∀ i, 1 ≤ i → i ≤ c →
        (∃ x ∈ (start.run mode shardId events).applied, x.1 = i) ∧
          (start.run mode shardId events).Kept i := by
  have h : Sound (fun _ => True) (start.run mode shardId events) :=
    sound_start.run fun _ _ _ _ _ _ _ => trivial
  refine ⟨h.climbing, fun c hc i hi hle => ?_⟩
  have hsafe := h.covered c hc i hi hle
  exact ⟨h.applied hsafe, h.kept hsafe⟩

/-- The process stops after a replay. The result is gone, although the position is past it and the
next replay has nothing to do. -/
def crashed : List (FollowerEvent ℕ ℕ) :=
  replayBoth (.done true) ++
    [.save .done, .crash fun _ => false, .replay twoEntries, .fetch, .save .done]

theorem run_covered_crashed : (start.run .jsonPerKey 1 crashed).succeeded = true ∧
      (start.run .jsonPerKey 1 crashed).engine.map (·.item.1) = [2] ∧
      (start.run .jsonPerKey 1 crashed).lost.map (·.item.1) = [1] ∧
      (start.run .jsonPerKey 1 crashed).Kept 1 ∧ (start.run .jsonPerKey 1 crashed).Kept 2 :=
  have h := (run_covered .jsonPerKey 1 crashed).2 2 rfl
  ⟨rfl, rfl, rfl, (h 1 le_rfl (by decide)).2, (h 2 (by decide) le_rfl).2⟩

end Follower

end TemporalStore.Shared
