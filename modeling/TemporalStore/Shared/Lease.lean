import TemporalStore.Shared.Log

/-! # The lease of a shard and its fence (`acquire_shard_lease`, `enforce_fence`) -/

namespace TemporalStore.Shared

open List

structure ShardLease where
  loadVersion : ℕ
  owner : String
  deriving DecidableEq

/-- The objects that publications write. -/
inductive ObjectKind where
  | walBlob
  | walOffsets
  | walObject
  | checkpointIndex
  | checkpointSlab
  | checkpointManifest
  deriving DecidableEq

/-- An append to the log, or the manifest that makes a checkpoint visible. -/
def ObjectKind.exposed : ObjectKind → Bool
  | .checkpointIndex | .checkpointSlab => false
  | _ => true

/-- One operation of a call on the object store. -/
inductive StoreOp where
  | readLease (owner : String)
  /-- `compare_and_swap` from the lease that was read. -/
  | swapLease (expected : Option ShardLease) (owner : String)
  /-- `validate_shard_lease` -/
  | enforceFence
  /-- A put or append that is tried so often. -/
  | write (kind : ObjectKind) (attempts : ℕ)
  deriving DecidableEq

structure FencedWriter where
  loadVersion : ℕ
  owner : String
  appendMode : WalAppendMode
  maxAttempts : ℕ

inductive LeaseCall where
  | acquireShardLease
  | publishWalEntry
  | publishWalEntriesBatch (entries : ℕ)
  | publishCheckpoint (slabs : ℕ)

namespace FencedWriter

variable (w : FencedWriter)

def attempts : ℕ := max w.maxAttempts 1

def publishWalEntry : List StoreOp :=
  match w.appendMode with
  | .protobufAppendBlob =>
    [.enforceFence, .write .walBlob w.attempts, .write .walOffsets w.attempts]
  | .jsonPerKey => [.enforceFence, .write .walObject w.attempts]

/-- A batch of a blob log is one publication, one of per-key objects as many as it has entries. -/
def publishWalEntriesBatch (entries : ℕ) : List StoreOp :=
  match w.appendMode with
  | .protobufAppendBlob => if entries = 0 then [] else w.publishWalEntry
  | .jsonPerKey => (replicate entries w.publishWalEntry).flatten

def publishCheckpoint (slabs : ℕ) : List StoreOp :=
  .enforceFence :: .write .checkpointIndex 1 :: replicate slabs (.write .checkpointSlab 1) ++
    [.write .checkpointManifest 1]

def plan : LeaseCall → List StoreOp
  | .acquireShardLease => [.readLease w.owner]
  | .publishWalEntry => w.publishWalEntry
  | .publishWalEntriesBatch entries => w.publishWalEntriesBatch entries
  | .publishCheckpoint slabs => publishCheckpoint slabs

end FencedWriter

inductive StoreAnswer where
  | ok
  /-- It did nothing. -/
  | failed
  /-- It is reported as failed, but took effect. -/
  | unanswered
  deriving DecidableEq

/-- A write that reached the store, with the load versions that had been acquired by then. -/
structure StoreWrite where
  loadVersion : ℕ
  kind : ObjectKind
  acquired : List ℕ

/-- The objects of one shard, as far as fencing is concerned. -/
structure LeaseStore where
  lease : Option ShardLease
  /-- The load versions at which the lease was acquired. -/
  acquired : List ℕ
  writes : List StoreWrite

namespace LeaseStore

/-- One attempt of an operation by a writer of the given load version: what it leaves in the store,
and the operations that take its place in the call, or `none` if the call ends with an error. -/
def perform (s : LeaseStore) (loadVersion : ℕ) (op : StoreOp) (answer : StoreAnswer) :
    LeaseStore × Option (List StoreOp) :=
  match op, answer with
  | .readLease owner, .ok =>
    if s.lease.any fun current => loadVersion ≤ current.loadVersion then (s, none)
    else (s, some [.swapLease s.lease owner])
  | .swapLease expected owner, .ok =>
    if s.lease = expected then
      ({ s with lease := some ⟨loadVersion, owner⟩, acquired := s.acquired ++ [loadVersion] },
        some [])
    else (s, none)
  | .swapLease expected owner, .unanswered =>
    if s.lease = expected then
      ({ s with lease := some ⟨loadVersion, owner⟩, acquired := s.acquired ++ [loadVersion] }, none)
    else (s, none)
  | .enforceFence, .ok =>
    if s.lease.map ShardLease.loadVersion = some loadVersion then (s, some []) else (s, none)
  | .write kind _, .ok =>
    ({ s with writes := s.writes ++ [⟨loadVersion, kind, s.acquired⟩] }, some [])
  | .write kind attempts, .unanswered =>
    ({ s with writes := s.writes ++ [⟨loadVersion, kind, s.acquired⟩] },
      if attempts ≤ 1 then none else some [.write kind (attempts - 1)])
  | .write kind attempts, .failed =>
    (s, if attempts ≤ 1 then none else some [.write kind (attempts - 1)])
  | _, _ => (s, none)

end LeaseStore

structure LeaseTask where
  loadVersion : ℕ
  ops : List StoreOp

/-- The shard's store and all calls under way, of any number of writers. -/
structure LeaseSystem where
  store : LeaseStore
  tasks : List LeaseTask

inductive LeaseEvent where
  | call (writer : FencedWriter) (call : LeaseCall)
  /-- A call makes an attempt of its next operation. -/
  | attempt (task : ℕ) (answer : StoreAnswer)
  /-- A call ends early: its process stops, or it finds an error of its own. -/
  | drop (task : ℕ)

namespace LeaseSystem

def start : LeaseSystem := ⟨⟨none, [], []⟩, []⟩

def attempt (s : LeaseSystem) (i : ℕ) (answer : StoreAnswer) : LeaseSystem :=
  match s.tasks[i]? with
  | some ⟨loadVersion, op :: rest⟩ =>
    match s.store.perform loadVersion op answer with
    | (store, some ops) => ⟨store, s.tasks.set i ⟨loadVersion, ops ++ rest⟩⟩
    | (store, none) => ⟨store, s.tasks.eraseIdx i⟩
  | _ => s

def step (s : LeaseSystem) : LeaseEvent → LeaseSystem
  | .call writer call => { s with tasks := s.tasks ++ [⟨writer.loadVersion, writer.plan call⟩] }
  | .attempt i answer => s.attempt i answer
  | .drop i => { s with tasks := s.tasks.eraseIdx i }

def run (s : LeaseSystem) (events : List LeaseEvent) : LeaseSystem := events.foldl step s

end LeaseSystem

/-- Before its next check of the lease the call will append to the log or write a manifest. -/
def pastFence : List StoreOp → Bool
  | [] => false
  | .enforceFence :: _ => false
  | .write kind _ :: rest => kind.exposed || pastFence rest
  | _ :: rest => pastFence rest

lemma pastFence_flatten_of_fence {l : List (List StoreOp)}
    (h : ∀ ops ∈ l, ops.head? = some .enforceFence) : pastFence l.flatten = false := by
  cases l with
  | nil => rfl
  | cons ops l =>
    obtain ⟨rest, rfl⟩ := head?_eq_some_iff.mp (h ops mem_cons_self)
    rfl

lemma pastFence_plan (w : FencedWriter) (call : LeaseCall) : pastFence (w.plan call) = false := by
  have hent : w.publishWalEntry.head? = some .enforceFence := by
    rw [FencedWriter.publishWalEntry]
    cases w.appendMode <;> rfl
  cases call with
  | acquireShardLease => rfl
  | publishWalEntry =>
    obtain ⟨rest, hrest⟩ := head?_eq_some_iff.mp hent
    rw [FencedWriter.plan, hrest]
    rfl
  | publishWalEntriesBatch entries =>
    rw [FencedWriter.plan, FencedWriter.publishWalEntriesBatch]
    split
    next =>
      split_ifs
      · rfl
      · obtain ⟨rest, hrest⟩ := head?_eq_some_iff.mp hent
        rw [hrest]
        rfl
    next =>
      apply pastFence_flatten_of_fence
      intro ops hops
      rw [eq_of_mem_replicate hops]
      exact hent
  | publishCheckpoint slabs => rfl

lemma swapLease_notMem_plan (w : FencedWriter) (call : LeaseCall) {expected : Option ShardLease}
    {owner : String} : StoreOp.swapLease expected owner ∉ w.plan call := by
  have hent : StoreOp.swapLease expected owner ∉ w.publishWalEntry := by
    rw [FencedWriter.publishWalEntry]
    cases w.appendMode <;> simp
  cases call with
  | acquireShardLease => simp [FencedWriter.plan]
  | publishWalEntry => exact hent
  | publishWalEntriesBatch entries =>
    rw [FencedWriter.plan, FencedWriter.publishWalEntriesBatch]
    split
    next =>
      split_ifs
      · exact not_mem_nil
      · exact hent
    next =>
      intro hmem
      obtain ⟨ops, hops, hmem⟩ := mem_flatten.mp hmem
      rw [eq_of_mem_replicate hops] at hmem
      exact hent hmem
  | publishCheckpoint slabs => simp [FencedWriter.plan, FencedWriter.publishCheckpoint]

namespace LeaseSystem

/-- A writer sends its compare-and-swap only when no call of a lower load version is past its
fence. -/
def Careful (s : LeaseSystem) : LeaseEvent → Prop
  | .attempt i _ =>
    match s.tasks[i]? with
    | some ⟨loadVersion, .swapLease _ _ :: _⟩ =>
      ∀ t ∈ s.tasks, t.loadVersion < loadVersion → pastFence t.ops = false
    | _ => True
  | _ => True

def AllCareful : LeaseSystem → List LeaseEvent → Prop
  | _, [] => True
  | s, event :: events => s.Careful event ∧ AllCareful (s.step event) events

end LeaseSystem

/-- No load version that was acquired exceeds the one of the lease, and no write that exposes
anything was made by a writer whose load version had been exceeded. -/
structure LeaseStore.Guarded (s : LeaseStore) : Prop where
  lease : ∀ v ∈ s.acquired, ∃ current, s.lease = some current ∧ v ≤ current.loadVersion
  writes : ∀ w ∈ s.writes, w.kind.exposed → ∀ v ∈ w.acquired, v ≤ w.loadVersion

/-- A call past its fence has a load version that no acquired one exceeds. -/
structure LeaseTask.Admitted (acquired : List ℕ) (t : LeaseTask) : Prop where
  swap : ∀ expected owner, .swapLease expected owner ∈ t.ops →
    ∀ current, expected = some current → current.loadVersion < t.loadVersion
  fence : pastFence t.ops = true → ∀ v ∈ acquired, v ≤ t.loadVersion

namespace LeaseStore

variable {s : LeaseStore} {loadVersion : ℕ} {op : StoreOp} {rest : List StoreOp}

/-- The state of a call and the store around one operation. -/
structure After (s : LeaseStore) (loadVersion : ℕ) (op : StoreOp) (rest : List StoreOp)
    (r : LeaseStore × Option (List StoreOp)) : Prop where
  guarded : r.1.Guarded
  admitted : ∀ ops, r.2 = some ops → LeaseTask.Admitted r.1.acquired ⟨loadVersion, ops ++ rest⟩
  acquired : r.1.acquired = s.acquired ∨
    (∃ expected owner, op = .swapLease expected owner) ∧
      r.1.acquired = s.acquired ++ [loadVersion]

/-- What is left of a call is admitted when the call was, if the part that was done is not needed to
be past the fence. -/
lemma admitted_rest {acquired : List ℕ} (h : LeaseTask.Admitted acquired ⟨loadVersion, op :: rest⟩)
    (hpast : pastFence rest = true → pastFence (op :: rest) = true) :
    LeaseTask.Admitted acquired ⟨loadVersion, rest⟩ where
  swap expected owner hmem := h.swap expected owner (mem_cons_of_mem _ hmem)
  fence hrest := h.fence (hpast hrest)

lemma after_error (hs : s.Guarded) : After s loadVersion op rest (s, none) where
  guarded := hs
  admitted := nofun
  acquired := .inl rfl

lemma Guarded.swap (hs : s.Guarded) {expected : Option ShardLease} {owner : String}
    (hlease : s.lease = expected)
    (hless : ∀ current, expected = some current → current.loadVersion < loadVersion) :
    Guarded { s with
      lease := some ⟨loadVersion, owner⟩, acquired := s.acquired ++ [loadVersion] } where
  lease v hv := by
    refine ⟨_, rfl, ?_⟩
    rcases mem_append.mp hv with hv | hv
    · obtain ⟨current, hcurr, hle⟩ := hs.lease v hv
      exact hle.trans (hless current (hlease.symm.trans hcurr)).le
    · exact (mem_singleton.mp hv).le
  writes := hs.writes

lemma Guarded.write (hs : s.Guarded) {kind : ObjectKind} {attempts : ℕ}
    (h : LeaseTask.Admitted s.acquired ⟨loadVersion, .write kind attempts :: rest⟩) :
    Guarded { s with writes := s.writes ++ [⟨loadVersion, kind, s.acquired⟩] } where
  lease := hs.lease
  writes w hw hexposed := by
    rcases mem_append.mp hw with hw | hw
    · exact hs.writes w hw hexposed
    · cases mem_singleton.mp hw
      apply h.fence
      rw [pastFence, hexposed, Bool.true_or]

lemma admitted_retry {acquired : List ℕ} {kind : ObjectKind} {attempts : ℕ} {ops : List StoreOp}
    (h : LeaseTask.Admitted acquired ⟨loadVersion, .write kind attempts :: rest⟩)
    (hops : (if attempts ≤ 1 then none else some [StoreOp.write kind (attempts - 1)]) = some ops) :
    LeaseTask.Admitted acquired ⟨loadVersion, ops ++ rest⟩ := by
  split_ifs at hops
  cases hops
  refine ⟨fun expected owner hmem => h.swap expected owner ?_, h.fence⟩
  rcases mem_cons.mp hmem with heq | hmem
  · cases heq
  · exact mem_cons_of_mem _ hmem

lemma after_perform (hs : s.Guarded)
    (h : LeaseTask.Admitted s.acquired ⟨loadVersion, op :: rest⟩) (answer : StoreAnswer) :
    After s loadVersion op rest (s.perform loadVersion op answer) := by
  have hswap : ∀ expected owner, op = .swapLease expected owner →
      ∀ current, expected = some current → current.loadVersion < loadVersion :=
    fun expected owner hop => h.swap expected owner (hop ▸ mem_cons_self)
  rw [perform.eq_def]
  split
  next owner =>
    split_ifs with hstale
    · exact after_error hs
    · -- the lease that was read is older than the one to be written
      refine ⟨hs, fun ops hops => ?_, .inl rfl⟩
      cases hops
      refine ⟨fun expected owner' hmem current hcurr => ?_, h.fence⟩
      rcases mem_cons.mp hmem with heq | hmem
      · cases heq
        rw [hcurr, Option.any_some, decide_eq_true_eq] at hstale
        exact not_le.mp hstale
      · exact h.swap expected owner' (mem_cons_of_mem _ hmem) current hcurr
  next expected owner =>
    split_ifs with hlease
    · refine ⟨hs.swap hlease (hswap expected owner rfl), fun ops hops => ?_,
        .inr ⟨⟨expected, owner, rfl⟩, rfl⟩⟩
      cases hops
      have hrest := admitted_rest h id
      refine ⟨hrest.swap, fun hpast v hv => ?_⟩
      rcases mem_append.mp hv with hv | hv
      · exact hrest.fence hpast v hv
      · exact (mem_singleton.mp hv).le
    · exact after_error hs
  next expected owner =>
    split_ifs with hlease
    · exact ⟨hs.swap hlease (hswap expected owner rfl), nofun, .inr ⟨⟨expected, owner, rfl⟩, rfl⟩⟩
    · exact after_error hs
  next =>
    split_ifs with hlease
    · refine ⟨hs, fun ops hops => ?_, .inl rfl⟩
      cases hops
      refine ⟨fun expected owner hmem => h.swap expected owner (mem_cons_of_mem _ hmem),
        fun _ v hv => ?_⟩
      obtain ⟨current, hcurr, hle⟩ := hs.lease v hv
      rw [hcurr, Option.map_some, Option.some.injEq] at hlease
      exact hle.trans hlease.le
    · exact after_error hs
  next kind attempts =>
    refine ⟨hs.write h, fun ops hops => ?_, .inl rfl⟩
    cases hops
    apply admitted_rest h
    intro hpast
    rw [pastFence, hpast, Bool.or_true]
  next kind attempts => exact ⟨hs.write h, fun ops hops => admitted_retry h hops, .inl rfl⟩
  next kind attempts => exact ⟨hs, fun ops hops => admitted_retry h hops, .inl rfl⟩
  next => exact after_error hs

end LeaseStore

namespace LeaseSystem

structure Guarded (s : LeaseSystem) : Prop where
  store : s.store.Guarded
  tasks : ∀ t ∈ s.tasks, t.Admitted s.store.acquired

variable {s : LeaseSystem}

lemma guarded_start : Guarded start where
  store := ⟨nofun, nofun⟩
  tasks := nofun

lemma Guarded.attempt (h : s.Guarded) {i : ℕ} {answer : StoreAnswer}
    (hcare : s.Careful (.attempt i answer)) : (s.attempt i answer).Guarded := by
  rw [LeaseSystem.attempt]
  split
  next loadVersion op rest htask =>
    have hafter := LeaseStore.after_perform h.store (h.tasks _ (mem_of_getElem? htask)) answer
    -- the other calls are none the worse for it
    have hothers : ∀ t ∈ s.tasks,
        t.Admitted (s.store.perform loadVersion op answer).1.acquired := by
      intro t ht
      rcases hafter.acquired with hsame | ⟨⟨expected, owner, hop⟩, hmore⟩
      · rw [hsame]
        exact h.tasks t ht
      · refine ⟨(h.tasks t ht).swap, fun hpast v hv => ?_⟩
        rw [hmore] at hv
        rcases mem_append.mp hv with hv | hv
        · exact (h.tasks t ht).fence hpast v hv
        · rw [mem_singleton.mp hv]
          have hwaits : ∀ t ∈ s.tasks, t.loadVersion < loadVersion → pastFence t.ops = false := by
            rw [hop] at htask
            simpa only [Careful, htask] using hcare
          by_contra hlt
          exact Bool.false_ne_true ((hwaits t ht (not_le.mp hlt)).symm.trans hpast)
    split
    next store ops hperform =>
      rw [hperform] at hafter hothers
      refine ⟨hafter.guarded, fun t ht => ?_⟩
      rcases mem_or_eq_of_mem_set ht with ht | rfl
      · exact hothers t ht
      · exact hafter.admitted ops rfl
    next store hperform =>
      rw [hperform] at hafter hothers
      exact ⟨hafter.guarded, fun t ht => hothers t (mem_of_mem_eraseIdx ht)⟩
  next => exact h

lemma Guarded.step {event : LeaseEvent} (h : s.Guarded) (hcare : s.Careful event) :
    (s.step event).Guarded := by
  cases event with
  | call writer call =>
    refine ⟨h.store, fun t ht => ?_⟩
    rcases mem_append.mp ht with ht | ht
    · exact h.tasks t ht
    · cases mem_singleton.mp ht
      refine ⟨fun expected owner hmem => absurd hmem (swapLease_notMem_plan writer call), ?_⟩
      intro hpast
      rw [pastFence_plan] at hpast
      cases hpast
  | attempt i answer => exact h.attempt hcare
  | drop i => exact ⟨h.store, fun t ht => h.tasks t (mem_of_mem_eraseIdx ht)⟩

lemma Guarded.run {events : List LeaseEvent} (h : s.Guarded) (hcare : AllCareful s events) :
    (s.run events).Guarded := by
  induction events generalizing s with
  | nil => exact h
  | cons event events ih => exact ih (h.step hcare.1) hcare.2

/-- Once a load version has been acquired, no writer of a lower one appends to the log or writes a
manifest, if every compare-and-swap waits for the calls past their fence. -/
theorem run_fenced (events : List LeaseEvent) (h : AllCareful start events) :
    ∀ w ∈ (start.run events).store.writes, w.kind.exposed → ∀ v ∈ w.acquired, v ≤ w.loadVersion :=
  (guarded_start.run h).store.writes

def oldOwner : FencedWriter := ⟨1, "old", .protobufAppendBlob, 1⟩

def newOwner : FencedWriter := ⟨2, "new", .protobufAppendBlob, 1⟩

def handover : List LeaseEvent :=
  [.call oldOwner .acquireShardLease, .attempt 0 .ok, .attempt 0 .ok,
    .call oldOwner .publishWalEntry, .attempt 1 .ok, .attempt 1 .ok, .attempt 1 .ok,
    .call newOwner .acquireShardLease, .attempt 2 .ok, .attempt 2 .ok]

theorem run_fenced_handover : (start.run handover).store.acquired = [1, 2] ∧
      ∀ w ∈ (start.run handover).store.writes, w.kind.exposed →
        ∀ v ∈ w.acquired, v ≤ w.loadVersion := by
  have hfirst : ∀ t ∈ ([⟨1, [.swapLease none "old"]⟩] : List LeaseTask),
      t.loadVersion < 1 → pastFence t.ops = false := by decide
  -- both calls of the old owner have ended
  have hsecond : ∀ t ∈ ([⟨1, []⟩, ⟨1, []⟩, ⟨2, [.swapLease (some ⟨1, "old"⟩) "new"]⟩] :
      List LeaseTask), t.loadVersion < 2 → pastFence t.ops = false := by decide
  exact ⟨rfl, run_fenced handover ⟨trivial, trivial, hfirst, trivial, trivial, trivial, trivial,
    trivial, trivial, hsecond, trivial⟩⟩

/-- The take-over falls between the old owner's check of the lease and its append. -/
def takenOver : List LeaseEvent :=
  [.call oldOwner .acquireShardLease, .attempt 0 .ok, .attempt 0 .ok,
    .call oldOwner .publishWalEntry, .attempt 1 .ok,
    .call newOwner .acquireShardLease, .attempt 2 .ok, .attempt 2 .ok, .attempt 1 .ok]

theorem not_fenced_takenOver : ¬∀ w ∈ (start.run takenOver).store.writes, w.kind.exposed →
      ∀ v ∈ w.acquired, v ≤ w.loadVersion := by
  intro h
  have hwrites : (start.run takenOver).store.writes = [⟨1, .walBlob, [1, 2]⟩] := rfl
  have hle : 2 ≤ 1 := h ⟨1, .walBlob, [1, 2]⟩ (hwrites ▸ mem_cons_self) rfl 2 (by simp)
  omega

end LeaseSystem

end TemporalStore.Shared
