import TemporalStore.Lib.Layout
import TemporalStore.Lib.Lists
import TemporalStore.Lib.Text
import TemporalStore.Shared.Lease

/-! # Callers that race on one object (`object_store.rs`, `acquire_shard_lease`) -/

namespace TemporalStore.Shared.Races

open Lib Function

/-- `AppendBlobReceipt`, without where the bytes lie physically, which neither store knows. -/
structure Receipt where
  startOffset : ℕ
  endOffset : ℕ
  bytesWritten : ℕ
  objectLength : ℕ
  deriving DecidableEq

def receiptAt (startOffset : ℕ) (bytes : Bytes) : Receipt :=
  ⟨startOffset, startOffset + bytes.length, bytes.length, startOffset + bytes.length⟩

/-- The bytes stand in the object from `place` on. -/
def Lies (object bytes : Bytes) (place : ℕ) : Prop :=
  ∃ before after, object = before ++ bytes ++ after ∧ before.length = place

lemma lies_end (object bytes : Bytes) : Lies (object ++ bytes) bytes object.length :=
  ⟨object, [], by simp, rfl⟩

lemma Lies.append {object bytes : Bytes} {place : ℕ} (h : Lies object bytes place)
    (more : Bytes) : Lies (object ++ more) bytes place := by
  obtain ⟨before, after, rfl, hplace⟩ := h
  exact ⟨before, after ++ more, by simp, hplace⟩

namespace File

inductive Phase where
  | querying
  | writing (startOffset : ℕ)
  /-- With where the bytes lie. -/
  | returned (receipt : Receipt) (place : ℕ)
  | failed

structure State where
  object : Bytes
  phase : ℕ → Phase

variable (bytes : ℕ → Bytes)

/-- The length query or the write of a caller; without `ok` the file system reports an error. A
missing object is as long as an empty one, and the write creates it. -/
def step (s : State) (turn : ℕ × Bool) : State :=
  let go := update s.phase turn.1
  match s.phase turn.1 with
  | .querying => ⟨s.object, go (if turn.2 then .writing s.object.length else .failed)⟩
  | .writing startOffset =>
    if turn.2 then
      ⟨s.object ++ bytes turn.1,
        go (.returned (receiptAt startOffset (bytes turn.1)) s.object.length)⟩
    else ⟨s.object, go .failed⟩
  | _ => s

/-- Every receipt names the range in which the bytes of its caller lie. -/
def Truthful (s : State) : Prop :=
  ∀ c receipt place, s.phase c = .returned receipt place →
    receipt.startOffset = place ∧ receipt.endOffset = place + (bytes c).length ∧
      Lies s.object (bytes c) place

/-- Whoever writes something is the only one between its query and its write. -/
def Careful (s : State) (turn : ℕ × Bool) : Prop :=
  ∀ c start start', turn.2 → s.phase turn.1 = .writing start → s.phase c = .writing start' →
    c = turn.1 ∨ bytes turn.1 = []

def AllCareful : State → List (ℕ × Bool) → Prop
  | _, [] => True
  | s, turn :: turns => Careful bytes s turn ∧ AllCareful (step bytes s turn) turns

/-- What holds of a caller in its phase. -/
def Fits (object : Bytes) (c : ℕ) : Phase → Prop
  | .writing startOffset => startOffset = object.length
  | .returned receipt place => receipt = receiptAt place (bytes c) ∧ Lies object (bytes c) place
  | _ => True

variable {bytes}

lemma fits_step {s : State} {turn : ℕ × Bool} (h : ∀ c, Fits bytes s.object c (s.phase c))
    (hcareful : Careful bytes s turn) (c : ℕ) :
    Fits bytes (step bytes s turn).object c ((step bytes s turn).phase c) := by
  have hturn := h turn.1
  revert c
  unfold step
  split
  case h_1 =>
    refine (forall_update_iff _ _).mpr ⟨?_, fun d _ => h d⟩
    split <;> simp [Fits]
  case h_2 startOffset hphase =>
    rw [hphase] at hturn
    split
    case isTrue hok =>
      refine (forall_update_iff _ _).mpr ⟨⟨by rw [hturn], lies_end _ _⟩, fun d hne => ?_⟩
      have hd := h d
      cases hother : s.phase d with
      | writing startOffset' =>
        rw [hother] at hd
        have hnil := (hcareful d _ _ hok hphase hother).resolve_left hne
        simpa [Fits, hnil] using hd
      | returned receipt place =>
        rw [hother] at hd
        exact hd.imp_right (·.append _)
      | _ => trivial
    case isFalse => exact (forall_update_iff _ _).mpr ⟨trivial, fun d _ => h d⟩
  case h_3 => exact h

theorem receipts_truthful (bytes : ℕ → Bytes) (object : Bytes) (turns : List (ℕ × Bool))
    (hcareful : AllCareful bytes ⟨object, fun _ => .querying⟩ turns) :
    Truthful bytes (turns.foldl (step bytes) ⟨object, fun _ => .querying⟩) := by
  suffices hrun : ∀ s, (∀ c, Fits bytes s.object c (s.phase c)) → AllCareful bytes s turns →
      Truthful bytes (turns.foldl (step bytes) s) from hrun _ (fun _ => trivial) hcareful
  clear hcareful
  induction turns with
  | nil =>
    intro s h _ c receipt place (hc : s.phase c = _)
    have hfits := h c
    rw [hc] at hfits
    obtain ⟨rfl, hlies⟩ := hfits
    exact ⟨rfl, rfl, hlies⟩
  | cons turn turns ih => exact fun s h hcareful => ih _ (fits_step h hcareful.1) hcareful.2

/-- One caller after the other. -/
theorem receipts_truthful_in_turn :
    Truthful (fun _ => [0]) ([(0, true), (0, true), (1, true), (1, true)].foldl
      (step fun _ => [0]) ⟨[], fun _ => .querying⟩) := by
  refine receipts_truthful _ _ _ ⟨?_, ?_, ?_, ?_, trivial⟩
  all_goals
    intro c start start' _ _ hc
    rcases c with _ | _ | c <;> simp [step] at hc ⊢

/-- Two callers that both query before either writes. -/
theorem not_receipts_truthful :
    ¬Truthful (fun _ => [0]) ([(0, true), (1, true), (0, true), (1, true)].foldl
      (step fun _ => [0]) ⟨[], fun _ => .querying⟩) := by
  intro h
  exact absurd (h 1 (receiptAt 0 [0]) 1 rfl).1 Nat.zero_ne_one

end File

namespace Lease

def sharedObjectContainerProtobuf : Byte := 1

/-- What the lease object rests on: `prost` on the message, and `serde_json` on an older object,
which finds no lease in nothing. -/
structure Codec where
  message : Coding String ShardLease
  json : Bytes → Except String ShardLease
  json_nil : ∀ lease, json [] ≠ .ok lease

def sharedObjectProtobufBody : Bytes → Option Bytes
  | [] => none
  | first :: body => if first = sharedObjectContainerProtobuf then some body else none

variable (codec : Codec) (calls : ℕ → ShardLease)

def decodeShardLease (bytes : Bytes) : Except String ShardLease :=
  match sharedObjectProtobufBody bytes with
  | some body => codec.message.decode body
  | none => codec.json bytes

def encodeShardLease (lease : ShardLease) : Bytes :=
  sharedObjectContainerProtobuf :: codec.message.encode lease

/-- The caller holds the lock from `comparing` to `releasing`. The file is truncated when it is
created, and then written and synced. -/
inductive Phase where
  | reading
  | locking (expected : Option Bytes)
  | comparing (expected : Option Bytes)
  | creating
  | writing
  | syncing
  | releasing (ok : Bool)
  | ended (ok : Bool)
  deriving DecidableEq

/-- The lease file, whose guard has made its lock directory, and the callers whose lease was
written, in that order. -/
structure State where
  file : Option Bytes
  lock : Option ℕ
  phase : ℕ → Phase
  acquired : List ℕ

def State.start (file : Option Bytes) : State := ⟨file, none, fun _ => .reading, []⟩

/-- What was read is no lease, or that of a lower load version. -/
def supersedes (current : Option Bytes) (lease : ShardLease) : Bool :=
  match current.map (decodeShardLease codec) with
  | none => true
  | some (.ok held) => held.loadVersion < lease.loadVersion
  | some (.error _) => false

/-- An atomic step of a caller; without `ok` the file system reports an error, or the wait for the
lock has been too long. A write that fails leaves the truncated file. -/
def step (s : State) (turn : ℕ × Bool) : State :=
  let go phase := { s with phase := update s.phase turn.1 phase }
  match s.phase turn.1 with
  | .reading =>
    go (if turn.2 ∧ supersedes codec s.file (calls turn.1) then .locking s.file else .ended false)
  | .locking expected =>
    if turn.2 = false then go (.ended false)
    else if s.lock.isSome then s
    else { go (.comparing expected) with lock := some turn.1 }
  | .comparing expected => go (if turn.2 ∧ s.file = expected then .creating else .releasing false)
  | .creating => if turn.2 then { go .writing with file := some [] } else go (.releasing false)
  | .writing =>
    if turn.2 then
      { go .syncing with
        file := some (encodeShardLease codec (calls turn.1)), acquired := s.acquired ++ [turn.1] }
    else go (.releasing false)
  | .syncing => go (.releasing turn.2)
  | .releasing ok => { go (.ended ok) with lock := none }
  | .ended _ => s

def run (s : State) (turns : List (ℕ × Bool)) : State := turns.foldl (step codec calls) s

/-- What holds of a caller in its phase. -/
def Fits (s : State) (c : ℕ) : Phase → Prop
  | .reading => True
  | .locking expected => supersedes codec expected (calls c)
  | .comparing expected => s.lock = some c ∧ supersedes codec expected (calls c)
  | .creating => s.lock = some c ∧ supersedes codec s.file (calls c)
  | .writing => s.lock = some c ∧ ∀ d ∈ s.acquired, (calls d).loadVersion < (calls c).loadVersion
  | .syncing => s.lock = some c ∧ c ∈ s.acquired
  | .releasing ok => s.lock = some c ∧ (ok → c ∈ s.acquired)
  | .ended ok => ok → c ∈ s.acquired

structure Inv (s : State) : Prop where
  fits : ∀ c, Fits codec calls s c (s.phase c)
  below : s.file = some [] ∨ ∀ c ∈ s.acquired, ∃ bytes held, s.file = some bytes ∧
    decodeShardLease codec bytes = .ok held ∧ (calls c).loadVersion ≤ held.loadVersion
  sorted : s.acquired.Pairwise fun c d => (calls c).loadVersion < (calls d).loadVersion

lemma inv_start (file : Option Bytes) : Inv codec calls (.start file) :=
  ⟨fun _ => trivial, .inr fun _ hd => absurd hd List.not_mem_nil, .nil⟩

lemma not_supersedes_nil (lease : ShardLease) : supersedes codec (some []) lease = false := by
  have hnone : decodeShardLease codec [] = codec.json [] := rfl
  rw [supersedes, Option.map_some, hnone]
  cases hjson : codec.json [] with
  | ok held => exact absurd hjson (codec.json_nil held)
  | error e => rfl

variable {codec calls} {s : State}

/-- Nothing that happens to the file or the lock concerns a caller that does not hold the lock. -/
lemma Fits.of_not_lock {s' : State} {c : ℕ} {phase : Phase} (h : Fits codec calls s c phase)
    (hlock : s.lock ≠ some c) (hacquired : s.acquired ⊆ s'.acquired) :
    Fits codec calls s' c phase := by
  cases phase with
  | reading => trivial
  | locking expected => exact h
  | ended ok => exact fun hok => hacquired (h hok)
  | _ => exact absurd h.1 hlock

lemma Inv.lower (h : Inv codec calls s) {lease : ShardLease}
    (hlease : supersedes codec s.file lease) :
    ∀ d ∈ s.acquired, (calls d).loadVersion < lease.loadVersion := by
  intro d hd
  rcases h.below with hnil | hbelow
  · rw [hnil, not_supersedes_nil] at hlease
    cases hlease
  · obtain ⟨bytes, held, hfile, hdecode, hle⟩ := hbelow d hd
    simp only [supersedes, hfile, Option.map_some, hdecode, decide_eq_true_eq] at hlease
    exact hle.trans_lt hlease

lemma Inv.create (h : Inv codec calls s) {c : ℕ} (hphase : s.phase c = .creating) :
    Inv codec calls { s with phase := update s.phase c .writing, file := some [] } := by
  have hfits := h.fits c
  rw [hphase] at hfits
  obtain ⟨hlock, hlease⟩ := hfits
  refine ⟨(forall_update_iff _ _).mpr ⟨⟨hlock, h.lower hlease⟩, fun d hne => ?_⟩, .inl rfl,
    h.sorted⟩
  exact (h.fits d).of_not_lock (by simpa [hlock] using hne.symm) fun _ => id

lemma Inv.write (h : Inv codec calls s) {c : ℕ} (hphase : s.phase c = .writing) : Inv codec calls
      { s with
        phase := update s.phase c .syncing
        file := some (encodeShardLease codec (calls c))
        acquired := s.acquired ++ [c] } := by
  have hfits := h.fits c
  rw [hphase] at hfits
  obtain ⟨hlock, hlow⟩ := hfits
  refine ⟨(forall_update_iff _ _).mpr ⟨⟨hlock, by simp⟩, fun d hne => ?_⟩,
    .inr fun d hd => ⟨_, calls c, rfl, codec.message.decode_encode _, ?_⟩, ?_⟩
  · exact (h.fits d).of_not_lock (by simpa [hlock] using hne.symm) (by simp)
  · rcases List.mem_append.mp hd with hd | hd
    · exact (hlow d hd).le
    · rw [List.mem_singleton.mp hd]
  · exact List.pairwise_append.mpr ⟨h.sorted, List.pairwise_singleton _ _, by simpa using hlow⟩

lemma Inv.step (h : Inv codec calls s) (turn : ℕ × Bool) :
    Inv codec calls (step codec calls s turn) := by
  have hturn := h.fits turn.1
  -- a caller that goes on without touching the file or the lock
  have hgo {phase : Phase} (hfits : Fits codec calls s turn.1 phase) :
      Inv codec calls { s with phase := update s.phase turn.1 phase } :=
    ⟨(forall_update_iff _ _).mpr ⟨hfits, fun d _ => h.fits d⟩, h.below, h.sorted⟩
  unfold Lease.step
  split
  case h_1 =>
    apply hgo
    split
    case isTrue hok => exact hok.2
    case isFalse => exact Bool.noConfusion
  case h_2 expected hphase =>
    rw [hphase] at hturn
    split_ifs with hok hlocked
    · exact hgo Bool.noConfusion
    · exact h
    · refine ⟨(forall_update_iff _ _).mpr ⟨⟨rfl, hturn⟩, fun d _ => ?_⟩, h.below, h.sorted⟩
      exact (h.fits d).of_not_lock (fun hd => hlocked (by simp [hd])) fun _ => id
  case h_3 expected hphase =>
    rw [hphase] at hturn
    apply hgo
    split
    case isTrue hok => exact ⟨hturn.1, hok.2 ▸ hturn.2⟩
    case isFalse => exact ⟨hturn.1, Bool.noConfusion⟩
  case h_4 hphase =>
    rw [hphase] at hturn
    split
    case isTrue => exact h.create hphase
    case isFalse => exact hgo ⟨hturn.1, Bool.noConfusion⟩
  case h_5 hphase =>
    rw [hphase] at hturn
    split
    case isTrue => exact h.write hphase
    case isFalse => exact hgo ⟨hturn.1, Bool.noConfusion⟩
  case h_6 hphase =>
    rw [hphase] at hturn
    exact hgo ⟨hturn.1, fun _ => hturn.2⟩
  case h_7 ok hphase =>
    rw [hphase] at hturn
    refine ⟨(forall_update_iff _ _).mpr ⟨hturn.2, fun d hne => ?_⟩, h.below, h.sorted⟩
    exact (h.fits d).of_not_lock (by simpa [hturn.1] using hne.symm) fun _ => id
  case h_8 => exact h

lemma Inv.run (h : Inv codec calls s) (turns : List (ℕ × Bool)) :
    Inv codec calls (run codec calls s turns) :=
  List.foldlRecOn turns (Lease.step codec calls) (motive := Inv codec calls) h
    fun _ hs turn _ => hs.step turn

/-- The leases are written in the order of their load versions, and only a caller whose lease was
written succeeds. -/
theorem acquireShardLease_increasing (codec : Codec) (calls : ℕ → ShardLease)
    (file : Option Bytes) (turns : List (ℕ × Bool)) :
    let s := run codec calls (.start file) turns
    (s.acquired.map fun c => (calls c).loadVersion).Pairwise (· < ·) ∧
      ∀ c, s.phase c = .ended true → c ∈ s.acquired := by
  have h := (inv_start codec calls file).run turns
  refine ⟨List.pairwise_map.mpr h.sorted, fun c hc => ?_⟩
  have hfits := h.fits c
  rw [hc] at hfits
  exact hfits rfl

/-- A load version and an owner with a space between them, and no older objects. -/
def spelledLeases : Codec where
  message := {
    encode lease := decimalBytes lease.loadVersion ++ space :: utf8 lease.owner
    decode bytes :=
      match splitOnceSpace bytes with
      | none => .error "invalid lease"
      | some (loadVersion, owner) =>
        match parseDecimal loadVersion, String.fromUTF8? ⟨owner.toArray⟩ with
        | some loadVersion, some owner => .ok ⟨loadVersion, owner⟩
        | _, _ => .error "invalid lease"
    decode_encode lease := by
      have hspace : space ∉ decimalBytes lease.loadVersion :=
        fun h => absurd (mem_decimalBytes h).1 (by decide)
      rw [splitOnceSpace_append _ hspace]
      dsimp only
      rw [parseDecimal_decimalBytes, fromUTF8?_utf8] }
  json _ := .error "EOF while parsing a value"
  json_nil _ := nofun

/-- Two callers that both find no lease, of whom the second loses, and a third that comes later. -/
def threeCallers : List (ℕ × Bool) :=
  [0, 1, 0, 1, 0, 0, 0, 0, 0, 1, 1, 1, 2, 2, 2, 2, 2, 2, 2].map (·, true)

theorem acquireShardLease_increasing_threeCallers :
    let calls c : ShardLease := ⟨c + 1, "node"⟩
    let s := run spelledLeases calls (.start none) threeCallers
    s.acquired = [0, 2] ∧ (s.acquired.map fun c => (calls c).loadVersion).Pairwise (· < ·) ∧
      s.phase 2 = .ended true ∧ 2 ∈ s.acquired := by
  intro calls s
  have h := acquireShardLease_increasing spelledLeases calls none threeCallers
  have hacquired : s.acquired = [0, 2] := by decide +kernel
  have hended : s.phase 2 = .ended true := by decide +kernel
  exact ⟨hacquired, h.1, hended, h.2 2 hended⟩

/-- The caller is inside `compare_and_swap`, with the lock. -/
def Phase.locked : Phase → Bool
  | .comparing _ | .creating | .writing | .syncing | .releasing _ => true
  | .reading | .locking _ | .ended _ => false

lemma Fits.lock {c : ℕ} {phase : Phase} (h : Fits codec calls s c phase) (hlocked : phase.locked) :
    s.lock = some c := by
  cases phase <;> first | exact h.1 | cases hlocked

lemma Inv.step_of_truncated (h : Inv codec calls s) (hfile : s.file = some [])
    (hwriting : ∀ c, s.phase c ≠ .writing) (turn : ℕ × Bool) :
    (Lease.step codec calls s turn).file = some [] ∧
      (Lease.step codec calls s turn).acquired = s.acquired ∧
      ∀ c, (Lease.step codec calls s turn).phase c ≠ .writing := by
  have hturn := h.fits turn.1
  have hgo {phase : Phase} (hphase : phase ≠ .writing) (c : ℕ) :
      update s.phase turn.1 phase c ≠ .writing :=
    (forall_update_iff s.phase fun _ x => x ≠ Phase.writing).mpr
      ⟨hphase, fun d _ => hwriting d⟩ c
  unfold Lease.step
  split
  case h_1 => exact ⟨hfile, rfl, hgo (by split <;> simp)⟩
  case h_2 =>
    split_ifs
    · exact ⟨hfile, rfl, hgo nofun⟩
    · exact ⟨hfile, rfl, hwriting⟩
    · exact ⟨hfile, rfl, hgo nofun⟩
  case h_3 => exact ⟨hfile, rfl, hgo (by split <;> simp)⟩
  case h_4 hphase =>
    rw [hphase] at hturn
    have hlease := hturn.2
    rw [hfile, not_supersedes_nil] at hlease
    cases hlease
  case h_5 hphase => exact absurd hphase (hwriting turn.1)
  case h_6 => exact ⟨hfile, rfl, hgo nofun⟩
  case h_7 => exact ⟨hfile, rfl, hgo nofun⟩
  case h_8 => exact ⟨hfile, rfl, hwriting⟩

lemma Inv.run_of_truncated (h : Inv codec calls s) (hfile : s.file = some [])
    (hwriting : ∀ c, s.phase c ≠ .writing) (turns : List (ℕ × Bool)) :
    (Lease.run codec calls s turns).acquired = s.acquired := by
  induction turns generalizing s with
  | nil => rfl
  | cons turn turns ih =>
    obtain ⟨hnil, hacquired, hnone⟩ := h.step_of_truncated hfile hwriting turn
    exact (ih (h.step turn) hnil hnone).trans hacquired

/-- At every moment the lease file is truncated, or it holds a lease at least as new as all that
were written; one caller at a time is inside `compare_and_swap`; and a file that a failed write left
truncated is never written again. -/
theorem acquireShardLease_kept (codec : Codec) (calls : ℕ → ShardLease) (file : Option Bytes)
    (turns : List (ℕ × Bool)) :
    let s := run codec calls (.start file) turns
    (s.file = some [] ∨ ∀ c ∈ s.acquired, ∃ bytes held, s.file = some bytes ∧
      decodeShardLease codec bytes = .ok held ∧ (calls c).loadVersion ≤ held.loadVersion) ∧
    (∀ c d, (s.phase c).locked → (s.phase d).locked → c = d) ∧
    (s.file = some [] → s.lock = none →
      ∀ more, (run codec calls s more).acquired = s.acquired) := by
  have h := (inv_start codec calls file).run turns
  refine ⟨h.below, fun c d hc hd => ?_, fun hfile hlock => h.run_of_truncated hfile fun c hc => ?_⟩
  · have hlock := (h.fits c).lock hc
    rw [(h.fits d).lock hd] at hlock
    exact (Option.some.inj hlock).symm
  · have hfits := (h.fits c).lock (hc ▸ rfl)
    rw [hlock] at hfits
    cases hfits

/-- The third caller truncates the file and cannot write it; nobody gets a lease after that. -/
theorem acquireShardLease_kept_truncated :
    let calls c : ShardLease := ⟨c + 1, "node"⟩
    let s := run spelledLeases calls (.start none)
      (threeCallers.take 16 ++ [(2, false), (2, true)])
    s.file = some [] ∧ s.acquired = [0] ∧
      ∀ more, (run spelledLeases calls s more).acquired = s.acquired := by
  intro calls s
  have hfile : s.file = some [] := by decide +kernel
  have hlock : s.lock = none := by decide +kernel
  refine ⟨hfile, by decide +kernel, ?_⟩
  exact (acquireShardLease_kept spelledLeases calls none _).2.2 hfile hlock

end Lease

namespace Http

/-- What the server answered to the append, and the object right after it. -/
structure Reply where
  status : ℕ
  objectSize : Option ℕ
  object : Bytes

/-- Where a call is; `resent` is set once its request is on a fresh connection. -/
inductive Phase where
  | ready (attempt : ℕ)
  | heading (attempt : ℕ) (resent : Bool)
  | putting (startOffset attempt : ℕ) (resent : Bool) (reply : Option Reply)
  /-- With the object right after the accepted request. -/
  | returned (receipt : Receipt) (object : Bytes)
  | failed

/-- The server's object, and the length of it that each client remembers. -/
structure State where
  object : Option Bytes
  knownLengths : ℕ → Option ℕ
  phase : ℕ → Phase

inductive Event where
  /-- A call takes up its next attempt. -/
  | begin (call : ℕ)
  /-- The length a `HEAD` gives, or none where it is an error. -/
  | headed (call : ℕ) (length : Option ℕ)
  | serve (call : ℕ) (status : ℕ) (objectSize : Option ℕ)
  | receive (call : ℕ)
  /-- An exchange breaks, on a pooled connection or on a fresh one. -/
  | lose (call : ℕ) (pooled : Bool)
  /-- The server replaces or deletes the object. -/
  | change (object : Option Bytes)
  /-- A client hears that its replacement was done and remembers its length, or that its deletion
  was. -/
  | remember (client : ℕ) (length : Option ℕ)

def appendAttempts : ℕ := 8

def success (status : ℕ) : Bool := status ∈ [200, 201, 204]

variable (client : ℕ → ℕ) (bytes : ℕ → Bytes)

/-- What the client makes of the reply. -/
def receive (s : State) (call startOffset attempt : ℕ) (reply : Reply) : State :=
  let go known phase : State :=
    ⟨s.object, update s.knownLengths (client call) known,
      update s.phase call phase⟩
  let endOffset := startOffset + (bytes call).length
  if success reply.status then
    if reply.objectSize = some endOffset then
      go (some endOffset) (.returned (receiptAt startOffset (bytes call)) reply.object)
    else go (s.knownLengths (client call)) .failed
  else if reply.status = 412 then go none (.ready (attempt + 1))
  else go (s.knownLengths (client call)) .failed

/-- The server appends where the request says that the object ends, or refuses. It does not report
a success otherwise. -/
def serve (s : State) (call startOffset attempt : ℕ) (resent : Bool) (status : ℕ)
    (objectSize : Option ℕ) : State :=
  let go object reply : State :=
    ⟨object, s.knownLengths,
      update s.phase call (.putting startOffset attempt resent (some reply))⟩
  let object := s.object.getD []
  if success status then
    if object.length = startOffset then
      go (some (object ++ bytes call)) ⟨status, objectSize, object ++ bytes call⟩
    else s
  else go s.object ⟨status, objectSize, object⟩

def step (s : State) (event : Event) : State :=
  let go call phase := { s with phase := update s.phase call phase }
  match event with
  | .begin call =>
    match s.phase call with
    | .ready attempt =>
      go call <|
        if attempt < appendAttempts then
          match s.knownLengths (client call), attempt with
          | some length, 0 => .putting length 0 false none
          | _, _ => .heading attempt false
        else .failed
    | _ => s
  | .headed call length =>
    match s.phase call with
    | .heading attempt _ =>
      go call (length.elim .failed fun length => .putting length attempt false none)
    | _ => s
  | .serve call status objectSize =>
    match s.phase call with
    | .putting startOffset attempt resent none =>
      serve bytes s call startOffset attempt resent status objectSize
    | _ => s
  | .receive call =>
    match s.phase call with
    | .putting startOffset attempt _ (some reply) =>
      receive client bytes s call startOffset attempt reply
    | _ => s
  | .lose call pooled =>
    match s.phase call with
    | .heading attempt resent =>
      go call (if pooled ∧ resent = false then .heading attempt true else .failed)
    | .putting startOffset attempt resent _ =>
      go call
        (if pooled ∧ resent = false then .putting startOffset attempt true none else .failed)
    | _ => s
  | .change object => { s with object := object }
  | .remember c length => { s with knownLengths := update s.knownLengths c length }

/-- Every receipt names the range in which the bytes lay when the request was applied. -/
def Truthful (s : State) : Prop :=
  ∀ call receipt object, s.phase call = .returned receipt object →
    receipt.endOffset = receipt.startOffset + (bytes call).length ∧
      Lies object (bytes call) receipt.startOffset

/-- What holds of a call in its phase. -/
def Fits (call : ℕ) : Phase → Prop
  | .putting startOffset _ _ (some reply) =>
    success reply.status → Lies reply.object (bytes call) startOffset
  | .returned receipt object =>
    ∃ startOffset, receipt = receiptAt startOffset (bytes call) ∧
      Lies object (bytes call) startOffset
  | _ => True

variable {client bytes} {s : State}

section

variable (h : ∀ c, Fits bytes c (s.phase c))
include h

lemma fits_update {call : ℕ} {phase : Phase} (hphase : Fits bytes call phase) (c : ℕ) :
    Fits bytes c (update s.phase call phase c) :=
  (forall_update_iff _ _).mpr ⟨hphase, fun d _ => h d⟩ c

lemma fits_receive {call startOffset attempt : ℕ}
    {reply : Reply} (hreply : success reply.status → Lies reply.object (bytes call) startOffset)
    (c : ℕ) : Fits bytes c ((receive client bytes s call startOffset attempt reply).phase c) := by
  simp only [receive]
  split_ifs with hok hsize
  all_goals apply fits_update h
  · exact ⟨startOffset, rfl, hreply hok⟩
  all_goals trivial

lemma fits_serve (call startOffset attempt : ℕ) (resent : Bool)
    (status : ℕ) (objectSize : Option ℕ) (c : ℕ) :
    Fits bytes c ((serve bytes s call startOffset attempt resent status objectSize).phase c) := by
  simp only [serve]
  split_ifs with hok hend
  · apply fits_update h
    exact fun _ => hend ▸ lies_end _ _
  · exact h c
  · apply fits_update h
    exact fun hyes => absurd hyes hok

lemma fits_step (event : Event) (c : ℕ) : Fits bytes c ((step client bytes s event).phase c) := by
  unfold step
  cases event with
  | begin call =>
    dsimp only
    split
    case h_1 =>
      apply fits_update h
      split
      · split <;> trivial
      · trivial
    case h_2 => exact h c
  | headed call length =>
    dsimp only
    split
    · exact fits_update h (by cases length <;> trivial) c
    · exact h c
  | serve call status objectSize =>
    dsimp only
    split
    · exact fits_serve h ..
    · exact h c
  | receive call =>
    dsimp only
    split
    case h_1 startOffset attempt _ reply hphase =>
      have hcall := h call
      rw [hphase] at hcall
      exact fits_receive h hcall c
    case h_2 => exact h c
  | lose call pooled =>
    dsimp only
    split
    · exact fits_update h (by split <;> trivial) c
    · exact fits_update h (by split <;> trivial) c
    · exact h c
  | _ => exact h c

end

/-- Whatever the clients remember and whatever is lost, an append that succeeds has its bytes where
its receipt says. -/
theorem receipts_truthful_applied (client : ℕ → ℕ) (bytes : ℕ → Bytes) (object : Option Bytes)
    (knownLengths : ℕ → Option ℕ) (events : List Event) : Truthful bytes
      (events.foldl (step client bytes) ⟨object, knownLengths, fun _ => .ready 0⟩) := by
  intro call receipt applied hreturned
  have hrun {s : State} (hs : ∀ c, Fits bytes c (s.phase c)) (c : ℕ) :
      Fits bytes c ((events.foldl (step client bytes) s).phase c) :=
    List.foldlRecOn events (step client bytes) (motive := fun s => ∀ c, Fits bytes c (s.phase c)) hs
      (fun _ hs event _ => fits_step hs event) c
  have hfits := hrun (s := ⟨object, knownLengths, fun _ => .ready 0⟩) (fun _ => trivial) call
  rw [hreturned] at hfits
  obtain ⟨startOffset, rfl, hlies⟩ := hfits
  exact ⟨rfl, hlies⟩

end Http

end TemporalStore.Shared.Races
