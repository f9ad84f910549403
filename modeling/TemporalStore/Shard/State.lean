import Mathlib.Data.Finmap
import Mathlib.Data.List.Sort
import TemporalStore.Lib.Bytes
import TemporalStore.Shard.Rollup

/-! # The state of a shard
(`engine/engine_storage_state.rs`, `engine.rs`, `engine/product_model.rs`) -/

namespace TemporalStore.Shard

open Lib

abbrev Key := Bytes

inductive ControlStateFamily where
  | counter
  | distinct
  | selection
  deriving DecidableEq

/-- `h`, `cpc` and `fol`. -/
def controlStateFamilyName : ControlStateFamily → Bytes
  | .counter => [0x68]
  | .distinct => [0x63, 0x70, 0x63]
  | .selection => [0x66, 0x6f, 0x6c]

/-- `control_state:`. -/
def controlStatePrefix : Bytes :=
  [0x63, 0x6f, 0x6e, 0x74, 0x72, 0x6f, 0x6c, 0x5f, 0x73, 0x74, 0x61, 0x74, 0x65, 0x3a]

/-- The colon after the family. -/
def controlStateFamilyKey (family : ControlStateFamily) (key : Key) : Key :=
  controlStatePrefix ++ controlStateFamilyName family ++ 0x3a :: key

def associatedRecordKeys (key : Key) : List Key :=
  if controlStatePrefix.isPrefixOf key then [key]
  else [key, controlStateFamilyKey .counter key, controlStateFamilyKey .distinct key,
    controlStateFamilyKey .selection key]

inductive ControlStateSelectionType where
  | first
  | last
  deriving DecidableEq

structure ControlStateSelectionValue where
  occurTimeMs : ℕ
  value : Bytes
  selectionType : ControlStateSelectionType
  deriving DecidableEq

/-- The order of the maps that are keyed by an instant and bytes. -/
def instantLe (a b : ℕ × Bytes) : Prop := a.1 < b.1 ∨ a.1 = b.1 ∧ a.2 ≤ b.2

instance : DecidableRel instantLe := fun a b =>
  inferInstanceAs (Decidable (a.1 < b.1 ∨ a.1 = b.1 ∧ a.2 ≤ b.2))

structure SeenSet where
  byMember : Finmap fun _ : Bytes => ℕ
  byTime : List (ℕ × Bytes)

def SeenSet.empty : SeenSet := ⟨∅, []⟩

/-- A map from elements to values, as hashes, sets, lists and sorted sets hold one. -/
abbrev Elements (ε ν : Type) := Finmap fun _ : ε => ν

/-- What the model maps hold under one record key. -/
@[ext] structure Record where
  string : Option Bytes
  hash : Option (Elements Bytes Bytes)
  set : Option (Elements Bytes Unit)
  list : Option (Elements ℤ Bytes)
  zset : Option (Elements Bytes UInt64)
  seen : Option SeenSet
  controlState : Option CounterSeries
  controlStateBlock : Option CounterSeries
  controlStateSelection : Option ControlStateSelectionValue

def Record.empty : Record := ⟨none, none, none, none, none, none, none, none, none⟩

def Record.present (r : Record) : Bool :=
  r.string.isSome || r.hash.isSome || r.set.isSome || r.list.isSome || r.zset.isSome ||
    r.seen.isSome || r.controlState.isSome || r.controlStateBlock.isSome ||
    r.controlStateSelection.isSome

@[ext] structure ShardState where
  records : Key → Record
  expiresAt : Key → Option ℕ
  /-- The deadlines in order, which the sweep reads. -/
  expiryByDeadline : List (ℕ × Key)
  /-- The dedup ledger: when each entry lapses. -/
  controlStateUuid : List (Bytes × ℕ)
  rollups : Key → Option RollupEntry
  /-- The bound of the counter series, published by each command. -/
  controlStateMaxSize : ℕ

def ShardState.empty : ShardState :=
  ⟨fun _ => Record.empty, fun _ => none, [], [], fun _ => none, 0⟩

namespace ShardState

variable (s : ShardState) (key : Key)

def setRecord (r : Record) : ShardState :=
  { s with records := Function.update s.records key r }

def recordExistsExact : Bool := (s.records key).present

def recordExists : Bool :=
  (associatedRecordKeys key).any s.recordExistsExact

def setExpiry (expiresAt : ℕ) : ShardState :=
  let byDeadline := match s.expiresAt key with
    | some previous => s.expiryByDeadline.erase (previous, key)
    | none => s.expiryByDeadline
  { s with
    expiresAt := Function.update s.expiresAt key (some expiresAt)
    expiryByDeadline := byDeadline.orderedInsert instantLe (expiresAt, key) }

def clearExpiry : ShardState × Bool :=
  match s.expiresAt key with
  | some previous =>
    ({ s with
      expiresAt := Function.update s.expiresAt key none
      expiryByDeadline := s.expiryByDeadline.erase (previous, key) }, true)
  | none => (s, false)

def expired (now : ℕ) (key : Key) : Bool := (s.expiresAt key).any (· ≤ now)

/-- Drop what every map holds under the key, its deadline, and the ladder over its series. -/
def deleteRecordExact : ShardState × Bool :=
  let removed := (s.records key).present
  let forgotten := if (s.records key).controlState.isSome then
      Function.update s.rollups key none
    else s.rollups
  let (s, cleared) := s.clearExpiry key
  ({ s with records := Function.update s.records key Record.empty, rollups := forgotten },
    removed || cleared)

/-- Delete each of the keys that `condition` asks for. -/
def deleteEach (s : ShardState) (condition : ShardState → Key → Bool) : List Key → ShardState × Bool
  | [] => (s, false)
  | key :: keys =>
    if condition s key then
      let (s, removed) := s.deleteRecordExact key
      let (s, later) := deleteEach s condition keys
      (s, removed || later)
    else deleteEach s condition keys

def deleteRecord : ShardState × Bool :=
  s.deleteEach (fun _ _ => true) (associatedRecordKeys key)

/-- Lazy expiry. The source leaves early when no deadline is set, which changes nothing. -/
def removeIfExpired (now : ℕ) (key : Key) : ShardState × Bool :=
  s.deleteEach (fun s => s.expired now) (associatedRecordKeys key)

/-- The due keys that `keep` accepts, earliest deadline first. A limit or a budget of zero does not
bound the walk. -/
def dueWindow (now limit scanBudget : ℕ) (keep : Key → Bool) :
    List (ℕ × Key) → ℕ → ℕ → List (Key × ℕ)
  | [], _, _ => []
  | (expiresAt, key) :: rest, selected, walked =>
    if now < expiresAt then []
    else if 0 < limit ∧ limit ≤ selected then []
    else if 0 < scanBudget ∧ scanBudget ≤ walked then []
    else if keep key then
      (key, expiresAt) :: dueWindow now limit scanBudget keep rest (selected + 1) (walked + 1)
    else dueWindow now limit scanBudget keep rest selected (walked + 1)

def expiryScanBudget (limit : ℕ) : ℕ := if limit = 0 then 0 else max (8 * limit) 64

structure ShardExpirySweepRequest where
  maxHotBucketsPerRound : ℕ
  maxColdBucketsPerRound : ℕ
  loadColdBuckets : Bool

def sweepHot (s : ShardState) (now : ℕ) : List (Key × ℕ) → ShardState
  | [] => s
  | (key, expiresAt) :: rest =>
    sweepHot (if expiresAt ≤ now then (s.deleteRecord key).1 else s) now rest

def sweepCold (s : ShardState) (now : ℕ) (load : Bool) : List (Key × ℕ) → ShardState
  | [] => s
  | (key, expiresAt) :: rest =>
    let s := if expiresAt ≤ now ∧ load then
        let (s, removed) := s.deleteRecord key
        if removed then s else (s.clearExpiry key).1
      else s
    sweepCold s now load rest

/-- One round: the due keys with a record, then the due keys without. -/
def sweepExpiredRecordsWithRequest (now : ℕ) (request : ShardExpirySweepRequest) : ShardState :=
  let scanBudget :=
    expiryScanBudget (max request.maxHotBucketsPerRound request.maxColdBucketsPerRound)
  let hot := dueWindow now request.maxHotBucketsPerRound scanBudget s.recordExists
    s.expiryByDeadline 0 0
  let cold := dueWindow now request.maxColdBucketsPerRound scanBudget
    (fun key => !s.recordExists key)
    s.expiryByDeadline 0 0
  (s.sweepHot now hot).sweepCold now request.loadColdBuckets cold

end ShardState

end TemporalStore.Shard
