import Mathlib.Data.Finset.Sort
import Mathlib.Order.Interval.Finset.Nat
import TemporalStore.Shard.State

/-! # The commands of a shard (`engine/execute_on_shard.rs`) -/

namespace TemporalStore.Shard

open Lib

structure Config where
  asyncStorage : Bool
  controlRollupEnabled : Bool
  controlCoalescePersist : Bool
  controlStateMaxSize : ℕ
  deriving DecidableEq

/-- An item of a log record: a block that was written, named by what it holds, a removal, or a
change of what is known of a key. -/
inductive OutcomeItem where
  | object (key : Key) (ttl : Option ℕ) (deleted : Bool)
  | string (key : Key) (value : Bytes)
  | stringDeleted (key : Key)
  | hash (key : Key) (field value : Bytes)
  | hashDeleted (key : Key) (field : Bytes)
  | set (key : Key) (member : Bytes)
  | setDeleted (key : Key) (member : Bytes)
  | list (key : Key) (sequence : ℤ) (value : Bytes)
  | listDeleted (key : Key) (sequence : ℤ)
  | zset (key : Key) (member : Bytes) (biased : UInt64)
  | zsetDeleted (key : Key) (member : Bytes)
  | seen (key : Key) (member : Bytes) (ttl : ℕ)
  | controlState (key : Key) (series : CounterSeries)
  | controlCounter (key : Key) (bucketMs : ℕ) (total : ℤ)
  | controlSelection (key : Key) (selectionType : ControlStateSelectionType) (value : Bytes)
      (ttl : Option ℕ)
  deriving DecidableEq

inductive CommandResponse where
  | empty
  | integer (value : ℤ)
  | bytes (value : Option Bytes)
  | score (biased : Option UInt64)
  | members (members : List Bytes)
  | notFound
  deriving DecidableEq

structure ExecuteOutcome where
  shard : ShardState
  items : List OutcomeItem
  mutated : Bool
  response : CommandResponse

/-- An answer that changes nothing but what lazy expiry has changed. -/
def ExecuteOutcome.answer (s : ShardState) (mutated : Bool) (response : CommandResponse) :
    ExecuteOutcome :=
  ⟨s, [], mutated, response⟩

inductive StringSetCondition where
  | always
  | ifExists
  | ifNotExists
  deriving DecidableEq

def StringSetCondition.holds (condition : StringSetCondition) (exist : Bool) : Bool :=
  match condition with
  | .always => true
  | .ifExists => exist
  | .ifNotExists => !exist

/-- The aggregators by what they compute: `sum`, `count` and the empty name are one family, an
unknown name sums too, and the change counts are left out. -/
inductive Aggregator where
  | sum
  | events
  | min
  | max
  | first
  | last
  | other
  deriving DecidableEq

def isSumFamily : Aggregator → Bool
  | .sum => true
  | _ => false

def aggregateControlStateValues (values : List ℤ) : Aggregator → ℤ
  | .sum => values.sum
  | .events => values.length
  | .min => values.min?.getD 0
  | .max => values.max?.getD 0
  | .first => values.head?.getD 0
  | .last => values.getLast?.getD 0
  | .other => values.sum

def valuesIn (series : CounterSeries) (startMs endMs : ℕ) : List ℤ :=
  (series.filter fun point => decide (startMs ≤ point.1 ∧ point.1 ≤ endMs)).map Prod.snd

def bucketMs (precisionMs : Option ℕ) (timestampMs : ℕ) : ℕ :=
  match precisionMs with
  | some precisionMs => if 0 < precisionMs then timestampMs - timestampMs % precisionMs
    else timestampMs
  | none => timestampMs

def ControlStateSelectionType.replaces (selectionType : ControlStateSelectionType)
    (occurTimeMs : ℕ) (existing : ControlStateSelectionValue) : Bool :=
  match selectionType with
  | .first => occurTimeMs < existing.occurTimeMs
  | .last => existing.occurTimeMs < occurTimeMs

namespace Elements

variable {ε ν : Type} [DecidableEq ε]

variable (elements : Option (Elements ε ν)) (e : ε)

def install (v : ν) : Option (Elements ε ν) :=
  some ((elements.getD ∅).insert e v)

/-- A container that has lost its last element goes. -/
def removeElement : Option (Elements ε ν) × Bool :=
  match elements with
  | none => (none, false)
  | some held =>
    (if (held.erase e).keys = ∅ then none else some (held.erase e), decide (e ∈ held.keys))

/-- On this path a container that has lost its last element stays. -/
def replayRemoveElement : Option (Elements ε ν) :=
  elements.map fun held => held.erase e

def get : Option ν :=
  elements.bind fun held => held.lookup e

def len : ℕ := (elements.map fun held => held.keys.card).getD 0

end Elements

namespace ShardState

variable (s : ShardState) (config : Config) (now : ℕ) (family : ControlStateFamily) (key : Key)
  (timestampMs : ℕ)

def modifyRecord (f : Record → Record) : ShardState :=
  s.setRecord key (f (s.records key))

/-- The deadline of each of the keys that has a record. -/
def expireExisting (s : ShardState) (expiresAt : ℕ) : List Key → ShardState
  | [] => s
  | key :: keys =>
    expireExisting (if s.recordExistsExact key then s.setExpiry key expiresAt else s) expiresAt keys

/-- Clear the deadlines; the answer is whether a key with a record had one. -/
def clearEach (s : ShardState) : List Key → ShardState × Bool
  | [] => (s, false)
  | key :: keys =>
    let (s, cleared) := s.clearExpiry key
    let removed := cleared && s.recordExistsExact key
    let (s, later) := clearEach s keys
    (s, removed || later)

def ttlMs : ShardState × ℤ :=
  let (s, removed) := s.removeIfExpired now key
  if removed then (s, -2)
  else if !s.recordExists key then (s, -2)
  else
    let remaining := (associatedRecordKeys key).filterMap fun k =>
      (s.expiresAt k).map fun expiresAt => expiresAt - now
    (s, (remaining.min?.map Int.ofNat).getD (-1))

def commonDelete : ExecuteOutcome :=
  let (s, removed) := s.deleteRecord key
  ⟨s, [.object key none true], removed, .empty⟩

/-- The precondition is part of the command validation. -/
def commonExpire (ttlMs : ℕ) : ExecuteOutcome :=
  if s.expired now key || !s.recordExists key then .answer s false .notFound
  else
    let s := (s.removeIfExpired now key).1
    let expiresAt := saturatingAdd now ttlMs
    ⟨s.expireExisting expiresAt (associatedRecordKeys key), [.object key (some expiresAt) false],
      true, .empty⟩

def commonPersist : ExecuteOutcome :=
  let (s, expired) := s.removeIfExpired now key
  if expired then ⟨s, [.object key none true], true, .integer 0⟩
  else
    let (s, removed) := s.clearEach (associatedRecordKeys key)
    ⟨s, if removed then [.object key none false] else [], removed,
      .integer (if removed then 1 else 0)⟩

def commonTtl : ExecuteOutcome :=
  let (s, mutated) := s.removeIfExpired now key
  let (s, value) := s.ttlMs now key
  .answer s mutated (.integer value)

/-- A read: lazy expiry first, and `absent` when that removed anything under the key. -/
def read (absent : CommandResponse) (answer : ShardState → CommandResponse) : ExecuteOutcome :=
  let (s, removed) := s.removeIfExpired now key
  if removed then .answer s true absent else .answer s false (answer s)

def commonExists : ExecuteOutcome :=
  s.read now key (.integer 0) fun s => .integer (if s.recordExists key then 1 else 0)

def putString (value : Bytes) : ShardState :=
  s.modifyRecord key fun r => { r with string := some value }

def stringSet (value : Bytes) : ExecuteOutcome :=
  let s := (s.removeIfExpired now key).1
  ⟨s.putString key value, [.string key value], true, .empty⟩

def stringSetEx (value : Bytes) (ttlMs : ℕ) : ExecuteOutcome :=
  let s := (s.removeIfExpired now key).1
  let expiresAt := saturatingAdd now ttlMs
  ⟨(s.putString key value).setExpiry key expiresAt,
    [.string key value, .object key (some expiresAt) false], true, .empty⟩

def stringSetConditional (value : Bytes) (ttlMs : Option ℕ) (condition : StringSetCondition)
    (returnOld keepTtl : Bool) : ExecuteOutcome :=
  let s := (s.removeIfExpired now key).1
  let oldValue := (s.records key).string
  let answer := fun mutated : Bool =>
    if returnOld then CommandResponse.bytes oldValue else .integer (if mutated then 1 else 0)
  if condition.holds oldValue.isSome then
    let s := s.putString key value
    match ttlMs with
    | some ttlMs =>
      let expiresAt := saturatingAdd now ttlMs
      ⟨s.setExpiry key expiresAt, [.string key value, .object key (some expiresAt) false], true,
        answer true⟩
    | none =>
      if keepTtl then
        ⟨s, [.string key value, .object key (s.expiresAt key) false], true, answer true⟩
      else
        ⟨(s.clearExpiry key).1, [.string key value, .object key none false], true, answer true⟩
  else ⟨s, [], false, answer false⟩

def stringGet : ExecuteOutcome :=
  s.read now key (.bytes none) fun s => .bytes (s.records key).string

def stringDelete : ExecuteOutcome :=
  let (s, dropped) := s.removeIfExpired now key
  ⟨s.modifyRecord key fun r => { r with string := none }, [.stringDeleted key],
    dropped || (s.records key).string.isSome, .empty⟩

def hashSet (field value : Bytes) : ExecuteOutcome :=
  let s := (s.removeIfExpired now key).1
  ⟨s.modifyRecord key fun r => { r with hash := Elements.install r.hash field value },
    [.hash key field value], true, .empty⟩

/-- The packed block of a write with a large value keeps the last value of a field, as the writes
one after the other do. -/
def hashMultiSet (entries : List (Bytes × Bytes)) : ExecuteOutcome :=
  let s := (s.removeIfExpired now key).1
  ⟨entries.foldl (fun s entry => s.modifyRecord key fun r =>
      { r with hash := Elements.install r.hash entry.1 entry.2 }) s,
    entries.map fun entry => .hash key entry.1 entry.2, !entries.isEmpty, .empty⟩

def hashGet (field : Bytes) : ExecuteOutcome :=
  s.read now key (.bytes none) fun s => .bytes (Elements.get (s.records key).hash field)

def hashLen : ExecuteOutcome :=
  s.read now key (.integer 0) fun s => .integer (Elements.len (s.records key).hash)

def hashDelete (field : Bytes) : ExecuteOutcome :=
  let (s, dropped) := s.removeIfExpired now key
  let (hash, removed) := Elements.removeElement (s.records key).hash field
  ⟨s.modifyRecord key fun r => { r with hash := hash }, [.hashDeleted key field],
    dropped || removed, .empty⟩

variable (member : Bytes)

def setAdd : ExecuteOutcome :=
  let s := (s.removeIfExpired now key).1
  ⟨s.modifyRecord key fun r => { r with set := Elements.install r.set member () },
    [.set key member], true, .empty⟩

def setMembers : ExecuteOutcome :=
  s.read now key (.members []) fun s =>
    .members (((s.records key).set.map fun held => held.keys.sort (· ≤ ·)).getD [])

def setRemove : ExecuteOutcome :=
  let (s, dropped) := s.removeIfExpired now key
  let (set, removed) := Elements.removeElement (s.records key).set member
  ⟨s.modifyRecord key fun r => { r with set := set }, [.setDeleted key member],
    dropped || removed, .empty⟩

def signBit : UInt64 := (1 : UInt64) <<< 63

/-- The order of the biased bits is the order of the scores. -/
def zsetScoreBits (score : Float) : UInt64 :=
  if score.toBits &&& signBit ≠ 0 then ~~~score.toBits else score.toBits ||| signBit

def zsetScoreFromBits (biased : UInt64) : Float :=
  if biased &&& signBit ≠ 0 then Float.ofBits (biased &&& ~~~signBit)
  else Float.ofBits (~~~biased)

/-- By score, and by member where the scores are equal. -/
def zsetOrderedMembers : List (Bytes × UInt64) :=
  match (s.records key).zset with
  | none => []
  | some held =>
    ((held.keys.sort (· ≤ ·)).filterMap fun member =>
      (held.lookup member).map fun biased => (member, biased)).insertionSort (·.2 ≤ ·.2)

/-- The removal of the old element is only staged: the map is overwritten. -/
def zsetPut (old : Option UInt64) (biased : UInt64) : ShardState × List OutcomeItem :=
  (s.modifyRecord key fun r => { r with zset := Elements.install r.zset member biased },
    (if old.isSome then [.zsetDeleted key member] else []) ++ [.zset key member biased])

def zsetAdd (score : Float) : ExecuteOutcome :=
  let s := (s.removeIfExpired now key).1
  let biased := zsetScoreBits score
  let existed := Elements.get (s.records key).zset member
  if existed = some biased then .answer s false (.integer 0)
  else
    let (s, items) := s.zsetPut key member existed biased
    ⟨s, items, true, .integer (if existed.isNone then 1 else 0)⟩

def zsetIncrBy (increment : Float) : ExecuteOutcome :=
  let s := (s.removeIfExpired now key).1
  let old := Elements.get (s.records key).zset member
  let biased := zsetScoreBits ((old.map zsetScoreFromBits).getD 0 + increment)
  let (s, items) := s.zsetPut key member old biased
  ⟨s, items, true, .score (some biased)⟩

def zsetScore : ExecuteOutcome :=
  s.read now key (.score none) fun s => .score (Elements.get (s.records key).zset member)

def zsetCard : ExecuteOutcome :=
  s.read now key (.integer 0) fun s => .integer (Elements.len (s.records key).zset)

def zsetRemove : ExecuteOutcome :=
  let (s, dropped) := s.removeIfExpired now key
  if (Elements.get (s.records key).zset member).isSome then
    let (zset, removed) := Elements.removeElement (s.records key).zset member
    ⟨s.modifyRecord key fun r => { r with zset := zset }, [.zsetDeleted key member],
      dropped || removed, .integer 1⟩
  else ⟨s, [], dropped, .integer 0⟩

/-- The popped elements go by the path of the replay, so an emptied container stays. -/
def zsetPop (min : Bool) (count : ℕ) : ExecuteOutcome :=
  let (s, expired) := s.removeIfExpired now key
  if expired then .answer s true (.members [])
  else
    let ordered := s.zsetOrderedMembers key
    let popped := ((if min then ordered else ordered.reverse).take count).map Prod.fst
    ⟨popped.foldl (fun s member => s.modifyRecord key fun r =>
        { r with zset := Elements.replayRemoveElement r.zset member }) s,
      popped.map fun member => .zsetDeleted key member, !popped.isEmpty, .members popped⟩

def firstSequence (held : Elements ℤ Bytes) : Option ℤ :=
  if h : held.keys.Nonempty then some (held.keys.min' h) else none

def lastSequence (held : Elements ℤ Bytes) : Option ℤ :=
  if h : held.keys.Nonempty then some (held.keys.max' h) else none

def pushSequence (list : Option (Elements ℤ Bytes)) (left : Bool) : ℤ :=
  match list with
  | none => 0
  | some held =>
    if left then ((firstSequence held).map (· - 1)).getD 0
    else ((lastSequence held).map (· + 1)).getD 0

/-- The block is filed twice, with the same item. -/
def listPush (left : Bool) : ExecuteOutcome :=
  let s := (s.removeIfExpired now key).1
  let sequence := pushSequence (s.records key).list left
  let s := s.modifyRecord key fun r => { r with list := Elements.install r.list sequence member }
  ⟨s, [.list key sequence member, .list key sequence member], true,
    .integer (Elements.len (s.records key).list)⟩

def popSequence (list : Option (Elements ℤ Bytes)) (left : Bool) : Option ℤ :=
  list.bind fun held => if left then firstSequence held else lastSequence held

def listPop (left : Bool) : ExecuteOutcome :=
  let (s, expired) := s.removeIfExpired now key
  if expired then .answer s true (.bytes none)
  else match popSequence (s.records key).list left with
    | none => .answer s false (.bytes none)
    | some sequence =>
      ⟨s.modifyRecord key fun r => { r with list := (Elements.removeElement r.list sequence).1 },
        [.listDeleted key sequence], true, .bytes (Elements.get (s.records key).list sequence)⟩

def listLen : ExecuteOutcome :=
  s.read now key (.integer 0) fun s => .integer (Elements.len (s.records key).list)

/-- Negative indexes count from the end. -/
def listRange (start stop : ℤ) : ExecuteOutcome :=
  s.read now key (.members []) fun s =>
    let length : ℤ := Elements.len (s.records key).list
    let resolve := fun index : ℤ => if index < 0 then length + index else index
    let first := max (resolve start) 0
    let last := min (resolve stop) (length - 1)
    if last < first ∨ length = 0 then .members []
    else
      let values := ((s.records key).list.map fun held =>
        (held.keys.sort (· ≤ ·)).filterMap fun sequence => held.lookup sequence).getD []
      .members ((values.drop first.toNat).take (last - first + 1).toNat)

/-- Drop old entries from the front of the time index. -/
def purgeSeen (floor : ℕ) : ℕ → SeenSet → SeenSet
  | 0, seen => seen
  | fuel + 1, seen =>
    match seen.byTime with
    | (seenAt, member) :: byTime =>
      if seenAt < floor then
        purgeSeen floor fuel
          ⟨if seen.byMember.lookup member = some seenAt then seen.byMember.erase member
            else seen.byMember, byTime⟩
      else seen
    | [] => seen

/-- The member was seen at this time, and at no earlier one. -/
def noteSeen (seen : SeenSet) (member : Bytes) (seenAt : ℕ) : SeenSet :=
  let byTime := match seen.byMember.lookup member with
    | some previous => seen.byTime.erase (previous, member)
    | none => seen.byTime
  ⟨seen.byMember.insert member seenAt,
    (byTime.erase (seenAt, member)).orderedInsert instantLe (seenAt, member)⟩

def seenCheck (windowMs : ℕ) : ExecuteOutcome :=
  let s := (s.removeIfExpired now key).1
  let floor := now - windowMs
  let seen := purgeSeen floor 128 ((s.records key).seen.getD .empty)
  let duplicate := (seen.byMember.lookup member).any (floor ≤ ·)
  let seen := if duplicate then seen else noteSeen seen member now
  ⟨s.modifyRecord key fun r => { r with seen := some seen }, [.seen key member now], true,
    .integer (if duplicate then 1 else 0)⟩

def seenCard : ExecuteOutcome :=
  s.read now key (.integer 0) fun s =>
    .integer (((s.records key).seen.map fun seen => seen.byMember.keys.card).getD 0)

def counter : CounterSeries := (s.records key).controlState.getD []

def addToCounter (bucketMs : ℕ) (amount : ℤ) : ShardState :=
  s.modifyRecord key fun r => { r with
    controlState := some (((r.controlState.getD []).bump bucketMs amount)) }

def trimControlStateSeries (maxSize : ℕ) : ShardState :=
  if maxSize = 0 then s
  else s.modifyRecord key fun r => { r with
    controlState := r.controlState.map fun series => series.drop (series.length - maxSize) }

/-- The series is bounded, and written as a block unless the log covers it. -/
def persistControlStateBlock : ShardState × List OutcomeItem :=
  let s := s.trimControlStateSeries key s.controlStateMaxSize
  match (s.records key).controlState with
  | none => (s.modifyRecord key fun r => { r with controlStateBlock := none }, [])
  | some series =>
    if config.asyncStorage && config.controlCoalescePersist then (s, [])
    else
      (s.modifyRecord key fun r => { r with controlStateBlock := some series },
        [.controlState key series])

def recordIncrement (bucketMs : ℕ) (amount : ℤ) : ShardState :=
  let seriesLen := (s.counter key).length
  let entry := match s.rollups key with
    | some entry => ⟨foldCells entry.cells bucketMs amount, seriesLen⟩
    | none => ⟨build (s.counter key), seriesLen⟩
  { s with rollups := Function.update s.rollups key (some entry) }

/-- The entry a query reads: rebuilt when it was built over a series of another length. -/
def freshEntry : RollupEntry :=
  match s.rollups key with
  | some entry =>
    if entry.builtLen ≠ (s.counter key).length then ⟨build (s.counter key), (s.counter key).length⟩
    else entry
  | none => ⟨build (s.counter key), (s.counter key).length⟩

variable (amount : ℤ) (startMs endMs : ℕ) (aggregator : Aggregator)

def windowedSum : ShardState × ℤ :=
  let entry := s.freshEntry key
  ({ s with rollups := Function.update s.rollups key (some entry) },
    rangeSum entry.cells (s.counter key) startMs endMs)

/-- The window of a counter under an aggregator, through the ladder where that serves it. -/
def aggregateWindow : ShardState × ℤ :=
  if config.controlRollupEnabled && isSumFamily aggregator then s.windowedSum key startMs endMs
  else (s, aggregateControlStateValues (valuesIn (s.counter key) startMs endMs) aggregator)

def optionalExpiry (ttlMs : Option ℕ) : ShardState × List OutcomeItem :=
  match ttlMs with
  | some ttlMs =>
    (s.setExpiry key (saturatingAdd now ttlMs),
      [.object key (some (saturatingAdd now ttlMs)) false])
  | none => (s, [])

def controlStateIncrement : ExecuteOutcome :=
  let s := (s.removeIfExpired now key).1
  let s := s.addToCounter key timestampMs amount
  -- the point as it is before the series is bounded
  let resulting := ((s.counter key).find? (·.1 = timestampMs)).map Prod.snd |>.getD 0
  let (s, items) := s.persistControlStateBlock config key
  let s := if config.controlRollupEnabled then s.recordIncrement key timestampMs amount else s
  ⟨s, .controlCounter key timestampMs resulting :: items, true, .empty⟩

def controlStateIncrementWithOptions (precisionMs ttlMs : Option ℕ) : ExecuteOutcome :=
  let s := (s.removeIfExpired now key).1
  let bucket := bucketMs precisionMs timestampMs
  let s := s.addToCounter key bucket amount
  let (s, items) := s.persistControlStateBlock config key
  let (s, expiry) := s.optionalExpiry now key ttlMs
  let s := if config.controlRollupEnabled then s.recordIncrement key bucket amount else s
  ⟨s, items ++ expiry, true, .empty⟩

def controlStateSet : ExecuteOutcome :=
  let s := (s.removeIfExpired now key).1
  let key := controlStateFamilyKey family key
  let s := s.addToCounter key timestampMs amount
  let (s, items) := s.persistControlStateBlock config key
  let s := if config.controlRollupEnabled then s.recordIncrement key timestampMs amount else s
  ⟨s, items, true, .empty⟩

def controlStateSetAndGet : ExecuteOutcome :=
  let s := (s.removeIfExpired now key).1
  let key := controlStateFamilyKey family key
  let s := s.addToCounter key timestampMs amount
  let values := valuesIn (s.counter key) startMs endMs
  let (s, items) := s.persistControlStateBlock config key
  let s := if config.controlRollupEnabled then s.recordIncrement key timestampMs amount else s
  ⟨s, items, true, .integer (aggregateControlStateValues values aggregator)⟩

def controlStateUuidDedupMs : ℕ := 300000

/-- `CONTROL_STATE_UUID_LEDGER_SOFT_CAP`. -/
def controlStateUuidLedgerSoftCap : ℕ := 2000000

/-- The key of the ledger: the family key and the uuid with a byte 1 between them. -/
def dedupKey (familyKey : Key) (uuid : Bytes) : Bytes := familyKey ++ 1 :: uuid

def gcControlStateUuid : ShardState :=
  if controlStateUuidLedgerSoftCap < s.controlStateUuid.length then
    { s with controlStateUuid := s.controlStateUuid.filter fun entry => now < entry.2 }
  else s

def uuidExpiry (dedup : Bytes) : Option ℕ :=
  (s.controlStateUuid.find? (·.1 = dedup)).map Prod.snd

def noteUuid (dedup : Bytes) (expiry : ℕ) : ShardState :=
  { s with
    controlStateUuid := (dedup, expiry) :: s.controlStateUuid.filter fun entry => entry.1 ≠ dedup }

/-- Whether the write is one the ledger knows; it is entered if not. No uuid, or an empty one, is
never a duplicate. -/
def checkUuid (familyKey : Key) (uuid : Option Bytes) : ShardState × Bool :=
  match uuid with
  | none => (s, false)
  | some uuid =>
    if uuid = [] then (s, false)
    else
      let s := s.gcControlStateUuid now
      let dup := (s.uuidExpiry (dedupKey familyKey uuid)).any (now < ·)
      if dup then (s, true)
      else (s.noteUuid (dedupKey familyKey uuid) (saturatingAdd now controlStateUuidDedupMs), false)

def controlStateSetAndGetWithOptions
    (precisionMs ttlMs : Option ℕ) (uuid : Option Bytes) : ExecuteOutcome :=
  let s := (s.removeIfExpired now key).1
  let key := controlStateFamilyKey family key
  let (s, isDuplicate) := s.checkUuid now key uuid
  let bucket := bucketMs precisionMs timestampMs
  -- a duplicate still makes the series, if only an empty one
  let s := if isDuplicate then
      s.modifyRecord key fun r => { r with controlState := some (r.controlState.getD []) }
    else s.addToCounter key bucket amount
  let value := aggregateControlStateValues (valuesIn (s.counter key) startMs endMs) aggregator
  let (s, items) := s.persistControlStateBlock config key
  let (s, expiry) := s.optionalExpiry now key ttlMs
  let s := if config.controlRollupEnabled && !isDuplicate then s.recordIncrement key bucket amount
    else s
  ⟨s, items ++ expiry, true, .integer value⟩

/-- A query of the counter under `counterKey`, after lazy expiry of `key`. -/
def queryCounter (counterKey : Key) (startMs endMs : ℕ) (aggregator : Aggregator) :
    ExecuteOutcome :=
  let (s, removed) := s.removeIfExpired now key
  if removed then .answer s true (.integer 0)
  else
    let (s, value) := s.aggregateWindow config counterKey startMs endMs aggregator
    .answer s false (.integer value)

def controlStateCount : ExecuteOutcome :=
  s.queryCounter config now key key startMs endMs .sum

def controlStateQuery : ExecuteOutcome :=
  s.queryCounter config now key key startMs endMs aggregator

def controlStateFamilyQuery : ExecuteOutcome :=
  s.queryCounter config now key (controlStateFamilyKey family key) startMs endMs aggregator

def controlStateSelectionSet (value : Bytes) (occurTimeMs ttlMs : ℕ)
    (selectionType : ControlStateSelectionType) : ExecuteOutcome :=
  let s := (s.removeIfExpired now key).1
  let occurTimeMs := if occurTimeMs = 0 then now else occurTimeMs
  let shouldStore := ((s.records key).controlStateSelection.map fun existing =>
    selectionType.replaces occurTimeMs existing).getD true
  let s := if shouldStore then s.modifyRecord key fun r =>
      { r with controlStateSelection := some ⟨occurTimeMs, value, selectionType⟩ }
    else s
  let staged := if shouldStore then [OutcomeItem.controlSelection key selectionType value none]
    else []
  let (s, expiry) := s.optionalExpiry now key (if 0 < ttlMs then some ttlMs else none)
  ⟨s, staged ++ expiry, shouldStore || decide (0 < ttlMs), .empty⟩

def controlStateSelectionQuery : ExecuteOutcome :=
  s.read now key (.bytes none) fun s =>
    .bytes ((s.records key).controlStateSelection.map (·.value))

end ShardState

inductive Command where
  | commonDelete (key : Key)
  | commonExpire (key : Key) (ttlMs : ℕ)
  | commonPersist (key : Key)
  | commonTtl (key : Key)
  | commonExists (key : Key)
  | stringSet (key : Key) (value : Bytes)
  | stringSetEx (key : Key) (value : Bytes) (ttlMs : ℕ)
  | stringSetConditional (key : Key) (value : Bytes) (ttlMs : Option ℕ)
      (condition : StringSetCondition) (returnOld keepTtl : Bool)
  | stringGet (key : Key)
  | stringDelete (key : Key)
  | hashSet (key : Key) (field value : Bytes)
  | hashMultiSet (key : Key) (entries : List (Bytes × Bytes))
  | hashGet (key : Key) (field : Bytes)
  | hashLen (key : Key)
  | hashDelete (key : Key) (field : Bytes)
  | setAdd (key : Key) (member : Bytes)
  | setMembers (key : Key)
  | setRemove (key : Key) (member : Bytes)
  | zsetAdd (key : Key) (member : Bytes) (score : Float)
  | zsetIncrBy (key : Key) (member : Bytes) (increment : Float)
  | zsetScore (key : Key) (member : Bytes)
  | zsetCard (key : Key)
  | zsetRemove (key : Key) (member : Bytes)
  | zsetPop (key : Key) (min : Bool) (count : ℕ)
  | listPush (key : Key) (member : Bytes) (left : Bool)
  | listPop (key : Key) (left : Bool)
  | listLen (key : Key)
  | listRange (key : Key) (start stop : ℤ)
  | seenCheck (key : Key) (member : Bytes) (windowMs : ℕ)
  | seenCard (key : Key)
  | controlStateIncrement (key : Key) (timestampMs : ℕ) (amount : ℤ)
  | controlStateIncrementWithOptions (key : Key) (timestampMs : ℕ) (amount : ℤ)
      (precisionMs ttlMs : Option ℕ)
  | controlStateCount (key : Key) (startMs endMs : ℕ)
  | controlStateQuery (key : Key) (startMs endMs : ℕ) (aggregator : Aggregator)
  | controlStateSet (family : ControlStateFamily) (key : Key) (timestampMs : ℕ) (amount : ℤ)
  | controlStateSetAndGet (family : ControlStateFamily) (key : Key) (timestampMs : ℕ) (amount : ℤ)
      (startMs endMs : ℕ) (aggregator : Aggregator)
  | controlStateSetAndGetWithOptions (family : ControlStateFamily) (key : Key) (timestampMs : ℕ)
      (amount : ℤ) (startMs endMs : ℕ) (aggregator : Aggregator) (precisionMs ttlMs : Option ℕ)
      (uuid : Option Bytes)
  | controlStateFamilyQuery (family : ControlStateFamily) (key : Key) (startMs endMs : ℕ)
      (aggregator : Aggregator)
  | controlStateSelectionSet (key : Key) (value : Bytes) (occurTimeMs ttlMs : ℕ)
      (selectionType : ControlStateSelectionType)
  | controlStateSelectionQuery (key : Key)

def isWriteCommand : Command → Bool
  | .commonTtl _ | .commonExists _ | .stringGet _ | .hashGet _ _ | .hashLen _ | .setMembers _
  | .zsetScore _ _ | .zsetCard _ | .listLen _ | .listRange _ _ _ | .seenCard _
  | .controlStateCount _ _ _ | .controlStateQuery _ _ _ _ | .controlStateFamilyQuery _ _ _ _ _
  | .controlStateSelectionQuery _ => false
  | _ => true

/-- The configuration's bound is published to the shard before the command runs. -/
def executeOnShard (config : Config) (now : ℕ) (s : ShardState) (command : Command) :
    ExecuteOutcome :=
  let s := { s with controlStateMaxSize := config.controlStateMaxSize }
  match command with
  | .commonDelete key => s.commonDelete key
  | .commonExpire key ttlMs => s.commonExpire now key ttlMs
  | .commonPersist key => s.commonPersist now key
  | .commonTtl key => s.commonTtl now key
  | .commonExists key => s.commonExists now key
  | .stringSet key value => s.stringSet now key value
  | .stringSetEx key value ttlMs => s.stringSetEx now key value ttlMs
  | .stringSetConditional key value ttlMs condition returnOld keepTtl =>
    s.stringSetConditional now key value ttlMs condition returnOld keepTtl
  | .stringGet key => s.stringGet now key
  | .stringDelete key => s.stringDelete now key
  | .hashSet key field value => s.hashSet now key field value
  | .hashMultiSet key entries => s.hashMultiSet now key entries
  | .hashGet key field => s.hashGet now key field
  | .hashLen key => s.hashLen now key
  | .hashDelete key field => s.hashDelete now key field
  | .setAdd key member => s.setAdd now key member
  | .setMembers key => s.setMembers now key
  | .setRemove key member => s.setRemove now key member
  | .zsetAdd key member score => s.zsetAdd now key member score
  | .zsetIncrBy key member increment => s.zsetIncrBy now key member increment
  | .zsetScore key member => s.zsetScore now key member
  | .zsetCard key => s.zsetCard now key
  | .zsetRemove key member => s.zsetRemove now key member
  | .zsetPop key min count => s.zsetPop now key min count
  | .listPush key member left => s.listPush now key member left
  | .listPop key left => s.listPop now key left
  | .listLen key => s.listLen now key
  | .listRange key start stop => s.listRange now key start stop
  | .seenCheck key member windowMs => s.seenCheck now key member windowMs
  | .seenCard key => s.seenCard now key
  | .controlStateIncrement key timestampMs amount =>
    s.controlStateIncrement config now key timestampMs amount
  | .controlStateIncrementWithOptions key timestampMs amount precisionMs ttlMs =>
    s.controlStateIncrementWithOptions config now key timestampMs amount precisionMs ttlMs
  | .controlStateCount key startMs endMs => s.controlStateCount config now key startMs endMs
  | .controlStateQuery key startMs endMs aggregator =>
    s.controlStateQuery config now key startMs endMs aggregator
  | .controlStateSet family key timestampMs amount =>
    s.controlStateSet config now family key timestampMs amount
  | .controlStateSetAndGet family key timestampMs amount startMs endMs aggregator =>
    s.controlStateSetAndGet config now family key timestampMs amount startMs endMs aggregator
  | .controlStateSetAndGetWithOptions family key timestampMs amount startMs endMs aggregator
      precisionMs ttlMs uuid =>
    s.controlStateSetAndGetWithOptions config now family key timestampMs amount startMs endMs
      aggregator precisionMs ttlMs uuid
  | .controlStateFamilyQuery family key startMs endMs aggregator =>
    s.controlStateFamilyQuery config now family key startMs endMs aggregator
  | .controlStateSelectionSet key value occurTimeMs ttlMs selectionType =>
    s.controlStateSelectionSet now key value occurTimeMs ttlMs selectionType
  | .controlStateSelectionQuery key => s.controlStateSelectionQuery now key

end TemporalStore.Shard
