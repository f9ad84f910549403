import Mathlib.Tactic.DeriveEncodable
import TemporalStore.Lib.Unary

/-! # Commands as the logs write them (`raft/wal_proto.rs`) -/

namespace TemporalStore.LogCommand

open Lib

variable {V : Type}

/-- `V` stands for the commands that have no arm of their own. -/
inductive Command (V : Type) where
  | stringSet (key : String) (value : Bytes)
  | stringSetEx (key : String) (value : Bytes) (ttlMs : ℕ)
  | hashSet (key field : String) (value : Bytes)
  | other (command : V)
  deriving Encodable

inductive Kind where
  | stringSet (key : String) (value : Bytes) (ttlMs : ℕ)
  | hashSet (key field : String) (value : Bytes)
  | verbatim (bytes : Bytes)
  deriving Encodable

structure WalCommand where
  kind : Option Kind
  deriving Encodable

/-- `command_to_proto`. A command with a lifetime of zero would come back without one, so it goes
verbatim. -/
def commandToProto (json : Coding String (Command V)) : Command V → Kind
  | .stringSet key value => .stringSet key value 0
  | .stringSetEx key value ttlMs =>
    if 0 < ttlMs then .stringSet key value ttlMs
    else .verbatim (json.encode (.stringSetEx key value ttlMs))
  | .hashSet key field value => .hashSet key field value
  | .other command => .verbatim (json.encode (.other command))

def commandFromProto (json : Coding String (Command V)) : Kind → Except String (Command V)
  | .stringSet key value ttlMs =>
    .ok (if 0 < ttlMs then .stringSetEx key value ttlMs else .stringSet key value)
  | .hashSet key field value => .ok (.hashSet key field value)
  | .verbatim bytes => json.decode bytes

lemma commandFromProto_commandToProto (json : Coding String (Command V)) (command : Command V) :
    commandFromProto json (commandToProto json command) = .ok command := by
  cases command with
  | stringSet key value => rfl
  | stringSetEx key value ttlMs =>
    by_cases h : 0 < ttlMs
    · simp only [commandToProto, if_pos h, commandFromProto]
    · rw [commandToProto, if_neg h]
      exact json.decode_encode _
  | hashSet key field value => rfl
  | other command => exact json.decode_encode _

end TemporalStore.LogCommand
