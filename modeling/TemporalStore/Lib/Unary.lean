import Mathlib.Logic.Equiv.List
import TemporalStore.Lib.Layout

namespace Lib

variable {ε α : Type}

instance encodableUInt8 : Encodable UInt8 :=
  Encodable.ofLeftInverse UInt8.toNat UInt8.ofNat fun _ => by simp

instance encodableString : Encodable String :=
  Encodable.ofLeftInverse (fun s => s.toList.map Char.toNat)
    (fun l => String.ofList (l.map Char.ofNat)) fun s => by
      rw [List.map_map, show Char.ofNat ∘ Char.toNat = id from funext Char.ofNat_toNat, List.map_id,
        String.ofList_toList]

/-- A brace, and ones. -/
def unary [Encodable α] (e : ε) : Coding ε α where
  encode a := 123 :: List.replicate (Encodable.encode a) 1
  decode bytes :=
    match Encodable.decode (bytes.length - 1) with
    | some a => .ok a
    | none => .error e
  decode_encode a := by
    rw [List.length_cons, List.length_replicate, Nat.add_sub_cancel, Encodable.encodek]

/-- The unary codec with so many zeros in front as `size` says. -/
def padded [Encodable α] (e : ε) (size : α → ℕ) : Coding ε α where
  encode a := zeros (size a) ++ (unary e).encode a
  decode bytes := (unary e).decode (bytes.dropWhile (· == 0))
  decode_encode a := by
    have hzeros : ∀ b ∈ zeros (size a), (b == 0) = true := by
      intro b hb
      rw [mem_zeros hb]
      rfl
    rw [List.dropWhile_append_of_pos hzeros]
    exact (unary e).decode_encode a

lemma le_padded_length [Encodable α] (e : ε) (size : α → ℕ) (a : α) :
    size a ≤ ((padded e size).encode a).length := by
  rw [padded, List.length_append, zeros_length]
  exact Nat.le_add_right _ _

/-- The codec with one value written as nothing. -/
def Coding.shortened [DecidableEq α] (c : Coding ε α) (x : α) : Coding ε α where
  encode a := if a = x then [] else 0 :: c.encode a
  decode
    | [] => .ok x
    | _ :: bytes => c.decode bytes
  decode_encode a := by
    split_ifs with h
    · rw [h]
    · exact c.decode_encode a

end Lib
