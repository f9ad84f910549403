import TemporalStore.Lib.Bytes

namespace Lib

open List

variable {ε α β : Type}

/-- A codec: what it encodes, it decodes to the same value. -/
structure Coding (ε α : Type) where
  encode : α → Bytes
  decode : Bytes → Except ε α
  decode_encode : ∀ a, decode (encode a) = .ok a

/-- A codec that takes its value off the front of whatever follows. -/
structure Layout (α : Type) where
  encode : α → Bytes
  decode : Bytes → Option (α × Bytes)
  decode_encode : ∀ a rest, decode (encode a ++ rest) = some (a, rest)

namespace Layout

def word (w : ℕ) (toNat : α → ℕ) (ofNat : ℕ → α) (hlt : ∀ a, toNat a < 256 ^ w)
    (hof : ∀ a, ofNat (toNat a) = a) : Layout α where
  encode a := leBytes w (toNat a)
  decode bytes := if bytes.length < w then none
    else some (ofNat (leNat (bytes.take w)), bytes.drop w)
  decode_encode a rest := by
    have hlen : ¬(leBytes w (toNat a) ++ rest).length < w := by simp
    have htake : (leBytes w (toNat a) ++ rest).take w = leBytes w (toNat a) :=
      take_left' (leBytes_length w _)
    have hdrop : (leBytes w (toNat a) ++ rest).drop w = rest := drop_left' (leBytes_length w _)
    rw [if_neg hlen, htake, hdrop, leNat_leBytes (hlt a), hof]

def byte : Layout UInt8 :=
  word 1 UInt8.toNat UInt8.ofNat UInt8.toNat_lt (fun _ => UInt8.ofNat_toNat)

def uint32 : Layout UInt32 :=
  word 4 UInt32.toNat UInt32.ofNat UInt32.toNat_lt (fun _ => UInt32.ofNat_toNat)

def uint64 : Layout UInt64 :=
  word 8 UInt64.toNat UInt64.ofNat UInt64.toNat_lt (fun _ => UInt64.ofNat_toNat)

lemma uint32_length (n : UInt32) : (uint32.encode n).length = 4 := leBytes_length 4 _

lemma uint64_length (n : UInt64) : (uint64.encode n).length = 8 := leBytes_length 8 _

variable (A : Layout α)

def prod (B : Layout β) : Layout (α × β) where
  encode x := A.encode x.1 ++ B.encode x.2
  decode bytes := do
    let (a, bytes) ← A.decode bytes
    let (b, bytes) ← B.decode bytes
    some ((a, b), bytes)
  decode_encode x rest := by
    rw [append_assoc, A.decode_encode]
    simp only [Option.bind_eq_bind, Option.bind_some, B.decode_encode]

/-- A value that is laid out as another one. -/
def via (f : β → α) (g : α → β) (h : ∀ b, g (f b) = b) : Layout β where
  encode b := A.encode (f b)
  decode bytes := (A.decode bytes).map fun x => (g x.1, x.2)
  decode_encode b rest := by rw [A.decode_encode, Option.map_some, h]

/-- Every element behind a byte 1, and a byte 0 at the end. -/
def encodeList (A : Layout α) : List α → Bytes
  | [] => [0]
  | a :: as => 1 :: (A.encode a ++ encodeList A as)

def decodeList (A : Layout α) : ℕ → Bytes → Option (List α × Bytes)
  | 0, _ | _, [] => none
  | fuel + 1, b :: bytes =>
    if b = 0 then some ([], bytes)
    else do
      let (a, bytes) ← A.decode bytes
      let (as, bytes) ← decodeList A fuel bytes
      some (a :: as, bytes)

lemma length_lt_encodeList (as : List α) : as.length < (encodeList A as).length := by
  induction as with
  | nil => simp [encodeList]
  | cons a as ih =>
    rw [encodeList, length_cons, length_cons, length_append]
    omega

lemma decodeList_encodeList {as : List α} {fuel : ℕ} (rest : Bytes) (hfuel : as.length < fuel) :
    decodeList A fuel (encodeList A as ++ rest) = some (as, rest) := by
  induction as generalizing fuel with
  | nil =>
    obtain ⟨fuel, rfl⟩ := Nat.exists_eq_add_of_lt hfuel
    rfl
  | cons a as ih =>
    obtain ⟨fuel, rfl⟩ : ∃ n, fuel = n + 1 := ⟨fuel - 1, by omega⟩
    rw [length_cons] at hfuel
    rw [encodeList, cons_append, append_assoc, decodeList, if_neg (by decide), A.decode_encode]
    simp only [Option.bind_eq_bind, Option.bind_some, ih (show as.length < fuel by omega)]

def list : Layout (List α) where
  encode := encodeList A
  decode bytes := decodeList A bytes.length bytes
  decode_encode as rest := by
    apply decodeList_encodeList
    rw [length_append]
    have := length_lt_encodeList A as
    omega

def option : Layout (Option α) :=
  A.list.via Option.toList head? fun o => by cases o <;> rfl

def unit : Layout Unit where
  encode _ := []
  decode bytes := some ((), bytes)
  decode_encode _ _ := rfl

def nat : Layout ℕ := unit.list.via (replicate · ()) length fun _ => length_replicate

/-- The layout of a value that stands alone. -/
def alone (e : ε) : Coding ε α where
  encode := A.encode
  decode bytes :=
    match A.decode bytes with
    | some (a, []) => .ok a
    | _ => .error e
  decode_encode a := by
    have h := A.decode_encode a []
    rw [append_nil] at h
    rw [h]

end Layout

end Lib
