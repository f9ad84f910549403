import TemporalStore.Lib.Varint

namespace Lib.Protobuf

open List

inductive WireValue where
  | varint (n : ℕ)
  | fixed64 (n : ℕ)
  | bytes (b : Bytes)
  | fixed32 (n : ℕ)
  deriving DecidableEq

structure Field where
  number : ℕ
  value : WireValue
  deriving DecidableEq

def WireValue.wireType : WireValue → ℕ
  | .varint _ => 0
  | .fixed64 _ => 1
  | .bytes _ => 2
  | .fixed32 _ => 5

def WireValue.encode : WireValue → Bytes
  | .varint n => writeVarint n
  | .fixed64 n => leBytes 8 n
  | .bytes b => writeVarint b.length ++ b
  | .fixed32 n => leBytes 4 n

variable (bytes : Bytes) (f : Field) (rest : Bytes)

def Field.encode : Bytes :=
  writeVarint (f.number * 8 + f.value.wireType) ++ f.value.encode

def encodeFields (fs : List Field) : Bytes := fs.flatMap Field.encode

lemma encodeFields_append (fs gs : List Field) :
    encodeFields (fs ++ gs) = encodeFields fs ++ encodeFields gs := by
  simp [encodeFields]

lemma WireValue.encode_length_le (v : WireValue) (b : ℕ) (h : ∀ bs, v = .bytes bs → bs.length ≤ b) :
    v.encode.length ≤ 10 + b := by
  cases v with
  | varint n => exact le_trans (writeVarint_length_le n) (Nat.le_add_right _ _)
  | fixed64 n => simp [WireValue.encode]; omega
  | bytes bs =>
    have hlen := writeVarint_length_le bs.length
    have hb := h bs rfl
    simp only [WireValue.encode, length_append]
    omega
  | fixed32 n => simp [WireValue.encode]; omega

/-- A varint of at most 64 bits; more bits than that are an error. -/
def decodeVarint : Option (ℕ × Bytes) :=
  match readVarint bytes with
  | .value n rest => if n < 2 ^ 64 then some (n, rest) else none
  | _ => none

def decodeBlob (n : ℕ) (bytes : Bytes) : Option (Bytes × Bytes) :=
  if n ≤ bytes.length then some (bytes.take n, bytes.drop n) else none

def decodeValue (wireType : ℕ) (bytes : Bytes) : Option (WireValue × Bytes) :=
  match wireType with
  | 0 => do
    let (n, rest) ← decodeVarint bytes
    some (.varint n, rest)
  | 1 => do
    let (b, rest) ← decodeBlob 8 bytes
    some (.fixed64 (leNat b), rest)
  | 2 => do
    let (n, rest) ← decodeVarint bytes
    let (b, rest) ← decodeBlob n rest
    some (.bytes b, rest)
  | 5 => do
    let (b, rest) ← decodeBlob 4 bytes
    some (.fixed32 (leNat b), rest)
  | _ => none

/-- One field. A key above 32 bits and the field number 0 are errors. -/
def decodeField : Option (Field × Bytes) := do
  let (key, rest) ← decodeVarint bytes
  if 2 ^ 32 ≤ key ∨ key / 8 = 0 then none
  else do
    let (value, rest) ← decodeValue (key % 8) rest
    some (⟨key / 8, value⟩, rest)

def decodeFieldsWithin : ℕ → Bytes → Option (List Field)
  | _, [] => some []
  | 0, _ :: _ => none
  | fuel + 1, b :: bs => do
    let (f, rest) ← decodeField (b :: bs)
    let fs ← decodeFieldsWithin fuel rest
    some (f :: fs)

/-- All fields of a message. Every field takes at least one byte, so the length is fuel enough. -/
def decodeFields : Option (List Field) := decodeFieldsWithin bytes.length bytes

/-- The values the wire can carry. -/
def WireValue.Fits : WireValue → Prop
  | .varint n => n < 2 ^ 64
  | .fixed64 n => n < 2 ^ 64
  | .bytes b => b.length < 2 ^ 64
  | .fixed32 n => n < 2 ^ 32

def Field.Fits : Prop := 0 < f.number ∧ f.number < 2 ^ 29 ∧ f.value.Fits

lemma WireValue.wireType_lt (v : WireValue) : v.wireType < 8 := by
  cases v <;> simp [wireType]

lemma decodeVarint_writeVarint {n : ℕ} (h : n < 2 ^ 64) :
    decodeVarint (writeVarint n ++ rest) = some (n, rest) := by
  rw [decodeVarint, readVarint_writeVarint rest h]
  exact if_pos h

lemma decodeBlob_append {n : ℕ} {b : Bytes} (h : b.length = n) :
    decodeBlob n (b ++ rest) = some (b, rest) := by
  subst h
  simp [decodeBlob]

lemma decodeValue_encode (v : WireValue) (rest : Bytes) (h : v.Fits) :
    decodeValue v.wireType (v.encode ++ rest) = some (v, rest) := by
  cases v with
  | varint n => simp [decodeValue, WireValue.wireType, WireValue.encode,
      decodeVarint_writeVarint rest h]
  | fixed64 n =>
    have hn : leNat (leBytes 8 n) = n := leNat_leBytes (lt_of_lt_of_le h (by decide))
    simp [decodeValue, WireValue.wireType, WireValue.encode, decodeBlob_append, hn]
  | bytes b => simp [decodeValue, WireValue.wireType, WireValue.encode,
      decodeVarint_writeVarint (b ++ rest) h, decodeBlob_append]
  | fixed32 n =>
    have hn : leNat (leBytes 4 n) = n := leNat_leBytes (lt_of_lt_of_le h (by decide))
    simp [decodeValue, WireValue.wireType, WireValue.encode, decodeBlob_append, hn]

lemma decodeField_encode (h : f.Fits) : decodeField (f.encode ++ rest) = some (f, rest) := by
  obtain ⟨hpos, hlt, hval⟩ := h
  have hw := f.value.wireType_lt
  have hdiv : (f.number * 8 + f.value.wireType) / 8 = f.number := by omega
  have hmod : (f.number * 8 + f.value.wireType) % 8 = f.value.wireType := by omega
  have hkey : f.number * 8 + f.value.wireType < 2 ^ 64 := by omega
  have hok : ¬(2 ^ 32 ≤ f.number * 8 + f.value.wireType ∨ f.number = 0) := by omega
  simp only [decodeField, Field.encode, append_assoc, decodeVarint_writeVarint _ hkey,
    Option.bind_eq_bind, Option.bind_some, hdiv, hmod, if_neg hok, decodeValue_encode _ _ hval]

lemma Field.encode_ne_nil : f.encode ≠ [] := by
  have h := writeVarint_length_pos (f.number * 8 + f.value.wireType)
  intro hnil
  simp only [Field.encode, append_eq_nil_iff] at hnil
  simp [hnil.1] at h

lemma decodeFieldsWithin_encodeFields {fs : List Field} {fuel : ℕ}
    (hfuel : (encodeFields fs).length ≤ fuel) (h : ∀ f ∈ fs, f.Fits) :
    decodeFieldsWithin fuel (encodeFields fs) = some fs := by
  induction fs generalizing fuel with
  | nil => simp [encodeFields, decodeFieldsWithin]
  | cons f fs ih =>
    have hcons : encodeFields (f :: fs) = f.encode ++ encodeFields fs := rfl
    obtain ⟨b, bs, hb⟩ := exists_cons_of_ne_nil f.encode_ne_nil
    rw [hcons, length_append, hb, length_cons] at hfuel
    obtain ⟨fuel, rfl⟩ : ∃ m, fuel = m + 1 := ⟨fuel - 1, by omega⟩
    have hfirst := decodeField_encode f (encodeFields fs) (h f mem_cons_self)
    have hrest : decodeFieldsWithin fuel (encodeFields fs) = some fs :=
      ih (by omega) fun g hg => h g (mem_cons_of_mem _ hg)
    rw [hb, cons_append] at hfirst
    rw [hcons, hb, cons_append, decodeFieldsWithin, hfirst]
    simp [hrest]

lemma decodeFields_encodeFields {fs : List Field} (h : ∀ f ∈ fs, f.Fits) :
    decodeFields (encodeFields fs) = some fs :=
  decodeFieldsWithin_encodeFields le_rfl h

end Lib.Protobuf
