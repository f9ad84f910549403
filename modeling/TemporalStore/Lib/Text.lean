import TemporalStore.Lib.Bytes
import Mathlib.Data.Nat.Digits.Defs
import Mathlib.Data.List.DropRight

namespace Lib

open List

def newline : Byte := 10

def space : Byte := 32

variable (b : Byte) (n : ℕ) (bytes : Bytes)

/-- `u8::is_ascii_whitespace`: space, tab, newline, form feed and carriage return. -/
def isAsciiWhitespace : Bool :=
  b == 32 || b == 9 || b == 10 || b == 12 || b == 13

/-- The bytes up to and including the first newline, if there is one. -/
def takeLine : Bytes → Option Bytes
  | [] => none
  | b :: bs => if b = newline then some [b] else (takeLine bs).map (b :: ·)

def stripTrailingNewline (line : Bytes) : Bytes :=
  if line.getLast? = some newline then line.dropLast else line

/-- The bytes before the first space and those after it. -/
def splitOnceSpace : Option (Bytes × Bytes) :=
  match bytes.dropWhile (· ≠ space) with
  | [] => none
  | _ :: rest => some (bytes.takeWhile (· ≠ space), rest)

def trimEnd : Bytes := bytes.rdropWhile isAsciiWhitespace

lemma takeLine_append_of_notMem {a : Bytes} (rest : Bytes) (h : newline ∉ a) :
    takeLine (a ++ rest) = (takeLine rest).map (a ++ ·) := by
  induction a with
  | nil => simp
  | cons b a ih =>
    rw [mem_cons, not_or] at h
    rw [cons_append, takeLine, if_neg (Ne.symm h.1), ih h.2, Option.map_map]
    rfl

lemma takeLine_append {a : Bytes} (rest : Bytes) (h : newline ∉ a) :
    takeLine (a ++ newline :: rest) = some (a ++ [newline]) := by
  rw [takeLine_append_of_notMem _ h, takeLine, if_pos rfl, Option.map_some]

lemma takeLine_eq_none {a : Bytes} (h : newline ∉ a) : takeLine a = none := by
  simpa [takeLine] using takeLine_append_of_notMem [] h

lemma exists_of_takeLine {bytes line : Bytes} (h : takeLine bytes = some line) :
    ∃ a rest, newline ∉ a ∧ line = a ++ [newline] ∧ bytes = a ++ newline :: rest := by
  by_cases hmem : newline ∈ bytes
  · obtain ⟨a, rest, rfl, ha⟩ := eq_append_cons_of_mem hmem
    rw [takeLine_append rest ha, Option.some.injEq] at h
    exact ⟨a, rest, ha, h.symm, rfl⟩
  · rw [takeLine_eq_none hmem] at h
    cases h

lemma isPrefix_of_takeLine {bytes line : Bytes} (h : takeLine bytes = some line) :
    line <+: bytes := by
  obtain ⟨a, rest, -, rfl, rfl⟩ := exists_of_takeLine h
  exact ⟨rest, append_assoc a _ _⟩

lemma splitOnceSpace_append {a : Bytes} (rest : Bytes) (h : space ∉ a) :
    splitOnceSpace (a ++ space :: rest) = some (a, rest) := by
  have hall : ∀ b ∈ a, decide (b ≠ space) = true := by
    intro b hb
    have hne : b ≠ space := fun hbs => h (hbs ▸ hb)
    simpa using hne
  have hdrop : (a ++ space :: rest).dropWhile (fun b => decide (b ≠ space)) = space :: rest := by
    rw [dropWhile_append_of_pos hall]
    simp
  have htake : (a ++ space :: rest).takeWhile (fun b => decide (b ≠ space)) = a := by
    rw [takeWhile_append_of_pos hall]
    simp
  rw [splitOnceSpace, hdrop, htake]

/-- Splitting at a space fails if there is none, and else gives what stands around the first. -/
lemma splitOnceSpace_cases : splitOnceSpace bytes = none ∧ space ∉ bytes ∨
      ∃ field rest, splitOnceSpace bytes = some (field, rest) ∧ space ∉ field ∧
        bytes = field ++ space :: rest := by
  by_cases h : space ∈ bytes
  · obtain ⟨field, rest, hbytes, hfield⟩ := eq_append_cons_of_mem h
    rw [hbytes]
    exact .inr ⟨field, rest, splitOnceSpace_append rest hfield, hfield, rfl⟩
  · refine .inl ⟨?_, h⟩
    have hall : ∀ b ∈ bytes, decide (b ≠ space) = true := by
      intro b hb
      exact decide_eq_true fun hbs => h (hbs ▸ hb)
    rw [splitOnceSpace, dropWhile_eq_nil_iff.mpr hall]

def digitByte (d : ℕ) : Byte := UInt8.ofNat (48 + d)

def digitValue : Option ℕ :=
  if 48 ≤ b.toNat ∧ b.toNat ≤ 57 then some (b.toNat - 48) else none

/-- The digits of `n`, least significant first. -/
def decimalDigits : List ℕ := if n = 0 then [0] else Nat.digits 10 n

def decimalBytes : Bytes := ((decimalDigits n).map digitByte).reverse

def pushDigit (acc : Option ℕ) (b : Byte) : Option ℕ := do
  let value ← acc
  let d ← digitValue b
  some (value * 10 + d)

def parseDigits : Option ℕ := bytes.foldl pushDigit (some 0)

/-- `str::parse` for an unsigned number: an optional plus sign and at least one digit. -/
def parseDecimal : Bytes → Option ℕ
  | [] => none
  | b :: bs => if b = 43 then (if bs = [] then none else parseDigits bs) else parseDigits (b :: bs)

lemma digitByte_toNat {d : ℕ} (h : d < 10) : (digitByte d).toNat = 48 + d := by
  rw [digitByte, UInt8.toNat_ofNat']
  omega

lemma digitValue_digitByte {d : ℕ} (h : d < 10) : digitValue (digitByte d) = some d := by
  rw [digitValue, digitByte_toNat h, if_pos (by omega)]
  congr 1
  omega

lemma decimalDigits_lt {n d : ℕ} (h : d ∈ decimalDigits n) : d < 10 := by
  rw [decimalDigits] at h
  split at h
  · simp only [mem_singleton] at h
    omega
  · exact Nat.digits_lt_base (by decide) h

lemma decimalDigits_ne_nil : decimalDigits n ≠ [] := by
  rw [decimalDigits]
  split
  · simp
  · next h => exact Nat.digits_ne_nil_iff_ne_zero.mpr h

lemma ofDigits_decimalDigits : Nat.ofDigits 10 (decimalDigits n) = n := by
  rw [decimalDigits]
  split
  · next h => simp [h]
  · exact Nat.ofDigits_digits 10 n

lemma mem_decimalBytes {n : ℕ} {b : Byte} (h : b ∈ decimalBytes n) :
    48 ≤ b.toNat ∧ b.toNat ≤ 57 := by
  simp only [decimalBytes, mem_reverse, mem_map] at h
  obtain ⟨d, hd, rfl⟩ := h
  have hlt := decimalDigits_lt hd
  rw [digitByte_toNat hlt]
  omega

lemma decimalBytes_ne_nil : decimalBytes n ≠ [] := by
  simpa [decimalBytes] using decimalDigits_ne_nil n

lemma parseDigits_map_digitByte {ds : List ℕ} (h : ∀ d ∈ ds, d < 10) :
    parseDigits (ds.map digitByte).reverse = some (Nat.ofDigits 10 ds) := by
  rw [parseDigits, foldl_reverse]
  induction ds with
  | nil => simp
  | cons d ds ih =>
    have hd : d < 10 := h d mem_cons_self
    have hds := ih fun x hx => h x (mem_cons_of_mem _ hx)
    rw [map_cons, foldr_cons, hds, pushDigit, digitValue_digitByte hd, Nat.ofDigits_cons]
    simp only [Option.bind_eq_bind, Option.bind_some, Option.some.injEq]
    ring

lemma parseDecimal_decimalBytes : parseDecimal (decimalBytes n) = some n := by
  have hparse : parseDigits (decimalBytes n) = some n := by
    rw [decimalBytes, parseDigits_map_digitByte fun d => decimalDigits_lt, ofDigits_decimalDigits]
  cases hb : decimalBytes n with
  | nil => exact absurd hb (decimalBytes_ne_nil n)
  | cons b bs =>
    have hdigit := mem_decimalBytes (n := n) (b := b) (by simp [hb])
    have hplus : b ≠ 43 := by
      rintro rfl
      simp at hdigit
    rw [parseDecimal, if_neg hplus, ← hb, hparse]

/-- `str::parse` for a `usize`. -/
def parseUsize (field : Bytes) : Option ℕ := (parseDecimal field).filter (· < 2 ^ 64)

lemma parseUsize_decimalBytes {n : ℕ} (h : n < 2 ^ 64) : parseUsize (decimalBytes n) = some n := by
  rw [parseUsize, parseDecimal_decimalBytes, Option.filter_some, if_pos (decide_eq_true h)]

lemma isSome_of_foldl_pushDigit {bytes : Bytes} {acc : Option ℕ} {n : ℕ}
    (h : bytes.foldl pushDigit acc = some n) : acc.isSome ∧ ∀ b ∈ bytes, (digitValue b).isSome := by
  induction bytes generalizing acc with
  | nil =>
    rw [foldl_nil] at h
    rw [h]
    exact ⟨rfl, by simp⟩
  | cons b bytes ih =>
    obtain ⟨hpush, hrest⟩ := ih h
    cases acc with
    | none => cases hpush
    | some acc =>
      cases hb : digitValue b with
      | none =>
        rw [pushDigit, hb] at hpush
        cases hpush
      | some d =>
        refine ⟨rfl, fun c hc => ?_⟩
        rcases mem_cons.mp hc with rfl | hc
        · rw [hb]
          rfl
        · exact hrest c hc

lemma isSome_digitValue_of_parseUsize {bytes : Bytes} {n : ℕ} (h : parseUsize bytes = some n)
    {b : Byte} (hb : b ∈ bytes) (hplus : b ≠ 43) : (digitValue b).isSome := by
  have hparse : parseDecimal bytes = some n := (Option.filter_eq_some_iff.mp h).1
  cases bytes with
  | nil => cases hparse
  | cons c bytes =>
    rw [parseDecimal] at hparse
    split_ifs at hparse with hc hnil
    · have hb' : b ∈ bytes := by
        rcases mem_cons.mp hb with rfl | hb
        · exact absurd hc hplus
        · exact hb
      exact (isSome_of_foldl_pushDigit hparse).2 b hb'
    · exact (isSome_of_foldl_pushDigit hparse).2 b hb

lemma trimEnd_decimalBytes : trimEnd (decimalBytes n ++ [newline]) = decimalBytes n := by
  have hnl : isAsciiWhitespace newline = true := rfl
  rw [trimEnd, rdropWhile_concat_pos _ _ _ hnl]
  obtain ⟨b, bs, hb⟩ := exists_cons_of_ne_nil (reverse_ne_nil_iff.mpr (decimalBytes_ne_nil n))
  have hrev : decimalBytes n = bs.reverse ++ [b] := by
    rw [← reverse_reverse (decimalBytes n), hb, reverse_cons]
  have hdigit := mem_decimalBytes (n := n) (b := b) (by simp [hrev])
  have hws : ¬isAsciiWhitespace b = true := by
    simp only [isAsciiWhitespace, Bool.or_eq_true, beq_iff_eq, not_or]
    refine ⟨⟨⟨⟨?_, ?_⟩, ?_⟩, ?_⟩, ?_⟩ <;> rintro rfl <;> simp at hdigit
  rw [hrev, rdropWhile_concat_neg _ _ _ hws]

def hexByte (d : ℕ) : Byte := if d < 10 then UInt8.ofNat (48 + d) else UInt8.ofNat (87 + d)

/-- The low `w` hexadecimal digits of `n`, most significant first, in lower case. -/
def hexBytes : ℕ → ℕ → Bytes
  | 0, _ => []
  | w + 1, n => hexBytes w (n / 16) ++ [hexByte (n % 16)]

lemma mem_hexBytes {w n : ℕ} {b : Byte} (h : b ∈ hexBytes w n) : 48 ≤ b.toNat ∧ b.toNat < 128 := by
  induction w generalizing n with
  | zero => simp [hexBytes] at h
  | succ w ih =>
    simp only [hexBytes, mem_append, mem_singleton] at h
    rcases h with h | rfl
    · exact ih h
    · rw [hexByte]
      split <;> rw [UInt8.toNat_ofNat'] <;> omega

/-- `char::to_digit(16)`. -/
def hexValue : Option ℕ :=
  if 48 ≤ b.toNat ∧ b.toNat ≤ 57 then some (b.toNat - 48)
  else if 97 ≤ b.toNat ∧ b.toNat ≤ 102 then some (b.toNat - 87)
  else if 65 ≤ b.toNat ∧ b.toNat ≤ 70 then some (b.toNat - 55)
  else none

def pushHexDigit (acc : Option ℕ) (b : Byte) : Option ℕ := do
  let value ← acc
  let d ← hexValue b
  some (value * 16 + d)

def parseHexDigits : Option ℕ := bytes.foldl pushHexDigit (some 0)

/-- `u64::from_str_radix` in base 16: an optional plus sign and at least one digit, of either
case. -/
def parseHex64 : Bytes → Option ℕ
  | [] => none
  | b :: bs =>
    (if b = 43 then if bs = [] then none else parseHexDigits bs
      else parseHexDigits (b :: bs)).filter (· < 2 ^ 64)

def utf8 (text : String) : Bytes := text.toByteArray.data.toList

/-- The string of bytes below 128. -/
def ascii : String := String.ofList (bytes.map fun b => Char.ofNat b.toNat)

/-- `str::is_char_boundary` inside a string. -/
def isCharBoundary (i : ℕ) : Bool :=
  match bytes[i]? with
  | none => true
  | some b => b.toNat < 128 || 192 ≤ b.toNat

lemma toNat_ofNat {n : ℕ} (h : n < 128) : (Char.ofNat n).val.toNat = n := by
  rw [Char.ofNat, dif_pos (.inl (by omega))]
  rfl

lemma utf8_ascii {bytes : Bytes} (h : ∀ b ∈ bytes, b.toNat < 128) : utf8 (ascii bytes) = bytes := by
  have hchar : ∀ b ∈ bytes, String.utf8EncodeChar (Char.ofNat b.toNat) = [b] := by
    intro b hb
    have hlt := h b hb
    rw [String.utf8EncodeChar, toNat_ofNat hlt, if_pos (by omega), UInt8.ofNat_toNat]
  simp only [utf8, ascii, String.toByteArray_ofList, utf8Encode, flatMap_map,
    toList_data_toByteArray]
  rw [flatMap_congr hchar, flatMap_singleton']

/-- Two hexadecimal digits a byte, in lower case. -/
def encodeHex : String := ascii (bytes.flatMap fun byte => hexBytes 2 byte.toNat)

def decodeHexPairs : Bytes → Option Bytes
  | [] => some []
  | [_] => none
  | hi :: lo :: rest => do
    let hi ← hexValue hi
    let lo ← hexValue lo
    let rest ← decodeHexPairs rest
    some (UInt8.ofNat (hi * 16 + lo) :: rest)

lemma hexValue_hexByte {d : ℕ} (h : d < 16) : hexValue (hexByte d) = some d := by
  revert d
  decide

lemma decodeHexPairs_flatMap (bytes : Bytes) :
    decodeHexPairs (bytes.flatMap fun byte => hexBytes 2 byte.toNat) = some bytes := by
  induction bytes with
  | nil => rfl
  | cons b bytes ih =>
    have hhi := hexValue_hexByte (Nat.mod_lt (b.toNat / 16) (show 16 > 0 by decide))
    have hlo := hexValue_hexByte (Nat.mod_lt b.toNat (show 16 > 0 by decide))
    have hbyte : b.toNat / 16 % 16 * 16 + b.toNat % 16 = b.toNat := by
      have := b.toNat_lt
      omega
    have hpair : hexBytes 2 b.toNat = [hexByte (b.toNat / 16 % 16), hexByte (b.toNat % 16)] := rfl
    rw [flatMap_cons, hpair, cons_append, singleton_append, decodeHexPairs, hhi, hlo, ih]
    simp only [Option.bind_eq_bind, Option.bind_some, hbyte, UInt8.ofNat_toNat]

lemma parseHexDigits_hexBytes (w n : ℕ) : parseHexDigits (hexBytes w n) = some (n % 16 ^ w) := by
  induction w generalizing n with
  | zero => simp [hexBytes, parseHexDigits, Nat.mod_one]
  | succ w ih =>
    have hlast := hexValue_hexByte (Nat.mod_lt n (show 16 > 0 by decide))
    unfold parseHexDigits at ih ⊢
    rw [hexBytes, foldl_append, ih, foldl_cons, pushHexDigit, hlast, pow_succ', Nat.mod_mul]
    simp
    omega

lemma parseHex64_hexBytes {n : ℕ} (h : n < 2 ^ 64) : parseHex64 (hexBytes 16 n) = some n := by
  have hdigits := parseHexDigits_hexBytes 16 n
  cases hb : hexBytes 16 n with
  | nil => simp [hexBytes] at hb
  | cons b bytes =>
    have hplus : b ≠ 43 := by
      rintro rfl
      have := mem_hexBytes (hb ▸ mem_cons_self)
      simp at this
    rw [parseHex64, if_neg hplus, ← hb, hdigits]
    simpa using h

lemma utf8_append (a b : String) : utf8 (a ++ b) = utf8 a ++ utf8 b := by
  simp [utf8]

lemma fromUTF8?_utf8 (text : String) : String.fromUTF8? ⟨(utf8 text).toArray⟩ = some text := by
  rw [utf8, String.fromUTF8?, dif_pos text.isValidUTF8]
  rfl

end Lib
