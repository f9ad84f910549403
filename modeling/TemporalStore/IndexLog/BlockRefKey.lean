import TemporalStore.IndexLog.Record
import TemporalStore.Lib.Result

/-! # The key of a block, read back (`index_log.rs`) -/

namespace TemporalStore.IndexLog.BlockRefKey

open Lib List Nat

structure BlockRefKeyParts where
  kind : String
  objectKey : String
  elementName : String
  blockSlabId : UInt64
  offset : UInt64
  length : UInt64
  blockId : UInt64
  generation : UInt64

structure BlockRefKeyUnparsable where
  key : String
  because : String

/-- `split_once(':')` -/
def splitOnce : List Char → Option (List Char × List Char)
  | [] => none
  | c :: text => if c = ':' then some ([], text) else (splitOnce text).map (Prod.map (c :: ·) id)

/-- The cut at `rfind(':')`. -/
def splitLast (text : List Char) : Option (List Char × List Char) :=
  (splitOnce text.reverse).map fun cut => (cut.2.reverse, cut.1.reverse)

def canonicalDecimal (text : List Char) : Option UInt64 :=
  if text = [] ∨ ¬text.all Char.isDigit then none
  else if 1 < text.length ∧ text.head? = some '0' then none
  else
    let value := ofDigitChars 10 text 0
    if value < 2 ^ 64 then some (.ofNat value) else none

def blockRefKeyParts (key : String) : Except BlockRefKeyUnparsable BlockRefKeyParts := do
  let orRefuse {α : Type} (because : String) (found : Option α) : Except _ α :=
    found.elim (.error ⟨key, because⟩) .ok
  let cut (text : List Char) := orRefuse ("it holds fewer than seven separators, so it cannot " ++
    "be the eight-slot composite the block index is keyed by") (splitLast text)
  let (text, generation) ← cut key.toList
  let (text, blockId) ← cut text
  let (text, length) ← cut text
  let (text, offset) ← cut text
  let (text, blockSlabId) ← cut text
  let (head, elementName) ← cut text
  let (kind, objectKey) ← orRefuse ("its head holds no separator, so there is no slot in it " ++
    "for a kind and an object key both") (splitOnce head)
  let numeric (text : List Char) (slot : String) := orRefuse
    ("its " ++ slot ++ " slot is not a decimal in the spelling the renderer writes")
    (canonicalDecimal text)
  let blockSlabId ← numeric blockSlabId "slab id"
  let offset ← numeric offset "offset"
  let length ← numeric length "length"
  let blockId ← numeric blockId "block id"
  let generation ← numeric generation "generation"
  return ⟨.ofList kind, .ofList objectKey, .ofList elementName, blockSlabId, offset, length,
    blockId,
    generation⟩

def BlockRefKeyParts.render (parts : BlockRefKeyParts) : String :=
  blockRefKeyFromParts parts.kind parts.objectKey (some parts.elementName) parts.blockSlabId.toNat
    parts.offset.toNat parts.length.toNat parts.blockId.toNat parts.generation.toNat

lemma splitOnce_eq_some {text before behind : List Char} :
    splitOnce text = some (before, behind) ↔ text = before ++ ':' :: behind ∧ ':' ∉ before := by
  induction text generalizing before with
  | nil => simp [splitOnce]
  | cons c text ih =>
    rw [splitOnce]
    cases before with
    | nil => split <;> simp_all
    | cons d before =>
      split
      case isTrue hc => grind
      case isFalse hc =>
        have hmap : (splitOnce text).map (Prod.map (c :: ·) id) = some (d :: before, behind) ↔
            c = d ∧ splitOnce text = some (before, behind) := by
          simp [Option.map_eq_some_iff, And.comm]
        grind

lemma splitLast_eq_some {text before behind : List Char} :
    splitLast text = some (before, behind) ↔ text = before ++ ':' :: behind ∧ ':' ∉ behind := by
  have hcut : splitLast text = some (before, behind) ↔
      splitOnce text.reverse = some (behind.reverse, before.reverse) := by
    simp [splitLast, reverse_eq_iff, and_comm]
  rw [hcut, splitOnce_eq_some]
  simp

lemma toDigits_digit {c : Char} (h : c.isDigit) :
    c.toNat - '0'.toNat < 10 ∧ toDigits 10 (c.toNat - '0'.toNat) = [c] := by
  have hc : 48 ≤ c.toNat ∧ c.toNat ≤ 57 := by
    simpa [Char.isDigit, UInt32.le_iff_toNat_le] using h
  rw [show '0'.toNat = 48 from rfl]
  have hlt : c.toNat - 48 < 10 := by omega
  refine ⟨hlt, ?_⟩
  have hc' : (c.toNat - 48).digitChar = c := by
    rw [← Char.toNat_inj, toNat_digitChar_of_lt_ten hlt]
    omega
  rw [toDigits_of_lt_base hlt, hc']

lemma toDigits_append {n : ℕ} {text : List Char} (hpos : 0 < n) (h : ∀ c ∈ text, c.isDigit) :
    toDigits 10 n ++ text = toDigits 10 (ofDigitChars 10 text n) := by
  induction text generalizing n with
  | nil => simp
  | cons c text ih =>
    obtain ⟨hlt, hdigit⟩ := toDigits_digit (h c mem_cons_self)
    rw [ofDigitChars_cons, ← ih (by omega) fun d hd => h d (mem_cons_of_mem c hd),
      ← toDigits_append_toDigits (by decide) hpos hlt, hdigit, append_assoc, singleton_append]

lemma head?_toDigits {n : ℕ} (h : 0 < n) : (toDigits 10 n).head? ≠ some '0' := by
  induction n using Nat.strongRecOn with
  | _ n ih =>
    rcases lt_or_ge n 10 with hlt | hge
    · rw [toDigits_of_lt_base hlt]
      simpa using h.ne'
    · rw [toDigits_of_base_le (by decide) hge, head?_append_of_ne_nil _ toDigits_ne_nil]
      exact ih (n / 10) (by omega) (by omega)

lemma canonicalDecimal_eq_some {text : List Char} {n : UInt64} :
    canonicalDecimal text = some n ↔ text = (toString n.toNat).toList := by
  rw [toString_eq_ofList_toDigits, String.toList_ofList]
  constructor
  · intro h
    simp only [canonicalDecimal] at h
    split_ifs at h with hdigits hzero hlt
    cases h
    rw [UInt64.toNat_ofNat_of_lt' hlt]
    cases text with
    | nil => exact absurd (.inl rfl) hdigits
    | cons c text =>
      have hall : ∀ d ∈ c :: text, d.isDigit := by simpa using hdigits
      obtain ⟨-, hdigit⟩ := toDigits_digit (hall c mem_cons_self)
      rw [ofDigitChars_cons, mul_zero, zero_add]
      cases text with
      | nil => exact hdigit.symm
      | cons d text =>
        have hpos : 0 < c.toNat - '0'.toNat := by
          rw [pos_iff_ne_zero]
          intro hnone
          rw [hnone] at hdigit
          exact hzero ⟨by simp, by simpa using hdigit.symm⟩
        rw [← toDigits_append hpos fun d hd => hall d (mem_cons_of_mem c hd), hdigit]
        rfl
  · rintro rfl
    have hall : (toDigits 10 n.toNat).all Char.isDigit := by
      rw [all_eq_true]
      exact fun c => isDigit_of_mem_toDigits (by decide) (by decide)
    have hzero : ¬(1 < (toDigits 10 n.toNat).length ∧ (toDigits 10 n.toNat).head? = some '0') := by
      rintro ⟨hlong, hhead⟩
      refine head?_toDigits (pos_iff_ne_zero.mpr fun hnone => ?_) hhead
      rw [hnone] at hlong
      exact absurd hlong (by decide)
    simp [canonicalDecimal, toDigits_ne_nil, hall, hzero, ofDigitChars_ten_toDigits,
      UInt64.toNat_lt n]

lemma elim_eq_ok_iff {ε α : Type} {found : Option α} {e : ε} {a : α} :
    found.elim (.error e) .ok = Except.ok a ↔ found = some a := by
  cases found <;> simp

lemma colon_notMem_toString (n : UInt64) : ':' ∉ (toString n.toNat).toList := by
  rw [toString_eq_ofList_toDigits, String.toList_ofList]
  intro h
  exact absurd (isDigit_of_mem_toDigits (by decide) (by decide) h) (by decide)

/-- The parser reads just the rendered keys, and gives back what they were rendered from. -/
theorem blockRefKeyParts_eq_ok_iff (key : String) (parts : BlockRefKeyParts) :
    blockRefKeyParts key = .ok parts ↔
      ':' ∉ parts.kind.toList ∧ ':' ∉ parts.elementName.toList ∧ parts.render = key := by
  simp only [blockRefKeyParts, bind_eq_ok_iff, elim_eq_ok_iff, splitLast_eq_some, splitOnce_eq_some,
    canonicalDecimal_eq_some, Prod.exists]
  constructor
  · rintro ⟨_, _, ⟨hkey, -⟩, _, _, ⟨rfl, -⟩, _, _, ⟨rfl, -⟩, _, _, ⟨rfl, -⟩, _, _, ⟨rfl, -⟩, _, _,
      ⟨rfl, helement⟩, _, _, ⟨rfl, hkind⟩, _, rfl, _, rfl, _, rfl, _, rfl, _, rfl, ⟨⟩⟩
    refine ⟨by simpa using hkind, by simpa using helement, ?_⟩
    rw [← String.toList_inj, hkey]
    simp [BlockRefKeyParts.render, blockRefKeyFromParts]
  · rintro ⟨hkind, helement, rfl⟩
    have hdecimal := colon_notMem_toString
    let head := parts.kind.toList ++ ':' :: parts.objectKey.toList
    refine ⟨head ++ ':' :: parts.elementName.toList ++ ':' :: (toString _).toList ++
      ':' :: (toString _).toList ++ ':' :: (toString _).toList ++ ':' :: (toString _).toList,
      _, ⟨?_, hdecimal parts.generation⟩, _, _, ⟨rfl, hdecimal parts.blockId⟩,
      _, _, ⟨rfl, hdecimal parts.length⟩, _, _, ⟨rfl, hdecimal parts.offset⟩,
      _, _, ⟨rfl, hdecimal parts.blockSlabId⟩, _, _, ⟨rfl, helement⟩, _, _, ⟨rfl, hkind⟩,
      _, rfl, _, rfl, _, rfl, _, rfl, _, rfl, ?_⟩
    · simp [head, BlockRefKeyParts.render, blockRefKeyFromParts]
    · simp

end TemporalStore.IndexLog.BlockRefKey
