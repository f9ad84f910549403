import TemporalStore.Lib.Base64
import TemporalStore.Lib.Text

/-! # Names that may hold any bytes (`binary_safe_name.rs`) -/

namespace TemporalStore.BinarySafeName

open Lib

/-- `BINARY_TAG` -/
def binaryTag : Char := Char.ofNat 0x1b

/-- The standard base64, whose letters are all printable. -/
structure Base64 where
  encode : Bytes → String
  decode : Bytes → Except String Bytes
  decode_encode : ∀ bytes, decode (utf8 (encode bytes)) = .ok bytes
  printable : ∀ bytes, binaryTag ∉ (encode bytes).toList

/-- The engine `STANDARD`, for any texts of its errors. -/
def Base64.standard (error : Bytes → String) : Base64 where
  encode bytes := ascii (Lib.Base64.encode bytes)
  decode letters :=
    match Lib.Base64.decode letters with
    | some bytes => .ok bytes
    | none => .error (error letters)
  decode_encode bytes := by
    rw [utf8_ascii fun b hb => (Lib.Base64.mem_encode hb).2, Lib.Base64.decode_encode]
  printable bytes h := by
    rw [ascii, String.toList_ofList] at h
    obtain ⟨b, hb, hchar⟩ := List.mem_map.mp h
    obtain ⟨hlow, hhigh⟩ := Lib.Base64.mem_encode hb
    have hval := congrArg (·.val.toNat) hchar
    rw [toNat_ofNat hhigh] at hval
    exact absurd hlow (by rw [hval]; decide)

variable (base64 : Base64)

def encodeName (bytes : Bytes) : String :=
  match String.fromUTF8? ⟨bytes.toArray⟩ with
  | some text =>
    if text.toList.head? = some binaryTag then binaryTag.toString ++ text else text
  | none => binaryTag.toString ++ base64.encode bytes

def decodeName (text : String) : Except String Bytes :=
  match text.toList with
  | [] => .ok (utf8 text)
  | first :: tail =>
    if first ≠ binaryTag then .ok (utf8 text)
    else if tail.head? = some binaryTag then .ok (utf8 (String.ofList tail))
    else (base64.decode (utf8 (String.ofList tail))).mapError
      ("a tagged name is not base64: " ++ ·)

lemma toList_tagged (text : String) :
    (binaryTag.toString ++ text).toList = binaryTag :: text.toList := by
  simp

lemma decodeName_encodeName (bytes : Bytes) :
    decodeName base64 (encodeName base64 bytes) = .ok bytes := by
  unfold encodeName
  split
  · next text htext =>
    have hbytes : utf8 text = bytes := by
      unfold String.fromUTF8? at htext
      split_ifs at htext
      cases htext
      rfl
    split_ifs with htag
    · rw [decodeName]
      simp [htag, hbytes]
    · rw [decodeName]
      split
      · rw [hbytes]
      · next first tail hlist =>
        rw [hlist, List.head?_cons, Option.some.injEq] at htag
        rw [if_pos htag, hbytes]
  · have hhead : (base64.encode bytes).toList.head? ≠ some binaryTag :=
      fun h => base64.printable bytes (List.mem_of_head? h)
    rw [decodeName]
    simp [hhead, base64.decode_encode, Except.mapError]

/-- Names come back as they were, no two share a spelling, and text without the tag is its own. -/
theorem encodeName_spec : (∀ bytes, decodeName base64 (encodeName base64 bytes) = .ok bytes) ∧
      Function.Injective (encodeName base64) ∧ ∀ text : String, text.toList.head? ≠ some binaryTag →
        encodeName base64 (utf8 text) = text := by
  refine ⟨decodeName_encodeName base64, fun a b h => ?_, fun text htag => ?_⟩
  · have hdec := decodeName_encodeName base64 a
    rw [h, decodeName_encodeName] at hdec
    exact (Except.ok.inj hdec).symm
  · rw [encodeName, fromUTF8?_utf8]
    exact if_neg htag

/-- A byte that is no text, a name that starts with the tag, and one letter. -/
theorem encodeName_spec_tagged :
    let base64 := Base64.standard fun _ => "Invalid padding"
    (encodeName base64 [0xff] = "\x1b/w==" ∧
      decodeName base64 (encodeName base64 [0xff]) = .ok [0xff]) ∧
    (encodeName base64 [0x1b, 0x61] = "\x1b\x1ba" ∧
      decodeName base64 (encodeName base64 [0x1b, 0x61]) = .ok [0x1b, 0x61]) ∧
    encodeName base64 [0xff] ≠ encodeName base64 [0x1b, 0x61] ∧
    encodeName base64 (utf8 "a") = "a" := by
  intro base64
  obtain ⟨hback, hinj, htext⟩ := encodeName_spec base64
  refine ⟨⟨?_, hback _⟩, ⟨?_, hback _⟩, fun h => absurd (hinj h) (by decide), htext "a" ?_⟩
  · decide
  · decide
  · decide

end TemporalStore.BinarySafeName
