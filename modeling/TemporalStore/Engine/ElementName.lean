import TemporalStore.BinarySafeName
import TemporalStore.Engine.ContainerBlocks

/-! # The names of a container's elements (`container_blocks.rs`) -/

namespace TemporalStore.ElementName

open Lib List BinarySafeName Engine

variable (base64 : Base64)

def memberElementName (member : Bytes) : String := binaryTag.toString ++ encodeName base64 member

def memberFromElementName (elementName : String) : Option Bytes :=
  if elementName.toList.head? = some binaryTag then
    (decodeName base64 (String.ofList elementName.toList.tail)).toOption
  else decodeHexPairs (utf8 elementName)

def elementNameFromElementKey (key : Bytes) : ElementKeySpelling → Option String
  | .utf8 => String.fromUTF8? ⟨key.toArray⟩
  | .hex => some (encodeHex key)
  | .scoreThenMember => if 8 ≤ key.length then some (encodeHex (key.drop 8)) else none
  | .biasedWord => if key.length ≠ 8 then none else some (ascii (hexBytes 16 (beNat key)))
  | .name => some (memberElementName base64 key)
  | .scoreThenMemberName =>
    if 8 ≤ key.length then some (memberElementName base64 (key.drop 8)) else none

/-- The key of a scored member has zeros where its score was. -/
def elementKeyFromElementName (elementName : String) : ElementKeySpelling → Option Bytes
  | .utf8 => some (utf8 elementName)
  | .hex | .name => memberFromElementName base64 elementName
  | .scoreThenMember | .scoreThenMemberName =>
    (memberFromElementName base64 elementName).map (zeros 8 ++ ·)
  | .biasedWord =>
    if (utf8 elementName).length ≠ 16 then none
    else (parseHex64 (utf8 elementName)).map (beBytes 8)

def ValidKey (key : Bytes) : ElementKeySpelling → Prop
  | .utf8 => ∃ text, utf8 text = key
  | .hex | .name => True
  | .scoreThenMember | .scoreThenMemberName => 8 ≤ key.length
  | .biasedWord => key.length = 8

def readBack (key : Bytes) : ElementKeySpelling → Bytes
  | .scoreThenMember | .scoreThenMemberName => zeros 8 ++ key.drop 8
  | _ => key

lemma memberFromElementName_encodeHex (member : Bytes) :
    memberFromElementName base64 (encodeHex member) = some member := by
  have hdigit : ∀ b ∈ member.flatMap fun byte => hexBytes 2 byte.toNat,
      48 ≤ b.toNat ∧ b.toNat < 128 := by
    intro b hb
    obtain ⟨byte, -, hb⟩ := mem_flatMap.mp hb
    exact mem_hexBytes hb
  have htag : (encodeHex member).toList.head? ≠ some binaryTag := by
    intro h
    rw [encodeHex, ascii, String.toList_ofList] at h
    obtain ⟨b, hb, heq⟩ := mem_map.mp (mem_of_head? h)
    have hval := congrArg (·.val.toNat) heq
    rw [toNat_ofNat (hdigit b hb).2] at hval
    exact absurd (hdigit b hb).1 (by rw [hval]; decide)
  rw [memberFromElementName, if_neg htag, encodeHex, utf8_ascii fun b hb => (hdigit b hb).2,
    decodeHexPairs_flatMap]

lemma memberFromElementName_memberElementName (member : Bytes) :
    memberFromElementName base64 (memberElementName base64 member) = some member := by
  have hlist := toList_tagged (encodeName base64 member)
  rw [memberFromElementName, memberElementName, hlist, head?_cons, tail_cons,
    String.ofList_toList, decodeName_encodeName]
  rfl

/-- A valid key comes back from its name, but for the score; and no two members share a name. -/
theorem elementName_spec : (∀ spelling key, ValidKey key spelling →
      ∃ elementName, elementNameFromElementKey base64 key spelling = some elementName ∧
        elementKeyFromElementName base64 elementName spelling = some (readBack key spelling)) ∧
    ∀ render ∈ [memberElementName base64, encodeHex],
      ∀ render' ∈ [memberElementName base64, encodeHex], ∀ member member',
        render member = render' member' → member = member' := by
  refine ⟨fun spelling key hvalid => ?_, fun render hrender render' hrender' member member' h => ?_⟩
  · cases spelling with
    | utf8 =>
      obtain ⟨text, rfl⟩ := hvalid
      exact ⟨text, fromUTF8?_utf8 text, rfl⟩
    | hex => exact ⟨_, rfl, memberFromElementName_encodeHex base64 key⟩
    | name => exact ⟨_, rfl, memberFromElementName_memberElementName base64 key⟩
    | scoreThenMember =>
      refine ⟨_, if_pos hvalid, ?_⟩
      rw [elementKeyFromElementName, memberFromElementName_encodeHex]
      rfl
    | scoreThenMemberName =>
      refine ⟨_, if_pos hvalid, ?_⟩
      rw [elementKeyFromElementName, memberFromElementName_memberElementName]
      rfl
    | biasedWord =>
      have hword : beNat key < 256 ^ key.length := by
        rw [← length_reverse]
        exact leNat_lt key.reverse
      rw [ValidKey] at hvalid
      rw [hvalid] at hword
      refine ⟨_, if_neg (not_not.mpr hvalid), ?_⟩
      rw [elementKeyFromElementName, utf8_ascii fun b hb => (mem_hexBytes hb).2,
        if_neg (by simp [hexBytes]), parseHex64_hexBytes hword, ← hvalid]
      exact congrArg some (beBytes_beNat key)
  · have hback : ∀ render ∈ [memberElementName base64, encodeHex], ∀ member,
        memberFromElementName base64 (render member) = some member := by
      simp [memberFromElementName_encodeHex, memberFromElementName_memberElementName]
    have hmember := hback render hrender member
    rw [h, hback render' hrender'] at hmember
    exact (Option.some.inj hmember).symm

/-- A member behind the tag, one in hexadecimal, and both behind a score. -/
theorem elementName_spec_members :
    let base64 := Base64.standard fun _ => "Invalid padding"
    let named := fun spelling key name readBack =>
      elementNameFromElementKey base64 key spelling = some name ∧
        elementKeyFromElementName base64 name spelling = some readBack
    named .name [0xff] "\x1b\x1b/w==" [0xff] ∧ named .hex [0xff] "ff" [0xff] ∧
      named .scoreThenMemberName [1, 2, 3, 4, 5, 6, 7, 8, 0xff] "\x1b\x1b/w==" (zeros 8 ++ [0xff]) ∧
      named .scoreThenMember [1, 2, 3, 4, 5, 6, 7, 8, 0xff] "ff" (zeros 8 ++ [0xff]) ∧
      memberElementName base64 [0xff] ≠ encodeHex [0xfe] := by
  intro base64 named
  obtain ⟨hback, hinj⟩ := elementName_spec base64
  have hnamed {spelling key name} (hvalid : ValidKey key spelling)
      (hname : elementNameFromElementKey base64 key spelling = some name) :
      named spelling key name (readBack key spelling) := by
    obtain ⟨_, hsome, hkey⟩ := hback spelling key hvalid
    cases hname.symm.trans hsome
    exact ⟨hsome, hkey⟩
  refine ⟨hnamed trivial ?_, hnamed trivial ?_, hnamed (by decide : 8 ≤ 9) ?_,
    hnamed (by decide : 8 ≤ 9) ?_, fun h => ?_⟩
  · decide
  · decide
  · decide
  · decide
  · exact absurd (hinj _ (by simp) _ (by simp) _ _ h) (by decide)

end TemporalStore.ElementName
