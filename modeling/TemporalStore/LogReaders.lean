import TemporalStore.LogFraming

/-! # The slice reader and the streaming reader (`next_frame`, `read_frame`) -/

namespace TemporalStore.LogFraming

open Lib List

inductive FrameFault where
  | framing (message : FramingError)
  /-- The reader panics. -/
  | panicked
  deriving DecidableEq

/-- A record and the bytes it takes, or `none` at the end of the log. -/
abbrev FrameRead := Except FrameFault (Option (ℕ × Bytes))

def missingLength : FrameFault := .framing "framed record missing length field"

def missingDigest : FrameFault := .framing "framed record missing digest field"

def unparseableLength : FrameFault := .framing "framed record has an unparseable length field"

def digestMismatch : FrameFault := .framing "framed record digest does not match its payload"

variable (sha256DigestHex : Bytes → Bytes) (bytes : Bytes)

/-- The end of the frame that a binary header declares is no `usize`. The header is there. -/
def endOverflows : Bool :=
  match readVarint (bytes.drop 1) with
  | .value declared rest =>
    4 ≤ rest.length && 2 ^ 64 ≤ bytes.length - rest.length + 4 + declared % 2 ^ 64
  | _ => false

/-- The binary branch of `next_frame`. An end past the largest `usize` is a panic: with overflow
checks the sum, without them the slice that ends before it starts. -/
def nextBinaryFrame : FrameRead :=
  if endOverflows bytes then .error .panicked
  else match nextFrame bytes with
    | .error message => .error (.framing message)
    | .ok read => .ok read

def nextTextFrame (checksumOf : Bytes → Bytes) (bytes : Bytes) : FrameRead :=
  match splitOnceSpace (bytes.drop 6) with
  | none => .error missingLength
  | some (lenField, afterLen) =>
    match splitOnceSpace afterLen with
    | none => .error missingDigest
    | some (digestField, afterDigest) =>
      match parseUsize lenField with
      | none => .error unparseableLength
      | some declaredLen =>
        if afterDigest.length < declaredLen then .ok none
        else
          let payload := afterDigest.take declaredLen
          if checksumOf payload ≠ digestField then .error digestMismatch
          else
            let consumed := bytes.length - afterDigest.length + declaredLen
            .ok (some (if bytes[consumed]? = some newline then consumed + 1 else consumed, payload))

def nextUnframed : FrameRead :=
  match takeLine bytes with
  | none => .ok none
  | some line => .ok (some (line.length, stripTrailingNewline line))

/-- `next_frame`. -/
def nextRecord : FrameRead :=
  if bytes = [] then .ok none
  else if bytes.head? = some frameMagicV3 then nextBinaryFrame bytes
  else if frameMagicV2.isPrefixOf bytes then nextTextFrame crcDigestHex bytes
  else if frameMagicV1.isPrefixOf bytes then nextTextFrame sha256DigestHex bytes
  else nextUnframed bytes

inductive LengthRead where
  | torn
  | notVarint
  | length (declaredLen : ℕ) (lengthBytes rest : Bytes)
  deriving DecidableEq

/-- The length of a binary frame: a byte is added until the bytes so far are a varint. -/
def readLength : Bytes → Bytes → LengthRead
  | _, [] => .torn
  | lengthBytes, byte :: rest =>
    match readVarint (lengthBytes ++ [byte]) with
    | .value declared _ => .length (declared % 2 ^ 64) (lengthBytes ++ [byte]) rest
    | _ =>
      if 10 < (lengthBytes ++ [byte]).length then .notVarint
      else readLength (lengthBytes ++ [byte]) rest

/-- `take` and `read_to_end`: at most so many bytes. -/
def readBinaryFrame (afterMarker : Bytes) : FrameRead :=
  match readLength [] afterMarker with
  | .torn => .ok none
  | .notVarint => .error (.framing "record length is not a varint")
  | .length declaredLen lengthBytes rest =>
    if rest.length < 4 then .ok none
    else
      let payload := (rest.drop 4).take declaredLen
      if payload.length ≠ declaredLen then .ok none
      else if (crc32c payload).toNat ≠ leNat (rest.take 4) then .error digestMismatch
      else .ok (some (1 + lengthBytes.length + 4 + declaredLen, payload))

inductive HeaderRead where
  | torn
  | unframed (started rest : Bytes)
  | framed (header rest : Bytes)
  deriving DecidableEq

/-- The header of a text frame: up to the third space, the one of the magic among them. -/
def readHeader : Bytes → ℕ → Bytes → HeaderRead
  | _, _, [] => .torn
  | header, spaces, byte :: rest =>
    let header := header ++ [byte]
    if header.length ≤ 6 then
      if header = frameMagicV1 ∨ header = frameMagicV2 then readHeader header 1 rest
      else if header.isPrefixOf frameMagicV1 ∨ header.isPrefixOf frameMagicV2 then
        readHeader header spaces rest
      else .unframed header rest
    else if byte = space then
      if spaces + 1 = 3 then .framed header rest else readHeader header (spaces + 1) rest
    else readHeader header spaces rest

def readTextFrame (checksumOf : Bytes → Bytes) (header rest : Bytes) : FrameRead :=
  match splitOnceSpace (header.drop 6) with
  | none => .error missingLength
  | some (lenField, afterLen) =>
    match splitOnceSpace afterLen with
    | none => .error missingDigest
    | some (digestField, _) =>
      match parseUsize lenField with
      | none => .error unparseableLength
      | some declaredLen =>
        let payload := rest.take declaredLen
        if payload.length ≠ declaredLen then .ok none
        else if checksumOf payload ≠ digestField then .error digestMismatch
        else
          -- the newline is looked at before it is taken
          let consumedNewline := if (rest.drop declaredLen).head? = some newline then 1 else 0
          .ok (some (header.length + declaredLen + consumedNewline, payload))

def readUnframed (started rest : Bytes) : FrameRead :=
  if started.getLast? = some newline then
    .ok (some (started.length, stripTrailingNewline started))
  else
    match takeLine rest with
    | none => .ok none
    | some line => .ok (some (started.length + line.length, stripTrailingNewline (started ++ line)))

/-- The digest that a text frame with this header has. -/
def checksumFor (header : Bytes) : Bytes → Bytes :=
  if frameMagicV2.isPrefixOf header then crcDigestHex else sha256DigestHex

def finishHeader : HeaderRead → FrameRead
  | .torn => .ok none
  | .unframed started rest => readUnframed started rest
  | .framed header rest => readTextFrame (checksumFor sha256DigestHex header) header rest

/-- `read_frame`, over the bytes that the reader still has. -/
def readFrame : FrameRead :=
  match bytes with
  | [] => .ok none
  | first :: rest =>
    if first = frameMagicV3 then readBinaryFrame rest
    else finishHeader sha256DigestHex (readHeader [] 0 bytes)

/-- Both at the end of the log, both with an error, or both with the same record. -/
def Agree : FrameRead → FrameRead → Prop
  | .ok none, .ok none => True
  | .error (.framing _), .error (.framing _) => True
  | .ok (some a), .ok (some b) => a = b
  | _, _ => False

instance : DecidableRel Agree
  | .ok none, .ok none => isTrue trivial
  | .error (.framing _), .error (.framing _) => isTrue trivial
  | .ok (some a), .ok (some b) => inferInstanceAs (Decidable (a = b))
  | .ok none, .ok (some _) => isFalse id
  | .ok (some _), .ok none => isFalse id
  | .ok none, .error _ => isFalse id
  | .ok (some _), .error _ => isFalse id
  | .error (.framing _), .ok _ => isFalse id
  | .error .panicked, .ok _ => isFalse id
  | .error (.framing _), .error .panicked => isFalse id
  | .error .panicked, .error _ => isFalse id

section

variable {lengthBytes : Bytes} (hgroups : ∀ b ∈ lengthBytes, 128 ≤ b.toNat)
    (hle : lengthBytes.length ≤ 10)
include hgroups hle

lemma readVarint_groups : readVarint lengthBytes = .short ∨ readVarint lengthBytes = .overlong := by
  obtain ⟨shift, acc, hread⟩ := readVarintFrom_append hgroups hle 0 0
  have h := hread []
  rw [append_nil] at h
  rw [readVarint, h]
  cases 10 - lengthBytes.length with
  | zero => exact .inr rfl
  | succ n => exact .inl rfl

lemma readLength_eq (rest : Bytes) : readLength lengthBytes rest =
      match readVarint (lengthBytes ++ rest) with
      | .value declared after => .length (declared % 2 ^ 64)
          ((lengthBytes ++ rest).take ((lengthBytes ++ rest).length - after.length)) after
      | .short => .torn
      | .overlong => if 10 < (lengthBytes ++ rest).length then .notVarint else .torn := by
  induction rest generalizing lengthBytes with
  | nil =>
    rw [append_nil]
    rcases readVarint_groups hgroups hle with h | h
    · rw [h]
      rfl
    · rw [h]
      rw [if_neg (by omega)]
      rfl
  | cons byte rest ih =>
    obtain ⟨shift, acc, hread⟩ := readVarintFrom_append hgroups hle 0 0
    have hone : readVarint (lengthBytes ++ [byte]) =
        readVarintFrom (10 - lengthBytes.length) shift acc [byte] := hread [byte]
    have hall : readVarint (lengthBytes ++ byte :: rest) =
        readVarintFrom (10 - lengthBytes.length) shift acc (byte :: rest) := hread (byte :: rest)
    have hlen : (lengthBytes ++ [byte]).length = lengthBytes.length + 1 := by simp
    rcases Nat.lt_or_ge lengthBytes.length 10 with hlt | hge
    · obtain ⟨fuel, hfuel⟩ : ∃ n, 10 - lengthBytes.length = n + 1 :=
        ⟨9 - lengthBytes.length, by omega⟩
      rw [hfuel, readVarintFrom] at hone hall
      by_cases hbyte : byte.toNat < 128
      · -- the byte ends the varint
        rw [if_pos hbyte] at hone hall
        have hsplit : lengthBytes ++ byte :: rest = (lengthBytes ++ [byte]) ++ rest := by simp
        have hleng : (lengthBytes ++ [byte] ++ rest).length - rest.length =
            (lengthBytes ++ [byte]).length := by
          rw [length_append, Nat.add_sub_cancel]
        rw [readLength, hone, hall]
        dsimp only
        rw [hsplit, hleng, take_left]
      · have hnext : ∀ b ∈ lengthBytes ++ [byte], 128 ≤ b.toNat :=
          forall_mem_append.mpr ⟨hgroups, forall_mem_singleton.mpr (by omega)⟩
        have hstep : readLength lengthBytes (byte :: rest) =
            readLength (lengthBytes ++ [byte]) rest := by
          rw [readLength]
          rcases readVarint_groups hnext (by rw [hlen]; omega) with h | h
          all_goals
            rw [h]
            rw [if_neg (by rw [hlen]; omega)]
        rw [hstep, ih hnext (by rw [hlen]; omega), append_assoc, singleton_append]
    · -- ten bytes were no varint, and an eleventh is there
      have hten : 10 - lengthBytes.length = 0 := by omega
      rw [hten, readVarintFrom] at hone hall
      rw [readLength, hone, hall]
      rw [if_pos (by rw [hlen]; omega), if_pos (by
        rw [length_append, length_cons]
        omega)]

end

lemma readHeader_field {header : Bytes} (hlen : 6 ≤ header.length) (spaces : ℕ) {field : Bytes}
    (hfield : space ∉ field) (rest : Bytes) :
    readHeader header spaces (field ++ rest) = readHeader (header ++ field) spaces rest := by
  induction field generalizing header with
  | nil => rw [nil_append, append_nil]
  | cons byte field ih =>
    rw [mem_cons, not_or] at hfield
    have hnext : ¬(header ++ [byte]).length ≤ 6 := by
      rw [length_append, length_singleton]
      omega
    rw [cons_append, readHeader]
    rw [if_neg hnext, if_neg (Ne.symm hfield.1), ih (by omega) hfield.2, append_assoc,
      singleton_append]

/-- A magic and the two fields behind it, each with its space. -/
def textHeader (magic lenField digestField : Bytes) : Bytes :=
  magic ++ (lenField ++ space :: (digestField ++ [space]))

lemma readHeader_magic {magic : Bytes} (hlen : magic.length = 6) {lenField digestField : Bytes}
    (hlenField : space ∉ lenField) (hdigestField : space ∉ digestField) (rest : Bytes) :
    readHeader magic 1 (lenField ++ space :: (digestField ++ space :: rest)) =
      .framed (textHeader magic lenField digestField) rest := by
  rw [readHeader_field hlen.ge 1 hlenField, readHeader]
  rw [if_neg (by simp [hlen]), if_pos rfl, if_neg (by decide),
    readHeader_field (by simp [hlen]) 2 hdigestField, readHeader]
  rw [if_neg (by simp [hlen]), if_pos rfl, if_pos rfl]
  simp only [textHeader, append_assoc, cons_append, nil_append]

lemma readHeader_torn {header rest : Bytes} (hlen : 6 ≤ header.length) {spaces : ℕ}
    (hspaces : spaces + rest.count space < 3) : readHeader header spaces rest = .torn := by
  induction rest generalizing header spaces with
  | nil => rw [readHeader]
  | cons byte rest ih =>
    have hnext : ¬(header ++ [byte]).length ≤ 6 := by
      rw [length_append, length_singleton]
      omega
    rw [readHeader]
    rw [if_neg hnext]
    by_cases hbyte : byte = space
    · rw [hbyte, count_cons_self] at hspaces
      rw [if_pos hbyte, if_neg (by omega)]
      exact ih (by omega) (by omega)
    · rw [count_cons_of_ne hbyte] at hspaces
      rw [if_neg hbyte]
      exact ih (by omega) hspaces

lemma newline_notMem_magic {started : Bytes}
    (h : started <+: frameMagicV1 ∨ started <+: frameMagicV2) : newline ∉ started :=
  fun hmem => h.elim (fun h => absurd (h.subset hmem) (by decide))
    fun h => absurd (h.subset hmem) (by decide)

lemma readHeader_unframed {header bytes : Bytes} (hlen : header.length < 6)
    (hhdr : header <+: frameMagicV1 ∨ header <+: frameMagicV2)
    (hV1 : ¬frameMagicV1 <+: header ++ bytes) (hV2 : ¬frameMagicV2 <+: header ++ bytes) :
    readHeader header 0 bytes = .torn ∧ newline ∉ header ++ bytes ∨
      ∃ started last rest, readHeader header 0 bytes = .unframed (started ++ [last]) rest ∧
        header ++ bytes = started ++ [last] ++ rest ∧ newline ∉ started := by
  have hnl := newline_notMem_magic hhdr
  induction bytes generalizing header with
  | nil =>
    rw [append_nil]
    exact .inl ⟨rfl, hnl⟩
  | cons byte bytes ih =>
    have hsplit : header ++ byte :: bytes = header ++ [byte] ++ bytes := by simp
    have hle : (header ++ [byte]).length ≤ 6 := by
      rw [length_append, length_singleton]
      omega
    have hne : ¬(header ++ [byte] = frameMagicV1 ∨ header ++ [byte] = frameMagicV2) := by
      rintro (h | h)
      · exact hV1 (hsplit ▸ h ▸ prefix_append _ _)
      · exact hV2 (hsplit ▸ h ▸ prefix_append _ _)
    have hiff : (header ++ [byte]).isPrefixOf frameMagicV1 ∨
        (header ++ [byte]).isPrefixOf frameMagicV2 ↔
        header ++ [byte] <+: frameMagicV1 ∨ header ++ [byte] <+: frameMagicV2 := by
      exact or_congr isPrefixOf_iff_prefix isPrefixOf_iff_prefix
    rw [readHeader, if_pos hle, if_neg hne]
    by_cases hstill : header ++ [byte] <+: frameMagicV1 ∨ header ++ [byte] <+: frameMagicV2
    · have hlt : (header ++ [byte]).length < 6 := by
        refine lt_of_le_of_ne hle fun hsix => hne ?_
        exact hstill.imp (fun h => h.eq_of_length hsix) (fun h => h.eq_of_length hsix)
      rw [if_pos (hiff.mpr hstill), hsplit]
      exact ih hlt hstill (hsplit ▸ hV1) (hsplit ▸ hV2) (newline_notMem_magic hstill)
    · rw [if_neg fun h => hstill (hiff.mp h), hsplit]
      exact .inr ⟨header, byte, bytes, rfl, rfl, hnl⟩

lemma readUnframed_eq {started : Bytes} (hstarted : newline ∉ started) (last : Byte)
    (rest : Bytes) :
    readUnframed (started ++ [last]) rest = nextUnframed (started ++ [last] ++ rest) := by
  unfold readUnframed nextUnframed
  rw [getLast?_concat]
  by_cases hlast : last = newline
  · rw [if_pos (congrArg some hlast), hlast, append_assoc, singleton_append,
      takeLine_append rest hstarted]
  · have hmem : newline ∉ started ++ [last] := by
      rw [mem_append, mem_singleton, not_or]
      exact ⟨hstarted, Ne.symm hlast⟩
    rw [if_neg fun h => hlast (Option.some.inj h), takeLine_append_of_notMem rest hmem]
    cases takeLine rest with
    | none => rfl
    | some line =>
      simp only [Option.map_some, length_append]

lemma agree_self {read : FrameRead} (h : read ≠ .error .panicked) : Agree read read := by
  match read, h with
  | .ok none, _ => trivial
  | .ok (some _), _ => rfl
  | .error (.framing _), _ => trivial
  | .error .panicked, h => exact absurd rfl h

lemma nextBinaryFrame_eq {afterMarker rest : Bytes} {declared : ℕ}
    (hread : readVarint afterMarker = .value declared rest)
    (hfits : endOverflows (frameMagicV3 :: afterMarker) = false) :
    nextBinaryFrame (frameMagicV3 :: afterMarker) = readBinaryFrame afterMarker := by
  obtain ⟨taken, rfl⟩ := isSuffix_of_readVarintFrom hread
  have hleng : readLength [] (taken ++ rest) = .length (declared % 2 ^ 64) taken rest := by
    rw [readLength_eq (by simp) (Nat.zero_le _), nil_append, hread]
    dsimp only
    rw [length_append, Nat.add_sub_cancel, take_left]
  have hhdr : (frameMagicV3 :: (taken ++ rest)).length - rest.length + 4 =
      1 + taken.length + 4 := by
    rw [length_cons, length_append]
    omega
  have hslice : ∀ n, slice (frameMagicV3 :: (taken ++ rest)) (1 + taken.length + 4) n =
      (rest.drop 4).take n := by
    intro n
    rw [slice, show 1 + taken.length + 4 = taken.length + 4 + 1 by omega, drop_succ_cons,
      drop_length_add_append]
  unfold nextBinaryFrame readBinaryFrame nextFrame
  rw [hfits, hleng, drop_one, tail_cons, hread]
  simp only [Bool.false_eq_true, if_false, hhdr, hslice]
  by_cases hshort : rest.length < 4
  · rw [if_pos hshort, if_pos (by rw [length_cons, length_append]; omega)]
  · rw [if_neg hshort, if_neg (by rw [length_cons, length_append]; omega)]
    have hpay : ((rest.drop 4).take (declared % 2 ^ 64)).length ≠ declared % 2 ^ 64 ↔
        (frameMagicV3 :: (taken ++ rest)).length < 1 + taken.length + 4 + declared % 2 ^ 64 := by
      rw [length_take, length_drop, length_cons, length_append]
      omega
    by_cases htorn : (frameMagicV3 :: (taken ++ rest)).length <
        1 + taken.length + 4 + declared % 2 ^ 64
    · rw [if_pos htorn, if_pos (hpay.mpr htorn)]
    · rw [if_neg htorn, if_neg fun h => htorn (hpay.mp h)]
      by_cases hcrc : (crc32c ((rest.drop 4).take (declared % 2 ^ 64))).toNat ≠ leNat (rest.take 4)
      · rw [if_pos hcrc, if_pos hcrc]
        rfl
      · rw [if_neg hcrc, if_neg hcrc]

lemma nextTextFrame_eq (checksumOf : Bytes → Bytes) {magic : Bytes} (hlen : magic.length = 6)
    {lenField digestField : Bytes} (hlenField : space ∉ lenField)
    (hdigestField : space ∉ digestField) (rest : Bytes) :
    nextTextFrame checksumOf (magic ++ (lenField ++ space :: (digestField ++ space :: rest))) =
      readTextFrame checksumOf (textHeader magic lenField digestField) rest := by
  have hdrop : ∀ tail, (magic ++ tail).drop 6 = tail := fun tail => by rw [← hlen, drop_left]
  unfold nextTextFrame readTextFrame
  rw [hdrop, textHeader, hdrop, ← textHeader, splitOnceSpace_append _ hlenField,
    splitOnceSpace_append _ hlenField]
  dsimp only
  rw [splitOnceSpace_append _ hdigestField, splitOnceSpace_append _ hdigestField]
  cases parseUsize lenField with
  | none => rfl
  | some declaredLen =>
    dsimp only
    have hpay : (rest.take declaredLen).length ≠ declaredLen ↔ rest.length < declaredLen := by
      rw [length_take]
      omega
    by_cases htorn : rest.length < declaredLen
    · rw [if_pos htorn, if_pos (hpay.mpr htorn)]
    · rw [if_neg htorn, if_neg fun h => htorn (hpay.mp h)]
      have hsplit : magic ++ (lenField ++ space :: (digestField ++ space :: rest)) =
          textHeader magic lenField digestField ++ rest := by simp [textHeader]
      rw [hsplit, length_append, Nat.add_sub_cancel, getElem?_append_right (by omega),
        Nat.add_sub_cancel_left, head?_drop]
      split
      · rfl
      · split <;> rfl

/-- Ten bytes with the continuation bit set behind the marker, and an eleventh. -/
def LengthOverlong : Prop :=
  bytes.head? = some frameMagicV3 ∧ readVarint (bytes.drop 1) = .overlong ∧ 11 < bytes.length

/-- A binary header that declares an end past the largest `usize`. -/
def EndOverflows : Prop :=
  bytes.head? = some frameMagicV3 ∧ endOverflows bytes = true

/-- The magic of a text frame with fewer than two spaces behind it. -/
def HeaderTorn : Prop :=
  (frameMagicV2 <+: bytes ∨ frameMagicV1 <+: bytes) ∧ (bytes.drop 6).count space < 2

lemma binary_agree_iff (afterMarker : Bytes) :
    Agree (nextBinaryFrame (frameMagicV3 :: afterMarker)) (readBinaryFrame afterMarker) ↔
      ¬LengthOverlong (frameMagicV3 :: afterMarker) ∧
        ¬EndOverflows (frameMagicV3 :: afterMarker) := by
  have hhead : (frameMagicV3 :: afterMarker).head? = some frameMagicV3 := rfl
  have hrest : (frameMagicV3 :: afterMarker).drop 1 = afterMarker := rfl
  have hleng := @readLength_eq [] (by simp) (Nat.zero_le _) afterMarker
  rw [nil_append] at hleng
  have hnone (h : readVarint afterMarker = .short ∨ readVarint afterMarker = .overlong) :
      nextBinaryFrame (frameMagicV3 :: afterMarker) = .ok none := by
    rcases h with h | h <;>
      simp only [nextBinaryFrame, endOverflows, nextFrame, hrest, h, Bool.false_eq_true, if_false]
  cases hread : readVarint afterMarker with
  | short =>
    have hread' : readBinaryFrame afterMarker = .ok none := by
      rw [readBinaryFrame, hleng, hread]
    rw [hnone (.inl hread), hread']
    refine iff_of_true trivial ⟨fun h => ?_, fun h => ?_⟩
    · rw [LengthOverlong, hrest, hread] at h
      cases h.2.1
    · rw [EndOverflows, endOverflows, hrest, hread] at h
      cases h.2
  | overlong =>
    have hnext := hnone (.inr hread)
    have hover : ¬EndOverflows (frameMagicV3 :: afterMarker) := by
      rw [EndOverflows, endOverflows, hrest, hread]
      exact fun h => by cases h.2
    rw [hread] at hleng
    rw [hnext, and_iff_left hover, LengthOverlong, length_cons, readBinaryFrame, hleng]
    by_cases hten : 10 < afterMarker.length
    · rw [if_pos hten]
      exact iff_of_false id fun h => h ⟨hhead, hread, by omega⟩
    · rw [if_neg hten]
      exact iff_of_true trivial fun h => hten (by omega)
  | value declared rest =>
    have hlong : ¬LengthOverlong (frameMagicV3 :: afterMarker) := by
      rw [LengthOverlong, hrest, hread]
      exact fun h => by cases h.2.1
    rw [and_iff_right hlong, EndOverflows, and_iff_right hhead]
    cases hover : endOverflows (frameMagicV3 :: afterMarker) with
    | true =>
      rw [nextBinaryFrame, if_pos hover]
      exact iff_of_false id fun h => h rfl
    | false =>
      rw [← nextBinaryFrame_eq hread hover]
      refine iff_of_true (agree_self ?_) Bool.false_ne_true
      rw [nextBinaryFrame, hover]
      simp only [Bool.false_eq_true, if_false]
      split <;> simp

lemma text_agree_iff {sha256DigestHex checksumOf : Bytes → Bytes} {magic : Bytes}
    (hlen : magic.length = 6)
    (hchec : ∀ tail, checksumFor sha256DigestHex (magic ++ tail) = checksumOf) (rest : Bytes) :
    Agree (nextTextFrame checksumOf (magic ++ rest))
        (finishHeader sha256DigestHex (readHeader magic 1 rest)) ↔ ¬rest.count space < 2 := by
  have hdrop : (magic ++ rest).drop 6 = rest := by rw [← hlen, drop_left]
  rcases splitOnceSpace_cases rest with
    ⟨hsplit, hnone⟩ | ⟨lenField, afterLen, hsplit, hlenField, rfl⟩
  · have hcount : rest.count space = 0 := count_eq_zero.mpr hnone
    rw [readHeader_torn hlen.ge (by omega), nextTextFrame, hdrop, hsplit]
    exact iff_of_false id fun h => h (by omega)
  · have hcount : lenField.count space = 0 := count_eq_zero.mpr hlenField
    rw [count_append, count_cons_self]
    rcases splitOnceSpace_cases afterLen with
      ⟨hsplit', hnone⟩ | ⟨digestField, after, hsplit', hdigestField, rfl⟩
    · have hcount' : afterLen.count space = 0 := count_eq_zero.mpr hnone
      rw [readHeader_torn hlen.ge (by rw [count_append, count_cons_self]; omega),
        nextTextFrame, hdrop, hsplit]
      dsimp only
      rw [hsplit']
      exact iff_of_false id fun h => h (by omega)
    · rw [count_append, count_cons_self, readHeader_magic hlen hlenField hdigestField,
        finishHeader, show checksumFor sha256DigestHex (textHeader ..) = _ from hchec _,
        ← nextTextFrame_eq checksumOf hlen hlenField hdigestField]
      refine iff_of_true (agree_self ?_) (by omega)
      rw [nextTextFrame, hdrop, hsplit]
      dsimp only
      rw [hsplit']
      dsimp only
      split
      · simp [unparseableLength]
      · split
        · simp
        · split
          · simp [digestMismatch]
          · simp

lemma readHeader_eq_magic {magic : Bytes} (h : magic = frameMagicV1 ∨ magic = frameMagicV2)
    (rest : Bytes) : readHeader [] 0 (magic ++ rest) = readHeader magic 1 rest := by
  rcases h with rfl | rfl <;> rfl

lemma unframed_agree {bytes : Bytes} (hV2 : ¬frameMagicV2 <+: bytes)
    (hV1 : ¬frameMagicV1 <+: bytes) :
    Agree (nextUnframed bytes) (finishHeader sha256DigestHex (readHeader [] 0 bytes)) := by
  have hself : Agree (nextUnframed bytes) (nextUnframed bytes) := by
    apply agree_self
    unfold nextUnframed
    split <;> simp
  rcases @readHeader_unframed [] bytes (by decide) (.inl nil_prefix) hV1 hV2 with
    ⟨hhdr, hnl⟩ | ⟨started, last, rest, hhdr, hbytes, hstarted⟩
  · rw [nil_append] at hnl
    rw [hhdr, nextUnframed, takeLine_eq_none hnl]
    trivial
  · rw [hhdr, finishHeader, readUnframed_eq hstarted, ← hbytes]
    exact hself

lemma nextRecord_agree_iff :
    Agree (nextRecord sha256DigestHex bytes) (readFrame sha256DigestHex bytes) ↔
      ¬LengthOverlong bytes ∧ ¬EndOverflows bytes ∧ ¬HeaderTorn bytes := by
  cases bytes with
  | nil => exact iff_of_true trivial ⟨by simp [LengthOverlong], by simp [EndOverflows],
      by simp [HeaderTorn, frameMagicV1, frameMagicV2]⟩
  | cons first rest =>
    rw [nextRecord, if_neg (cons_ne_nil _ _), head?_cons, readFrame]
    by_cases hfirst : first = frameMagicV3
    · have htext : ¬HeaderTorn (first :: rest) := by
        rw [hfirst]
        rintro ⟨h | h, -⟩
        · exact absurd (cons_prefix_cons.mp h).1 (by decide)
        · exact absurd (cons_prefix_cons.mp h).1 (by decide)
      rw [and_iff_left htext, hfirst]
      exact binary_agree_iff rest
    · have hbinary : ∀ {p : Prop}, ¬((first :: rest).head? = some frameMagicV3 ∧ p) :=
        fun h => hfirst (Option.some.inj h.1)
      rw [if_neg fun h => hfirst (Option.some.inj h), if_neg hfirst, LengthOverlong, EndOverflows,
        and_iff_right hbinary, and_iff_right hbinary, HeaderTorn]
      by_cases hV2 : frameMagicV2 <+: first :: rest
      · obtain ⟨tail, htail⟩ := hV2
        have hmagic : frameMagicV2.isPrefixOf (frameMagicV2 ++ tail) :=
          isPrefixOf_iff_prefix.mpr (prefix_append _ _)
        rw [← htail, if_pos hmagic, readHeader_eq_magic (.inr rfl),
          text_agree_iff rfl fun tail => by simp [checksumFor]]
        simp [frameMagicV2]
      · rw [if_neg fun h => hV2 <| isPrefixOf_iff_prefix.mp h]
        by_cases hV1 : frameMagicV1 <+: first :: rest
        · obtain ⟨tail, htail⟩ := hV1
          have hmagic : frameMagicV1.isPrefixOf (frameMagicV1 ++ tail) :=
            isPrefixOf_iff_prefix.mpr (prefix_append _ _)
          rw [← htail, if_pos hmagic, readHeader_eq_magic (.inl rfl),
            text_agree_iff rfl fun tail => by simp [checksumFor, frameMagicV1, frameMagicV2]]
          simp [frameMagicV1]
        · rw [if_neg fun h => hV1 <| isPrefixOf_iff_prefix.mp h]
          exact iff_of_true (unframed_agree sha256DigestHex hV2 hV1) fun h => h.1.elim hV2 hV1

/-- The readers agree record by record if and only if no record of the bytes starts with an overlong
length, with a length that overflows, or with a text header that is cut short. -/
theorem readers_agree_iff (sha256DigestHex : Bytes → Bytes) (bytes : Bytes) :
    (∀ offset, Agree (nextRecord sha256DigestHex (bytes.drop offset))
        (readFrame sha256DigestHex (bytes.drop offset))) ↔
      ∀ offset, ¬LengthOverlong (bytes.drop offset) ∧ ¬EndOverflows (bytes.drop offset) ∧
        ¬HeaderTorn (bytes.drop offset) :=
  forall_congr' fun offset => nextRecord_agree_iff sha256DigestHex (bytes.drop offset)

/-- Eleven continuation bytes; a length of 2^64 - 1; and `#tsf2 5`. -/
theorem not_readers_agree : ¬Agree (nextRecord id (0xB3 :: List.replicate 11 0x80))
        (readFrame id (0xB3 :: List.replicate 11 0x80)) ∧
      ¬Agree (nextRecord id (0xB3 :: (List.replicate 9 0xff ++ [1, 0, 0, 0, 0])))
        (readFrame id (0xB3 :: (List.replicate 9 0xff ++ [1, 0, 0, 0, 0]))) ∧
      ¬Agree (nextRecord id (frameMagicV2 ++ [53])) (readFrame id (frameMagicV2 ++ [53])) := by
  decide +kernel

/-- The reader did not panic, and a record that it returned takes a byte at least and no more than
there are. -/
def InBounds : FrameRead → Prop
  | .error .panicked => False
  | .ok (some (consumed, _)) => 1 ≤ consumed ∧ consumed ≤ bytes.length
  | _ => True

lemma inBounds_nextBinaryFrame_iff :
    InBounds bytes (nextBinaryFrame bytes) ↔ endOverflows bytes = false := by
  unfold nextBinaryFrame
  cases hover : endOverflows bytes with
  | true => exact iff_of_false id Bool.noConfusion
  | false =>
    refine iff_of_true ?_ rfl
    unfold nextFrame
    cases readVarint (bytes.drop 1) with
    | short => trivial
    | overlong => trivial
    | value declared rest =>
      simp only [Bool.false_eq_true, if_false]
      split_ifs with hheader htorn
      · trivial
      · trivial
      · trivial
      · exact ⟨by omega, by omega⟩

lemma inBounds_nextTextFrame (checksumOf : Bytes → Bytes) :
    InBounds bytes (nextTextFrame checksumOf bytes) := by
  unfold nextTextFrame
  rcases splitOnceSpace_cases (bytes.drop 6) with
    ⟨hsplit, -⟩ | ⟨lenField, afterLen, hsplit, -, hdrop⟩
  · rw [hsplit]
    trivial
  rcases splitOnceSpace_cases afterLen with
    ⟨hsplit', -⟩ | ⟨digestField, afterDigest, hsplit', -, rfl⟩
  · rw [hsplit]
    dsimp only
    rw [hsplit']
    trivial
  · have hlen := congrArg length hdrop
    simp only [length_drop, length_append, length_cons] at hlen
    rw [hsplit]
    dsimp only
    rw [hsplit']
    cases parseUsize lenField with
    | none => trivial
    | some declaredLen =>
      dsimp only
      split_ifs with htorn hdigest hnewline
      · trivial
      · trivial
      · obtain ⟨hlt, -⟩ := List.getElem?_eq_some_iff.mp hnewline
        exact ⟨by omega, hlt⟩
      · exact ⟨by omega, by omega⟩

lemma inBounds_nextUnframed : InBounds bytes (nextUnframed bytes) := by
  unfold nextUnframed
  cases hline : takeLine bytes with
  | none => trivial
  | some line =>
    obtain ⟨a, rest, -, rfl, rfl⟩ := exists_of_takeLine hline
    simp [InBounds]

/-- The slice reader panics on a binary header whose end is past the largest `usize`, and on no
other bytes; what it reads lies within the bytes. -/
theorem inBounds_nextRecord_iff (sha256DigestHex : Bytes → Bytes) (bytes : Bytes) :
    InBounds bytes (nextRecord sha256DigestHex bytes) ↔ ¬EndOverflows bytes := by
  unfold nextRecord EndOverflows
  split_ifs with hnil hbinary hV2 hV1
  · exact iff_of_true trivial (by simp [hnil])
  · rw [inBounds_nextBinaryFrame_iff, and_iff_right hbinary, Bool.not_eq_true]
  · exact iff_of_true (inBounds_nextTextFrame _ _) fun h => hbinary h.1
  · exact iff_of_true (inBounds_nextTextFrame _ _) fun h => hbinary h.1
  · exact iff_of_true (inBounds_nextUnframed _) fun h => hbinary h.1

/-- A length of 2^64 - 1 behind the marker. -/
theorem not_inBounds_nextRecord : ¬InBounds (0xB3 :: (List.replicate 9 0xff ++ [1, 0, 0, 0, 0]))
      (nextRecord id (0xB3 :: (List.replicate 9 0xff ++ [1, 0, 0, 0, 0]))) := by
  have hpanic : nextRecord id (0xB3 :: (replicate 9 0xff ++ [1, 0, 0, 0, 0])) =
      .error .panicked := by
    decide +kernel
  rw [hpanic]
  exact id

lemma readLength_writeVarint {declared : ℕ} (rest : Bytes) (h : declared < 2 ^ 64) :
    readLength [] (writeVarint declared ++ rest) =
      .length declared (writeVarint declared) rest := by
  rw [readLength_eq (by simp) (by simp), nil_append, readVarint_writeVarint rest h]
  dsimp only
  rw [Nat.mod_eq_of_lt h, length_append, Nat.add_sub_cancel, take_left]

lemma readFrame_encodeFrame {payload : Bytes} (rest : Bytes) (h : payload.length < 2 ^ 64) :
    readFrame sha256DigestHex (encodeFrame payload ++ rest) =
      .ok (some ((encodeFrame payload).length, payload)) := by
  set digest := leBytes 4 (crc32c payload).toNat with hdigest
  have hlen : digest.length = 4 := leBytes_length _ _
  have hcrc : leNat digest = (crc32c payload).toNat := leNat_leBytes (UInt32.toNat_lt _)
  have hcons : encodeFrame payload ++ rest =
      frameMagicV3 :: (writeVarint payload.length ++ (digest ++ (payload ++ rest))) := by
    simp [encodeFrame, hdigest]
  have hpay : ((digest ++ (payload ++ rest)).drop 4).take payload.length = payload := by
    rw [← hlen, drop_left, take_left]
  have htake : (digest ++ (payload ++ rest)).take 4 = digest := by
    rw [← hlen, take_left]
  rw [hcons, readFrame, if_pos rfl, readBinaryFrame, readLength_writeVarint _ h]
  dsimp only
  rw [if_neg (by simp [hlen]), hpay, if_neg (by simp), htake, hcrc, if_neg (by simp),
    encodeFrame_length]

lemma readFrame_torn {payload : Bytes} {written : ℕ} (h : payload.length < 2 ^ 64)
    (hwrit : written < (encodeFrame payload).length) :
    readFrame sha256DigestHex ((encodeFrame payload).take written) = .ok none := by
  set body := leBytes 4 (crc32c payload).toNat ++ payload with hbody
  have hbodyLen : body.length = 4 + payload.length := by simp [hbody]
  have hcons : encodeFrame payload = frameMagicV3 :: (writeVarint payload.length ++ body) := rfl
  rw [encodeFrame_length] at hwrit
  cases written with
  | zero => rfl
  | succ j =>
    rw [hcons, take_succ_cons, readFrame, if_pos rfl, readBinaryFrame]
    rcases Nat.lt_or_ge j (writeVarint payload.length).length with hshort | hge
    · -- the length itself is cut short
      have hread : readVarint ((writeVarint payload.length).take j) = .short :=
        readVarintFrom_short 10 0 0 hshort
      rw [take_append_of_le_length hshort.le, readLength_eq (by simp) (by simp), nil_append, hread]
    · obtain ⟨i, rfl⟩ := Nat.exists_eq_add_of_le hge
      have hi : (body.take i).length = i := by
        rw [length_take]
        omega
      rw [take_length_add_append, readLength_writeVarint _ h]
      dsimp only
      split_ifs with hfour hpay
      · rfl
      · rfl
      · rw [length_take, length_drop] at hpay
        omega
      · rw [length_take, length_drop] at hpay
        omega

end TemporalStore.LogFraming
