import TemporalStore.Lib.Text
import TemporalStore.Lib.Varint

/-! # Record framing (`log_framing.rs`, `checksum.rs`) -/

namespace TemporalStore.LogFraming

open Lib List Nat

def crc32cPolynomial : UInt32 := 0x82f63b78

/-- One bit of the reflected division. -/
def crc32cShift (entry : UInt32) : UInt32 :=
  if entry &&& 1 = 1 then (entry >>> 1) ^^^ crc32cPolynomial else entry >>> 1

/-- The entry of `CRC32C_TABLE` at `index`: eight shifts. -/
def crc32cTable (index : UInt32) : UInt32 := (range 8).foldl (fun e _ => crc32cShift e) index

def crc32cStep (crc : UInt32) (byte : Byte) : UInt32 :=
  (crc >>> 8) ^^^ crc32cTable ((crc ^^^ byte.toUInt32) &&& 0xff)

def crc32cUpdate (seed : UInt32) (bytes : Bytes) : UInt32 := ~~~(bytes.foldl crc32cStep (~~~seed))

variable (bytes : Bytes) (baseOffset : ℕ) (payload : Bytes)

def crc32c : UInt32 := crc32cUpdate 0 bytes

/-- The checksum as eight lower-case hexadecimal characters. -/
def crcDigestHex : Bytes := hexBytes 8 (crc32c payload).toNat

/-- The check value of CRC-32/ISCSI. -/
example : crc32c [49, 50, 51, 52, 53, 54, 55, 56, 57] = 0xe3069283 := by decide +kernel

def frameMagicV3 : Byte := 0xB3

def encodeFrame : Bytes :=
  frameMagicV3 :: (writeVarint payload.length ++
    (leBytes 4 (crc32c payload).toNat ++ payload))

/-- The text of a `FramingError`. -/
abbrev FramingError := String

/-- The binary branch of `next_frame`: the bytes the frame takes and its payload, or `none` if the
bytes end before the frame does. -/
def nextFrame : Except FramingError (Option (ℕ × Bytes)) :=
  match readVarint (bytes.drop 1) with
  | .short | .overlong => .ok none
  | .value declared rest =>
    let declaredLen := declared % 2 ^ 64
    let headerLen := bytes.length - rest.length + 4
    if bytes.length < headerLen then .ok none
    else if bytes.length < headerLen + declaredLen then .ok none
    else
      let payload := slice bytes headerLen declaredLen
      if (crc32c payload).toNat ≠ leNat (rest.take 4) then
        .error "framed record digest does not match its payload"
      else .ok (some (headerLen + declaredLen, payload))

def frameMagicV2 : Bytes := [35, 116, 115, 102, 50, 32]

def frameMagicV1 : Bytes := [35, 116, 115, 102, 49, 32]

/-- Bytes shown as text in an error message. -/
def lossyText : String := String.ofList (bytes.map fun b => Char.ofNat b.toNat)

/-- The fields of a text frame after its magic: length, digest, payload. -/
def decodeTextFrame (checksumOf : Bytes → Bytes) (rest : Bytes) : Except FramingError Bytes :=
  match splitOnceSpace rest with
  | none => .error "framed record missing length field"
  | some (lenField, rest) =>
    match splitOnceSpace rest with
    | none => .error "framed record missing digest field"
    | some (digestField, payload) =>
      match parseDecimal lenField with
      | none => .error "framed record has an unparseable length field"
      | some declaredLen =>
        if declaredLen ≠ payload.length then
          .error ("framed record length mismatch: declared " ++ toString declaredLen ++
            ", actual " ++ toString payload.length)
        else if checksumOf payload ≠ digestField then
          .error ("framed record checksum mismatch: declared " ++ lossyText digestField ++
            ", actual " ++ lossyText (checksumOf payload))
        else .ok payload

/-- The payload of one raw record. `sha256DigestHex` is the digest of the oldest text frames. -/
def decodeLine (sha256DigestHex : Bytes → Bytes) (line : Bytes) : Except FramingError Bytes :=
  if line.head? = some frameMagicV3 then
    match nextFrame line with
    | .error e => .error e
    | .ok (some (_, payload)) => .ok payload
    | .ok none => .error "binary record is incomplete"
  else
    let line := stripTrailingNewline line
    if frameMagicV2.isPrefixOf line then decodeTextFrame crcDigestHex (line.drop 6)
    else if frameMagicV1.isPrefixOf line then decodeTextFrame sha256DigestHex (line.drop 6)
    else .ok line

/-- The part of a raw record that is not its line terminator. -/
def recordBody (raw : Bytes) : Bytes :=
  if raw.head? = some frameMagicV3 then raw else stripTrailingNewline raw

/-- One record as framed off the front of `bytes`, or `none` at the end of the records: at the end
of the file, at a zero byte, and at a record that the file cuts short. The checksum is not looked
at here. -/
def readRawRecord : Except String (Option Bytes) :=
  match bytes with
  | [] => .ok none
  | first :: rest =>
    if first = 0 then .ok none
    else if first ≠ frameMagicV3 then .ok (takeLine bytes)
    else
      match readVarint rest with
      | .short => .ok none
      | .overlong => .error "record length is not a varint"
      | .value declared afterLen =>
        let declaredLen := declared % 2 ^ 64
        if afterLen.length < 4 + declaredLen then .ok none
        else .ok (some (bytes.take (bytes.length - afterLen.length + 4 + declaredLen)))

def baseHeaderMagic : Bytes := [35, 116, 115, 98, 49, 32]

def encodeBaseHeader : Bytes :=
  baseHeaderMagic ++ (crcDigestHex (decimalBytes baseOffset) ++
    space :: (decimalBytes baseOffset ++ [newline]))

def decodeBaseHeader (line : Bytes) : Except FramingError (Option ℕ) :=
  if ¬baseHeaderMagic.isPrefixOf line then .ok none
  else
    match splitOnceSpace (line.drop 6) with
    | none => .error "reclaim-base header has no checksum separator"
    | some (digest, value) =>
      let valueText := trimEnd value
      if crcDigestHex valueText ≠ digest then
        .error ("reclaim-base header checksum mismatch: expected " ++
          lossyText (crcDigestHex valueText) ++ ", found " ++ lossyText digest)
      else
        match parseDecimal valueText with
        | none => .error ("reclaim-base header is not a number: " ++ lossyText valueText)
        | some base => .ok (some base)

lemma encodeFrame_length :
    (encodeFrame payload).length = 1 + (writeVarint payload.length).length + 4 +
      payload.length := by
  simp only [encodeFrame, length_cons, length_append, leBytes_length]
  omega

lemma encodeFrame_length_pos : 0 < (encodeFrame payload).length := by
  rw [encodeFrame_length]
  omega

@[simp] lemma head_encodeFrame : (encodeFrame payload).head? = some frameMagicV3 := rfl

lemma readRawRecord_zero (rest : Bytes) : readRawRecord (0 :: rest) = .ok none := by
  simp [readRawRecord]

lemma readRawRecord_zeros (n : ℕ) : readRawRecord (zeros n) = .ok none := by
  cases n with
  | zero => rfl
  | succ n => exact readRawRecord_zero _

lemma isPrefix_of_readRawRecord {bytes raw : Bytes} (h : readRawRecord bytes = .ok (some raw)) :
    raw <+: bytes := by
  unfold readRawRecord at h
  split at h
  · simp at h
  · split at h
    · simp at h
    · split at h
      · rw [Except.ok.injEq] at h
        exact isPrefix_of_takeLine h
      · split at h
        · simp at h
        · simp at h
        · dsimp only at h
          split at h
          · simp at h
          · simp only [Except.ok.injEq, Option.some.injEq] at h
            exact h ▸ take_prefix _ _

lemma readRawRecord_encodeFrame {payload : Bytes} (rest : Bytes) (h : payload.length < 2 ^ 64) :
    readRawRecord (encodeFrame payload ++ rest) = .ok (some (encodeFrame payload)) := by
  have hvar := readVarint_writeVarint (leBytes 4 (crc32c payload).toNat ++ payload ++ rest) h
  have hmagic : ¬frameMagicV3 = 0 := by decide
  have hlen : ¬(leBytes 4 (crc32c payload).toNat ++ payload ++ rest).length <
      4 + payload.length % 2 ^ 64 := by
    simp only [length_append, leBytes_length]
    omega
  have htake : (encodeFrame payload ++ rest).length
      - (leBytes 4 (crc32c payload).toNat ++ payload ++ rest).length + 4
      + payload.length % 2 ^ 64 = (encodeFrame payload).length := by
    simp only [length_append, leBytes_length, encodeFrame_length]
    omega
  have hcons : encodeFrame payload ++ rest = frameMagicV3 :: (writeVarint payload.length ++
      (leBytes 4 (crc32c payload).toNat ++ payload ++ rest)) := by
    simp [encodeFrame]
  rw [hcons] at htake ⊢
  simp only [readRawRecord, hvar, if_neg hmagic, ne_eq, not_true_eq_false, if_false, if_neg hlen,
    htake]
  rw [← hcons, take_left]

/-- A frame cut short in front of zeros still declares a size, at most that of the whole frame and
past everything that was written; it is read as a record if the zeros reach that far. -/
lemma readRawRecord_torn {payload : Bytes} {written : ℕ} (n : ℕ) (h : payload.length < 2 ^ 64)
    (hpos : 0 < written) (htorn : written < (encodeFrame payload).length) :
    ∃ size, written < size ∧ size ≤ (encodeFrame payload).length ∧
      readRawRecord ((encodeFrame payload).take written ++ zeros n) =
        .ok (if written + n < size then none
          else some (((encodeFrame payload).take written ++ zeros n).take size)) := by
  obtain ⟨j, rfl⟩ := Nat.exists_eq_add_of_lt hpos
  rw [zero_add] at htorn ⊢
  have hmagic : ¬frameMagicV3 = 0 := by decide
  have hleng := encodeFrame_length payload
  have hvarint : j < (writeVarint payload.length).length ∨
      ∃ i, j = (writeVarint payload.length).length + i := by
    rcases lt_or_ge j (writeVarint payload.length).length with hlt | hge
    · exact .inl hlt
    · exact .inr ⟨_, (Nat.add_sub_cancel' hge).symm⟩
  rcases hvarint with hshort | ⟨i, rfl⟩
  · -- the length field itself is cut short
    have htake : (encodeFrame payload).take (j + 1) =
        frameMagicV3 :: (writeVarint payload.length).take j := by
      rw [encodeFrame, take_succ_cons, take_append_of_le_length hshort.le]
    have hmod : payload.length % 128 ^ j ≤ payload.length := mod_le _ _
    refine ⟨j + 1 + 1 + 4 + payload.length % 128 ^ j, by omega, by omega, ?_⟩
    have hlen : (take j (writeVarint payload.length)).length = j := by
      rw [length_take]
      omega
    rw [htake]
    cases n with
    | zero =>
      have hread : readVarint ((writeVarint payload.length).take j) = .short :=
        readVarintFrom_short 10 0 0 hshort
      rw [zeros_zero, append_nil, readRawRecord, if_neg hmagic, if_neg (by simp), hread,
        if_pos (by omega)]
    | succ n =>
      have hread : readVarint ((writeVarint payload.length).take j ++ zeros (n + 1)) =
          .value (0 + payload.length % 128 ^ j * 2 ^ 0) (zeros n) :=
        readVarintFrom_torn 10 0 0 n hshort
      rw [zero_add, pow_zero, mul_one] at hread
      rw [cons_append, readRawRecord, if_neg hmagic, if_neg (by simp), hread]
      have hlt : payload.length % 128 ^ j % 2 ^ 64 = payload.length % 128 ^ j :=
        mod_eq_of_lt (by omega)
      simp only [hlt, zeros_length, length_cons, length_append, hlen]
      split_ifs
      · rfl
      · omega
      · omega
      · congr 4
        omega
  · -- the length is there, so the frame is as long as it was to be
    refine ⟨(encodeFrame payload).length, by omega, le_rfl, ?_⟩
    have hsplit : encodeFrame payload = frameMagicV3 :: (writeVarint payload.length ++
        (leBytes 4 (crc32c payload).toNat ++ payload)) := by
      simp [encodeFrame]
    set body := leBytes 4 (crc32c payload).toNat ++ payload with hbody
    have hbodyLen : body.length = 4 + payload.length := by simp [hbody]
    have htake : (encodeFrame payload).take ((writeVarint payload.length).length + i + 1) =
        frameMagicV3 :: (writeVarint payload.length ++ body.take i) := by
      rw [hsplit, take_succ_cons, take_length_add_append]
    have hread := readVarint_writeVarint (body.take i ++ zeros n) h
    have hi : (body.take i).length = i := by
      rw [length_take]
      omega
    rw [htake, cons_append, readRawRecord, if_neg hmagic, if_neg (by simp), append_assoc, hread]
    simp only [mod_eq_of_lt h, length_cons, length_append, zeros_length, hi]
    have hsize : (writeVarint payload.length).length + (i + n) + 1 - (i + n) + 4 + payload.length =
        (encodeFrame payload).length := by omega
    rw [hsize]
    split_ifs
    · rfl
    · omega
    · omega
    · rfl

lemma nextFrame_encodeFrame {payload : Bytes} (h : payload.length < 2 ^ 64) :
    nextFrame (encodeFrame payload) = .ok (some ((encodeFrame payload).length, payload)) := by
  have hvar := readVarint_writeVarint (leBytes 4 (crc32c payload).toNat ++ payload) h
  have hle : payload.length ≤ (encodeFrame payload).length := by
    rw [encodeFrame_length]
    omega
  have hhead : (encodeFrame payload).length
      - (leBytes 4 (crc32c payload).toNat ++ payload).length + 4
      = (encodeFrame payload).length - payload.length := by
    simp only [length_append, leBytes_length, encodeFrame_length]
    omega
  have hslice : slice (encodeFrame payload) ((encodeFrame payload).length - payload.length)
      payload.length = payload := by
    have hend : payload <:+ encodeFrame payload :=
      ⟨frameMagicV3 :: (writeVarint payload.length ++ leBytes 4 (crc32c payload).toNat),
        by simp [encodeFrame]⟩
    rw [slice, ← suffix_iff_eq_drop.mp hend, take_length]
  have hcrc : leNat (leBytes 4 (crc32c payload).toNat) = (crc32c payload).toNat :=
    leNat_leBytes (UInt32.toNat_lt _)
  have hdrop : (encodeFrame payload).drop 1 = writeVarint payload.length ++
      (leBytes 4 (crc32c payload).toNat ++ payload) := rfl
  have hdigest : (leBytes 4 (crc32c payload).toNat ++ payload).take 4 =
      leBytes 4 (crc32c payload).toNat := take_left' (leBytes_length _ _)
  simp only [nextFrame, hdrop, hvar, mod_eq_of_lt h, hhead, hslice, hdigest, hcrc, ne_eq,
    not_true_eq_false, if_false, Nat.sub_add_cancel hle, lt_irrefl]
  rw [if_neg (by omega)]

lemma decodeLine_encodeFrame (sha256DigestHex : Bytes → Bytes) {payload : Bytes}
    (h : payload.length < 2 ^ 64) :
    decodeLine sha256DigestHex (encodeFrame payload) = .ok payload := by
  rw [decodeLine, if_pos (head_encodeFrame payload), nextFrame_encodeFrame h]

lemma space_notMem_crcDigestHex : space ∉ crcDigestHex payload := by
  intro h
  have := mem_hexBytes h
  simp [space] at this

lemma newline_notMem_crcDigestHex : newline ∉ crcDigestHex payload := by
  intro h
  have := mem_hexBytes h
  simp [newline] at this

lemma newline_notMem_decimalBytes (n : ℕ) : newline ∉ decimalBytes n := by
  intro h
  have := mem_decimalBytes h
  simp [newline] at this

lemma decodeBaseHeader_encodeBaseHeader :
    decodeBaseHeader (encodeBaseHeader baseOffset) = .ok (some baseOffset) := by
  have hmagic : baseHeaderMagic.isPrefixOf (encodeBaseHeader baseOffset) = true := by
    simp [encodeBaseHeader]
  have hdrop : (encodeBaseHeader baseOffset).drop 6 = crcDigestHex (decimalBytes baseOffset) ++
      space :: (decimalBytes baseOffset ++ [newline]) := rfl
  simp only [decodeBaseHeader, hmagic, not_true_eq_false, if_false, hdrop,
    splitOnceSpace_append _ (space_notMem_crcDigestHex _), trimEnd_decimalBytes, ne_eq,
    parseDecimal_decimalBytes]

lemma encodeBaseHeader_length_pos : 0 < (encodeBaseHeader baseOffset).length := by
  simp [encodeBaseHeader, baseHeaderMagic]

lemma encodeBaseHeader_eq_line :
    ∃ line, encodeBaseHeader baseOffset = line ++ [newline] ∧ newline ∉ line := by
  refine ⟨baseHeaderMagic ++ (crcDigestHex (decimalBytes baseOffset) ++
    space :: decimalBytes baseOffset), by simp [encodeBaseHeader], ?_⟩
  simp only [mem_append, mem_cons, not_or]
  exact ⟨by decide, newline_notMem_crcDigestHex _, by decide, newline_notMem_decimalBytes _⟩

end TemporalStore.LogFraming
