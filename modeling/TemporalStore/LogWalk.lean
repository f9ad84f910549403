import TemporalStore.LogFraming
import TemporalStore.Lib.Stream

/-! # Walking a log (`log_framing.rs`) -/

namespace TemporalStore.LogFraming

open Lib List

variable (payload : Bytes) (sha256DigestHex : Bytes → Bytes)

/-- The header of a text record: `#tsf2`, the length of the payload and its checksum. -/
def lineHeader : Bytes :=
  frameMagicV2 ++ (decimalBytes payload.length ++ space :: (crcDigestHex payload ++ [space]))

def encodeLine : Bytes := lineHeader payload ++ (payload ++ [newline])

inductive RecordShape where
  | frame
  | line
  deriving DecidableEq

/-- A record a log may hold. A text record is found by its newline, so it has no other. -/
structure LogRecord where
  shape : RecordShape
  payload : Bytes
  fits : payload.length < 2 ^ 64
  oneLine : shape = .line → newline ∉ payload

def LogRecord.encode (r : LogRecord) : Bytes :=
  match r.shape with
  | .frame => encodeFrame r.payload
  | .line => encodeLine r.payload

def decodeRecord (raw : Bytes) : Except String Bytes :=
  decodeLine sha256DigestHex (recordBody raw)

/-- The offset and payload of every record up to the end of the log. -/
def walkLog (bytes : Bytes) : Except String (Option (List (ℕ × Bytes))) :=
  walk readRawRecord (decodeRecord sha256DigestHex) (bytes.length + 1) 0 bytes

lemma newline_notMem_lineHeader : newline ∉ lineHeader payload := by
  simp only [lineHeader, mem_append, mem_cons, not_mem_nil, or_false, not_or]
  exact ⟨by decide, newline_notMem_decimalBytes _, by decide, newline_notMem_crcDigestHex _,
    by decide⟩

lemma encodeLine_eq : encodeLine payload = (lineHeader payload ++ payload) ++ [newline] :=
  (append_assoc _ _ _).symm

lemma readRawRecord_hash (rest : Bytes) :
    readRawRecord (35 :: rest) = .ok (takeLine (35 :: rest)) := by
  rw [readRawRecord, if_neg (by decide), if_pos (by decide)]

lemma encodeLine_eq_hash : ∃ rest, encodeLine payload = 35 :: rest := ⟨_, rfl⟩

lemma stripTrailingNewline_append (a : Bytes) : stripTrailingNewline (a ++ [newline]) = a := by
  simp [stripTrailingNewline]

lemma stripTrailingNewline_of_notMem {a : Bytes} (h : newline ∉ a) :
    stripTrailingNewline a = a := by
  rw [stripTrailingNewline, if_neg]
  exact fun hlast => h (mem_of_getLast? hlast)

lemma decodeTextFrame_line : decodeTextFrame crcDigestHex (decimalBytes payload.length ++ space ::
      (crcDigestHex payload ++ space :: payload)) = .ok payload := by
  have hspace : space ∉ decimalBytes payload.length := by
    intro h
    have := mem_decimalBytes h
    simp [space] at this
  simp only [decodeTextFrame, splitOnceSpace_append _ hspace,
    splitOnceSpace_append _ (space_notMem_crcDigestHex payload), parseDecimal_decimalBytes,
    ne_eq, not_true_eq_false, if_false]

section

variable {payload} (h : newline ∉ payload)
include h

lemma newline_notMem_line : newline ∉ lineHeader payload ++ payload := by
  rw [mem_append, not_or]
  exact ⟨newline_notMem_lineHeader payload, h⟩

lemma readRawRecord_encodeLine (rest : Bytes) :
    readRawRecord (encodeLine payload ++ rest) = .ok (some (encodeLine payload)) := by
  obtain ⟨tail, htail⟩ := encodeLine_eq_hash payload
  have hline : takeLine (encodeLine payload ++ rest) = some (encodeLine payload) := by
    rw [encodeLine_eq, append_assoc]
    exact takeLine_append rest (newline_notMem_line h)
  rw [← hline]
  exact readRawRecord_hash _

lemma readRawRecord_cutLine {n : ℕ} (hn : n < (encodeLine payload).length) :
    readRawRecord ((encodeLine payload).take n) = .ok none := by
  have hcut : newline ∉ (encodeLine payload).take n := by
    rw [encodeLine_eq, length_append, length_singleton] at hn
    rw [encodeLine_eq, take_append_of_le_length (by omega)]
    exact fun hmem => newline_notMem_line h (mem_of_mem_take hmem)
  cases n with
  | zero => rfl
  | succ n =>
    obtain ⟨tail, htail⟩ := encodeLine_eq_hash payload
    rw [htail, take_succ_cons] at hcut ⊢
    rw [readRawRecord_hash, takeLine_eq_none hcut]

lemma delimited_encodeLine : Delimited readRawRecord (encodeLine payload) where
  pos := by simp [encodeLine]
  whole rest := readRawRecord_encodeLine h rest
  torn _ hn := readRawRecord_cutLine h hn

lemma decodeRecord_encodeLine :
    decodeRecord sha256DigestHex (encodeLine payload) = .ok payload := by
  have hbody : recordBody (encodeLine payload) = lineHeader payload ++ payload := by
    rw [recordBody, if_neg (by simp [encodeLine, lineHeader, frameMagicV2, frameMagicV3]),
      encodeLine_eq, stripTrailingNewline_append]
  have hmagic : frameMagicV2.isPrefixOf (lineHeader payload ++ payload) = true := by
    simp [lineHeader]
  have hdrop : (lineHeader payload ++ payload).drop 6 = decimalBytes payload.length ++ space ::
      (crcDigestHex payload ++ space :: payload) := by
    simp [lineHeader, frameMagicV2]
  rw [decodeRecord, hbody, decodeLine]
  simp only [stripTrailingNewline_of_notMem (newline_notMem_line h), hmagic, if_true, hdrop]
  exact decodeTextFrame_line payload

end

lemma delimited_encodeFrame {payload : Bytes} (h : payload.length < 2 ^ 64) :
    Delimited readRawRecord (encodeFrame payload) where
  pos := encodeFrame_length_pos payload
  whole rest := readRawRecord_encodeFrame rest h
  torn n hn := by
    rcases Nat.eq_zero_or_pos n with rfl | hpos
    · rfl
    · obtain ⟨size, hlow, -, hread⟩ := readRawRecord_torn 0 h hpos hn
      rw [Nat.add_zero, if_pos hlow, zeros_zero, append_nil] at hread
      exact hread

lemma LogRecord.delimited (r : LogRecord) : Delimited readRawRecord r.encode := by
  obtain ⟨shape, payload, hfits, hline⟩ := r
  cases shape with
  | frame => exact delimited_encodeFrame hfits
  | line => exact delimited_encodeLine (hline rfl)

lemma LogRecord.decodeRecord_encode (r : LogRecord) :
    decodeRecord sha256DigestHex r.encode = .ok r.payload := by
  obtain ⟨shape, payload, hfits, hline⟩ := r
  cases shape with
  | frame =>
    exact decodeLine_encodeFrame sha256DigestHex hfits
  | line => exact decodeRecord_encodeLine sha256DigestHex (hline rfl)

/-- A log cut anywhere, with zeros behind it if the cut falls between two records, walks to the
records that lie wholly before the cut and then to the end of the log. -/
theorem walkLog_cut (sha256DigestHex : Bytes → Bytes) (records : List LogRecord) (cut padding : ℕ)
    (hpadding : padding = 0 ∨ ∃ k, cut = ((records.take k).flatMap LogRecord.encode).length) :
    walkLog sha256DigestHex ((records.flatMap LogRecord.encode).take cut ++ zeros padding) =
      .ok (some (whollyBefore LogRecord.encode LogRecord.payload 0 cut records)) := by
  have hpad : zeros padding = [] ∨
      ∃ k, cut = ((records.take k).flatMap LogRecord.encode).length := by
    rcases hpadding with rfl | hk
    · exact .inl zeros_zero
    · exact .inr hk
  have hfuel : ((records.flatMap LogRecord.encode).take cut).length <
      ((records.flatMap LogRecord.encode).take cut ++ zeros padding).length + 1 := by
    rw [length_append]
    omega
  rw [walkLog, walk_cut (fun r _ => r.delimited) (fun r _ => r.decodeRecord_encode sha256DigestHex)
    (readRawRecord_zeros padding) hpad hfuel, Nat.zero_add]

def mixedLog : List LogRecord :=
  [⟨.frame, [10], by decide, nofun⟩, ⟨.line, [104, 105], by decide, fun _ => by decide⟩]

theorem walkLog_cut_mixedLog : walkLog id ((mixedLog.flatMap LogRecord.encode).take 7 ++ zeros 3) =
      .ok (some (whollyBefore LogRecord.encode LogRecord.payload 0 7 mixedLog)) :=
  walkLog_cut id mixedLog 7 3 (.inr ⟨1, by decide +kernel⟩)

example : whollyBefore LogRecord.encode LogRecord.payload 0 7 (mixedLog.take 1) = [(0, [10])] := by
  decide +kernel

end TemporalStore.LogFraming
