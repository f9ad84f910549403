import TemporalStore.Lib.Cursor

/-! # Container blocks (`engine/container_blocks.rs`) -/

namespace TemporalStore.Engine

open Lib List Cursor

inductive ElementKeySpelling where
  | utf8
  | hex
  | scoreThenMember
  | biasedWord
  | name
  | scoreThenMemberName
  deriving DecidableEq

namespace ElementKeySpelling

def toByte : ElementKeySpelling → Byte
  | utf8 => 0
  | hex => 1
  | scoreThenMember => 2
  | biasedWord => 3
  | name => 4
  | scoreThenMemberName => 5

def fromByte (byte : Byte) : Option ElementKeySpelling :=
  match byte.toNat with
  | 0 => some utf8
  | 1 => some hex
  | 2 => some scoreThenMember
  | 3 => some biasedWord
  | 4 => some name
  | 5 => some scoreThenMemberName
  | _ => none

lemma fromByte_toByte (spelling : ElementKeySpelling) :
    fromByte spelling.toByte = some spelling := by
  cases spelling <;> rfl

end ElementKeySpelling

/-- `TSCPG1\n`. -/
def containerBlockMagic : Bytes := [84, 83, 67, 80, 71, 49, 10]

/-- `TSCPG2\n`. -/
def containerBlockMagicV2 : Bytes := [84, 83, 67, 80, 71, 50, 10]

inductive ContainerBlockShape where
  | liveOnly
  | withRemovals
  deriving DecidableEq

structure ContainerBlockItem where
  key : Bytes
  value : Bytes
  deleted : Bool
  deriving DecidableEq

inductive ContainerBlockDecode where
  | notFramed
  | framed (spelling : ElementKeySpelling) (shape : ContainerBlockShape)
      (items : List ContainerBlockItem)
  | corrupt (error : String)
  deriving DecidableEq

/-- One item on its way into a block. Both slices are no longer than an allocation may be. -/
structure ContainerBlockWrite where
  key : Bytes
  value : Bytes
  deleted : Bool
  key_length : key.length < 2 ^ 63
  value_length : value.length < 2 ^ 63

structure ContainerBlockWrites where
  items : List ContainerBlockWrite
  length_lt : items.length < 2 ^ 63

/-- What reading the item gives: a removal has no value. -/
def ContainerBlockWrite.item (write : ContainerBlockWrite) : ContainerBlockItem where
  key := write.key
  value := if write.deleted then [] else write.value
  deleted := write.deleted

def tagSuffix : ℕ := 0

def tagRemoved : ℕ := 1

def tagInlineBiasV1 : ℕ := 1

def tagInlineBiasV2 : ℕ := 2

variable (spelling : ElementKeySpelling) (what : String) (shape : ContainerBlockShape) (c : Cursor)
  (index : ℕ) (key : Bytes)

/-- Where `value` starts inside `key`, when it is the tail of `key`. -/
def suffixOffsetOf (value : Bytes) : Option ℕ :=
  if key.length < value.length then none
  else
    let offset := key.length - value.length
    if key.drop offset = value then some offset else none

/-- The tag of a live item and what follows it. -/
def putLiveValue (value : Bytes) : Bytes :=
  match suffixOffsetOf key value with
  | some offset => writeVarint tagSuffix ++ writeVarint offset
  | none => writeVarint (value.length + tagInlineBiasV2) ++ value

def putItem (item : ContainerBlockWrite) : Bytes :=
  writeVarint item.key.length ++ item.key ++
    (if item.deleted then writeVarint tagRemoved else putLiveValue item.key item.value)

def encodeContainerBlockItems (items : List ContainerBlockWrite) : Bytes :=
  containerBlockMagicV2 ++ spelling.toByte :: (writeVarint items.length ++ items.flatMap putItem)

def truncatedReading : String := s!"container block truncated reading {what}"

/-- Ten groups are taken; an eleventh byte is an error, and so is the end of the bytes before it.
The tenth group is shifted by 63 bits, so only one of its bits is left. -/
def takeVarint : Except String (ℕ × Cursor) :=
  match readVarint c.rest with
  | .value n rest => .ok (n % 2 ^ 64, ⟨c.position + (c.rest.length - rest.length), rest⟩)
  | .short => .error (truncatedReading what)
  | .overlong =>
    if c.rest.length ≤ 10 then .error (truncatedReading what)
    else .error s!"container block {what} varint is wider than 64 bits"

/-- The bytes end below the largest `usize`, so an end that overflows is past them as well. -/
def takeSlice (len : ℕ) (c : Cursor) : Except String (Bytes × Cursor) :=
  if c.rest.length < len then
    if 2 ^ 64 ≤ c.position + len then .error s!"container block {what} length overflows"
    else .error (truncatedReading what)
  else .ok (c.rest.take len, c.advance len)

/-- The tail of the key that an item names as its value. -/
def takeTail (offset : ℕ) (c : Cursor) : Except String (ContainerBlockItem × Cursor) :=
  if key.length < offset then
    let keyLen := key.length
    .error s!"container block item {index} names value offset {offset} into a {keyLen}-byte key"
  else .ok (⟨key, key.drop offset, false⟩, c)

def inlineBias : ContainerBlockShape → ℕ
  | .liveOnly => tagInlineBiasV1
  | .withRemovals => tagInlineBiasV2

/-- What follows the tag of an item. -/
def takeValue (tag : ℕ) (c : Cursor) : Except String (ContainerBlockItem × Cursor) :=
  if tag = tagSuffix then do
    let (offset, c) ← takeVarint "value offset" c
    takeTail index key offset c
  else if shape = .withRemovals ∧ tag = tagRemoved then .ok (⟨key, [], true⟩, c)
  else do
    let (value, c) ← takeSlice "value" (tag - inlineBias shape) c
    .ok (⟨key, value, false⟩, c)

def takeItem (c : Cursor) : Except String (ContainerBlockItem × Cursor) := do
  let (keyLen, c) ← takeVarint "key length" c
  let (key, c) ← takeSlice "key" keyLen c
  let (tag, c) ← takeVarint "value tag" c
  takeValue shape index key tag c

/-- The shape and the spelling of a frame, or `none` when the bytes are not a frame at all. -/
def frameHeader (bytes : Bytes) :
    Option (Except String (ContainerBlockShape × ElementKeySpelling)) :=
  let shape :=
    if containerBlockMagicV2.isPrefixOf bytes then some ContainerBlockShape.withRemovals
    else if containerBlockMagic.isPrefixOf bytes then some .liveOnly
    else none
  shape.map fun shape =>
    match bytes[containerBlockMagic.length]? with
    | none => .error "container page is the magic and nothing else, so it names no key spelling"
    | some byte =>
      match ElementKeySpelling.fromByte byte with
      | none => .error s!"container page names key spelling {byte}, which is not one"
      | some spelling => .ok (shape, spelling)

/-- The items behind the header, which come to the end of the bytes. -/
def decodeItems (size : ℕ) (spelling : ElementKeySpelling) (shape : ContainerBlockShape)
    (c : Cursor) : ContainerBlockDecode :=
  match takeVarint "item count" c with
  | .error error => .corrupt error
  | .ok (count, c) =>
    if size < count then .corrupt s!"container block claims {count} items in {size} bytes"
    else match readMany (takeItem shape) 0 count c with
      | .error error => .corrupt error
      | .ok (items, c) =>
        if c.rest = [] then .framed spelling shape items
        else
          let left := c.rest.length
          .corrupt s!"container block has {left} bytes after its last item"

def decodeContainerBlock (bytes : Bytes) : ContainerBlockDecode :=
  match frameHeader bytes with
  | none => .notFramed
  | some (.error error) => .corrupt error
  | some (.ok (shape, spelling)) =>
    decodeItems bytes.length spelling shape
      ((Lib.Cursor.mk 0 bytes).advance (containerBlockMagic.length + 1))

lemma takeVarint_writeVarint {n : ℕ} (h : n < 2 ^ 64) (p : ℕ) (rest : Bytes) :
    takeVarint what ⟨p, writeVarint n ++ rest⟩ = .ok (n, ⟨p + (writeVarint n).length, rest⟩) := by
  simp only [takeVarint, readVarint_writeVarint rest h, Nat.mod_eq_of_lt h, length_append,
    Nat.add_sub_cancel]

lemma takeSlice_append (slice : Bytes) (p : ℕ) (rest : Bytes) :
    takeSlice what slice.length ⟨p, slice ++ rest⟩ = .ok (slice, ⟨p + slice.length, rest⟩) := by
  have hfits : ¬(slice ++ rest).length < slice.length := by
    rw [length_append]
    omega
  rw [takeSlice, if_neg hfits, advance]
  simp only [take_left, drop_left]

lemma suffixOffsetOf_eq_some {key value : Bytes} {offset : ℕ}
    (h : suffixOffsetOf key value = some offset) :
    offset ≤ key.length ∧ key.drop offset = value := by
  unfold suffixOffsetOf at h
  split at h
  · cases h
  · dsimp only at h
    split at h
    · cases h
      exact ⟨Nat.sub_le _ _, ‹_›⟩
    · cases h

/-- A value that is not the tail of its key is not empty: the empty one starts at the key's end. -/
lemma length_pos_of_suffixOffsetOf_eq_none {key value : Bytes}
    (h : suffixOffsetOf key value = none) : 0 < value.length := by
  rw [length_pos_iff]
  rintro rfl
  simp [suffixOffsetOf] at h

lemma takeValue_suffix {key value : Bytes} {offset : ℕ}
    (h : suffixOffsetOf key value = some offset) (hkey : key.length < 2 ^ 63) (p : ℕ) (rest : Bytes)
    : takeValue shape index key tagSuffix ⟨p, writeVarint offset ++ rest⟩ =
      .ok (⟨key, value, false⟩, ⟨p + (writeVarint offset).length, rest⟩) := by
  obtain ⟨hle, hdrop⟩ := suffixOffsetOf_eq_some h
  rw [takeValue, if_pos rfl, takeVarint_writeVarint _ (by omega), ok_bind]
  dsimp only
  rw [takeTail, if_neg (by omega), hdrop]

lemma takeValue_inline {key value : Bytes} (hvalue : 0 < value.length) (p : ℕ) (rest : Bytes) :
    takeValue .withRemovals index key (value.length + tagInlineBiasV2) ⟨p, value ++ rest⟩ =
      .ok (⟨key, value, false⟩, ⟨p + value.length, rest⟩) := by
  have hsuffix : value.length + tagInlineBiasV2 ≠ tagSuffix := by
    simp only [tagInlineBiasV2, tagSuffix]
    omega
  have hrem : value.length + tagInlineBiasV2 ≠ tagRemoved := by
    simp only [tagInlineBiasV2, tagRemoved]
    omega
  rw [takeValue, if_neg hsuffix, if_neg fun h => hrem h.2, inlineBias, Nat.add_sub_cancel,
    takeSlice_append, ok_bind]

lemma takeValue_putLiveValue {key value : Bytes} (hkey : key.length < 2 ^ 63)
    (hvalue : value.length < 2 ^ 63) (p : ℕ) (rest : Bytes) :
    ∃ tag c, takeVarint "value tag" ⟨p, putLiveValue key value ++ rest⟩ = .ok (tag, c) ∧
      takeValue .withRemovals index key tag c =
        .ok (⟨key, value, false⟩, ⟨p + (putLiveValue key value).length, rest⟩) := by
  unfold putLiveValue
  cases h : suffixOffsetOf key value with
  | some offset =>
    rw [append_assoc, takeVarint_writeVarint _ (by decide), length_append, ← add_assoc]
    exact ⟨_, _, rfl, takeValue_suffix _ _ h hkey _ _⟩
  | none =>
    rw [append_assoc, takeVarint_writeVarint _ (by simp only [tagInlineBiasV2]; omega),
      length_append, ← add_assoc]
    exact ⟨_, _, rfl, takeValue_inline _ (length_pos_of_suffixOffsetOf_eq_none h) _ _⟩

lemma takeItem_putItem (write : ContainerBlockWrite) (p : ℕ) (rest : Bytes) :
    takeItem .withRemovals index ⟨p, putItem write ++ rest⟩ =
      .ok (write.item, ⟨p + (putItem write).length, rest⟩) := by
  have hkey := write.key_length
  rw [takeItem, putItem, append_assoc, append_assoc, takeVarint_writeVarint _ (by omega), ok_bind]
  dsimp only
  rw [takeSlice_append, ok_bind]
  cases hdeleted : write.deleted with
  | true =>
    rw [if_pos rfl, takeVarint_writeVarint _ (by decide), ok_bind]
    rw [takeValue, if_neg (show ¬tagRemoved = tagSuffix by decide), if_pos ⟨rfl, rfl⟩]
    simp only [ContainerBlockWrite.item, hdeleted, if_true, length_append, add_assoc]
  | false =>
    obtain ⟨tag, c, htag, hvalue⟩ := takeValue_putLiveValue index write.key_length
      write.value_length (p + (writeVarint write.key.length).length + write.key.length) rest
    rw [if_neg Bool.false_ne_true, htag, ok_bind]
    rw [hvalue]
    simp only [ContainerBlockWrite.item, hdeleted, Bool.false_eq_true, if_false,
      length_append, add_assoc]

lemma length_le_flatMap_putItem (items : List ContainerBlockWrite) :
    items.length ≤ (items.flatMap putItem).length := by
  induction items with
  | nil => exact le_rfl
  | cons item items ih =>
    have hpos := writeVarint_length_pos item.key.length
    rw [flatMap_cons, length_append, length_cons, putItem, length_append, length_append]
    omega

lemma steady_takeVarint : Steady (takeVarint what) := by
  intro c c' n h more
  unfold takeVarint at h
  cases hread : readVarint c.rest with
  | value m rest =>
    rw [hread] at h
    cases h
    have hmore : readVarint (c.rest ++ more) = .value m (rest ++ more) :=
      readVarintFrom_extend hread more
    have hlen : (c.rest ++ more).length - (rest ++ more).length = c.rest.length - rest.length := by
      rw [length_append, length_append]
      omega
    simp only [takeVarint, extend_rest, hmore, hlen]
    rfl
  | short =>
    rw [hread] at h
    cases h
  | overlong =>
    rw [hread] at h
    dsimp only at h
    split at h <;> cases h

lemma steady_takeSlice (len : ℕ) : Steady (takeSlice what len) := by
  intro c c' slice h more
  unfold takeSlice at h
  split at h
  · split at h <;> cases h
  · rename_i hfits
    cases h
    have hfits' : ¬(c.extend more).rest.length < len := by
      rw [extend_rest, length_append]
      omega
    have hle : len ≤ c.rest.length := not_lt.mp hfits
    rw [takeSlice, if_neg hfits', advance_extend hle, extend_rest, take_append_of_le_length hle]

lemma steady_takeTail (offset : ℕ) : Steady (takeTail index key offset) := by
  by_cases h : key.length < offset
  · intro c c' item hc more
    rw [takeTail, if_pos h] at hc
    cases hc
  · have htail : takeTail index key offset = fun c => .ok (⟨key, key.drop offset, false⟩, c) := by
      funext c
      rw [takeTail, if_neg h]
    rw [htail]
    exact Steady.ok _

lemma steady_takeValue (tag : ℕ) : Steady (takeValue shape index key tag) := by
  unfold takeValue
  split_ifs
  · exact (steady_takeVarint _).bind fun offset => steady_takeTail index key offset
  · exact Steady.ok _
  · exact (steady_takeSlice _ _).bind fun value => Steady.ok (ContainerBlockItem.mk key value false)

lemma steady_takeItem : Steady (takeItem shape index) :=
  (steady_takeVarint _).bind fun keyLen => (steady_takeSlice _ keyLen).bind fun key =>
    (steady_takeVarint _).bind fun tag => steady_takeValue shape index key tag

def takeItems : Except String (List ContainerBlockItem × Cursor) := do
  let (count, c) ← takeVarint "item count" c
  readMany (takeItem shape) 0 count c

lemma steady_takeItems : Steady (takeItems shape) :=
  (steady_takeVarint _).bind fun count => Steady.readMany (steady_takeItem shape) 0 count

/-- What `encodeContainerBlockItems` puts behind the spelling byte. -/
def body (items : List ContainerBlockWrite) : Bytes :=
  writeVarint items.length ++ items.flatMap putItem

lemma takeItems_body (writes : ContainerBlockWrites) (p : ℕ) :
    takeItems .withRemovals ⟨p, body writes.items⟩ =
      .ok (writes.items.map ContainerBlockWrite.item, ⟨p + (body writes.items).length, []⟩) := by
  have hlen := writes.length_lt
  have hmany := readMany_flatMap takeItem_putItem writes.items 0
    (p + (writeVarint writes.items.length).length) []
  rw [append_nil] at hmany
  rw [takeItems, body, takeVarint_writeVarint _ (by omega), ok_bind]
  dsimp only
  rw [hmany, length_append, add_assoc]

lemma frameHeader_append (rest : Bytes) :
    frameHeader (containerBlockMagicV2 ++ spelling.toByte :: rest) =
      some (.ok (.withRemovals, spelling)) := by
  have hmagic :
      containerBlockMagicV2.isPrefixOf (containerBlockMagicV2 ++ spelling.toByte :: rest) =
        true :=
    isPrefixOf_iff_prefix.mpr (prefix_append _ _)
  have hbyte : (containerBlockMagicV2 ++ spelling.toByte :: rest)[containerBlockMagic.length]? =
      some spelling.toByte := rfl
  simp only [frameHeader, hmagic, if_true, Option.map_some, hbyte,
    ElementKeySpelling.fromByte_toByte]

lemma decodeContainerBlock_append (rest : Bytes) :
    decodeContainerBlock (containerBlockMagicV2 ++ spelling.toByte :: rest) =
      decodeItems (containerBlockMagicV2 ++ spelling.toByte :: rest).length spelling .withRemovals
        ⟨8, rest⟩ := by
  rw [decodeContainerBlock, frameHeader_append]
  rfl

lemma decodeContainerBlock_encode (writes : ContainerBlockWrites) :
    decodeContainerBlock (encodeContainerBlockItems spelling writes.items) =
      .framed spelling .withRemovals (writes.items.map ContainerBlockWrite.item) := by
  have hlen := writes.length_lt
  have hcount := length_le_flatMap_putItem writes.items
  have hits := takeItems_body writes 8
  rw [takeItems, body, takeVarint_writeVarint _ (by omega), ok_bind] at hits
  have hfits : ¬(encodeContainerBlockItems spelling writes.items).length < writes.items.length := by
    rw [encodeContainerBlockItems, length_append, length_cons, length_append]
    omega
  rw [encodeContainerBlockItems, decodeContainerBlock_append, ← encodeContainerBlockItems,
    decodeItems, takeVarint_writeVarint _ (by omega)]
  dsimp only at hits ⊢
  rw [if_neg hfits, hits]
  exact if_pos rfl

lemma decodeItems_corrupt {shape : ContainerBlockShape} {c : Cursor} (size : ℕ)
    (spelling : ElementKeySpelling)
    (h : ∀ items c', c'.rest = [] → takeItems shape c ≠ .ok (items, c')) :
    ∃ error, decodeItems size spelling shape c = .corrupt error := by
  unfold decodeItems
  cases hcount : takeVarint "item count" c with
  | error error => exact ⟨error, rfl⟩
  | ok read =>
    obtain ⟨count, c₁⟩ := read
    simp only [takeItems, hcount, ok_bind] at h
    dsimp only
    split
    · exact ⟨_, rfl⟩
    · cases hmany : readMany (takeItem shape) 0 count c₁ with
      | error error => exact ⟨error, rfl⟩
      | ok read =>
        obtain ⟨items, c₂⟩ := read
        have hrest : c₂.rest ≠ [] := fun hrest => h items c₂ hrest hmany
        dsimp only
        rw [if_neg hrest]
        exact ⟨_, rfl⟩

lemma decodeContainerBlock_take (writes : ContainerBlockWrites) {n : ℕ}
    (hmagic : containerBlockMagicV2.length ≤ n)
    (hn : n < (encodeContainerBlockItems spelling writes.items).length) :
    ∃ error, decodeContainerBlock ((encodeContainerBlockItems spelling writes.items).take n) =
      .corrupt error := by
  have henc : encodeContainerBlockItems spelling writes.items =
      containerBlockMagicV2 ++ spelling.toByte :: body writes.items := rfl
  rw [henc] at hn ⊢
  obtain ⟨m, rfl⟩ := Nat.exists_eq_add_of_le hmagic
  rw [take_length_add_append]
  cases m with
  | zero =>
    -- The magic alone names no spelling.
    exact ⟨_, rfl⟩
  | succ m =>
    rw [take_succ_cons, decodeContainerBlock_append]
    apply decodeItems_corrupt
    intro items c' hc'
    have hmore : (body writes.items).drop m ≠ [] := by
      rw [length_append, length_cons] at hn
      rw [ne_eq, drop_eq_nil_iff]
      omega
    have hwhole : takeItems .withRemovals
        ((Lib.Cursor.mk 8 ((body writes.items).take m)).extend ((body writes.items).drop m)) =
        .ok (writes.items.map ContainerBlockWrite.item, ⟨8 + (body writes.items).length, []⟩) := by
      rw [extend, take_append_drop]
      exact takeItems_body writes 8
    exact (steady_takeItems _).ne_of_lt hmore hwhole rfl hc'

/-- A block decodes to the elements it was encoded from, and no part of a block that has the magic
decodes to anything. -/
theorem container_block_round_trip (spelling : ElementKeySpelling) (writes : ContainerBlockWrites) :
    decodeContainerBlock (encodeContainerBlockItems spelling writes.items) =
        .framed spelling .withRemovals (writes.items.map ContainerBlockWrite.item) ∧
      ∀ n, containerBlockMagicV2.length ≤ n →
        n < (encodeContainerBlockItems spelling writes.items).length →
        ∃ error, decodeContainerBlock ((encodeContainerBlockItems spelling writes.items).take n) =
          .corrupt error :=
  ⟨decodeContainerBlock_encode spelling writes,
    fun _ hmagic hn => decodeContainerBlock_take spelling writes hmagic hn⟩

/-- A live element, one whose value is the tail of its key, and a removed one. -/
def threeWrites : ContainerBlockWrites where
  items :=
    [⟨[1, 2], [7], false, by decide, by decide⟩, ⟨[3, 4, 5], [4, 5], false, by decide, by decide⟩,
      ⟨[6], [], true, by decide, by decide⟩]
  length_lt := by decide

theorem container_block_round_trip_three :
    decodeContainerBlock (encodeContainerBlockItems .utf8 threeWrites.items) =
        .framed .utf8 .withRemovals
          [⟨[1, 2], [7], false⟩, ⟨[3, 4, 5], [4, 5], false⟩, ⟨[6], [], true⟩] ∧
      ∃ error, decodeContainerBlock ((encodeContainerBlockItems .utf8 threeWrites.items).take 12) =
        .corrupt error :=
  ⟨(container_block_round_trip .utf8 threeWrites).1,
    (container_block_round_trip .utf8 threeWrites).2 12 (by decide) (by decide)⟩

end TemporalStore.Engine
