import TemporalStore.Lib.Bytes
import TemporalStore.Lib.Result

namespace Lib

open List

variable {ε ρ α : Type}

/-- `read` takes `raw` off the front of whatever follows it, and takes a proper start of it for the
end of the stream. -/
structure Delimited (read : Bytes → Except ε (Option Bytes)) (raw : Bytes) : Prop where
  pos : 0 < raw.length
  whole : ∀ rest, read (raw ++ rest) = .ok (some raw)
  torn : ∀ n, n < raw.length → read (raw.take n) = .ok none

/-- Reads records until the end of the stream: the offset and the decoded content of each. `none`
when `fuel` runs out first. -/
def walk (read : Bytes → Except ε (Option Bytes)) (decode : Bytes → Except ε α) :
    ℕ → ℕ → Bytes → Except ε (Option (List (ℕ × α)))
  | 0, _, _ => .ok none
  | fuel + 1, offset, bytes => do
    match ← read bytes with
    | none => .ok (some [])
    | some raw =>
      let content ← decode raw
      let rest ← walk read decode fuel (offset + raw.length) (bytes.drop raw.length)
      .ok (rest.map ((offset, content) :: ·))

/-- Records laid end to end, each with the offset it starts at. -/
def place (encode : ρ → Bytes) : ℕ → List ρ → List (ℕ × ρ)
  | _, [] => []
  | offset, r :: rs => (offset, r) :: place encode (offset + (encode r).length) rs

/-- The records that end at or before `stop`, with their offsets and contents. -/
def whollyBefore (encode : ρ → Bytes) (content : ρ → α) (offset stop : ℕ) (records : List ρ) :
    List (ℕ × α) :=
  ((place encode offset records).filter fun p => p.1 + (encode p.2).length ≤ stop).map
    fun p => (p.1, content p.2)

lemma le_of_mem_place {encode : ρ → Bytes} {records : List ρ} {offset : ℕ} {p : ℕ × ρ}
    (h : p ∈ place encode offset records) : offset ≤ p.1 := by
  induction records generalizing offset with
  | nil => simp [place] at h
  | cons r rs ih =>
    rw [place, mem_cons] at h
    rcases h with rfl | h
    · exact le_rfl
    · have := ih h
      omega

lemma map_snd_place (encode : ρ → Bytes) (offset : ℕ) (records : List ρ) :
    (place encode offset records).map Prod.snd = records := by
  induction records generalizing offset with
  | nil => rfl
  | cons r rs ih => rw [place, map_cons, ih]

section

variable {encode : ρ → Bytes} (content : ρ → α) {offset stop : ℕ} {r : ρ} (rs : List ρ)

lemma whollyBefore_of_lt (h : stop < offset + (encode r).length) :
    whollyBefore encode content offset stop (r :: rs) = [] := by
  rw [whollyBefore, map_eq_nil_iff, filter_eq_nil_iff]
  intro p hp
  rw [place, mem_cons] at hp
  rcases hp with rfl | hp
  · simpa using h
  · -- a later record starts where this one ends
    have := le_of_mem_place hp
    simp only [decide_eq_true_eq]
    omega

lemma whollyBefore_of_le (h : offset + (encode r).length ≤ stop) :
    whollyBefore encode content offset stop (r :: rs) = (offset, content r) ::
      whollyBefore encode content (offset + (encode r).length) stop rs := by
  rw [whollyBefore, place, filter_cons_of_pos (by simpa using h), map_cons, whollyBefore]

end

section Walk

variable {read : Bytes → Except ε (Option Bytes)} {decode : Bytes → Except ε α}
  {encode : ρ → Bytes} {content : ρ → α}

/-- A stream cut at `cut`, with padding behind the cut only if it falls between two records, walks
to exactly the records that lie before the cut. -/
lemma walk_cut {records : List ρ} {fuel offset cut : ℕ} {pad : Bytes}
    (hread : ∀ r ∈ records, Delimited read (encode r))
    (hdec : ∀ r ∈ records, decode (encode r) = .ok (content r)) (hpadding : read pad = .ok none)
    (hpad : pad = [] ∨ ∃ k, cut = ((records.take k).flatMap encode).length)
    (hfuel : ((records.flatMap encode).take cut).length < fuel) :
    walk read decode fuel offset ((records.flatMap encode).take cut ++ pad) =
      .ok (some (whollyBefore encode content offset (offset + cut) records)) := by
  induction records generalizing fuel offset cut with
  | nil =>
    obtain ⟨fuel, rfl⟩ := Nat.exists_eq_add_of_lt hfuel
    simp [walk, hpadding, whollyBefore, place]
  | cons r rs ih =>
    obtain ⟨fuel, rfl⟩ : ∃ n, fuel = n + 1 := ⟨fuel - 1, by omega⟩
    have hr := hread r mem_cons_self
    have hpos := hr.pos
    rcases Nat.lt_or_ge cut (encode r).length with hlt | hge
    · -- the cut falls in this record, or right in front of it
      have htake : ((r :: rs).flatMap encode).take cut = (encode r).take cut := by
        rw [flatMap_cons, take_append_of_le_length hlt.le]
      have hnone : read ((encode r).take cut ++ pad) = .ok none := by
        rcases hpad with rfl | ⟨k, hk⟩
        · rw [append_nil]
          exact hr.torn cut hlt
        · cases k with
          | zero =>
            have hcut : cut = 0 := by simpa using hk
            rw [hcut, take_zero, nil_append, hpadding]
          | succ k =>
            rw [take_succ_cons, flatMap_cons, length_append] at hk
            omega
      rw [htake, walk, hnone, whollyBefore_of_lt content rs (by omega)]
      rfl
    · -- the record is whole, and the walk goes on behind it
      obtain ⟨rest, rfl⟩ := Nat.exists_eq_add_of_le hge
      have htake : ((r :: rs).flatMap encode).take ((encode r).length + rest) =
          encode r ++ (rs.flatMap encode).take rest := by
        rw [flatMap_cons, take_length_add_append]
      have hrestPad : pad = [] ∨ ∃ k, rest = ((rs.take k).flatMap encode).length := by
        rcases hpad with hpad | ⟨k, hk⟩
        · exact .inl hpad
        · cases k with
          | zero =>
            have : (encode r).length + rest = 0 := by simpa using hk
            omega
          | succ k =>
            rw [take_succ_cons, flatMap_cons, length_append] at hk
            exact .inr ⟨k, by omega⟩
      rw [htake, length_append] at hfuel
      have htail : walk read decode fuel (offset + (encode r).length)
          ((rs.flatMap encode).take rest ++ pad) = .ok (some (whollyBefore encode content
            (offset + (encode r).length) (offset + (encode r).length + rest) rs)) :=
        ih (fun x hx => hread x (mem_cons_of_mem r hx))
          (fun x hx => hdec x (mem_cons_of_mem r hx)) hrestPad (by omega)
      rw [htake, append_assoc, walk, hr.whole]
      simp only [hdec r mem_cons_self, ok_bind, drop_left, htail]
      rw [whollyBefore_of_le content rs (by omega), ← Nat.add_assoc]
      rfl

lemma walk_records {records : List ρ} {fuel offset : ℕ}
    (hpos : ∀ r ∈ records, 0 < (encode r).length)
    (hread : ∀ r ∈ records, ∀ rest, read (encode r ++ rest) = .ok (some (encode r)))
    (hdec : ∀ r ∈ records, decode (encode r) = .ok (content r)) (hend : read [] = .ok none)
    (hfuel : (records.flatMap encode).length < fuel) :
    walk read decode fuel offset (records.flatMap encode) =
      .ok (some ((place encode offset records).map fun p => (p.1, content p.2))) := by
  induction records generalizing fuel offset with
  | nil =>
    obtain ⟨fuel, rfl⟩ := Nat.exists_eq_add_of_lt hfuel
    rw [flatMap_nil, walk, hend]
    rfl
  | cons r rs ih =>
    obtain ⟨fuel, rfl⟩ : ∃ n, fuel = n + 1 := ⟨fuel - 1, by omega⟩
    have hr := hpos r mem_cons_self
    rw [flatMap_cons, length_append] at hfuel
    have htail : walk read decode fuel (offset + (encode r).length) (rs.flatMap encode) =
        .ok (some ((place encode (offset + (encode r).length) rs).map fun p =>
          (p.1, content p.2))) :=
      ih (fun x hx => hpos x (mem_cons_of_mem r hx))
        (fun x hx => hread x (mem_cons_of_mem r hx))
        (fun x hx => hdec x (mem_cons_of_mem r hx)) (by omega)
    rw [flatMap_cons, walk, hread r mem_cons_self]
    simp only [hdec r mem_cons_self, ok_bind, drop_left, htail]
    rfl

end Walk

end Lib
