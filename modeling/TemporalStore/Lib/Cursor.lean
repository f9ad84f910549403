import TemporalStore.Lib.Result
import TemporalStore.Lib.Varint

namespace Lib

open List

/-- A position in a byte string, with the bytes from there on. -/
structure Cursor where
  position : ℕ
  rest : Bytes
  deriving DecidableEq

def Cursor.extend (c : Cursor) (more : Bytes) : Cursor := ⟨c.position, c.rest ++ more⟩

def Cursor.advance (c : Cursor) (n : ℕ) : Cursor := ⟨c.position + n, c.rest.drop n⟩

@[simp] lemma Cursor.extend_rest (c : Cursor) (more : Bytes) :
    (c.extend more).rest = c.rest ++ more := rfl

lemma Cursor.advance_extend {c : Cursor} {n : ℕ} (h : n ≤ c.rest.length) (more : Bytes) :
    (c.extend more).advance n = (c.advance n).extend more := by
  simp only [advance, extend, drop_append_of_le_length h]

variable {ε α β : Type}

/-- What the reader finds, it finds whatever follows. -/
def Steady (read : Cursor → Except ε (α × Cursor)) : Prop :=
  ∀ ⦃c c' : Cursor⦄ ⦃a : α⦄, read c = .ok (a, c') →
    ∀ more, read (c.extend more) = .ok (a, c'.extend more)

lemma Steady.ok (a : α) : Steady fun c => (.ok (a, c) : Except ε (α × Cursor)) := by
  intro c c' b h more
  cases h
  rfl

lemma Steady.bind {read : Cursor → Except ε (α × Cursor)}
    {next : α → Cursor → Except ε (β × Cursor)} (hread : Steady read)
    (hnext : ∀ a, Steady (next a)) : Steady fun c => read c >>= fun x => next x.1 x.2 := by
  intro c c' b h more
  obtain ⟨⟨a, c₁⟩, hread', h⟩ := bind_eq_ok h
  simp only [hread hread' more, ok_bind]
  exact hnext a h more

/-- A steady reader that comes to the end of a byte string does not come to the end of a start of
it. -/
lemma Steady.ne_of_lt {read : Cursor → Except ε (α × Cursor)} (hread : Steady read)
    {c c' : Cursor} {a : α} {more : Bytes} (hmore : more ≠ [])
    (h : read (c.extend more) = .ok (a, c'))
    (hc' : c'.rest = []) {b : α} {d : Cursor} (hd : d.rest = []) : read c ≠ .ok (b, d) := by
  intro hcut
  have hsame := hread hcut more
  rw [h] at hsame
  have hrest : c'.rest = (d.extend more).rest := by
    injection hsame with hsame
    injection hsame with _ hsame
    rw [hsame]
  rw [hc', Cursor.extend_rest, hd] at hrest
  exact hmore hrest.symm

/-- Reads `count` values, the first of them as number `index`. -/
def readMany (read : ℕ → Cursor → Except ε (α × Cursor)) :
    ℕ → ℕ → Cursor → Except ε (List α × Cursor)
  | _, 0, c => .ok ([], c)
  | index, count + 1, c => do
    let (a, c) ← read index c
    let (as, c) ← readMany read (index + 1) count c
    .ok (a :: as, c)

lemma Steady.readMany {read : ℕ → Cursor → Except ε (α × Cursor)} (h : ∀ i, Steady (read i))
    (index count : ℕ) : Steady (readMany read index count) := by
  induction count generalizing index with
  | zero => exact Steady.ok []
  | succ count ih =>
    exact (h index).bind fun a => (ih (index + 1)).bind fun as => Steady.ok (a :: as)

lemma readMany_flatMap {read : ℕ → Cursor → Except ε (β × Cursor)} {write : α → Bytes} {f : α → β}
    (h : ∀ i a p rest, read i ⟨p, write a ++ rest⟩ = .ok (f a, ⟨p + (write a).length, rest⟩))
    (as : List α) (index p : ℕ) (rest : Bytes) :
    readMany read index as.length ⟨p, as.flatMap write ++ rest⟩ =
      .ok (as.map f, ⟨p + (as.flatMap write).length, rest⟩) := by
  induction as generalizing index p with
  | nil => rfl
  | cons a as ih =>
    simp only [length_cons, readMany, flatMap_cons, append_assoc, h, ok_bind, ih,
      map_cons, length_append, Nat.add_assoc]

end Lib
