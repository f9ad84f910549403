import TemporalStore.Lib.Keyed

namespace Lib

open List

variable {α κ : Type} [LinearOrder κ]

variable (key : α → κ) (l : List α)

/-- A stable sort by a key. -/
def sortByKey : List α := l.mergeSort fun a b => key a ≤ key b

def KeyOrdered : Prop := l.Pairwise fun a b => key a ≤ key b

lemma keyLe_trans (a b c : α) (hab : decide (key a ≤ key b) = true)
    (hbc : decide (key b ≤ key c) = true) : decide (key a ≤ key c) = true := by
  rw [decide_eq_true_eq] at hab hbc ⊢
  exact hab.trans hbc

lemma keyLe_total (a b : α) : (decide (key a ≤ key b) || decide (key b ≤ key a)) = true := by
  rw [Bool.or_eq_true, decide_eq_true_eq, decide_eq_true_eq]
  exact le_total _ _

lemma keyOrdered_sortByKey : KeyOrdered key (sortByKey key l) :=
  (pairwise_mergeSort (keyLe_trans key) (keyLe_total key) l).imp fun h => of_decide_eq_true h

lemma filter_sortByKey (k : κ) : (sortByKey key l).filter (key · = k) = l.filter (key · = k) := by
  have hpairs : (l.filter (key · = k)).Pairwise fun a b => decide (key a ≤ key b) = true := by
    apply pairwise_of_forall_mem_list
    intro a ha b hb
    rw [mem_filter, decide_eq_true_eq] at ha hb
    rw [decide_eq_true_eq, ha.2, hb.2]
  have hsub : (l.filter (key · = k)).Sublist (sortByKey key l) :=
    sublist_mergeSort (keyLe_trans key) (keyLe_total key) hpairs filter_sublist
  have hfilter := hsub.filter (key · = k)
  rw [filter_filter] at hfilter
  simp only [Bool.and_self] at hfilter
  have hlen : ((sortByKey key l).filter (key · = k)).length = (l.filter (key · = k)).length :=
    ((mergeSort_perm l _).filter _).length_eq
  exact (hfilter.eq_of_length hlen.symm).symm

lemma KeyOrdered.eq_of_filter {key : α → κ} {l r : List α} (hl : KeyOrdered key l)
    (hr : KeyOrdered key r) (h : ∀ k, l.filter (key · = k) = r.filter (key · = k)) : l = r := by
  induction l generalizing r with
  | nil =>
    cases r with
    | nil => rfl
    | cons b r =>
      have hb := h (key b)
      simp at hb
  | cons a l ih =>
    cases r with
    | nil =>
      have ha := h (key a)
      simp at ha
    | cons b r =>
      rw [KeyOrdered, pairwise_cons] at hl hr
      -- Each head occurs in the other list, so neither key is below the other.
      have ha : a ∈ (b :: r).filter (key · = key a) := by
        rw [← h (key a)]
        simp
      have hb : b ∈ (a :: l).filter (key · = key b) := by
        rw [h (key b)]
        simp
      have hba : key b ≤ key a := by
        rcases mem_cons.mp (mem_of_mem_filter ha) with rfl | hmem
        · exact le_rfl
        · exact hr.1 a hmem
      have hab : key a ≤ key b := by
        rcases mem_cons.mp (mem_of_mem_filter hb) with rfl | hmem
        · exact le_rfl
        · exact hl.1 b hmem
      have hkey : key b = key a := le_antisymm hba hab
      have hhead := h (key a)
      rw [filter_cons_of_pos (by simp), filter_cons_of_pos (by simp [hkey])] at hhead
      injection hhead with hhead htail
      subst hhead
      congr 1
      refine ih hl.2 hr.2 fun k => ?_
      have hk := h k
      by_cases hak : key a = k
      · rw [← hak]
        exact htail
      · simpa [hak] using hk

lemma sortByKey_eq_iff {key : α → κ} {l : List α} : sortByKey key l = l ↔ KeyOrdered key l := by
  constructor
  · intro h
    rw [← h]
    exact keyOrdered_sortByKey key l
  · intro h
    exact (keyOrdered_sortByKey key l).eq_of_filter h (filter_sortByKey key l)

lemma sortByKey_congr {key : α → κ} {l r : List α}
    (h : ∀ k, l.filter (key · = k) = r.filter (key · = k)) : sortByKey key l = sortByKey key r := by
  refine (keyOrdered_sortByKey key l).eq_of_filter (keyOrdered_sortByKey key r) fun k => ?_
  rw [filter_sortByKey, filter_sortByKey, h]

variable {ι : Type} [LinearOrder ι] {slot : α → ι}

/-- The first element of a slot goes to the map, a later one to the list. -/
def fileOne (slot : α → ι) (s : Series ι α × List α) (a : α) : Series ι α × List α :=
  if (s.1.lookup (slot a)).isSome then (s.1, s.2 ++ [a]) else (s.1.put (slot a) a, s.2)

def file (slot : α → ι) (l : List α) : Series ι α × List α := l.foldl (fileOne slot) ([], [])

lemma file_append (slot : α → ι) (l : List α) (a : α) :
    file slot (l ++ [a]) = fileOne slot (file slot l) a := by
  rw [file, foldl_append]
  rfl

lemma ordered_file (slot : α → ι) (l : List α) : Series.Ordered (file slot l).1 := by
  induction l using reverseRecOn with
  | nil => exact List.Pairwise.nil
  | append_singleton l a ih =>
    rw [file_append, fileOne]
    split_ifs
    · exact ih
    · exact Series.Ordered.put ih _ _

/-- The elements in the map in the order of its slots, and then those of the list. -/
def filed (s : Series ι α × List α) : List α := s.1.map Prod.snd ++ s.2

lemma put_eq_append {s : Series ι α} {t : ι} (a : α) (ht : s.lookup t = none) :
    ∃ before after, s = before ++ after ∧ s.put t a = before ++ (t, a) :: after := by
  induction s with
  | nil => exact ⟨[], [], rfl, rfl⟩
  | cons x s ih =>
    rw [lookup_eq_none_iff] at ht
    have hne : t ≠ x.1 := by
      simpa using ht x mem_cons_self
    rw [Series.put]
    split_ifs with hlt
    · exact ⟨[], x :: s, rfl, rfl⟩
    · obtain ⟨before, after, rfl, hput⟩ :=
        ih (lookup_eq_none_iff.mpr fun y hy => ht y (mem_cons_of_mem x hy))
      exact ⟨x :: before, after, rfl, by rw [hput]; rfl⟩

lemma filter_put_of_neg {p : α → Bool} {s : Series ι α} {t : ι} {a : α} (hp : p a = false)
    (ht : s.lookup t = none) : ((s.put t a).map Prod.snd).filter p = (s.map Prod.snd).filter p := by
  obtain ⟨before, after, rfl, hput⟩ := put_eq_append a ht
  simp [hput, hp]

lemma filter_put_of_pos {p : α → Bool} {s : Series ι α} {t : ι} {a : α} (hp : p a = true)
    (ht : s.lookup t = none) (hs : (s.map Prod.snd).filter p = []) :
    ((s.put t a).map Prod.snd).filter p = [a] := by
  obtain ⟨before, after, rfl, hput⟩ := put_eq_append a ht
  rw [map_append, filter_append, append_eq_nil_iff] at hs
  simp only [hput, map_append, map_cons, filter_append, filter_cons_of_pos hp, hs, nil_append]

/-- What filing keeps: an element of the map lies in its slot, the slot of an element of the list is
taken, and the elements of one slot are in their order. -/
structure Filed (slot : α → ι) (l : List α) (s : Series ι α × List α) : Prop where
  inSlot : ∀ x ∈ s.1, slot x.2 = x.1
  taken : ∀ a ∈ s.2, s.1.lookup (slot a) ≠ none
  kept : ∀ p : α → Bool, (∀ a b, p a = true → p b = true → slot a = slot b) →
    (filed s).filter p = l.filter p

lemma Filed.step {l : List α} {s : Series ι α × List α} (h : Filed slot l s) (a : α) :
    Filed slot (l ++ [a]) (fileOne slot s a) := by
  unfold fileOne
  split_ifs with htaken
  · have hne : s.1.lookup (slot a) ≠ none := by
      intro hnone
      rw [hnone] at htaken
      cases htaken
    refine ⟨h.inSlot, ?_, fun p hp => ?_⟩
    · exact forall_mem_append.mpr ⟨h.taken, forall_mem_singleton.mpr hne⟩
    · have hkept := h.kept p hp
      rw [filed] at hkept
      rw [filed, ← append_assoc, filter_append, hkept, filter_append]
  · have hnone : s.1.lookup (slot a) = none := Option.not_isSome_iff_eq_none.mp htaken
    refine ⟨?_, ?_, fun p hp => ?_⟩
    · intro x hx
      rcases Series.mem_of_mem_put hx with rfl | hx
      · rfl
      · exact h.inSlot x hx
    · intro b hb
      have hne : slot b ≠ slot a := by
        intro hslot
        exact h.taken b hb (hslot ▸ hnone)
      rw [Series.lookup_put_of_ne _ _ hne]
      exact h.taken b hb
    · have hkept := h.kept p hp
      rw [filed, filter_append] at hkept
      rw [filed, filter_append, filter_append, ← hkept]
      cases hpa : p a with
      | false => rw [filter_put_of_neg hpa hnone]; simp [hpa]
      | true =>
        -- The slot of `a` is free, so no element before it satisfies `p`.
        have hmap : (s.1.map Prod.snd).filter p = [] := by
          rw [filter_eq_nil_iff]
          intro b hb hpb
          obtain ⟨x, hx, rfl⟩ := mem_map.mp hb
          have hslot : x.1 = slot a := (h.inSlot x hx).symm.trans (hp _ _ hpb hpa)
          have hfree := lookup_eq_none_iff.mp hnone x hx
          simp [hslot] at hfree
        have hlist : s.2.filter p = [] := by
          rw [filter_eq_nil_iff]
          intro b hb hpb
          exact h.taken b hb (hp _ _ hpb hpa ▸ hnone)
        rw [filter_put_of_pos hpa hnone hmap, hmap, hlist]
        simp [hpa]

lemma filed_file (slot : α → ι) (l : List α) : Filed slot l (file slot l) := by
  induction l using reverseRecOn with
  | nil => exact ⟨by simp [file], by simp [file], fun p _ => rfl⟩
  | append_singleton l a ih =>
    rw [file_append]
    exact ih.step a

section

variable {β : Type} (f : β → α)

lemma put_map (s : Series ι β) (t : ι) (b : β) :
    Series.put (s.map (Prod.map id f)) t (f b) = (s.put t b).map (Prod.map id f) := by
  induction s with
  | nil => rfl
  | cons x s ih =>
    rw [map_cons, Prod.map_apply, id, Series.put, Series.put]
    split_ifs with hlt heq
    · rfl
    · rfl
    · rw [ih]
      rfl

lemma lookup_map (s : Series ι β) (t : ι) :
    lookup t (s.map (Prod.map id f)) = (s.lookup t).map f := by
  induction s with
  | nil => rfl
  | cons x s ih =>
    obtain ⟨u, c⟩ := x
    rw [map_cons, Prod.map_apply, id, lookup_cons, lookup_cons, ih]
    cases t == u <;> rfl

lemma file_map (l : List β) : file slot (l.map f) =
      Prod.map (map (Prod.map id f)) (map f) (file (fun b => slot (f b)) l) := by
  induction l using reverseRecOn with
  | nil => rfl
  | append_singleton l b ih =>
    rw [map_append, map_singleton, file_append, ih, file_append, fileOne, fileOne,
      Prod.map_fst, Prod.map_snd, lookup_map, Option.isSome_map]
    split_ifs
    · rw [Prod.map_apply, map_append]
      rfl
    · rw [Prod.map_apply, put_map]

lemma filed_file_map (l : List β) :
    filed (file slot (l.map f)) = (filed (file (fun b => slot (f b)) l)).map f := by
  rw [file_map, filed, filed, map_append, Prod.map_fst, map_map, map_map]
  rfl

end

lemma sortByKey_filed {key : α → κ} (h : ∀ a b, key a = key b → slot a = slot b) (l : List α) :
    sortByKey key (filed (file slot l)) = sortByKey key l := by
  apply sortByKey_congr
  intro k
  apply (filed_file slot l).kept
  intro a b ha hb
  rw [decide_eq_true_eq] at ha hb
  exact h a b (ha.trans hb.symm)

end Lib
