import Mathlib.Data.List.Nodup
import Mathlib.Data.List.Sort
import Mathlib.Logic.Relation
import Memoizer.Partition.Spans

namespace Memoizer.Span

theorem contains_iff {s : Span} {id : InstId} : s.contains id = true ↔ s.start ≤ id ∧ id ≤ s.stop := by
  simp [contains]

theorem mem_ids_iff {s : Span} {id : InstId} : id ∈ s.ids ↔ s.contains id = true := by
  rw [contains_iff, ids, List.mem_range'_1, size]
  lia

theorem lt_of_mem_ids {s : Span} {id n : InstId} (h : id ∈ s.ids) (hstop : s.stop < n) : id < n :=
  Nat.lt_of_le_of_lt (contains_iff.mp (mem_ids_iff.mp h)).2 hstop

theorem all_ids_lt {s : Span} {n : InstId} (hstop : s.stop < n) : s.ids.all (· < n) = true := by
  simp only [List.all_eq_true, decide_eq_true_eq]
  intro id hid
  exact lt_of_mem_ids hid hstop

def Together (family : Span → Prop) (p q : InstId) : Prop :=
  ∃ s, family s ∧ s.contains p = true ∧ s.contains q = true

/-- A chain of spans of the family leads from `p` to `q`; neighbours in it share an id. -/
def Joined (family : Span → Prop) : InstId → InstId → Prop := Relation.TransGen (Together family)

section Joined

variable {family other : Span → Prop}

theorem Together.symm {p q : InstId} (h : Together family p q) : Together family q p := by
  obtain ⟨s, hs, hp, hq⟩ := h
  exact ⟨s, hs, hq, hp⟩

theorem Joined.symm {p q : InstId} (h : Joined family p q) : Joined family q p := by
  induction h with
  | single hpq => exact .single hpq.symm
  | tail _ hqr ih => exact .head hqr.symm ih

theorem Joined.trans {p q r : InstId} (h : Joined family p q) (h' : Joined family q r) : Joined family p r :=
  Relation.TransGen.trans h h'

theorem joined_of_mem {s : Span} (hs : family s) {p q : InstId} (hp : s.contains p = true)
    (hq : s.contains q = true) : Joined family p q := .single ⟨s, hs, hp, hq⟩

theorem Joined.lift (hsub : ∀ s, family s → ∀ p q, s.contains p = true → s.contains q = true → Joined other p q)
    {p q : InstId} (h : Joined family p q) : Joined other p q := by
  induction h with
  | single hpq =>
      obtain ⟨s, hs, hp, hq⟩ := hpq
      exact hsub s hs _ _ hp hq
  | tail _ hqr ih =>
      obtain ⟨s, hs, hq, hr⟩ := hqr
      exact ih.trans (hsub s hs _ _ hq hr)

theorem joined_self_iff {id : InstId} : Joined family id id ↔ ∃ s, family s ∧ s.contains id = true := by
  constructor
  · intro h
    obtain ⟨_, ⟨s, hs, hp, _⟩, _⟩ := Relation.TransGen.head'_iff.mp h
    exact ⟨s, hs, hp⟩
  · rintro ⟨s, hs, hp⟩
    exact joined_of_mem hs hp hp

theorem not_joined_nil {p q : InstId} : ¬ Joined (· ∈ ([] : List Span)) p q := by
  intro h
  obtain ⟨s, hs, _⟩ := joined_self_iff.mp (h.trans h.symm)
  cases hs

end Joined

/-- The list is the merge of the family. -/
structure IsMerge (family : Span → Prop) (merged : List Span) : Prop where
  ascending : merged.Pairwise fun s t => s.stop < t.start
  start_le_stop : ∀ s ∈ merged, s.start ≤ s.stop
  together_iff : ∀ p q, (∃ s ∈ merged, s.contains p = true ∧ s.contains q = true) ↔ Joined family p q

namespace IsMerge

variable {family other : Span → Prop} {merged merged' : List Span}

theorem congr (h : IsMerge family merged) (hj : ∀ p q, Joined family p q ↔ Joined other p q) :
    IsMerge other merged :=
  ⟨h.ascending, h.start_le_stop, fun p q => (h.together_iff p q).trans (hj p q)⟩

theorem covered_iff (h : IsMerge family merged) (id : InstId) :
    (∃ s ∈ merged, s.contains id = true) ↔ ∃ s, family s ∧ s.contains id = true := by
  have hj := h.together_iff id id
  simp only [and_self] at hj
  exact hj.trans joined_self_iff

theorem eq_of_contains (h : IsMerge family merged) {s t : Span} (hs : s ∈ merged) (ht : t ∈ merged) {id : InstId}
    (hsi : s.contains id = true) (hti : t.contains id = true) : s = t := by
  -- The spans are apart, so an id lies in one of them at most.
  rw [contains_iff] at hsi hti
  obtain ⟨i, hi, rfl⟩ := List.getElem_of_mem hs
  obtain ⟨j, hj, rfl⟩ := List.getElem_of_mem ht
  have hp := List.pairwise_iff_getElem.mp h.ascending
  rcases Nat.lt_trichotomy i j with hij | rfl | hij
  · exact absurd (hp i j hi hj hij) (Nat.not_lt.mpr (hti.1.trans hsi.2))
  · rfl
  · exact absurd (hp j i hj hi hij) (Nat.not_lt.mpr (hsi.1.trans hti.2))

theorem contains_start (h : IsMerge family merged) {s : Span} (hs : s ∈ merged) : s.contains s.start = true :=
  contains_iff.mpr ⟨le_rfl, h.start_le_stop s hs⟩

theorem contains_stop (h : IsMerge family merged) {s : Span} (hs : s ∈ merged) : s.contains s.stop = true :=
  contains_iff.mpr ⟨h.start_le_stop s hs, le_rfl⟩

theorem subset (h : IsMerge family merged) {s t : Span} (hs : s ∈ merged) (ht : family t) {p q : InstId}
    (hsp : s.contains p = true) (htp : t.contains p = true) (htq : t.contains q = true) : s.contains q = true := by
  obtain ⟨s', hs', hp', hq'⟩ := (h.together_iff p q).mpr (joined_of_mem ht htp htq)
  rwa [h.eq_of_contains hs hs' hsp hp']

theorem exists_start (h : IsMerge family merged) (hle : ∀ t, family t → t.start ≤ t.stop) {s : Span} (hs : s ∈ merged) :
    ∃ t, family t ∧ t.start = s.start ∧ t.stop ≤ s.stop := by
  have hstart := h.contains_start hs
  obtain ⟨t, ht, hti⟩ := (h.covered_iff s.start).mp ⟨s, hs, hstart⟩
  have hfirst := h.subset hs ht hstart hti (contains_iff.mpr ⟨le_rfl, hle t ht⟩)
  have hlast := h.subset hs ht hstart hti (contains_iff.mpr ⟨hle t ht, le_rfl⟩)
  rw [contains_iff] at hti hfirst hlast
  exact ⟨t, ht, le_antisymm hti.1 hfirst.1, hlast.2⟩

end IsMerge

/-- What goes on where the next span meets the last one: the two have an id in common, and their hull
joins no more than they do. -/
theorem joined_hull_iff {last s : Span} (spans : List Span) (hlast : last.start ≤ s.start) (hle : s.start ≤ s.stop)
    (hmeet : s.start ≤ last.stop) (p q : InstId) :
    Joined (· ∈ ⟨last.start, max last.stop s.stop⟩ :: spans) p q ↔ Joined (· ∈ last :: s :: spans) p q := by
  constructor
  · refine Joined.lift fun t ht p q hp hq => ?_
    rcases List.mem_cons.mp ht with rfl | ht
    · have hmid : Joined (· ∈ last :: s :: spans) last.start s.start :=
        joined_of_mem (s := last) (by simp) (contains_iff.mpr ⟨le_rfl, hlast.trans hmeet⟩)
          (contains_iff.mpr ⟨hlast, hmeet⟩)
      have hto {id : InstId} (hid : Span.contains ⟨last.start, max last.stop s.stop⟩ id = true) :
          Joined (· ∈ last :: s :: spans) s.start id := by
        obtain ⟨h₁, h₂⟩ := contains_iff.mp hid
        by_cases hin : id ≤ last.stop
        · exact hmid.symm.trans (joined_of_mem (s := last) (by simp)
            (contains_iff.mpr ⟨le_rfl, hlast.trans hmeet⟩) (contains_iff.mpr ⟨h₁, hin⟩))
        · have hstop : id ≤ s.stop := by
            rcases Nat.le_total last.stop s.stop with hm | hm
            · rwa [Nat.max_eq_right hm] at h₂
            · rw [Nat.max_eq_left hm] at h₂
              exact absurd h₂ hin
          exact joined_of_mem (s := s) (by simp) (contains_iff.mpr ⟨le_rfl, hle⟩)
            (contains_iff.mpr ⟨hmeet.trans (Nat.le_of_not_le hin), hstop⟩)
      exact (hto hp).symm.trans (hto hq)
    · exact joined_of_mem (by simp [ht]) hp hq
  · refine Joined.lift fun t ht p q hp hq => ?_
    have hsub {id : InstId} (hid : t.contains id = true) (ht' : t = last ∨ t = s) :
        Span.contains ⟨last.start, max last.stop s.stop⟩ id = true := by
      obtain ⟨h₁, h₂⟩ := contains_iff.mp hid
      rcases ht' with rfl | rfl
      · exact contains_iff.mpr ⟨h₁, h₂.trans (le_max_left _ _)⟩
      · exact contains_iff.mpr ⟨hlast.trans h₁, h₂.trans (le_max_right _ _)⟩
    simp only [List.mem_cons] at ht
    rcases ht with ht | ht | ht
    · exact joined_of_mem (s := ⟨last.start, max last.stop s.stop⟩) (by simp) (hsub hp (.inl ht)) (hsub hq (.inl ht))
    · exact joined_of_mem (s := ⟨last.start, max last.stop s.stop⟩) (by simp) (hsub hp (.inr ht)) (hsub hq (.inr ht))
    · exact joined_of_mem (by simp [ht]) hp hq

theorem joined_apart_iff {last : Span} {spans : List Span} (hgap : ∀ s ∈ spans, last.stop < s.start) (p q : InstId) :
    Joined (· ∈ last :: spans) p q ↔
      last.contains p = true ∧ last.contains q = true ∨ Joined (· ∈ spans) p q := by
  constructor
  · intro h
    induction h with
    | single hpq =>
        obtain ⟨s, hs, hp, hq⟩ := hpq
        rcases List.mem_cons.mp hs with rfl | hs
        · exact .inl ⟨hp, hq⟩
        · exact .inr (joined_of_mem hs hp hq)
    | @tail q r hpq hqr ih =>
        obtain ⟨s, hs, hq, hr⟩ := hqr
        rcases List.mem_cons.mp hs with rfl | hs
        · rcases ih with ⟨hp, _⟩ | ih
          · exact .inl ⟨hp, hr⟩
          · obtain ⟨t, ht, htq⟩ := joined_self_iff.mp (ih.symm.trans ih)
            have hlt := hgap t ht
            rw [contains_iff] at htq hq
            exact absurd (hlt.trans_le (htq.1.trans hq.2)) (lt_irrefl _)
        · rcases ih with ⟨_, hq'⟩ | ih
          · have hlt := hgap s hs
            rw [contains_iff] at hq hq'
            exact absurd (hlt.trans_le (hq.1.trans hq'.2)) (lt_irrefl _)
          · exact .inr (ih.trans (joined_of_mem hs hq hr))
  · rintro (⟨hp, hq⟩ | h)
    · exact joined_of_mem (s := last) (by simp) hp hq
    · exact h.lift fun s hs p q hp hq => joined_of_mem (by simp [hs]) hp hq

theorem mergeFrom_isMerge (last : Span) (spans : List Span) (hlast : ∀ s ∈ spans, last.start ≤ s.start)
    (hsorted : spans.Pairwise fun s t => s.start ≤ t.start) (hle : ∀ s ∈ last :: spans, s.start ≤ s.stop) :
    IsMerge (· ∈ last :: spans) (mergeFrom last spans) ∧ ∀ t ∈ mergeFrom last spans, last.start ≤ t.start := by
  induction spans generalizing last with
  | nil =>
      refine ⟨⟨List.pairwise_singleton _ _, hle, ?_⟩, by simp [mergeFrom]⟩
      intro p q
      rw [joined_apart_iff (by simp), or_iff_left not_joined_nil]
      simp [mergeFrom]
  | cons s spans ih =>
      obtain ⟨hs, hsorted⟩ := List.pairwise_cons.mp hsorted
      have hls := hlast s (by simp)
      have hss := hle s (by simp)
      have hll := hle last (by simp)
      rw [mergeFrom]
      split
      next hmeet =>
        have hm := ih ⟨last.start, max last.stop s.stop⟩ (fun t ht => hlast t (by simp [ht])) hsorted
          (by
            intro t ht
            rcases List.mem_cons.mp ht with rfl | ht
            · exact hll.trans (le_max_left _ _)
            · exact hle t (by simp [ht]))
        exact ⟨hm.1.congr (joined_hull_iff spans hls hss hmeet), hm.2⟩
      next hgap =>
        obtain ⟨hm, hstart⟩ := ih s hs hsorted fun t ht => hle t (by simp at ht ⊢; tauto)
        have hbehind : ∀ t ∈ s :: spans, last.stop < t.start := by
          intro t ht
          rcases List.mem_cons.mp ht with rfl | ht
          · exact Nat.not_le.mp hgap
          · exact (Nat.not_le.mp hgap).trans_le (hs t ht)
        refine ⟨⟨?_, ?_, ?_⟩, ?_⟩
        · exact List.pairwise_cons.mpr ⟨fun t ht => (Nat.not_le.mp hgap).trans_le (hstart t ht), hm.ascending⟩
        · intro t ht
          rcases List.mem_cons.mp ht with rfl | ht
          · exact hll
          · exact hm.start_le_stop t ht
        · intro p q
          rw [joined_apart_iff hbehind, ← hm.together_iff]
          simp
        · intro t ht
          rcases List.mem_cons.mp ht with rfl | ht
          · exact le_rfl
          · exact hls.trans (hstart t ht)

theorem le_iff (s t : Span) : s.le t = true ↔ s.start < t.start ∨ s.start = t.start ∧ s.stop ≤ t.stop := by
  simp [le]

theorem le_of_le_of_le (s t r : Span) (h : s.le t = true) (h' : t.le r = true) : s.le r = true := by
  rw [le_iff] at *
  lia

theorem le_or_ge (s t : Span) : (s.le t || t.le s) = true := by
  rw [Bool.or_eq_true, le_iff, le_iff]
  lia

/-- Sorting and merging gives the merge of any list of spans. -/
theorem merge_mergeSort_isMerge (spans : List Span) (hle : ∀ s ∈ spans, s.start ≤ s.stop) :
    IsMerge (· ∈ spans) (merge (spans.mergeSort le)) := by
  have hmem (s : Span) : s ∈ spans.mergeSort le ↔ s ∈ spans := List.mem_mergeSort
  have hsorted := List.pairwise_mergeSort le_of_le_of_le le_or_ge spans
  have hjoined (p q : InstId) : Joined (· ∈ spans.mergeSort le) p q ↔ Joined (· ∈ spans) p q := by
    simp only [hmem]
  refine IsMerge.congr ?_ hjoined
  have hle' : ∀ s ∈ spans.mergeSort le, s.start ≤ s.stop := fun s hs => hle s ((hmem s).mp hs)
  clear hmem hjoined hle
  revert hsorted hle'
  generalize spans.mergeSort le = sorted
  intro hsorted hle
  have hstart : sorted.Pairwise fun s t => s.start ≤ t.start := by
    refine hsorted.imp fun {s t} h => ?_
    rw [le_iff] at h
    lia
  cases sorted with
  | nil =>
      refine ⟨.nil, by simp [merge], ?_⟩
      intro p q
      simpa only [merge, List.not_mem_nil, false_and, exists_false, false_iff] using not_joined_nil
  | cons s sorted =>
      obtain ⟨hs, hrest⟩ := List.pairwise_cons.mp hstart
      exact (mergeFrom_isMerge s sorted hs hrest hle).1

end Memoizer.Span
