import Memoizer.Proofs.Facts
import Memoizer.Proofs.Spans
import Memoizer.Proofs.UnionFind

namespace Memoizer

/-- The span from a value worth memoizing to one of its mutators. -/
def MemoInterval (facts : SideTable Facts) (s : Span) : Prop :=
  (factsAt facts s.start).memo = true ∧ s.stop ∈ (factsAt facts s.start).mutators

def memoPairs (facts : SideTable Facts) : List (Nat × Nat) :=
  facts.zipIdx.flatMap fun p => if p.1.memo then p.1.mutators.map (p.2, ·) else []

theorem groups_eq_foldl (facts : SideTable Facts) :
    groups facts = (memoPairs facts).foldl (fun u p => u.union p.1 p.2) (UnionFind.ofSize facts.length) := by
  rw [groups, memoPairs, List.foldl_flatMap]
  congr 1
  funext u p
  split
  · rw [List.foldl_map]
  · rfl

theorem mem_memoPairs_iff {facts : SideTable Facts} {x m : Nat} :
    (x, m) ∈ memoPairs facts ↔ MemoInterval facts ⟨x, m⟩ := by
  simp only [memoPairs, MemoInterval, List.mem_flatMap, List.mem_zipIdx_iff_getElem?, Prod.exists]
  constructor
  · rintro ⟨f, i, hi, hm⟩
    have hf : factsAt facts i = f := Body.factsAt_of_getElem? hi
    split at hm
    next hmemo =>
      simp only [List.mem_map, Prod.mk.injEq] at hm
      obtain ⟨_, hm, rfl, rfl⟩ := hm
      rw [hf]
      exact ⟨hmemo, hm⟩
    next => cases hm
  · rintro ⟨hmemo, hm⟩
    cases hx : facts[x]? with
    | none =>
        rw [factsAt, SideTable.get_of_length_le (List.getElem?_eq_none_iff.mp hx)] at hmemo
        cases hmemo
    | some f =>
        have hf : factsAt facts x = f := Body.factsAt_of_getElem? hx
        rw [hf] at hmemo hm
        exact ⟨f, x, hx, by simp [hmemo, hm]⟩

theorem hull?_eq_some_iff {ids : List InstId} (hids : ids.Pairwise (· < ·)) (s : Span) :
    hull? ids = some s ↔ s.start < s.stop ∧ s.start ∈ ids ∧ s.stop ∈ ids ∧
      ∀ x ∈ ids, s.start ≤ x ∧ x ≤ s.stop := by
  match ids, hids with
  | [], _ => simp [hull?]
  | [x], _ =>
      simp only [hull?, List.mem_singleton, reduceCtorEq, false_iff]
      rintro ⟨hlt, rfl, he, _⟩
      exact absurd he (Nat.ne_of_gt hlt)
  | x :: y :: rest, hids =>
      obtain ⟨hx, hrest⟩ := List.pairwise_cons.mp hids
      have hlast : (y :: rest).getLastD y = (y :: rest).getLast (by simp) := by
        rw [List.getLastD_eq_getLast?, List.getLast?_eq_some_getLast (by simp), Option.getD_some]
      have hmem : (y :: rest).getLast (by simp) ∈ y :: rest := List.getLast_mem _
      have hmax : ∀ z ∈ y :: rest, z ≤ (y :: rest).getLast (by simp) := by
        intro z hz
        obtain ⟨i, hi, rfl⟩ := List.getElem_of_mem hz
        rw [List.getLast_eq_getElem]
        rcases Nat.lt_or_ge i ((y :: rest).length - 1) with hlt | hge
        · exact Nat.le_of_lt (List.pairwise_iff_getElem.mp hrest i _ hi (by simp) hlt)
        · have he : i = (y :: rest).length - 1 := by omega
          simp [he]
      rw [hull?, hlast]
      constructor
      · rintro ⟨⟩
        refine ⟨hx _ hmem, by simp, List.mem_cons_of_mem _ hmem, ?_⟩
        intro z hz
        rcases List.mem_cons.mp hz with rfl | hz
        · exact ⟨le_rfl, Nat.le_of_lt (hx _ hmem)⟩
        · exact ⟨Nat.le_of_lt (hx z hz), hmax z hz⟩
      · rintro ⟨hlt, hs, ht, hall⟩
        have h₁ : s.start = x := by
          rcases List.mem_cons.mp hs with he | hs
          · exact he
          · exact absurd (hall x (by simp)).1 (Nat.not_le.mpr (hx _ hs))
        have h₂ : s.stop = (y :: rest).getLast (by simp) := by
          rcases List.mem_cons.mp ht with he | ht
          · exact absurd (he.trans h₁.symm) (Nat.ne_of_gt hlt)
          · exact Nat.le_antisymm (hmax _ ht) (hall _ (List.mem_cons_of_mem _ hmem)).2
        rw [← h₁, ← h₂]

theorem membersOf_eq_filter (n : Nat) (rep : Nat → Nat) (r : Nat) :
    membersOf ((List.range n).map rep) r = (List.range n).filter (rep · == r) := by
  have hz : ((List.range n).map rep).zipIdx = (List.range n).map fun i => (rep i, i) := by
    apply List.ext_getElem
    · simp
    · intro i h₁ h₂
      simp
  simp [membersOf, hz, List.filter_map, Function.comp_def]

theorem mem_hulls_iff {n : Nat} {rep : Nat → Nat} (hrep : ∀ x < n, rep x < n) (s : Span) :
    s ∈ hulls ((List.range n).map rep) ↔ s.start < s.stop ∧ s.stop < n ∧ rep s.start = rep s.stop ∧
      ∀ x < n, rep x = rep s.start → s.start ≤ x ∧ x ≤ s.stop := by
  have hasc (r : Nat) : ((List.range n).filter (rep · == r)).Pairwise (· < ·) :=
    List.Pairwise.filter _ List.pairwise_lt_range
  simp only [hulls, List.mem_filterMap, List.length_map, List.length_range, membersOf_eq_filter,
    hull?_eq_some_iff (hasc _), List.mem_filter, List.mem_range, beq_iff_eq]
  constructor
  · rintro ⟨r, _, hlt, ⟨_, rfl⟩, ⟨hstop, he⟩, hall⟩
    exact ⟨hlt, hstop, he.symm, fun x hx hrx => hall x ⟨hx, hrx⟩⟩
  · rintro ⟨hlt, hstop, he, hall⟩
    have hstart := Nat.lt_trans hlt hstop
    exact ⟨rep s.start, hrep _ hstart, hlt, ⟨hstart, rfl⟩, ⟨hstop, he.symm⟩, fun x hx => hall x hx.1 hx.2⟩

theorem exists_hull?_eq_some {ids : List InstId} {x y : InstId} (hx : x ∈ ids) (hy : y ∈ ids) (hne : x ≠ y) :
    ∃ s, hull? ids = some s := by
  match ids with
  | [] => cases hx
  | [z] => exact absurd ((List.mem_singleton.mp hx).trans (List.mem_singleton.mp hy).symm) hne
  | z :: w :: rest => exact ⟨_, rfl⟩

theorem exists_hull {n : Nat} {rep : Nat → Nat} (hrep : ∀ x < n, rep x < n) {x y : Nat} (hx : x < n) (hy : y < n)
    (hne : x ≠ y) (he : rep x = rep y) :
    ∃ s ∈ hulls ((List.range n).map rep), s.contains x = true ∧ s.contains y = true := by
  have hxm : x ∈ (List.range n).filter (rep · == rep x) := by simp [hx]
  have hym : y ∈ (List.range n).filter (rep · == rep x) := by simp [hy, he]
  obtain ⟨s, hs⟩ := exists_hull?_eq_some hxm hym hne
  obtain ⟨_, _, _, hall⟩ := (hull?_eq_some_iff (List.Pairwise.filter _ List.pairwise_lt_range) s).mp hs
  refine ⟨s, ?_, Span.contains_iff.mpr (hall x hxm), Span.contains_iff.mpr (hall y hym)⟩
  simp only [hulls, List.mem_filterMap, List.length_map, List.length_range, List.mem_range, membersOf_eq_filter]
  exact ⟨rep x, hrep x hx, hs⟩

/-- A path of intervals from one member of a class to another passes over every id between them. -/
theorem joined_between_of_linked {facts : SideTable Facts} (hlt : ∀ s, MemoInterval facts s → s.start < s.stop)
    {a b : Nat} (h : UnionFind.Linked (memoPairs facts) a b) :
    a = b ∨ ∀ p, min a b ≤ p → p ≤ max a b → Span.Joined (MemoInterval facts) a p := by
  induction h with
  | rel a b hp =>
      have hs := mem_memoPairs_iff.mp hp
      have hab : a < b := hlt _ hs
      refine .inr fun p h₁ h₂ => Span.joined_of_mem hs ?_ ?_
      · exact Span.contains_iff.mpr ⟨le_rfl, hab.le⟩
      · exact Span.contains_iff.mpr ⟨by simpa [hab.le] using h₁, by simpa [hab.le] using h₂⟩
  | refl a => exact .inl rfl
  | symm a b _ ih =>
      rcases ih with rfl | ih
      · exact .inl rfl
      · refine .inr fun p h₁ h₂ => ?_
        have hab := ih b (min_le_right a b) (le_max_right a b)
        exact hab.symm.trans (ih p (by omega) (by omega))
  | trans a b c _ _ ih₁ ih₂ =>
      rcases ih₁ with rfl | ih₁
      · exact ih₂
      · rcases ih₂ with rfl | ih₂
        · exact .inr ih₁
        · refine .inr fun p h₁ h₂ => ?_
          by_cases hp : min a b ≤ p ∧ p ≤ max a b
          · exact ih₁ p hp.1 hp.2
          · have hab := ih₁ b (min_le_right a b) (le_max_right a b)
            exact hab.trans (ih₂ p (by omega) (by omega))

/-- The hulls of the classes join the same ids as the intervals that the classes are made of. -/
theorem joined_hulls_iff {facts : SideTable Facts} {rep : Nat → Nat}
    (hinterval : ∀ s, MemoInterval facts s → s.start < s.stop ∧ s.stop < facts.length)
    (hrep : ∀ x < facts.length, rep x < facts.length)
    (hlinked : ∀ x y, rep x = rep y ↔ UnionFind.Linked (memoPairs facts) x y) (p q : InstId) :
    Span.Joined (· ∈ hulls ((List.range facts.length).map rep)) p q ↔ Span.Joined (MemoInterval facts) p q := by
  constructor
  · refine Span.Joined.lift fun s hs p q hp hq => ?_
    obtain ⟨hlt, _, he, _⟩ := (mem_hulls_iff hrep s).mp hs
    have hbetween := (joined_between_of_linked (fun t ht => (hinterval t ht).1) ((hlinked _ _).mp he)).resolve_left
      (Nat.ne_of_lt hlt)
    have hto {id : InstId} (hid : s.contains id = true) : Span.Joined (MemoInterval facts) s.start id := by
      obtain ⟨h₁, h₂⟩ := Span.contains_iff.mp hid
      exact hbetween id ((min_le_left _ _).trans h₁) (h₂.trans (le_max_right _ _))
    exact (hto hp).symm.trans (hto hq)
  · refine Span.Joined.lift fun s hs p q hp hq => ?_
    obtain ⟨hlt, hstop⟩ := hinterval s hs
    have hstart := Nat.lt_trans hlt hstop
    have he : rep s.start = rep s.stop := (hlinked _ _).mpr (.rel _ _ (mem_memoPairs_iff.mpr hs))
    obtain ⟨t, ht, htstart, htstop⟩ := exists_hull hrep hstart hstop (Nat.ne_of_lt hlt) he
    have hsub {id : InstId} (hid : s.contains id = true) : t.contains id = true := by
      obtain ⟨h₁, h₂⟩ := Span.contains_iff.mp hid
      rw [Span.contains_iff] at htstart htstop ⊢
      exact ⟨htstart.1.trans h₁, h₂.trans htstop.2⟩
    exact Span.joined_of_mem ht (hsub hp) (hsub hq)

theorem mergedSpans_isMerge {facts : SideTable Facts}
    (hinterval : ∀ s, MemoInterval facts s → s.start < s.stop ∧ s.stop < facts.length) :
    Span.IsMerge (MemoInterval facts) (mergedSpans facts) := by
  have hpairs : ∀ p ∈ memoPairs facts, p.1 < facts.length ∧ p.2 < facts.length := by
    rintro ⟨x, m⟩ hp
    obtain ⟨hlt, hm⟩ := hinterval ⟨x, m⟩ (mem_memoPairs_iff.mp hp)
    exact ⟨Nat.lt_trans hlt hm, hm⟩
  obtain ⟨hsize, rep, hr, hlinked⟩ := UnionFind.unions_represent facts.length (memoPairs facts) hpairs
  rw [← groups_eq_foldl] at hsize hr
  have hroots : (groups facts).findAll (List.range facts.length) = (List.range facts.length).map rep :=
    hr.findAll_eq _ fun x hx => (List.mem_range.mp hx).trans_eq hsize.symm
  have hrep : ∀ x < facts.length, rep x < facts.length := by simpa only [hsize] using hr.rep_lt
  rw [mergedSpans, hroots]
  refine (Span.merge_mergeSort_isMerge _ ?_).congr (joined_hulls_iff hinterval hrep hlinked)
  intro s hs
  exact Nat.le_of_lt ((mem_hulls_iff hrep s).mp hs).1

namespace Body

variable {b : Body} (hb : b.Backward) (c : Config)

include hb

theorem memoInterval_bounds (s : Span) (hs : MemoInterval (b.analyze c) s) :
    s.start < s.stop ∧ s.stop < (b.analyze c).length := by
  rw [length_analyze]
  exact lt_of_mem_mutators hb hs.2

theorem mergedSpans_analyze_isMerge : Span.IsMerge (MemoInterval (b.analyze c)) (mergedSpans (b.analyze c)) :=
  mergedSpans_isMerge (memoInterval_bounds hb c)

theorem memoInterval_at_start {s : Span} (hs : s ∈ mergedSpans (b.analyze c)) :
    ∃ t, MemoInterval (b.analyze c) t ∧ t.start = s.start ∧ t.stop ≤ s.stop :=
  (mergedSpans_analyze_isMerge hb c).exists_start (fun t ht => Nat.le_of_lt (memoInterval_bounds hb c t ht).1) hs

theorem mergedSpans_bounds {s : Span} (hs : s ∈ mergedSpans (b.analyze c)) : s.start < s.stop ∧ s.stop < b.size := by
  have hm := mergedSpans_analyze_isMerge hb c
  obtain ⟨t, ht, hstart, hstop⟩ := memoInterval_at_start hb c hs
  obtain ⟨t', ht', hti'⟩ := (hm.covered_iff s.stop).mp ⟨s, hs, hm.contains_stop hs⟩
  obtain ⟨hlt, _⟩ := memoInterval_bounds hb c t ht
  obtain ⟨_, hsize⟩ := memoInterval_bounds hb c t' ht'
  rw [length_analyze] at hsize
  rw [hstart] at hlt
  exact ⟨Nat.lt_of_lt_of_le hlt hstop, Nat.lt_of_le_of_lt (Span.contains_iff.mp hti').2 hsize⟩

theorem memo_start {s : Span} (hs : s ∈ mergedSpans (b.analyze c)) : (factsAt (b.analyze c) s.start).memo = true := by
  obtain ⟨t, ht, hstart, _⟩ := memoInterval_at_start hb c hs
  rw [← hstart]
  exact ht.1

end Body

end Memoizer
