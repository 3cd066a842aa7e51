import Mathlib.Data.List.Perm.Subperm
import Memoizer.Partition.Basic
import Memoizer.Proofs.MergedSpans

namespace Memoizer

def PartItem.block? : PartItem → Option Block
  | .pass _ => none
  | .block b => some b

def blocksOf (items : List PartItem) : List Block := items.filterMap PartItem.block?

theorem blocksOf_append (items rest : List PartItem) : blocksOf (items ++ rest) = blocksOf items ++ blocksOf rest :=
  List.filterMap_append

theorem blocksOf_passes (start stop : InstId) : blocksOf (Body.passes start stop) = [] := by
  simp [blocksOf, Body.passes, PartItem.block?]

theorem Body.span_blockOf (b : Body) (facts : SideTable Facts) (span : Span) : (b.blockOf facts span).span = span := rfl

namespace Body

def itemOf (b : Body) (facts : SideTable Facts) (span : Span) : PartItem :=
  if span.start = span.stop ∧ b.isDeclare span.start = true then .pass span.start
  else .block (b.blockOf facts span)

variable {b : Body} {facts : SideTable Facts}

theorem spanItem_eq_itemOf (facts : SideTable Facts) {span : Span} (hstop : span.stop < b.size) :
    b.spanItem facts span = .ok (b.itemOf facts span) := by
  rw [spanItem, if_pos (Span.all_ids_lt hstop), itemOf]
  simp only [Bool.and_eq_true, beq_iff_eq]
  split <;> rfl

/-- The ways in which the walk takes a span: it makes an item of it and goes on behind it, or it has reached the
end of the body. -/
theorem tile_cons_cases {next : InstId} {span : Span} {spans : List Span} {items : List PartItem}
    (h : b.tile facts next (span :: spans) = .ok items) :
    (∃ item rest, b.spanItem facts span = .ok item ∧ b.tile facts (span.stop + 1) spans = .ok rest ∧
      items = passes next (min span.start b.size) ++ item :: rest) ∨
    b.size ≤ max next span.start ∧ items = passes next (min span.start b.size) := by
  rw [tile] at h
  split at h
  · cases hitem : b.spanItem facts span with
    | error e => rw [hitem] at h; cases h
    | ok item =>
        cases hrest : b.tile facts (span.stop + 1) spans with
        | error e => rw [hitem, hrest] at h; cases h
        | ok rest =>
            rw [hitem, hrest] at h
            cases h
            exact .inl ⟨item, rest, rfl, rfl, rfl⟩
  next hend =>
    cases h
    exact .inr ⟨Nat.not_lt.mp hend, rfl⟩

theorem blocksOf_passes_append (start stop : InstId) (item : PartItem) (rest : List PartItem) :
    blocksOf (passes start stop ++ item :: rest) = blocksOf [item] ++ blocksOf rest := by
  rw [← List.singleton_append, blocksOf_append, blocksOf_append, blocksOf_passes, List.nil_append]

theorem blocksOf_spanItem {span : Span} {item : PartItem} (h : b.spanItem facts span = .ok item) :
    blocksOf [item] = [] ∨ blocksOf [item] = [b.blockOf facts span] := by
  rw [spanItem] at h
  split at h
  · split at h
    · cases h; exact .inl rfl
    · cases h; exact .inr rfl
  · cases h

theorem blocksOf_spanItem_of_lt {span : Span} {item : PartItem} (hlt : span.start < span.stop)
    (h : b.spanItem facts span = .ok item) : blocksOf [item] = [b.blockOf facts span] := by
  have hne : (span.start == span.stop) = false := by simpa using Nat.ne_of_lt hlt
  rw [spanItem, hne, Bool.false_and] at h
  split at h
  · cases h; rfl
  · cases h

theorem blocksOf_tile {next : InstId} {spans : List Span} {items : List PartItem}
    (h : b.tile facts next spans = .ok items) :
    (blocksOf items).Sublist (spans.map (b.blockOf facts)) := by
  induction spans generalizing next items with
  | nil =>
      cases h
      rw [blocksOf_passes]
      exact List.nil_sublist _
  | cons span spans ih =>
      rcases tile_cons_cases h with ⟨item, rest, hitem, hrest, rfl⟩ | ⟨_, rfl⟩
      · rw [blocksOf_passes_append, List.map_cons]
        rcases blocksOf_spanItem hitem with hnone | hone
        · rw [hnone]
          exact (ih hrest).cons _
        · rw [hone]
          exact (ih hrest).cons_cons _
      · rw [blocksOf_passes]
        exact List.nil_sublist _

/-- Where the spans stand behind each other and have more than one member, none is left out. -/
theorem blocksOf_tile_of_ascending {next : InstId} {spans : List Span} {items : List PartItem}
    (hasc : spans.Pairwise fun s t => s.stop < t.start) (hspans : ∀ s ∈ spans, s.start < s.stop ∧ s.stop < b.size)
    (hnext : ∀ s ∈ spans, next ≤ s.start) (h : b.tile facts next spans = .ok items) :
    blocksOf items = spans.map (b.blockOf facts) := by
  induction spans generalizing next items with
  | nil =>
      cases h
      exact blocksOf_passes _ _
  | cons span spans ih =>
      obtain ⟨hgap, hasc⟩ := List.pairwise_cons.mp hasc
      obtain ⟨⟨hlt, hstop⟩, hspans⟩ := List.forall_mem_cons.mp hspans
      rcases tile_cons_cases h with ⟨item, rest, hitem, hrest, rfl⟩ | ⟨hend, _⟩
      · rw [blocksOf_passes_append, blocksOf_spanItem_of_lt hlt hitem, ih hasc hspans hgap hrest]
        rfl
      · rw [Nat.max_eq_right (hnext span List.mem_cons_self)] at hend
        exact absurd (Nat.lt_trans hlt hstop) (Nat.not_lt.mpr hend)

theorem blocksOf_partition {items : List PartItem} (h : b.partition facts = .ok items) :
    (blocksOf items).Sublist ((mergedSpans facts).map (b.blockOf facts)) :=
  blocksOf_tile h

theorem mem_insts_blockOf_iff {span : Span} {id : InstId} {inst : Inst} : (id, inst) ∈ (b.blockOf facts span).insts ↔
    span.contains id = true ∧ b.insts[id]? = some inst := by
  simp only [blockOf, List.mem_filterMap, Option.map_eq_some_iff, Prod.mk.injEq, Span.mem_ids_iff]
  constructor
  · rintro ⟨k, hk, i, hi, rfl, rfl⟩
    exact ⟨hk, hi⟩
  · rintro ⟨hid, hi⟩
    exact ⟨id, hid, inst, hi, rfl, rfl⟩

theorem keys_blockOf {span : Span} (hstop : span.stop < b.size) : (b.blockOf facts span).keys = span.ids := by
  rw [Block.keys, blockOf, List.map_filterMap]
  have hsome : ∀ id ∈ span.ids, (((b.insts.get? id).map (id, ·)).map Prod.fst : Option InstId) = some id := by
    intro id hid
    have hlt : id < b.insts.length := Span.lt_of_mem_ids hid hstop
    rw [Arena.get?, List.getElem?_eq_getElem hlt]
    rfl
  rw [List.filterMap_congr hsome, List.filterMap_some]

theorem mem_keys_blockOf_iff {span : Span} {id : InstId} : id ∈ (b.blockOf facts span).keys ↔
    span.contains id = true ∧ id < b.size := by
  rw [Block.keys, List.mem_map]
  constructor
  · rintro ⟨⟨k, inst⟩, hin, rfl⟩
    obtain ⟨hk, hi⟩ := mem_insts_blockOf_iff.mp hin
    exact ⟨hk, (List.getElem?_eq_some_iff.mp hi).1⟩
  · rintro ⟨hid, hlt⟩
    exact ⟨_, mem_insts_blockOf_iff.mpr ⟨hid, List.getElem?_eq_getElem hlt⟩, rfl⟩

theorem mem_deps_blockOf_iff {span : Span} {d : InstId} : d ∈ (b.blockOf facts span).deps ↔
    (∃ id, span.contains id = true ∧ d ∈ (factsAt facts id).dependencies) ∧ d ∉ (b.blockOf facts span).keys := by
  have hkeys : (b.blockOf facts span).keys = (b.blockOf facts span).insts.map Prod.fst := rfl
  rw [hkeys]
  simp [blockOf, Span.mem_ids_iff]

variable (hb : b.Backward) (c : Config)

include hb

theorem lt_start_of_mem_deps {span : Span} {d : InstId} (h : d ∈ (b.blockOf (b.analyze c) span).deps) :
    d < span.start := by
  obtain ⟨⟨id, hid, hd⟩, hout⟩ := mem_deps_blockOf_iff.mp h
  by_contra hge
  have hlt := dependency_lt hb c hd
  have hin : span.contains d = true :=
    Span.contains_iff.mpr ⟨Nat.not_lt.mp hge, Nat.le_of_lt (Nat.lt_of_lt_of_le hlt (Span.contains_iff.mp hid).2)⟩
  exact hout (mem_keys_blockOf_iff.mpr ⟨hin, Nat.lt_trans hlt (lt_size_of_mem_dependencies c hd)⟩)

theorem blocksOf_partition_analyze {items : List PartItem} (h : b.partition (b.analyze c) = .ok items) :
    blocksOf items = (mergedSpans (b.analyze c)).map (b.blockOf (b.analyze c)) :=
  blocksOf_tile_of_ascending (mergedSpans_analyze_isMerge hb c).ascending (fun _ hs => mergedSpans_bounds hb c hs)
    (fun s _ => Nat.zero_le s.start) h

/-- A merged span reads a changing value from in front of it, since its first member does. -/
theorem deps_blockOf_ne_nil {span : Span} (hs : span ∈ mergedSpans (b.analyze c)) :
    (b.blockOf (b.analyze c) span).deps ≠ [] := by
  obtain ⟨hlt, hstop⟩ := mergedSpans_bounds hb c hs
  obtain ⟨op, ho⟩ := exists_op? (Nat.lt_trans hlt hstop)
  obtain ⟨_, hreads⟩ := (memo_iff c ho).mp (memo_start hb c hs)
  obtain ⟨d, hd⟩ := List.exists_mem_of_ne_nil _ hreads
  have hout : d ∉ (b.blockOf (b.analyze c) span).keys := by
    intro hin
    obtain ⟨hge, _⟩ := Span.contains_iff.mp (mem_keys_blockOf_iff.mp hin).1
    exact absurd (dependency_lt hb c hd) (Nat.not_lt.mpr hge)
  have hstart : span.contains span.start = true := Span.contains_iff.mpr ⟨le_rfl, Nat.le_of_lt hlt⟩
  exact List.ne_nil_of_mem (mem_deps_blockOf_iff.mpr ⟨⟨span.start, hstart, hd⟩, hout⟩)

theorem length_mergedSpans_le : (mergedSpans (b.analyze c)).length ≤ b.size := by
  have hnodup : ((mergedSpans (b.analyze c)).map Span.start).Nodup := by
    rw [List.Nodup, List.pairwise_map]
    refine (mergedSpans_analyze_isMerge hb c).ascending.imp_of_mem ?_
    intro s t hs _ hlt
    exact Nat.ne_of_lt (Nat.lt_trans (mergedSpans_bounds hb c hs).1 hlt)
  have hsub : (mergedSpans (b.analyze c)).map Span.start ⊆ List.range b.size := by
    intro x hx
    obtain ⟨s, hs, rfl⟩ := List.mem_map.mp hx
    obtain ⟨hlt, hstop⟩ := mergedSpans_bounds hb c hs
    exact List.mem_range.mpr (Nat.lt_trans hlt hstop)
  simpa using (List.subperm_of_subset hnodup hsub).length_le

end Body

end Memoizer
