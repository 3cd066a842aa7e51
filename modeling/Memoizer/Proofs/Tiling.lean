import Mathlib
import Memoizer.Proofs.Partition

namespace Memoizer

theorem range'_append_range' {lo mid hi : Nat} (hlo : lo ≤ mid) (hhi : mid ≤ hi) :
    List.range' lo (mid - lo) ++ List.range' mid (hi - mid) = List.range' lo (hi - lo) := by
  have hmid : lo + (mid - lo) = mid := Nat.add_sub_cancel' hlo
  have hlen : mid - lo + (hi - mid) = hi - lo := by omega
  rw [← hlen, ← List.range'_append_1, hmid]

namespace Body

variable {b : Body} {facts : SideTable Facts}

theorem ids_passes (start stop : InstId) :
    (passes start stop).flatMap PartItem.ids = List.range' start (stop - start) := by
  rw [passes, List.flatMap_map]
  exact List.flatMap_singleton' _

theorem spanItem_of_lt {span : Span} (hlt : span.start < span.stop) (hstop : span.stop < b.size) :
    b.spanItem facts span = .ok (.block (b.blockOf facts span)) := by
  have hne : ¬ (span.start = span.stop ∧ b.isDeclare span.start = true) := fun h => Nat.ne_of_lt hlt h.1
  rw [spanItem_eq_itemOf facts hstop, itemOf, if_neg hne]

theorem tile_cons_of_lt {next : InstId} {span : Span} {spans : List Span} {rest : List PartItem}
    (hnext : next ≤ span.start) (hlt : span.start < span.stop) (hstop : span.stop < b.size)
    (hrest : b.tile facts (span.stop + 1) spans = .ok rest) :
    b.tile facts next (span :: spans) = .ok (passes next span.start ++ .block (b.blockOf facts span) :: rest) := by
  have hstart : span.start < b.size := Nat.lt_trans hlt hstop
  rw [tile, Nat.max_eq_right hnext, if_pos hstart, Nat.min_eq_left (Nat.le_of_lt hstart), spanItem_of_lt hlt hstop, hrest]
  rfl

theorem tile_ids {next : InstId} {spans : List Span} (hasc : spans.Pairwise fun s t => s.stop < t.start)
    (hspans : ∀ s ∈ spans, s.start < s.stop ∧ s.stop < b.size) (hnext : ∀ s ∈ spans, next ≤ s.start)
    (hle : next ≤ b.size) :
    ∃ items, b.tile facts next spans = .ok items ∧
      items.flatMap PartItem.ids = List.range' next (b.size - next) := by
  induction spans generalizing next with
  | nil => exact ⟨passes next b.size, rfl, ids_passes next b.size⟩
  | cons span spans ih =>
      obtain ⟨hgap, hasc⟩ := List.pairwise_cons.mp hasc
      obtain ⟨⟨hlt, hstop⟩, hspans⟩ := List.forall_mem_cons.mp hspans
      have hfirst : next ≤ span.start := hnext span List.mem_cons_self
      obtain ⟨rest, hrest, hids⟩ := ih hasc hspans hgap hstop
      refine ⟨_, tile_cons_of_lt hfirst hlt hstop hrest, ?_⟩
      have hblock : PartItem.ids (.block (b.blockOf facts span)) =
          List.range' span.start (span.stop + 1 - span.start) := rfl
      rw [List.flatMap_append, List.flatMap_cons, ids_passes, hblock, hids,
        range'_append_range' (Nat.le_succ_of_le (Nat.le_of_lt hlt)) hstop,
        range'_append_range' hfirst (Nat.le_of_lt (Nat.lt_trans hlt hstop))]

end Body

/-- The block is its span of the body, with the changing values that are read there from in front of it. -/
structure Block.Exact (block : Block) (b : Body) (facts : SideTable Facts) : Prop where
  two_le_length : 2 ≤ block.span.ids.length
  keys_eq : block.insts.map Prod.fst = block.span.ids
  mem_insts_iff : ∀ id inst, (id, inst) ∈ block.insts ↔ id ∈ block.span.ids ∧ b.insts[id]? = some inst
  deps_ascending : block.deps.Pairwise (· < ·)
  mem_deps_iff : ∀ d, d ∈ block.deps ↔
    d < block.span.start ∧ ∃ id ∈ block.span.ids, d ∈ (factsAt facts id).dependencies
  mayChange_deps : ∀ d ∈ block.deps, (factsAt facts d).mayChange = true ∧ d ∉ block.span.ids

namespace Body

variable {b : Body} (hb : b.Backward) (c : Config)

include hb

theorem mayChange_of_mem_dependencies {id k : InstId} (h : k ∈ (factsAt (b.analyze c) id).dependencies) :
    (factsAt (b.analyze c) k).mayChange = true := by
  obtain ⟨op, ho⟩ := exists_op? (lt_size_of_mem_dependencies c h)
  obtain ⟨hk, hchange⟩ := (mem_dependencies_iff c ho k).mp h
  obtain ⟨op', ho'⟩ := exists_op? (operand_lt_size hb ho hk)
  rw [mayChange_analyze c ho']
  exact hchange

theorem block_exact {span : Span} (hspan : span ∈ mergedSpans (b.analyze c)) :
    (b.blockOf (b.analyze c) span).Exact b (b.analyze c) := by
  obtain ⟨hlt, hstop⟩ := mergedSpans_bounds hb c hspan
  refine ⟨?_, keys_blockOf hstop, fun id inst => ?_, IdSet.pairwise_ofList _, fun d => ?_, fun d hd => ⟨?_, ?_⟩⟩
  · rw [Body.span_blockOf, Span.ids, List.length_range', Span.size]
    lia
  · rw [Body.span_blockOf, Span.mem_ids_iff, mem_insts_blockOf_iff]
  · rw [Body.span_blockOf]
    constructor
    · intro hd
      obtain ⟨⟨id, hid, hread⟩, _⟩ := mem_deps_blockOf_iff.mp hd
      exact ⟨lt_start_of_mem_deps hb c hd, id, Span.mem_ids_iff.mpr hid, hread⟩
    · rintro ⟨hfront, id, hid, hread⟩
      refine mem_deps_blockOf_iff.mpr ⟨⟨id, Span.mem_ids_iff.mp hid, hread⟩, fun hin => ?_⟩
      exact absurd hfront (Nat.not_lt.mpr (Span.contains_iff.mp (mem_keys_blockOf_iff.mp hin).1).1)
  · obtain ⟨⟨id, _, hread⟩, _⟩ := mem_deps_blockOf_iff.mp hd
    exact mayChange_of_mem_dependencies hb c hread
  · intro hin
    have hfront := lt_start_of_mem_deps hb c hd
    exact absurd (Span.contains_iff.mp (Span.mem_ids_iff.mp hin)).1 (Nat.not_le.mpr hfront)

theorem exists_partition : ∃ items, b.partition (b.analyze c) = .ok items := by
  obtain ⟨items, hitems, _⟩ := tile_ids (mergedSpans_analyze_isMerge hb c).ascending (fun s hs => mergedSpans_bounds hb c hs)
    (fun s _ => Nat.zero_le s.start) (Nat.zero_le b.size)
  exact ⟨items, hitems⟩

end Body

end Memoizer
