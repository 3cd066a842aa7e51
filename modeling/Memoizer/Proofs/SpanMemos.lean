import Mathlib
import Memoizer.Proofs.MemoDecl

namespace Memoizer

theorem firstOccurrences_append (names : List String) (name : String) : firstOccurrences (names ++ [name]) =
    if name ∈ names then firstOccurrences names else firstOccurrences names ++ [name] := by
  have hstep : firstOccurrences (names ++ [name]) = if (firstOccurrences names).contains name then
      firstOccurrences names else firstOccurrences names ++ [name] := by
    rw [firstOccurrences, List.foldl_append]
    rfl
  rw [hstep]
  simp only [List.contains_iff_mem, mem_firstOccurrences]

theorem firstOccurrences_eq_eraseDups (names : List String) : firstOccurrences names = names.eraseDups := by
  induction names using List.reverseRecOn with
  | nil => rfl
  | append_singleton names name ih =>
      rw [firstOccurrences_append, List.eraseDups_append, ← ih]
      by_cases hin : name ∈ names
      · simp [hin, List.removeAll]
      · simp [hin, List.removeAll, List.eraseDups_cons]

theorem nodup_firstOccurrences (names : List String) : (firstOccurrences names).Nodup := by
  induction names using List.reverseRecOn with
  | nil => exact .nil
  | append_singleton names name ih =>
      rw [firstOccurrences_append]
      split
      · exact ih
      next hout =>
        refine List.nodup_append.mpr ⟨ih, List.nodup_singleton name, ?_⟩
        rintro first hfirst last hlast rfl
        rw [List.mem_singleton] at hlast
        subst hlast
        exact hout (mem_firstOccurrences.mp hfirst)

namespace Body

variable {b : Body} {c : Config} {facts : SideTable Facts} {items : List PartItem}

theorem memoDecls_eq_mapIdx
    (h : ∀ block ∈ blocksOf items, ∀ n, (b.memoDecl c facts n block).decl = some (b.memoStmt c n block block.span.start))
    (n : Nat) : (b.memoDecls c facts n items).1 =
      (blocksOf items).mapIdx fun k block => b.memoStmt c (n + k) block block.span.start := by
  induction items generalizing n with
  | nil => rfl
  | cons item items ih =>
      cases item with
      | pass id => exact ih h n
      | block block =>
          obtain ⟨hblock, hrest⟩ := List.forall_mem_cons.mp h
          have hsplit : blocksOf (.block block :: items) = block :: blocksOf items := rfl
          rw [memoDecls, hsplit, List.mapIdx_cons]
          simp only [hblock n, Option.toList_some, List.length_singleton, List.singleton_append, Nat.add_zero]
          rw [ih hrest (n + 1)]
          congr 2
          funext k other
          rw [Nat.add_assoc, Nat.add_comm 1 k]

section Merged

variable (hb : b.Backward) (c : Config)

include hb

theorem find?_memo_ids {span : Span} (hspan : span ∈ mergedSpans (b.analyze c)) :
    (span.ids.find? fun id => (factsAt (b.analyze c) id).memo) = some span.start := by
  obtain ⟨hlt, _⟩ := mergedSpans_bounds hb c hspan
  have hsize : span.size = span.stop - span.start + 1 := by
    rw [Span.size]
    exact Nat.succ_sub hlt.le
  rw [Span.ids, hsize, List.range'_succ]
  exact List.find?_cons_of_pos (memo_start hb c hspan)

theorem memoDecl_blockOf {span : Span} (hspan : span ∈ mergedSpans (b.analyze c)) (n : Nat) :
    (b.memoDecl c (b.analyze c) n (b.blockOf (b.analyze c) span)).decl =
      some (b.memoStmt c n (b.blockOf (b.analyze c) span) span.start) := by
  have hdeps : (b.blockOf (b.analyze c) span).deps.isEmpty = false := by
    simpa using deps_blockOf_ne_nil hb c hspan
  rw [memoDecl, hdeps, keys_blockOf (mergedSpans_bounds hb c hspan).2, find?_memo_ids hb c hspan]
  rfl

theorem memoDecls_partition (hitems : b.partition (b.analyze c) = .ok items) :
    (b.memoDecls c (b.analyze c) 0 items).1 = (mergedSpans (b.analyze c)).mapIdx fun k span =>
      b.memoStmt c k (b.blockOf (b.analyze c) span) span.start := by
  have hblocks := blocksOf_partition_analyze hb c hitems
  rw [memoDecls_eq_mapIdx, hblocks]
  · apply List.ext_getElem?
    intro k
    simp only [List.getElem?_mapIdx, List.getElem?_map, Option.map_map, Nat.zero_add]
    rfl
  · intro block hblock n
    rw [hblocks] at hblock
    obtain ⟨span, hspan, rfl⟩ := List.mem_map.mp hblock
    exact memoDecl_blockOf hb c hspan n

end Merged

end Body

theorem Function.getElem?_stmts_of_lt {f : Function} {c : Config} {log log' : Log} {r : Compiled}
    (h : f.compile c log = .ok r log') {k : Nat} (hk : k < r.memoBlocks) :
    ∃ span, (mergedSpans ((f.emitted log).analyze c))[k]? = some span ∧
      r.stmts[k]? = some ((f.emitted log).memoStmt c k ((f.emitted log).blockOf ((f.emitted log).analyze c) span) span.start) := by
  obtain ⟨_, items, _, hitems, rfl⟩ := compile_stages h
  have hdecls := Body.memoDecls_partition (f.emitted_backward log) c hitems
  cases hon : c.passes.irBlocks with
  | false => simp [FunctionAnalysis.memoDecls, hon] at hk
  | true =>
      simp only [FunctionAnalysis.memoDecls, hon, if_true, hdecls, List.length_mapIdx] at hk ⊢
      refine ⟨_, List.getElem?_eq_getElem hk, ?_⟩
      rw [List.getElem?_append_left (by simpa using hk), List.getElem?_mapIdx, List.getElem?_eq_getElem hk]
      rfl

end Memoizer
