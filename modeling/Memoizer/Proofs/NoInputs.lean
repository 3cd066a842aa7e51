import Mathlib
import Memoizer.Proofs.ChangeCount
import Memoizer.Proofs.Reachability
import Memoizer.Proofs.Tiling

namespace Memoizer

namespace Body

variable {b : Body} (hb : b.Backward) {c : Config} (hnone : ∀ inst ∈ b.insts, ¬ b.IsInput c inst.op)

include hb hnone

theorem mayChange_eq_false (id : InstId) : (factsAt (b.analyze c) id).mayChange = false := by
  cases ho : b.op? id with
  | none => rw [factsAt_analyze_of_size_le c (op?_eq_none_iff.mp ho)]
  | some op =>
      rw [Bool.eq_false_iff, Ne, mayChange_iff hb c ho]
      -- A chain of operands would have to end at an input.
      rintro ⟨k, source, _, hk, hinput⟩
      obtain ⟨place, hi⟩ := op?_eq_some_iff.mp hk
      exact hnone _ (List.mem_of_getElem? hi) hinput

theorem dependencies_eq_nil (id : InstId) : (factsAt (b.analyze c) id).dependencies = [] := by
  rw [List.eq_nil_iff_forall_not_mem]
  intro k hk
  have hchange := mayChange_of_mem_dependencies hb c hk
  rw [mayChange_eq_false hb hnone k] at hchange
  cases hchange

theorem mergedSpans_eq_nil : mergedSpans (b.analyze c) = [] := by
  rw [List.eq_nil_iff_forall_not_mem]
  intro span hspan
  obtain ⟨hlt, hstop⟩ := mergedSpans_bounds hb c hspan
  obtain ⟨op, ho⟩ := exists_op? (Nat.lt_trans hlt hstop)
  exact ((memo_iff c ho).mp (memo_start hb c hspan)).2 (dependencies_eq_nil hb hnone span.start)

end Body

theorem FunctionAnalysis.memoDecls_eq_nil {a : FunctionAnalysis} (c : Config) (h : blocksOf a.items = []) :
    (a.memoDecls c).1 = [] := by
  rw [List.eq_nil_iff_forall_not_mem]
  intro stmt hstmt
  obtain ⟨k, hk⟩ := List.mem_iff_getElem?.mp hstmt
  obtain ⟨block, hblock, _⟩ := memoDecls_getElem? hk
  rw [h] at hblock
  cases hblock

/-- A function into which nothing comes has no dependencies and no blocks, and it stays as it is exactly if none of its
initializers qualifies for wrapping. -/
theorem Function.unchanged_without_inputs_iff (f : Function) (c : Config) (log log₁ log' : Log) (body : Body) (r : Compiled)
    (hlower : f.lower log = .ok body log₁) (hnone : ∀ inst ∈ body.insts, ¬ body.IsInput c inst.op)
    (h : f.compile c log = .ok r log') :
    (∀ id, (factsAt (body.analyze c) id).dependencies = []) ∧
    (∃ items, body.partition (body.analyze c) = .ok items ∧ blocksOf items = []) ∧ r.memoBlocks = 0 ∧
    (r.stmts = f.body ↔ ∀ e ∈ f.body.flatMap Stmt.inits, ¬ e.Qualifies c) := by
  obtain ⟨log₂, items, hrun, hitems, rfl⟩ := compile_stages h
  obtain ⟨rfl, rfl⟩ := EStateM.Result.ok.inj (hrun.symm.trans hlower)
  have hb := f.emitted_backward log
  have hblocks : blocksOf items = [] := by
    rw [Body.blocksOf_partition_analyze hb c hitems, Body.mergedSpans_eq_nil hb hnone, List.map_nil]
  refine ⟨Body.dependencies_eq_nil hb hnone, ⟨items, hitems, hblocks⟩, ?_, ?_⟩
  · rw [FunctionAnalysis.memoDecls_eq_nil c hblocks]
    rfl
  · rw [FunctionAnalysis.memoDecls_eq_nil c hblocks, List.nil_append, wrapStmts_eq_iff, (f.wrapStmts_spec c).2,
      List.countP_eq_zero]
    simp only [decide_eq_true_eq]

/-- `function F() { const c = value; return g(c); }`. -/
def declaringGlobals (value : Expr) : Function where
  name := "F"
  params := []
  body := [.decl .const [.mk (.ident "c") (some value)] none, .ret (some (.call (.ident "g") [.ident "c"])) none]
  async := false
  generator := false
  exported := .none
  place := none

def mappedGlobals : Expr := .call (.member (.ident "xs") (.name "map")) [.ident "f"]

theorem unchanged_object_of_globals : ∃ body log₁ r log',
    (declaringGlobals (.object [.property (.ident "v") mappedGlobals false])).lower {} = .ok body log₁ ∧
    (∀ inst ∈ body.insts, ¬ body.IsInput {} inst.op) ∧
    (declaringGlobals (.object [.property (.ident "v") mappedGlobals false])).compile {} {} = .ok r log' ∧
    r.memoBlocks = 0 ∧ r.stmts = (declaringGlobals (.object [.property (.ident "v") mappedGlobals false])).body := by
  let f := declaringGlobals (.object [.property (.ident "v") mappedGlobals false])
  have hlower : f.lower {} = .ok (f.emitted {}) ⟨[⟨.info, "lowered `F`: 8 instructions"⟩]⟩ := by cbv
  have hnone : ∀ inst ∈ (f.emitted {}).insts, ¬ (f.emitted {}).IsInput {} inst.op := by decide +kernel
  have hcompile : f.compile {} {} = .ok ⟨f.body, 0, 0⟩
      ⟨[⟨.info, "lowered `F`: 8 instructions"⟩, ⟨.info, "`F`: nothing to memoize"⟩]⟩ := by cbv
  obtain ⟨_, _, hblocks, hiff⟩ := Function.unchanged_without_inputs_iff f {} {} _ _ _ _ hlower hnone hcompile
  exact ⟨_, _, _, _, hlower, hnone, hcompile, hblocks, hiff.mpr (by decide +kernel)⟩

/-- Nothing comes into the function, and it is changed. -/
theorem changed_call_of_globals : ∃ body log₁ r log',
    (declaringGlobals mappedGlobals).lower {} = .ok body log₁ ∧ (∀ inst ∈ body.insts, ¬ body.IsInput {} inst.op) ∧
    (declaringGlobals mappedGlobals).compile {} {} = .ok r log' ∧ r.memoBlocks = 0 ∧
    r.stmts = [.decl .const [.mk (.ident "c") (some (memoCall {} mappedGlobals ["xs", "f"]))] none,
      .ret (some (.call (.ident "g") [.ident "c"])) none] ∧
    r.stmts ≠ (declaringGlobals mappedGlobals).body := by
  let f := declaringGlobals mappedGlobals
  have hlower : f.lower {} = .ok (f.emitted {}) ⟨[⟨.info, "lowered `F`: 7 instructions"⟩]⟩ := by cbv
  have hcompile : f.compile {} {} = .ok
      ⟨[.decl .const [.mk (.ident "c") (some (memoCall {} mappedGlobals ["xs", "f"]))] none,
        .ret (some (.call (.ident "g") [.ident "c"])) none], 0, 1⟩
      ⟨[⟨.info, "lowered `F`: 7 instructions"⟩, ⟨.info, "wrapped `c` in useMemo [xs, f]"⟩,
        ⟨.success, "`F`: 0 memo block(s), 1 direct rewrite(s)"⟩]⟩ := by cbv
  refine ⟨_, _, _, _, hlower, by decide +kernel, hcompile, rfl, rfl, fun hsame => ?_⟩
  have hchanged := (Function.compile_stmts_eq_iff hcompile).mp hsame
  cases hchanged

end Memoizer
