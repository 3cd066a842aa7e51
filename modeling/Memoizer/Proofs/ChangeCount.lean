import Memoizer.Proofs.Erasure
import Memoizer.Proofs.ModuleCompile

namespace Memoizer

variable {c : Config}

theorem Expr.RewrittenTo.eq_iff {e e' : Expr} (h : e.RewrittenTo c e') : e' = e ↔ ¬ e.Qualifies c := by
  rcases h with ⟨hq, rfl⟩ | ⟨hq, rfl⟩
  · exact iff_of_false (memoCall_ne c e _) (not_not_intro hq)
  · exact iff_of_true rfl hq

theorem forall₂_eq_iff_countP {α β : Type} {R : α → α → Prop} {parts : α → List β} {p : β → Bool}
    (hpart : ∀ a a', R a a' → (a' = a ↔ (parts a).countP p = 0)) {as as' : List α} (h : List.Forall₂ R as as') :
    as' = as ↔ (as.flatMap parts).countP p = 0 := by
  induction h with
  | nil => simp
  | cons hab _ ih => rw [List.cons.injEq, hpart _ _ hab, ih, List.flatMap_cons, List.countP_append, Nat.add_eq_zero_iff]

theorem Declarator.RewrittenTo.eq_iff {d d' : Declarator} (h : d.RewrittenTo c d') :
    d' = d ↔ (d.init.toList.countP fun e => decide (e.Qualifies c)) = 0 := by
  cases h with
  | bare target => exact iff_of_true rfl rfl
  | init target he => simp [he.eq_iff, Declarator.init]

theorem Stmt.RewrittenTo.eq_iff {s s' : Stmt} (h : s.RewrittenTo c s') :
    s' = s ↔ (s.inits.countP fun e => decide (e.Qualifies c)) = 0 := by
  cases h with
  | decl kind place hds =>
      have hds' := forall₂_eq_iff_countP (fun _ _ => Declarator.RewrittenTo.eq_iff) hds
      rw [Stmt.inits, ← hds']
      simp
  | ret | expr | verbatim => exact iff_of_true rfl rfl

namespace Function

variable {f : Function}

theorem wrapStmts_eq_iff (f : Function) (c : Config) :
    (f.wrapStmts c).value = f.body ↔ (f.wrapStmts c).count = 0 := by
  obtain ⟨hstmts, hcount⟩ := f.wrapStmts_spec c
  rw [hcount]
  exact forall₂_eq_iff_countP (fun _ _ => Stmt.RewrittenTo.eq_iff) hstmts

theorem compile_stmts_eq_iff {log log' : Log} {r : Compiled} (h : f.compile c log = .ok r log') :
    r.stmts = f.body ↔ r.memoBlocks + r.wrapped = 0 := by
  obtain ⟨_, items, _, _, rfl⟩ := compile_stages h
  rw [Nat.add_eq_zero_iff, List.length_eq_zero_iff, ← wrapStmts_eq_iff]
  constructor
  · intro hsame
    -- The wrapped statements are as many as the body has, so nothing stands in front of them.
    have hlength : (f.wrapStmts c).value.length = f.body.length := (f.wrapStmts_spec c).1.length_eq.symm
    exact List.append_inj' (hsame.trans (List.nil_append _).symm) hlength
  · rintro ⟨hdecls, hvalue⟩
    rw [hdecls, hvalue, List.nil_append]

theorem rewritten_eq_iff (h : f.Compiles c) :
    f.rewritten c = f ↔ (f.compiled c).memoBlocks + (f.compiled c).wrapped = 0 := by
  rw [← compile_stmts_eq_iff (compile_of_compiles h {})]
  constructor
  · intro hsame
    exact congrArg Function.body hsame
  · intro hbody
    rw [rewritten, hbody]

end Function

namespace Module

variable {m : Module}

theorem ofFunctions_eq_zero_iff (h : ∀ f ∈ m.functions, f.Compiles c) :
    (Stats.ofFunctions m.functions c).memoBlocks + (Stats.ofFunctions m.functions c).wrapped = 0 ↔
      ∀ f ∈ m.functions, f.rewritten c = f := by
  simp only [Stats.ofFunctions, Nat.add_eq_zero_iff, List.sum_eq_zero_iff_forall_eq_nat, List.forall_mem_map]
  constructor
  · rintro ⟨hblocks, hwrapped⟩ f hf
    exact (Function.rewritten_eq_iff (h f hf)).mpr (Nat.add_eq_zero_iff.mpr ⟨hblocks f hf, hwrapped f hf⟩)
  · intro hsame
    have hzero (f : Function) (hf : f ∈ m.functions) :=
      Nat.add_eq_zero_iff.mp ((Function.rewritten_eq_iff (h f hf)).mp (hsame f hf))
    exact ⟨fun f hf => (hzero f hf).1, fun f hf => (hzero f hf).2⟩

theorem functions_map_rewritten (m : Module) (c : Config) :
    Module.functions ⟨m.items.map (Item.rewritten c)⟩ = m.functions.map (·.rewritten c) := by
  rw [Module.functions, Module.functions, List.filterMap_map, List.map_filterMap]
  apply List.filterMap_congr
  intro item _
  cases item with
  | importDecl | function | raw => rfl

theorem map_rewritten_eq_self (h : ∀ f ∈ m.functions, f.rewritten c = f) :
    m.items.map (Item.rewritten c) = m.items := by
  have hitem : ∀ item ∈ m.items, Item.rewritten c item = id item := by
    intro item hmem
    cases item with
    | function f => exact congrArg Item.function (h f (List.mem_filterMap.mpr ⟨_, hmem, rfl⟩))
    | importDecl | raw => rfl
  rw [List.map_congr_left hitem, List.map_id]

theorem functions_compile (h : ∀ f ∈ m.functions, f.Compiles c) (log : Log) :
    (m.compile c log).result.functions = m.functions.map (·.rewritten c) := by
  rw [compile_of_compiles h log, ← functions_map_rewritten]
  split
  · exact (ensureRuntimeImport_keeps _ c).filterMap_function?
  · rfl

/-- The totals are zero exactly if the module stays as it is; if they are not, and imports are kept, the memo primitive is
imported under its own name. -/
theorem compile_unchanged_iff (m : Module) (c : Config) (log : Log) (stats : Stats)
    (h : (m.compile c log).outcome = .ok stats) :
    (stats.memoBlocks + stats.wrapped = 0 ↔ (m.compile c log).result = m) ∧
    (0 < stats.memoBlocks + stats.wrapped → c.passes.imports = true →
      ∃ i, .importDecl i ∈ (m.compile c log).result.items ∧ i.source = c.runtimeModule ∧
        .named c.memoPrimitive c.memoPrimitive ∈ i.specs) := by
  have hall := compiles_of_compile_ok h
  have hcompile := compile_of_compiles hall log
  have hzero := ofFunctions_eq_zero_iff hall
  -- An unchanged module has unchanged functions, and these are not counted.
  have hsame : (m.compile c log).result = m →
      (Stats.ofFunctions m.functions c).memoBlocks + (Stats.ofFunctions m.functions c).wrapped = 0 := by
    intro heq
    have hfunctions := functions_compile hall log
    rw [heq] at hfunctions
    rw [hzero]
    intro f hf
    exact (List.map_inj_left.mp (hfunctions.symm.trans (List.map_id _).symm)) f hf
  by_cases hchanged : 0 < (Stats.ofFunctions m.functions c).memoBlocks + (Stats.ofFunctions m.functions c).wrapped ∧
      c.passes.imports = true
  · rw [hcompile.trans (if_pos hchanged)] at h hsame ⊢
    cases h
    refine ⟨iff_of_false (Nat.ne_of_gt hchanged.1) fun heq => Nat.ne_of_gt hchanged.1 (hsame heq), fun _ _ => ?_⟩
    exact ensureRuntimeImport_binds _ c
  · rw [hcompile.trans (if_neg hchanged)] at h hsame ⊢
    cases h
    refine ⟨⟨fun hnone => ?_, hsame⟩, fun hpos himports => absurd ⟨hpos, himports⟩ hchanged⟩
    rw [map_rewritten_eq_self (hzero.mp hnone)]

end Module

/-- `function F(a) { return a; }`. -/
def returnsParam : Function := { sortedFilter [] "a" with body := [.ret (some (.ident "a")) none] }

theorem unchanged_returnsParam_changed_filterTwice :
    (Module.compile ⟨[.function returnsParam]⟩ {} {}).result = ⟨[.function returnsParam]⟩ ∧
    (filterTwice.compile {} {}).result ≠ filterTwice ∧
    ∃ i, .importDecl i ∈ (filterTwice.compile {} {}).result.items ∧ i.source = "react" ∧
      .named "useMemo" "useMemo" ∈ i.specs := by
  have hquiet : (Module.compile ⟨[.function returnsParam]⟩ {} {}).outcome = .ok { functions := 1 } := by
    cbv
  have htouched : (filterTwice.compile {} {}).outcome =
      .ok { functions := 2, memoBlocks := 2, importChanged := true } := by cbv
  have hsame := (Module.compile_unchanged_iff _ {} {} _ hquiet).1
  obtain ⟨hchanged, himport⟩ := Module.compile_unchanged_iff filterTwice {} {} _ htouched
  refine ⟨hsame.mp rfl, fun heq => ?_, himport (by decide) rfl⟩
  exact absurd (hchanged.mpr heq) (by decide)

end Memoizer
