import Mathlib
import Memoizer.Proofs.ChangeCount
import Memoizer.Proofs.Rejection
import Memoizer.Proofs.Tiling

namespace Memoizer

namespace Function

variable {f : Function} {c : Config}

/-- A function compiles under one configuration if it does under another: only its parameters and its declarations
count. -/
theorem compiles_iff :
    f.Compiles c ↔ (∀ p ∈ f.params, ¬ p.HasOddKey) ∧ ∀ stmt ∈ f.body, stmt.Initialized := by
  constructor
  · rintro ⟨r, own, hcompile⟩
    obtain ⟨log', _, hlower, _⟩ := compile_stages hcompile
    by_contra hturned
    obtain ⟨e, _, herror⟩ := lower_error_iff.mpr hturned
    rw [hlower] at herror
    cases herror
  · intro h
    rcases f.lower_cases {} with ⟨log', hlower⟩ | ⟨cause, log', hlower⟩
    · -- Behind lowering nothing fails.
      obtain ⟨items, hitems⟩ := Body.exists_partition (f.emitted_backward {}) c
      exact ⟨_, _, compile_of_analyze_ok (analyze_of_lower_ok hlower hitems)⟩
    · exact absurd h (lower_error_iff.mp ⟨_, _, hlower⟩)

end Function

def Expr.Settled (c : Config) (e : Expr) : Prop := ∀ deps, e.wrapping c ≠ .wrap deps

section Settled

variable (c : Config)

theorem Expr.settled_memoCall (value : Expr) (deps : List String) : (memoCall c value deps).Settled c := by
  intro deps' h
  have hkeep : (memoCall c value deps).wrapping c = .keep := rfl
  rw [hkeep] at h
  cases h

theorem Expr.settled_wrapped (e : Expr) : (e.wrapped c).Settled c := by
  rw [wrapped]
  cases hw : e.wrapping c with
  | wrap deps => exact settled_memoCall c e deps
  | keep | unreadable =>
      intro deps h
      rw [hw] at h
      cases h

theorem Declarator.wrap_of_settled {d : Declarator} (h : ∀ e ∈ d.init, e.Settled c) :
    (d.wrap c).value = d ∧ (d.wrap c).count = 0 := by
  obtain ⟨target, _ | e⟩ := d
  · exact ⟨rfl, rfl⟩
  · rw [Declarator.wrap]
    cases hw : e.wrapping c with
    | keep | unreadable => exact ⟨rfl, rfl⟩
    | wrap deps => exact absurd hw (h e rfl deps)

theorem wrapEach_eq_self {α : Type} {f : α → Wrapped α} {as : List α}
    (h : ∀ a ∈ as, (f a).value = a ∧ (f a).count = 0) : (wrapEach f as).value = as ∧ (wrapEach f as).count = 0 := by
  induction as with
  | nil => exact ⟨rfl, rfl⟩
  | cons a as ih =>
      obtain ⟨⟨hvalue, hcount⟩, htail⟩ := List.forall_mem_cons.mp h
      obtain ⟨hvalues, hcounts⟩ := ih htail
      rw [wrapEach, Wrapped.cons, hvalue, hvalues, hcount, hcounts]
      exact ⟨rfl, rfl⟩

theorem Stmt.wrap_of_settled {s : Stmt} (h : ∀ e ∈ s.inits, e.Settled c) :
    (s.wrap c).value = s ∧ (s.wrap c).count = 0 := by
  cases s with
  | decl kind declarators place =>
      have hds : (wrapEach (Declarator.wrap c) declarators).value = declarators ∧
          (wrapEach (Declarator.wrap c) declarators).count = 0 := by
        apply wrapEach_eq_self
        intro d hd
        apply Declarator.wrap_of_settled
        intro e he
        exact h e (List.mem_flatMap.mpr ⟨d, hd, Option.mem_toList.mpr he⟩)
      rw [Stmt.wrap, Wrapped.map, hds.1, hds.2]
      exact ⟨rfl, rfl⟩
  | ret | expr | verbatim => exact ⟨rfl, rfl⟩

theorem wrapInitializers_of_settled {stmts : List Stmt} (h : ∀ e ∈ stmts.flatMap Stmt.inits, e.Settled c) :
    (wrapInitializers c stmts).value = stmts ∧ (wrapInitializers c stmts).count = 0 := by
  apply wrapEach_eq_self
  intro s hs
  apply Stmt.wrap_of_settled
  intro e he
  exact h e (List.mem_flatMap.mpr ⟨s, hs, he⟩)

theorem Stmt.inits_wrap (s : Stmt) : (s.wrap c).value.inits = s.inits.map (Expr.wrapped c) := by
  cases s with
  | decl kind declarators place =>
      rw [Stmt.wrap, Wrapped.map, inits, inits, value_wrapEach, List.flatMap_map, List.map_flatMap]
      apply List.flatMap_congr
      intro d _
      rw [Declarator.init_wrap]
      cases d.init <;> rfl
  | ret | expr | verbatim => rfl

theorem settled_inits_wrapInitializers (stmts : List Stmt) :
    ∀ e ∈ (wrapInitializers c stmts).value.flatMap Stmt.inits, e.Settled c := by
  intro e he
  rw [wrapInitializers, value_wrapEach, List.flatMap_map] at he
  obtain ⟨s, _, hs⟩ := List.mem_flatMap.mp he
  rw [Stmt.inits_wrap] at hs
  obtain ⟨e', _, rfl⟩ := List.mem_map.mp hs
  exact e'.settled_wrapped c

end Settled

theorem forall_mem_of_forall₂ {α β : Type} {R : α → β → Prop} {p : α → Prop} {q : β → Prop}
    (hstep : ∀ a b, R a b → p a → q b) {as : List α} {bs : List β} (h : List.Forall₂ R as bs) (hp : ∀ a ∈ as, p a) :
    ∀ b ∈ bs, q b := by
  induction h with
  | nil => exact List.forall_mem_nil _
  | cons hab _ ih =>
      obtain ⟨ha, has⟩ := List.forall_mem_cons.mp hp
      exact List.forall_mem_cons.mpr ⟨hstep _ _ hab ha, ih has⟩

theorem Declarator.RewrittenTo.isSome_init {c : Config} {d d' : Declarator} (h : d.RewrittenTo c d')
    (hinit : d.init.isSome = true) : d'.init.isSome = true := by
  cases h with
  | bare target => exact hinit
  | init target he => rfl

theorem Stmt.RewrittenTo.initialized {c : Config} {s s' : Stmt} (h : s.RewrittenTo c s') (hs : s.Initialized) :
    s'.Initialized := by
  cases h with
  | decl kind place hds => exact forall_mem_of_forall₂ (fun _ _ hd => hd.isSome_init) hds hs
  | ret | expr | verbatim => trivial

namespace Function

variable {f : Function} {c : Config}

theorem compiled_stmts (h : f.Compiles c) : ∃ decls, (f.compiled c).stmts = decls ++ (f.wrapStmts c).value ∧
    ∀ decl ∈ decls, ∃ name value deps place,
      decl = .decl .const [.mk (.ident name) (some (memoCall c value deps))] place := by
  obtain ⟨_, items, _, _, hcompiled⟩ := compile_stages (compile_of_compiles h {})
  rw [hcompiled]
  refine ⟨_, rfl, fun decl hdecl => ?_⟩
  obtain ⟨k, hk⟩ := List.mem_iff_getElem?.mp hdecl
  obtain ⟨block, _, target, rfl⟩ := FunctionAnalysis.memoDecls_getElem? hk
  exact ⟨_, _, _, _, rfl⟩

theorem initialized_wrapStmts (h : ∀ stmt ∈ f.body, stmt.Initialized) : ∀ stmt ∈ (f.wrapStmts c).value, stmt.Initialized :=
  forall_mem_of_forall₂ (fun _ _ hs => hs.initialized) (f.wrapStmts_spec c).1 h

theorem compiles_rewritten (h : f.Compiles c) : (f.rewritten c).Compiles c := by
  obtain ⟨hparams, hbody⟩ := compiles_iff.mp h
  obtain ⟨decls, hstmts, hdecls⟩ := compiled_stmts h
  refine compiles_iff.mpr ⟨hparams, ?_⟩
  rw [rewritten, hstmts]
  refine List.forall_mem_append.mpr ⟨fun decl hdecl => ?_, initialized_wrapStmts hbody⟩
  obtain ⟨_, _, _, _, rfl⟩ := hdecls decl hdecl
  exact List.forall_mem_singleton.mpr rfl

theorem settled_compiled (hon : c.passes.wrapping = true) (h : f.Compiles c) :
    ∀ e ∈ (f.compiled c).stmts.flatMap Stmt.inits, e.Settled c := by
  obtain ⟨decls, hstmts, hdecls⟩ := compiled_stmts h
  rw [hstmts, List.flatMap_append, wrapStmts, if_pos hon]
  refine List.forall_mem_append.mpr ⟨fun e he => ?_, settled_inits_wrapInitializers c f.body⟩
  obtain ⟨decl, hdecl, hin⟩ := List.mem_flatMap.mp he
  obtain ⟨_, value, deps, _, rfl⟩ := hdecls decl hdecl
  obtain rfl := List.mem_singleton.mp hin
  exact Expr.settled_memoCall c value deps

theorem wrapped_rewritten (hon : c.passes.wrapping = true) (h : f.Compiles c) :
    ((f.rewritten c).compiled c).wrapped = 0 := by
  obtain ⟨_, items, _, _, hcompiled⟩ := compile_stages (compile_of_compiles (compiles_rewritten h) {})
  rw [hcompiled, wrapStmts, if_pos hon]
  exact (wrapInitializers_of_settled c (settled_compiled hon h)).2

end Function

/-- What compiling a module gives can be compiled again, and then no initializer is wrapped; wrapping by itself changes
nothing that it has been through. -/
theorem Module.recompile_wraps_nothing (m : Module) (c : Config) :
    (c.passes.wrapping = true → ∀ log log' stats, (m.compile c log).outcome = .ok stats →
      ∃ stats', ((m.compile c log).result.compile c log').outcome = .ok stats' ∧ stats'.wrapped = 0) ∧
    ∀ stmts, let once := (wrapInitializers c stmts).value
      (wrapInitializers c once).value = once ∧ (wrapInitializers c once).count = 0 := by
  refine ⟨fun hon log log' stats h => ?_, fun stmts => ?_⟩
  · have hall := compiles_of_compile_ok h
    have hfunctions := functions_compile hall log
    have hagain : ∀ f ∈ (m.compile c log).result.functions, f.Compiles c := by
      rw [hfunctions]
      exact List.forall_mem_map.mpr fun f hf => Function.compiles_rewritten (hall f hf)
    have hnone : (Stats.ofFunctions (m.compile c log).result.functions c).wrapped = 0 := by
      simp only [Stats.ofFunctions, hfunctions, List.sum_eq_zero_iff_forall_eq_nat, List.forall_mem_map]
      exact fun f hf => Function.wrapped_rewritten hon (hall f hf)
    rw [compile_of_compiles hagain log']
    split
    · exact ⟨_, rfl, hnone⟩
    · exact ⟨_, rfl, hnone⟩
  · exact wrapInitializers_of_settled c (settled_inits_wrapInitializers c stmts)

theorem recompile_mappedAndLogged : ∃ stats stats',
    (Module.compile ⟨[.function mappedAndLogged]⟩ {} {}).outcome = .ok stats ∧ stats.wrapped = 1 ∧ stats.memoBlocks = 1 ∧
    ((Module.compile ⟨[.function mappedAndLogged]⟩ {} {}).result.compile {} {}).outcome = .ok stats' ∧
      stats'.wrapped = 0 := by
  have hfirst : (Module.compile ⟨[.function mappedAndLogged]⟩ {} {}).outcome =
      .ok { functions := 1, memoBlocks := 1, wrapped := 1, importChanged := true } := by cbv
  obtain ⟨stats', hsecond, hnone⟩ := (Module.recompile_wraps_nothing _ {}).1 rfl {} {} _ hfirst
  exact ⟨_, stats', hfirst, rfl, rfl, hsecond, hnone⟩

end Memoizer
